import Mathlib.Data.List.Basic
import Mathlib.Data.Nat.Bitwise
import Mathlib.Tactic

/-!
# Bits in groups

Numbers of a fixed width are written as bits, the most significant first, and a text of bits is
read back in groups of another width. What is left behind the last whole group is dropped.
-/
namespace EspVision.BitGroups

/-- The low `w` bits of a number. -/
def bits (w v : ℕ) : List Bool := (List.range w).reverse.map v.testBit

/-- The number that the bits write. -/
def value (bs : List Bool) : ℕ := bs.foldl (fun v b => 2 * v + b.toNat) 0

/-- The numbers of the whole groups of `w` bits. -/
def groups (w : ℕ) (bs : List Bool) : List ℕ :=
  (List.range (bs.length / w)).map fun i => value ((bs.drop (w * i)).take w)

variable {w m n k a b v : ℕ} {bs : List Bool}

/-! ## Bits of a number -/

@[simp] theorem bits_length (w v : ℕ) : (bits w v).length = w := by simp [bits]

theorem bits_congr (h : ∀ i < w, a.testBit i = b.testBit i) : bits w a = bits w b :=
  List.map_congr_left fun i hi => h i (by simpa using hi)

/-- Bits beyond the width do not count. -/
theorem bits_mod (h : w ≤ k) : bits w (v % 2 ^ k) = bits w v := by
  refine bits_congr fun i hi => ?_
  rw [Nat.testBit_mod_two_pow, decide_eq_true (by omega), Bool.true_and]

theorem bits_add (m n v : ℕ) : bits (m + n) v = bits m (v >>> n) ++ bits n v := by
  have hhigh : ((List.range m).map (n + ·)).reverse.map v.testBit = bits m (v >>> n) := by
    rw [bits, ← List.map_reverse, List.map_map]
    refine List.map_congr_left fun i _ => ?_
    rw [Function.comp_apply, Nat.testBit_shiftRight]
  rw [bits, Nat.add_comm, List.range_add, List.reverse_append, List.map_append, hhigh]
  rfl

/-- A number pushed in from the right. -/
theorem bits_push (h : b < 2 ^ n) : bits (m + n) (a <<< n ||| b) = bits m a ++ bits n b := by
  have hhigh : (a <<< n ||| b) >>> n = a := by
    rw [Nat.shiftRight_or_distrib, Nat.shiftLeft_shiftRight, Nat.shiftRight_eq_div_pow b,
      Nat.div_eq_of_lt h, Nat.or_zero]
  have hlow : bits n (a <<< n ||| b) = bits n b := by
    refine bits_congr fun i hi => ?_
    rw [Nat.testBit_or, Nat.testBit_shiftLeft, decide_eq_false (by omega), Bool.false_and,
      Bool.false_or]
  rw [bits_add, hhigh, hlow]

theorem take_bits_append (w k v : ℕ) (bs : List Bool) :
    (bits w v ++ bs).take (w + k) = bits w v ++ bs.take k := by
  rw [List.take_append, bits_length, Nat.add_sub_cancel_left,
    List.take_of_length_le (by rw [bits_length]; omega)]

/-! ## The number of some bits -/

theorem value_snoc (bs : List Bool) (b : Bool) : value (bs ++ [b]) = 2 * value bs + b.toNat := by
  simp [value, List.foldl_append]

theorem value_bits (w v : ℕ) : value (bits w v) = v % 2 ^ w := by
  induction w generalizing v with
  | zero => simp [value, bits, Nat.mod_one]
  | succ w ih =>
    have hlast : bits 1 v = [v.testBit 0] := rfl
    rw [bits_add, hlast, value_snoc, ih, Nat.shiftRight_one, Nat.toNat_testBit, pow_zero,
      Nat.div_one, pow_succ', Nat.mod_mul, Nat.add_comm]

/-! ## Groups -/

theorem groups_length (w : ℕ) (bs : List Bool) : (groups w bs).length = bs.length / w := by
  simp [groups]

theorem groups_short (h : bs.length < w) : groups w bs = [] := by
  rw [← List.length_eq_zero_iff, groups_length, Nat.div_eq_of_lt h]

theorem groups_cons (hw : 0 < w) (v : ℕ) (bs : List Bool) :
    groups w (bits w v ++ bs) = v % 2 ^ w :: groups w bs := by
  have hlength : (bits w v ++ bs).length / w = bs.length / w + 1 := by
    rw [List.length_append, bits_length, Nat.add_comm, Nat.add_div_right _ hw]
  have hhead : value (((bits w v ++ bs).drop (w * 0)).take w) = v % 2 ^ w := by
    rw [Nat.mul_zero, List.drop_zero, List.take_left' (bits_length w v), value_bits]
  have htail : ∀ i, (bits w v ++ bs).drop (w * (i + 1)) = bs.drop (w * i) := by
    intro i
    rw [Nat.mul_succ, Nat.add_comm, ← List.drop_drop, List.drop_left' (bits_length w v)]
  rw [groups, hlength, List.range_succ_eq_map, List.map_cons, hhead, List.map_map]
  congr 1
  refine List.map_congr_left fun i _ => ?_
  rw [Function.comp_apply, htail]

/-- The numbers come back, whatever stands behind them and is no whole group. -/
theorem groups_flatMap {vs : List ℕ} (hvs : ∀ v ∈ vs, v < 2 ^ w) (h : bs.length < w) :
    groups w (vs.flatMap (bits w) ++ bs) = vs := by
  induction vs with
  | nil => exact groups_short h
  | cons v vs ih =>
    rw [List.flatMap_cons, List.append_assoc, groups_cons (by omega),
      Nat.mod_eq_of_lt (hvs v List.mem_cons_self),
      ih fun u hu => hvs u (List.mem_cons_of_mem v hu)]

end EspVision.BitGroups
