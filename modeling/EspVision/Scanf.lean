import Mathlib.Data.List.Basic
import Mathlib.Tactic

/-!
# Numerals, and the directives of `sscanf` that read them

A directive takes the rest of the input and gives what is left behind it. A numeral that was
printed in a base is read back by the directive of that base.
-/
namespace EspVision.Scanf

/-! ## Directives -/

/-- `isspace`. -/
def isSpace (b : UInt8) : Bool := b == 0x20 || (0x09 ≤ b && b ≤ 0x0d)

/-- A white-space directive: any amount, also none. -/
def space (s : List UInt8) : List UInt8 := s.dropWhile isSpace

/-- Ordinary characters. -/
def text (t s : List UInt8) : Option (List UInt8) :=
  if t.isPrefixOf s then some (s.drop t.length) else none

def rawDigit (b : UInt8) : Option ℕ :=
  if 0x30 ≤ b ∧ b ≤ 0x39 then some (b.toNat - 0x30)
  else if 0x61 ≤ b ∧ b ≤ 0x66 then some (b.toNat - 0x61 + 10)
  else if 0x41 ≤ b ∧ b ≤ 0x46 then some (b.toNat - 0x41 + 10)
  else none

/-- The value of a digit of `base`. -/
def digitValue (base : ℕ) (b : UInt8) : Option ℕ := (rawDigit b).filter (· < base)

def startsWithDigit (base : ℕ) : List UInt8 → Bool
  | [] => false
  | b :: _ => (digitValue base b).isSome

/-- The longest run of digits, read onto `v`. -/
def digits (base : ℕ) : ℕ → List UInt8 → ℕ × List UInt8
  | v, [] => (v, [])
  | v, b :: s =>
    match digitValue base b with
    | some d => digits base (v * base + d) s
    | none => (v, b :: s)

/-- An optional sign. -/
def sign : List UInt8 → Bool × List UInt8
  | [] => (false, [])
  | b :: s => if b = 0x2b then (false, s) else if b = 0x2d then (true, s) else (false, b :: s)

/-- An optional `0x` in front of a hexadecimal digit. -/
def hexPrefix : List UInt8 → List UInt8
  | a :: b :: s =>
    if a = 0x30 ∧ (b = 0x78 ∨ b = 0x58) ∧ startsWithDigit 16 s then s else a :: b :: s
  | s => s

/-- The result of `strtoul`: it saturates, and a minus sign negates it. -/
def toUnsigned (negative : Bool) (v : ℕ) : UInt32 :=
  if 2 ^ 32 ≤ v then 0xffffffff else if negative then 0 - UInt32.ofNat v else UInt32.ofNat v

/-- The subject sequence of `strtoul`. -/
def unsigned (base : ℕ) (s : List UInt8) : Option (UInt32 × List UInt8) :=
  let (negative, s) := sign s
  let s := if base = 16 then hexPrefix s else s
  if startsWithDigit base s then
    some (toUnsigned negative (digits base 0 s).1, (digits base 0 s).2)
  else none

/-- `%u`. -/
def decimal (s : List UInt8) : Option (UInt32 × List UInt8) := unsigned 10 (space s)

/-- `%x` with a field width. -/
def hex (width : ℕ) (s : List UInt8) : Option (UInt32 × List UInt8) :=
  (unsigned 16 ((space s).take width)).map fun r => (r.1, r.2 ++ (space s).drop width)

/-! ## Numerals -/

def digitByte (d : ℕ) : UInt8 := UInt8.ofNat (Nat.digitChar d).toNat

/-- `n` printed in `base`. -/
def numeral (base n : ℕ) : List UInt8 := (Nat.toDigits base n).map fun c => UInt8.ofNat c.toNat

/-- `padStart` with zeros. -/
def padStart (width : ℕ) (t : List UInt8) : List UInt8 := List.replicate (width - t.length) 0x30 ++ t

lemma rawDigit_digitByte {d : ℕ} (h : d < 16) : rawDigit (digitByte d) = some d := by
  have hall : ∀ d : Fin 16, rawDigit (digitByte d) = some d.val := by decide
  exact hall ⟨d, h⟩

lemma digitValue_digitByte {base d : ℕ} (hb : base ≤ 16) (h : d < base) :
    digitValue base (digitByte d) = some d := by
  rw [digitValue, rawDigit_digitByte (by omega)]
  simp [h]

lemma numeral_of_lt {base n : ℕ} (h : n < base) : numeral base n = [digitByte n] := by
  rw [numeral, Nat.toDigits_of_lt_base h]
  rfl

lemma numeral_of_le {base n : ℕ} (hb : 1 < base) (h : base ≤ n) :
    numeral base n = numeral base (n / base) ++ [digitByte (n % base)] := by
  rw [numeral, Nat.toDigits_of_base_le hb h, List.map_append]
  rfl

lemma numeral_ne_nil (base n : ℕ) : numeral base n ≠ [] := by
  simp [numeral, Nat.toDigits_ne_nil]

lemma numeral_length (base : ℕ) {n k : ℕ} (hb : 1 < base) (hk : 0 < k) (h : n < base ^ k) :
    (numeral base n).length ≤ k := by
  rw [numeral, List.length_map]
  exact (Nat.length_toDigits_le_iff hb hk).mpr h

/-- The digits of a numeral, and the value they are read to. -/
structure Reads (base : ℕ) (t : List UInt8) (n : ℕ) : Prop where
  digit : ∀ b ∈ t, (digitValue base b).isSome = true
  value : t.foldl (fun v b => v * base + (digitValue base b).getD 0) 0 = n

theorem numeral_reads (base : ℕ) (h1 : 1 < base) (h16 : base ≤ 16) (n : ℕ) :
    Reads base (numeral base n) n := by
  induction n using Nat.strong_induction_on with
  | _ n ih =>
    by_cases h : n < base
    · rw [numeral_of_lt h]
      have hd := digitValue_digitByte h16 h
      exact ⟨by simp [hd], by simp [hd]⟩
    · have hle : base ≤ n := by omega
      have hrec := ih (n / base) (Nat.div_lt_self (by omega) h1)
      have hd := digitValue_digitByte h16 (Nat.mod_lt n (by omega : base > 0))
      rw [numeral_of_le h1 hle]
      refine ⟨?_, ?_⟩
      · intro b hb
        rcases List.mem_append.mp hb with hb | hb
        · exact hrec.digit b hb
        · obtain rfl : b = digitByte (n % base) := by simpa using hb
          simp [hd]
      · rw [List.foldl_append, hrec.value]
        simpa [hd] using Nat.div_add_mod' n base

/-- Zeros in front change nothing. -/
theorem padStart_reads {base n : ℕ} {t : List UInt8} (h1 : 1 < base) (h : Reads base t n)
    (width : ℕ) : Reads base (padStart width t) n := by
  have hz : digitValue base 0x30 = some 0 := by
    rw [digitValue, show rawDigit 0x30 = some 0 by decide]
    simp only [Option.filter_eq_some_iff, decide_eq_true_eq, true_and]
    omega
  refine ⟨?_, ?_⟩
  · intro b hb
    rcases List.mem_append.mp hb with hb | hb
    · rw [(List.mem_replicate.mp hb).2, hz]
      rfl
    · exact h.digit b hb
  · have hzeros : ∀ k, (List.replicate k (0x30 : UInt8)).foldl
        (fun v b => v * base + (digitValue base b).getD 0) 0 = 0 := by
      intro k
      induction k with
      | zero => rfl
      | succ k ih => simpa [List.replicate_succ, hz] using ih
    rw [padStart, List.foldl_append, hzeros, h.value]

lemma padStart_length {width : ℕ} {t : List UInt8} (h : t.length ≤ width) :
    (padStart width t).length = width := by
  rw [padStart, List.length_append, List.length_replicate]
  omega

lemma digits_append {base : ℕ} {t s : List UInt8} (ht : ∀ b ∈ t, (digitValue base b).isSome = true)
    (hs : startsWithDigit base s = false) (v : ℕ) :
    digits base v (t ++ s) =
      (t.foldl (fun v b => v * base + (digitValue base b).getD 0) v, s) := by
  induction t generalizing v with
  | nil =>
    cases s with
    | nil => rfl
    | cons b s =>
      have hb : digitValue base b = none := by simpa [startsWithDigit] using hs
      simp [digits, hb]
  | cons b t ih =>
    obtain ⟨d, hd⟩ := Option.isSome_iff_exists.mp (ht b (by simp))
    have hrec := ih (fun x hx => ht x (by simp [hx])) (v * base + d)
    simp only [List.cons_append, digits, hd, hrec, List.foldl_cons, Option.getD_some]

/-- No digit is a sign, white space or an `x`. -/
lemma digit_plain {base : ℕ} {b : UInt8} (h : (digitValue base b).isSome = true) :
    isSpace b = false ∧ b ≠ 0x2b ∧ b ≠ 0x2d ∧ b ≠ 0x78 ∧ b ≠ 0x58 := by
  have hraw : (rawDigit b).isSome = true := by
    unfold digitValue at h
    cases hr : rawDigit b with
    | none => simp [hr] at h
    | some d => rfl
  clear h
  unfold rawDigit at hraw
  unfold isSpace
  split_ifs at hraw <;> grind

lemma sign_digit {base : ℕ} {b : UInt8} {s : List UInt8} (h : (digitValue base b).isSome = true) :
    sign (b :: s) = (false, b :: s) := by
  obtain ⟨-, h1, h2, -⟩ := digit_plain h
  rw [sign, if_neg h1, if_neg h2]

/-- A numeral in front of what is not a digit is read back. -/
theorem unsigned_reads {base n : ℕ} {t s : List UInt8} (h : Reads base t n) (hne : t ≠ [])
    (hs : startsWithDigit base s = false) (hx : ∀ c ∈ s.head?, c ≠ 0x78 ∧ c ≠ 0x58)
    (hn : n < 2 ^ 32) :
    unsigned base (t ++ s) = some (UInt32.ofNat n, s) := by
  obtain ⟨b, t', rfl⟩ := List.exists_cons_of_ne_nil hne
  have hb := h.digit b (by simp)
  have hplain : hexPrefix (b :: t' ++ s) = b :: t' ++ s := by
    cases t' with
    | nil =>
      cases s with
      | nil => rfl
      | cons c s =>
        obtain ⟨h1, h2⟩ := hx c rfl
        simp [hexPrefix, h1, h2]
    | cons c t' =>
      obtain ⟨-, -, -, h1, h2⟩ := digit_plain (h.digit c (by simp))
      simp [hexPrefix, h1, h2]
  have hdig := digits_append h.digit hs 0
  rw [h.value] at hdig
  have hstart : startsWithDigit base (b :: t' ++ s) = true := hb
  have hsign : sign (b :: t' ++ s) = (false, b :: t' ++ s) := sign_digit hb
  have hbase : (if base = 16 then hexPrefix (b :: t' ++ s) else b :: t' ++ s) = b :: t' ++ s := by
    rw [hplain, ite_self]
  simp only [unsigned, hsign, hbase, hstart, if_true, hdig, toUnsigned, Nat.not_le.mpr hn, if_false,
    Bool.false_eq_true]

lemma space_digit {base : ℕ} {t s : List UInt8} (hne : t ≠ [])
    (h : ∀ b ∈ t, (digitValue base b).isSome = true) : space (t ++ s) = t ++ s := by
  obtain ⟨b, t', rfl⟩ := List.exists_cons_of_ne_nil hne
  simp [space, (digit_plain (h b (by simp))).1]

theorem decimal_numeral {n : ℕ} {s : List UInt8} (hs : startsWithDigit 10 s = false)
    (hx : ∀ c ∈ s.head?, c ≠ 0x78 ∧ c ≠ 0x58) (hn : n < 2 ^ 32) :
    decimal (numeral 10 n ++ s) = some (UInt32.ofNat n, s) := by
  have hr := numeral_reads 10 (by omega) (by omega) n
  rw [decimal, space_digit (numeral_ne_nil 10 n) hr.digit]
  exact unsigned_reads hr (numeral_ne_nil 10 n) hs hx hn

theorem hex_padStart (width : ℕ) {n : ℕ} {s : List UInt8} (hw : 0 < width) (hfit : n < 16 ^ width)
    (hn : n < 2 ^ 32) : hex width (padStart width (numeral 16 n) ++ s) = some (UInt32.ofNat n, s) := by
  have hr := padStart_reads (by omega) (numeral_reads 16 (by omega) (by omega) n) width
  have hlen := padStart_length (numeral_length 16 (by omega) hw hfit)
  have hne : padStart width (numeral 16 n) ≠ [] := by
    intro h
    rw [h] at hlen
    simp only [List.length_nil] at hlen
    omega
  have htake : (padStart width (numeral 16 n) ++ s).take width = padStart width (numeral 16 n) ++ [] := by
    rw [List.append_nil]
    exact List.take_left' hlen
  rw [hex, space_digit hne hr.digit, htake, List.drop_left' hlen,
    unsigned_reads hr hne rfl (by simp) hn]
  rfl

end EspVision.Scanf
