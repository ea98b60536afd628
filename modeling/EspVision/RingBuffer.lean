import Mathlib.Data.List.Basic
import Mathlib.Tactic

/-!
# Circular buffers

`c` cells, a head and a tail index. The buffer is empty when the two indices
agree, so at most `c - 1` cells are in use. `contents` lists the cells in use,
oldest first; removing at the head and storing at the tail are removing from the
front and appending at the back of that list.
-/
namespace EspVision.RingBuffer

variable {β : Type*} {c head tail : ℕ}

/-- The index behind `i`. -/
def next (c i : ℕ) : ℕ := (i + 1) % c

/-- The number of cells from `head` up to `tail`. -/
def used (c head tail : ℕ) : ℕ := (tail + c - head) % c

/-- The `n` cells from `head` on. -/
def window (c : ℕ) (cells : ℕ → β) (head n : ℕ) : List β :=
  (List.range n).map fun i => cells ((head + i) % c)

/-- The cells in use, oldest first. -/
def contents (c : ℕ) (cells : ℕ → β) (head tail : ℕ) : List β :=
  window c cells head (used c head tail)

theorem next_lt (hc : 0 < c) (i : ℕ) : next c i < c := Nat.mod_lt _ hc

lemma next_eq (h : head < c) : next c head = if head + 1 = c then 0 else head + 1 := by
  unfold next
  split_ifs with he
  · simp [he]
  · exact Nat.mod_eq_of_lt (by omega)

lemma used_eq (hh : head < c) (ht : tail < c) :
    used c head tail = if head ≤ tail then tail - head else tail + c - head := by
  unfold used
  split_ifs with hle
  · have hsplit : tail + c - head = tail - head + c := by omega
    rw [hsplit, Nat.add_mod_right]
    exact Nat.mod_eq_of_lt (by omega)
  · exact Nat.mod_eq_of_lt (by omega)

theorem used_lt (hh : head < c) (ht : tail < c) : used c head tail < c := by
  rw [used_eq hh ht]
  split_ifs <;> omega

@[simp] theorem length_contents (cells : ℕ → β) :
    (contents c cells head tail).length = used c head tail := by
  simp [contents, window]

@[simp] theorem contents_self (hc : 0 < c) (cells : ℕ → β) : contents c cells head head = [] := by
  have hu : used c head head = 0 := by
    have hsub : head + c - head = c := by omega
    simp [used, hsub]
  simp [contents, window, hu]

lemma used_next_head (hh : head < c) (ht : tail < c) (hne : head ≠ tail) :
    used c head tail = used c (next c head) tail + 1 := by
  rw [used_eq hh ht, used_eq (next_lt (by omega) head) ht, next_eq hh]
  split_ifs <;> omega

lemma used_next_tail (hh : head < c) (ht : tail < c) (hfree : next c tail ≠ head) :
    used c head (next c tail) = used c head tail + 1 := by
  rw [used_eq hh ht, used_eq hh (next_lt (by omega) tail)]
  rw [next_eq ht] at hfree ⊢
  split_ifs at hfree ⊢ <;> omega

/-- Removing at the head takes the oldest cell. -/
theorem contents_pop (hh : head < c) (ht : tail < c) (hne : head ≠ tail) (cells : ℕ → β) :
    contents c cells head tail = cells head :: contents c cells (next c head) tail := by
  unfold contents window
  rw [used_next_head hh ht hne, List.range_succ_eq_map, List.map_cons, List.map_map]
  have hhead : (head + 0) % c = head := Nat.mod_eq_of_lt (by omega)
  rw [hhead]
  congr 1
  refine List.map_congr_left fun i _ => ?_
  have hmod : (head + (i + 1)) % c = (next c head + i) % c := by
    rw [next, Nat.mod_add_mod]
    congr 1
    omega
  simp only [Function.comp_apply, Nat.succ_eq_add_one, hmod]

/-- Storing at the tail appends, when one cell stays free. -/
theorem contents_push (hh : head < c) (ht : tail < c) (hfree : next c tail ≠ head)
    (cells : ℕ → β) (x : β) :
    contents c (Function.update cells tail x) head (next c tail) =
      contents c cells head tail ++ [x] := by
  have hu := used_eq hh ht
  have hlast : (head + used c head tail) % c = tail := by
    rw [hu]
    split_ifs with hle
    · rw [Nat.add_sub_cancel' hle]
      exact Nat.mod_eq_of_lt ht
    · have hsum : head + (tail + c - head) = tail + c := by omega
      rw [hsum, Nat.add_mod_right]
      exact Nat.mod_eq_of_lt ht
  unfold contents window
  rw [used_next_tail hh ht hfree, List.range_succ, List.map_append, List.map_singleton, hlast,
    Function.update_self]
  congr 1
  refine List.map_congr_left fun i hi => ?_
  have hi' : i < used c head tail := List.mem_range.mp hi
  refine Function.update_of_ne ?_ _ _
  have hne : (head + i) % c = if head + i < c then head + i else head + i - c := by
    have hlt := used_lt hh ht
    split_ifs with hs
    · exact Nat.mod_eq_of_lt hs
    · rw [Nat.mod_eq_sub_mod (by omega)]
      exact Nat.mod_eq_of_lt (by omega)
  rw [hne]
  rw [hu] at hi'
  split_ifs at hi' ⊢ <;> omega

/-- Used and free positions together; one cell always stays free. -/
theorem used_add_free (hh : head < c) (ht : tail < c) :
    used c head tail + (head + c - tail - 1) % c = c - 1 := by
  rw [used_eq hh ht]
  rcases Nat.lt_or_ge tail head with hlt | hge
  · have hs : head + c - tail - 1 = head - tail - 1 + c := by omega
    rw [hs, Nat.add_mod_right, Nat.mod_eq_of_lt (by omega), if_neg (by omega)]
    omega
  · rw [if_pos hge, Nat.mod_eq_of_lt (by omega)]
    omega

/-! ## Windows -/

@[simp] theorem length_window (cells : ℕ → β) (n : ℕ) : (window c cells head n).length = n := by
  simp [window]

/-- Adding `n` cells and finding them again. -/
theorem used_add (hh : head < c) {n : ℕ} (hn : n < c) : used c head ((head + n) % c) = n := by
  have hlt : (head + n) % c < c := Nat.mod_lt _ (by omega)
  have hsum : (head + n) % c = if head + n < c then head + n else head + n - c := by
    split_ifs with hs
    · exact Nat.mod_eq_of_lt hs
    · rw [Nat.mod_eq_sub_mod (by omega)]
      exact Nat.mod_eq_of_lt (by omega)
  rw [used_eq hh hlt, hsum]
  split_ifs <;> omega

/-- The tail is where the cells in use end. -/
theorem head_add_used (hh : head < c) (ht : tail < c) :
    (head + used c head tail) % c = tail := by
  rw [used_eq hh ht]
  split_ifs with hle
  · rw [Nat.add_sub_cancel' hle]
    exact Nat.mod_eq_of_lt ht
  · have hsum : head + (tail + c - head) = tail + c := by omega
    rw [hsum, Nat.add_mod_right]
    exact Nat.mod_eq_of_lt ht

theorem next_mod (i : ℕ) : next c (i % c) = (i + 1) % c := Nat.mod_add_mod i c 1

lemma mod_ne_of_lt {i j : ℕ} (hij : i < j) (hj : j < i + c) : j % c ≠ i % c := by
  intro he
  obtain ⟨d, rfl⟩ := Nat.exists_eq_add_of_lt hij
  have hzero : (d + 1) % c = 0 := by
    have hmod : i + (d + 1) ≡ i + 0 [MOD c] := by rw [← Nat.add_assoc]; exact he
    exact Nat.ModEq.add_left_cancel' i hmod
  rw [Nat.mod_eq_of_lt (by omega)] at hzero
  omega

theorem window_cons (cells : ℕ → β) (h n : ℕ) :
    window c cells h (n + 1) = cells (h % c) :: window c cells (h + 1) n := by
  unfold window
  rw [List.range_succ_eq_map, List.map_cons, List.map_map]
  refine congrArg (List.cons _) (List.map_congr_left fun i _ => ?_)
  have hsum : h + (i + 1) = h + 1 + i := by omega
  simp only [Function.comp_apply, Nat.succ_eq_add_one, hsum]

/-- Storing behind a window makes it longer. -/
theorem window_update_snoc (cells : ℕ → β) (x : β) {h n : ℕ} (hn : n < c) :
    window c (Function.update cells ((h + n) % c) x) h (n + 1) = window c cells h n ++ [x] := by
  unfold window
  rw [List.range_succ, List.map_append, List.map_singleton, Function.update_self]
  congr 1
  refine List.map_congr_left fun i hi => Function.update_of_ne ?_ _ _
  have hi' : i < n := List.mem_range.mp hi
  exact (mod_ne_of_lt (by omega) (by omega)).symm

/-- Storing outside a window leaves it. -/
theorem window_update_before (cells : ℕ → β) (x : β) {h i n : ℕ} (hi : i < h)
    (hn : h + n ≤ i + c) :
    window c (Function.update cells (i % c) x) h n = window c cells h n := by
  refine List.map_congr_left fun j hj => Function.update_of_ne ?_ _ _
  have hj' : j < n := List.mem_range.mp hj
  exact mod_ne_of_lt (by omega) (by omega)

end EspVision.RingBuffer
