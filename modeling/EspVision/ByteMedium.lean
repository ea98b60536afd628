import Mathlib.Data.List.Basic
import Mathlib.Tactic

/-!
# A medium of bytes that is written in blocks

A medium gives the cell at every address. A write replaces a range; what a block-wise update of a
range does is compared with the one write that it stands for.
-/
namespace EspVision.ByteMedium

variable {β : Type*}

/-- The cells of the range. -/
def window (m : ℕ → β) (a n : ℕ) : List β := (List.range n).map fun k => m (a + k)

/-- The data at the address, and everything else as before. -/
def put (a : ℕ) (data : List β) (m : ℕ → β) : ℕ → β :=
  fun i => if a ≤ i then (data[i - a]?).getD (m i) else m i

/-- Another medium in the range, and everything else as before. -/
def splice (a n : ℕ) (inner m : ℕ → β) : ℕ → β := fun i =>
  if a ≤ i ∧ i < a + n then inner i else m i

variable {m : ℕ → β} {a b n k : ℕ} {data xs ys : List β}

@[simp] theorem window_length : (window m a n).length = n := by simp [window]

theorem window_getElem? {i : ℕ} (h : i < n) : (window m a n)[i]? = some (m (a + i)) := by
  simp [window, h]

theorem window_add : window m a (n + k) = window m a n ++ window m (a + n) k := by
  simp only [window, List.range_add, List.map_append, List.map_map]
  congr 1
  exact List.map_congr_left fun i _ => by simp [Nat.add_assoc]

/-- A part of a window. -/
theorem window_part (h : b + k ≤ n) : ((window m a n).drop b).take k = window m (a + b) k := by
  obtain ⟨rest, rfl⟩ := Nat.exists_eq_add_of_le h
  have hb : (window m a (b + k + rest)).drop b = window m (a + b) (k + rest) := by
    rw [Nat.add_assoc, window_add]
    exact List.drop_left' window_length
  rw [hb, window_add]
  exact List.take_left' window_length

@[simp] theorem put_nil : put a [] m = m := by
  funext i
  simp [put]

theorem put_outside {i : ℕ} (h : i < a ∨ a + data.length ≤ i) : put a data m i = m i := by
  unfold put
  split_ifs with hi
  · rw [List.getElem?_eq_none (by omega)]
    rfl
  · rfl

theorem put_inside {i : ℕ} (h : a ≤ i) (hi : i - a < data.length) :
    put a data m i = data[i - a] := by
  rw [put, if_pos h, List.getElem?_eq_getElem hi]
  rfl

/-- A write in two parts. -/
theorem put_append : put a (xs ++ ys) m = put (a + xs.length) ys (put a xs m) := by
  funext i
  by_cases hlow : i < a
  · rw [put_outside (.inl hlow), put_outside (.inl (by omega)), put_outside (.inl hlow)]
  by_cases hmid : i < a + xs.length
  · rw [put_outside (a := a + xs.length) (.inl hmid),
      put_inside (by omega) (by rw [List.length_append]; omega), put_inside (by omega) (by omega),
      List.getElem_append_left]
  · unfold put
    rw [if_pos (by omega), if_pos (by omega), if_pos (by omega),
      List.getElem?_append_right (by omega),
      List.getElem?_eq_none (show xs.length ≤ i - a by omega),
      show i - a - xs.length = i - (a + xs.length) by omega]
    rfl

/-- A block read, changed in a part and written back is a write of the part. -/
theorem put_window_changed (h : b + data.length ≤ n) :
    put a ((window m a n).take b ++ (data ++ (window m a n).drop (b + data.length))) m =
      put (a + b) data m := by
  have hfirst : (window m a n).take b = window m a b := by
    simpa using window_part (m := m) (a := a) (b := 0) (k := b) (n := n) (by omega)
  have hlast : (window m a n).drop (b + data.length) =
      window m (a + (b + data.length)) (n - (b + data.length)) := by
    rw [← window_part (m := m) (a := a) (b := b + data.length) (k := n - (b + data.length)) (n := n)
      (by omega), List.take_of_length_le (by simp)]
  have hself : ∀ c l, put c (window m c l) m = m := by
    intro c l
    funext i
    by_cases hi : i < c ∨ c + l ≤ i
    · exact put_outside (by rwa [window_length])
    · rw [put, if_pos (by omega), window_getElem? (by omega), show c + (i - c) = i by omega]
      rfl
  rw [hfirst, hlast, put_append, put_append, hself, window_length]
  funext i
  by_cases hi : i < a + b + data.length
  · exact put_outside (.inl hi)
  · by_cases hend : i < a + n
    · rw [put, if_pos (by omega), window_getElem? (by omega), put_outside (.inr (by omega)),
        show a + (b + data.length) + (i - (a + b + data.length)) = i by omega]
      rfl
    · exact put_outside (.inr (by rw [window_length]; omega))

theorem splice_outside {inner : ℕ → β} {i : ℕ} (h : i < a ∨ a + n ≤ i) :
    splice a n inner m i = m i := if_neg (by omega)

/-- A write into a range whose content does not matter. -/
theorem put_splice {inner : ℕ → β} (h : data.length = n) : put a data (splice a n inner m) =
    put a data m := by
  funext i
  by_cases hi : i < a ∨ a + n ≤ i
  · rw [put_outside (by omega), put_outside (by omega), splice_outside hi]
  · rw [put_inside (by omega) (by omega), put_inside (by omega) (by omega)]

end EspVision.ByteMedium
