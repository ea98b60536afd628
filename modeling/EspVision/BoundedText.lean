import Mathlib.Data.List.Basic
import Mathlib.Tactic

/-!
# Text in a bounded buffer

A character array that is filled from the front by `snprintf` and by single stores, with the number
of characters so far; this number is the capacity once a text did not fit. Every call is compared
with the text that it leaves, `none` standing for a text that did not fit.
-/
namespace EspVision.BoundedText

/-- The array, and the number of characters so far. -/
structure Buffer where
  cells : List UInt8
  length : ℕ
  deriving DecidableEq

/-- Bytes stored from an index on; a store beyond the end would lengthen the array. -/
def overlay (cells : List UInt8) (i : ℕ) (bytes : List UInt8) : List UInt8 :=
  cells.take i ++ (bytes ++ cells.drop (i + bytes.length))

/-- One character stored at the end, without a terminator. -/
def put (c : UInt8) (b : Buffer) : Buffer := ⟨overlay b.cells b.length [c], b.length + 1⟩

/-- `snprintf` behind the characters so far. -/
def append (capacity : ℕ) (text : List UInt8) (b : Buffer) : Buffer :=
  if capacity = 0 ∨ capacity ≤ b.length then b
  else
    let available := capacity - b.length
    let cells := overlay b.cells b.length (text.take (available - 1) ++ [0])
    if available ≤ text.length then ⟨overlay cells (capacity - 1) [0], capacity⟩
    else ⟨cells, b.length + text.length⟩

/-! ## Stores -/

variable {cells bytes bs : List UInt8} {i capacity : ℕ} {b : Buffer}

theorem overlay_length (h : i + bytes.length ≤ cells.length) :
    (overlay cells i bytes).length = cells.length := by
  simp only [overlay, List.length_append, List.length_take, List.length_drop]
  omega

theorem overlay_take (h : i ≤ cells.length) :
    (overlay cells i bytes).take (i + bytes.length) = cells.take i ++ bytes := by
  have hlen : (cells.take i ++ bytes).length = i + bytes.length := by
    rw [List.length_append, List.length_take, min_eq_left h]
  rw [overlay, ← List.append_assoc, List.take_left' hlen]

theorem overlay_take_of_le {j : ℕ} (hj : j ≤ i) (h : i ≤ cells.length) :
    (overlay cells i bytes).take j = cells.take j := by
  rw [overlay, List.take_append_of_le_length (by rw [List.length_take]; omega), List.take_take,
    min_eq_left hj]

theorem overlay_getElem? (c : UInt8) (h : i < cells.length) :
    (overlay cells i [c])[i]? = some c := by
  have hlen : (cells.take i).length = i := by rw [List.length_take, min_eq_left (by omega)]
  rw [overlay, List.getElem?_append_right (by omega), hlen, Nat.sub_self]
  rfl

/-! ## What the buffer holds -/

/-- The characters so far are `bs`, and one more has room. -/
structure Written (capacity : ℕ) (bs : List UInt8) (b : Buffer) : Prop where
  length : b.length = bs.length
  room : bs.length < capacity
  size : b.cells.length = capacity
  content : b.cells.take bs.length = bs

/-- A text did not fit; the array ends in a terminator. -/
structure Full (capacity : ℕ) (b : Buffer) : Prop where
  length : b.length = capacity
  pos : 0 < capacity
  size : b.cells.length = capacity
  last : b.cells[capacity - 1]? = some 0

/-- The buffer between two calls: a terminated text, or no text. -/
def Holds (capacity : ℕ) : Option (List UInt8) → Buffer → Prop
  | some bs, b => Written capacity bs b ∧ b.cells[bs.length]? = some 0
  | none, b => Full capacity b

theorem Written.store (h : Written capacity bs b) {text : List UInt8}
    (hfit : bs.length + text.length < capacity) :
    Written capacity (bs ++ text) ⟨overlay b.cells b.length text, b.length + text.length⟩ where
  length := by rw [h.length, List.length_append]
  room := by rwa [List.length_append]
  size := by
    have hl := h.length
    have hs := h.size
    rw [← hs]
    exact overlay_length (by omega)
  content := by
    have hl := h.length
    have hs := h.size
    rw [List.length_append, hl, overlay_take (by omega), h.content]

theorem Written.put (h : Written capacity bs b) (c : UInt8) (hfit : bs.length + 1 < capacity) :
    Written capacity (bs ++ [c]) (put c b) :=
  h.store hfit

/-- The terminator behind the text. -/
theorem Written.terminate (h : Written capacity bs b) :
    Holds capacity (some bs) ⟨overlay b.cells b.length [0], b.length⟩ := by
  have hl := h.length
  have hs := h.size
  have hr := h.room
  refine ⟨⟨hl, hr, ?_, ?_⟩, ?_⟩
  · rw [← hs]
    exact overlay_length (by rw [List.length_singleton]; omega)
  · rw [overlay_take_of_le hl.ge (by omega), h.content]
  · rw [← hl]
    exact overlay_getElem? 0 (by omega)

/-- The terminator in the last place, where the text did not fit. -/
theorem full_of_size {cells : List UInt8} (hs : cells.length = capacity) (hpos : 0 < capacity) :
    Full capacity ⟨overlay cells (capacity - 1) [0], capacity⟩ where
  length := rfl
  pos := hpos
  size := by
    rw [← hs]
    exact overlay_length (by rw [List.length_singleton]; omega)
  last := overlay_getElem? 0 (by omega)

/-! ## Calls of `snprintf` -/

/-- The text behind an append. -/
def appended (capacity : ℕ) (text : List UInt8) (x : Option (List UInt8)) : Option (List UInt8) :=
  x.bind fun bs => if bs.length + text.length < capacity then some (bs ++ text) else none

theorem append_full (h : Full capacity b) (text : List UInt8) : append capacity text b = b := by
  rw [append, if_pos (.inr h.length.ge)]

theorem append_fits (h : Written capacity bs b) {text : List UInt8}
    (hfit : bs.length + text.length < capacity) :
    Holds capacity (some (bs ++ text)) (append capacity text b) := by
  have hl := h.length
  have hs := h.size
  have hwhole : text.take (capacity - b.length - 1) = text := List.take_of_length_le (by omega)
  have hlen : (text ++ [0]).length = text.length + 1 := by
    rw [List.length_append, List.length_singleton]
  rw [append, if_neg (by omega)]
  dsimp only
  rw [if_neg (by omega), hwhole]
  refine ⟨⟨?_, ?_, ?_, ?_⟩, ?_⟩
  · rw [hl, List.length_append]
  · rwa [List.length_append]
  · rw [← hs]
    exact overlay_length (by omega)
  · have htake : (overlay b.cells b.length (text ++ [0])).take (b.length + (text ++ [0]).length) =
        b.cells.take b.length ++ (text ++ [0]) := overlay_take (by omega)
    have hshort := congrArg (List.take (bs ++ text).length) htake
    rw [List.take_take, min_eq_left (by rw [hlen, hl, List.length_append]; omega), hl,
      h.content, ← List.append_assoc, List.take_left] at hshort
    rw [hl]
    exact hshort
  · have hat : (b.cells.take b.length ++ text).length = (bs ++ text).length := by
      rw [hl, h.content]
    rw [overlay, List.append_assoc, ← List.append_assoc,
      List.getElem?_append_right (by omega), hat, Nat.sub_self]
    rfl

theorem append_overflows (h : Written capacity bs b) {text : List UInt8}
    (hover : capacity ≤ bs.length + text.length) :
    Full capacity (append capacity text b) := by
  have hl := h.length
  have hs := h.size
  have hr := h.room
  rw [append, if_neg (by omega)]
  dsimp only
  rw [if_pos (by omega)]
  refine full_of_size ?_ (by omega)
  rw [← hs]
  refine overlay_length ?_
  simp only [List.length_append, List.length_take, List.length_singleton]
  omega

theorem append_holds {x : Option (List UInt8)} (h : Holds capacity x b) (text : List UInt8) :
    Holds capacity (appended capacity text x) (append capacity text b) := by
  cases x with
  | none =>
    rw [append_full h]
    exact h
  | some bs =>
    rw [appended, Option.bind_some]
    split_ifs with hfit
    · exact append_fits h.1 hfit
    · exact append_overflows h.1 (Nat.le_of_not_lt hfit)

end EspVision.BoundedText
