import EspVision.JpegValidate

/-!
# The host's JPEG validator (`jpeg_validate.js`)

Its loop over the segments contains the loop over the entropy-coded data of a scan, which ends by
stepping back to the marker that it met. Failures and the log are those of the device's validator.
-/
namespace EspVision.Jpeg

open Lockstep

/-- A member of `components`. -/
structure Component where
  id : ℕ
  table : ℕ
  deriving DecidableEq

/-- `frame`. -/
structure Frame where
  marker : ℕ
  width : ℕ
  height : ℕ
  deriving DecidableEq

/-- The variables of `validateJpegImage`. -/
structure HostState where
  quant : ℕ → ℤ
  huffman : ℕ → ℕ
  components : List Component
  offset : ℕ
  frame : Option Frame
  scans : ℕ
  covered : ℕ
  restartInterval : ℕ

/-- The variables before the loop. -/
def HostState.start : HostState := ⟨fun _ => -1, fun _ => 0, [], 2, none, 0, 0, 0⟩

/-- `word`. -/
def word (bytes : List UInt8) (index : ℕ) : Check ℕ := do
  let high ← byteAt bytes index
  let low ← byteAt bytes (index + 1)
  pure ((high <<< 8) ||| low)

/-! ## Tables and headers -/

/-- The loop over the values of a quantization table: the cursor after them. -/
def quantValues (bytes : List UInt8) (precision : ℕ) : ℕ → ℕ → Check ℕ
  | 0, cursor => pure cursor
  | items + 1, cursor => do
    let value ← (if precision ≠ 0 then word bytes cursor else byteAt bytes cursor : Check ℕ)
    rejectIf (value = 0)
    quantValues bytes precision items (cursor + (precision + 1))

/-- The body of the loop over the tables of a quantization segment. -/
def quantTable (bytes : List UInt8) (segmentEnd : ℕ) (s : HostState × ℕ) :
    Check ((HostState × ℕ) ⊕ HostState) := do
  let (state, cursor) := s
  if segmentEnd ≤ cursor then pure (.inr state)
  else do
    let header ← byteAt bytes cursor
    let cursor := cursor + 1
    let precision := header >>> 4
    let table := header &&& 15
    rejectIf (1 < precision ∨ 3 < table ∨ segmentEnd < cursor + 64 * (precision + 1))
    let cursor ← quantValues bytes precision 64 cursor
    pure (.inl ({ state with quant := Function.update state.quant table precision }, cursor))

/-- The branch for `0xdb`. -/
def quantizationSegment (bytes : List UInt8) (start segmentEnd : ℕ) (state : HostState) :
    Check HostState := do
  rejectIf (start = segmentEnd)
  whileFuel .outOfFuel (quantTable bytes segmentEnd) (segmentEnd + 1) (state, start)

/-- The loop over the code counts of a Huffman table: symbols, slots and the cursor after it. -/
def codeCounts (bytes : List UInt8) : ℕ → ℕ → ℤ → ℕ → Check (ℕ × ℤ × ℕ)
  | 0, symbols, slots, cursor => pure (symbols, slots, cursor)
  | sizes + 1, symbols, slots, cursor => do
    let count ← byteAt bytes cursor
    let symbols := symbols + count
    let slots := slots * 2 - count
    rejectIf (slots < 0)
    codeCounts bytes sizes symbols slots (cursor + 1)

/-- The body of the loop over the tables of a Huffman segment. -/
def huffmanTable (bytes : List UInt8) (segmentEnd : ℕ) (s : HostState × ℕ) :
    Check ((HostState × ℕ) ⊕ HostState) := do
  let (state, cursor) := s
  if segmentEnd ≤ cursor then pure (.inr state)
  else do
    rejectIf (segmentEnd < cursor + 17)
    let header ← byteAt bytes cursor
    let kind := header >>> 4
    let table := header &&& 15
    rejectIf (1 < kind ∨ 3 < table)
    let (symbols, slots, cursor) ← codeCounts bytes 16 0 1 (cursor + 1)
    rejectIf (symbols = 0 ∨ 256 < symbols ∨ slots = 0 ∨ segmentEnd < cursor + symbols)
    pure (.inl ({ state with huffman := Function.update state.huffman (kind * 4 + table) 1 },
      cursor + symbols))

/-- The branch for `0xc4`. -/
def huffmanSegment (bytes : List UInt8) (start segmentEnd : ℕ) (state : HostState) :
    Check HostState := do
  rejectIf (start = segmentEnd)
  whileFuel .outOfFuel (huffmanTable bytes segmentEnd) (segmentEnd + 1) (state, start)

/-- The loop over the components of a frame from `index` on. -/
def frameLayout (bytes : List UInt8) (start : ℕ) :
    ℕ → ℕ → List Component → Check (List Component)
  | 0, _, components => pure components
  | count + 1, index, components => do
    let cursor := start + 6 + index * 3
    let id ← byteAt bytes cursor
    let sampling ← byteAt bytes (cursor + 1)
    let table ← byteAt bytes (cursor + 2)
    rejectIf (components.any (fun component => component.id == id) ∨ sampling >>> 4 = 0 ∨
      4 < sampling >>> 4 ∨ sampling &&& 15 = 0 ∨ 4 < sampling &&& 15 ∨ 3 < table)
    frameLayout bytes start count (index + 1) (components ++ [⟨id, table⟩])

/-- The branch for `0xc0`, `0xc1` and `0xc2`. -/
def frameSegment (bytes : List UInt8) (width height marker start length : ℕ)
    (state : HostState) : Check HostState := do
  rejectIf (state.frame.isSome ∨ state.scans ≠ 0 ∨ length < 11)
  let count ← byteAt bytes (start + 5)
  let columns ← word bytes (start + 3)
  let lines ← word bytes (start + 1)
  let precision ← byteAt bytes start
  rejectIf (precision ≠ 8 ∨ count = 0 ∨ 4 < count ∨ length ≠ 8 + 3 * count)
  rejectIf (columns ≠ width ∨ lines ≠ height)
  let components ← frameLayout bytes start count 0 state.components
  pure { state with frame := some ⟨marker, columns, lines⟩, components := components }

/-- The loop over the components of a scan from `index` on. -/
def scanSelection (bytes : List UInt8) (state : HostState) (start : ℕ) (progressive : Bool)
    (spectralStart high : ℕ) : ℕ → ℕ → ℕ → Check ℕ
  | 0, _, selected => pure selected
  | count + 1, index, selected => do
    let cursor := start + 1 + index * 2
    let id ← byteAt bytes cursor
    let tables ← byteAt bytes (cursor + 1)
    let dc := tables >>> 4
    let ac := tables &&& 15
    match state.components.findIdx? (fun value => value.id == id) with
    | none => fail .rejected
    | some component => do
      rejectIf (selected &&& 1 <<< component ≠ 0 ∨ 3 < dc ∨ 3 < ac)
      rejectIf (state.quant (state.components.getD component ⟨0, 0⟩).table ≠ 0)
      rejectIf ((!progressive ∨ spectralStart = 0 ∧ high = 0) ∧ state.huffman dc = 0)
      rejectIf ((!progressive ∨ 0 < spectralStart) ∧ state.huffman (4 + ac) = 0)
      scanSelection bytes state start progressive spectralStart high count (index + 1)
        (selected ||| 1 <<< component)

/-- The branch for `0xda` up to `scans++`. -/
def scanSegment (bytes : List UInt8) (start segmentEnd length : ℕ) (state : HostState) :
    Check HostState := do
  match state.frame with
  | none => fail .rejected
  | some frame => do
    rejectIf (length < 8)
    let count ← byteAt bytes start
    rejectIf (count = 0 ∨ state.components.length < count ∨ length ≠ 6 + 2 * count)
    let spectralStart ← byteAt bytes (segmentEnd - 3)
    let spectralEnd ← byteAt bytes (segmentEnd - 2)
    let approximation ← byteAt bytes (segmentEnd - 1)
    let high := approximation >>> 4
    let low := approximation &&& 15
    let progressive := frame.marker == 0xc2
    rejectIf (!progressive ∧ (spectralStart ≠ 0 ∨ spectralEnd ≠ 63 ∨ high ≠ 0 ∨ low ≠ 0))
    rejectIf (progressive ∧ (spectralEnd < spectralStart ∨ 63 < spectralEnd ∨
      (if spectralStart = 0 then spectralEnd ≠ 0 else count ≠ 1) ∨ 13 < high ∨ 13 < low ∨
      high ≠ 0 ∧ high ≠ low + 1))
    let selected ← scanSelection bytes state start progressive spectralStart high count 0 0
    let covered := if !progressive ∨ spectralStart = 0 ∧ high = 0 then
      state.covered ||| selected else state.covered
    pure { state with covered := covered, scans := state.scans + 1 }

/-! ## The walk -/

/-- The variables of the loop over entropy-coded data. -/
structure Entropy where
  offset : ℕ
  entropyBytes : ℕ
  restart : ℕ

/-- The body of the loop over entropy-coded data; `.inr` leaves it. -/
def entropyStep (bytes : List UInt8) (restartInterval : ℕ) (s : Entropy) :
    Check (Entropy ⊕ Entropy) := do
  if bytes.length ≤ s.offset then pure (.inr s)
  else do
    let byte ← byteAt bytes s.offset
    if byte ≠ 0xff then do
      visit (.entropy (s.offset + 1))
      pure (.inl { s with entropyBytes := s.entropyBytes + 1, offset := s.offset + 1 })
    else do
      let markerStart := s.offset
      let offset ← skipFill bytes (s.offset + 1)
      rejectIf (bytes.length ≤ offset)
      let code ← byteAt bytes offset
      let offset := offset + 1
      if code = 0 then do
        rejectIf (offset ≠ markerStart + 2)
        visit (.stuffed offset)
        pure (.inl { s with entropyBytes := s.entropyBytes + 1, offset := offset })
      else if 0xd0 ≤ code ∧ code ≤ 0xd7 then do
        rejectIf (restartInterval = 0 ∨ s.entropyBytes = 0 ∨ code ≠ 0xd0 + s.restart)
        visit (.restart code offset)
        pure (.inl { offset := offset, restart := (s.restart + 1) &&& 7, entropyBytes := 0 })
      else do
        rejectIf (s.entropyBytes = 0)
        pure (.inr { s with offset := markerStart })

/-- The entropy-coded data after a scan header. -/
def entropyData (bytes : List UInt8) (state : HostState) : Check HostState := do
  let s ← whileFuel .outOfFuel (entropyStep bytes state.restartInterval) (bytes.length + 1)
    ⟨state.offset, 0, 0⟩
  rejectIf (s.entropyBytes = 0)
  pure { state with offset := s.offset }

/-- The body of the loop over the segments after `const marker`. -/
def hostSegment (bytes : List UInt8) (width height marker : ℕ) (state : HostState) :
    Check (HostState ⊕ ℕ × ℕ) := do
  visit (.marker marker state.offset)
  let offset := state.offset
  if marker = 0xd9 then
    match state.frame with
    | none => fail .rejected
    | some frame => do
      rejectIf (state.scans = 0 ∨ state.covered ≠ (1 <<< state.components.length) - 1)
      rejectIf (offset ≠ bytes.length)
      pure (.inr (frame.width, frame.height))
  else do
    rejectIf (marker = 0 ∨ marker = 0xd8 ∨ 0xd0 ≤ marker ∧ marker ≤ 0xd7)
    rejectIf (bytes.length < offset + 2)
    let length ← word bytes offset
    let start := offset + 2
    let segmentEnd := offset + length
    rejectIf (length < 2 ∨ bytes.length < segmentEnd)
    let state := { state with offset := segmentEnd }
    if 0xe0 ≤ marker ∧ marker ≤ 0xef ∨ marker = 0xfe then pure (.inl state)
    else if marker = 0xdb then do
      let state ← quantizationSegment bytes start segmentEnd state
      pure (.inl state)
    else if marker = 0xc4 then do
      let state ← huffmanSegment bytes start segmentEnd state
      pure (.inl state)
    else if marker = 0xdd then do
      rejectIf (length ≠ 4)
      let interval ← word bytes start
      pure (.inl { state with restartInterval := interval })
    else if 0xc0 ≤ marker ∧ marker ≤ 0xc2 then do
      let state ← frameSegment bytes width height marker start length state
      pure (.inl state)
    else do
      rejectIf (marker ≠ 0xda)
      let state ← scanSegment bytes start segmentEnd length state
      let state ← entropyData bytes state
      pure (.inl state)

/-- The body of the loop over the segments; `.inr` is the value returned. -/
def hostStep (bytes : List UInt8) (width height : ℕ) (state : HostState) :
    Check (HostState ⊕ ℕ × ℕ) := do
  rejectIf (bytes.length ≤ state.offset)
  let byte ← byteAt bytes state.offset
  rejectIf (byte ≠ 0xff)
  let offset ← skipFill bytes (state.offset + 1)
  rejectIf (bytes.length ≤ offset)
  let marker ← byteAt bytes offset
  hostSegment bytes width height marker { state with offset := offset + 1 }

/-- `validateJpegImage`: the failure is its exception. -/
def validateJpegImage (bytes : List UInt8) (width height : ℕ) : Check (ℕ × ℕ) := do
  rejectIf (width = 0 ∨ height = 0 ∨ 65535 < width ∨ 65535 < height)
  rejectIf (bytes.length < 4)
  let first ← byteAt bytes 0
  rejectIf (first ≠ 0xff)
  let second ← byteAt bytes 1
  rejectIf (second ≠ 0xd8)
  whileFuel .outOfFuel (hostStep bytes width height) (bytes.length + 1) HostState.start

end EspVision.Jpeg
