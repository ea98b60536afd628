import Mathlib.Data.Int.Notation
import Mathlib.Logic.Function.Basic
import EspVision.Lockstep

/-!
# The device's JPEG validator (`jpeg_validate.c`)

It walks the marker segments of an image, checks its tables, frame and scan headers and looks for
the end marker. A read outside the data and a loop that outlives its bound are failures of their
own, so that it can be proved that they do not occur. The log is not in the source: it records
which bytes the validator takes for entropy-coded data, restart markers and segment markers.
-/
namespace EspVision.Jpeg

open Lockstep

/-- Why a validator stops early. -/
inductive Stop
  | rejected
  | outside
  | outOfFuel
  deriving DecidableEq

/-- What a validator passes, with the position after it. -/
inductive Passed
  | entropy (position : ℕ)
  | stuffed (position : ℕ)
  | restart (marker position : ℕ)
  | marker (marker position : ℕ)

/-- A validator or a part of one. -/
abbrev Check (α : Type) := Prog Passed Stop α

/-- Reject the image if the condition holds. -/
abbrev rejectIf (c : Prop) [Decidable c] : Check Unit := failIf Stop.rejected c

/-- `data[i]`. -/
def byteAt (data : List UInt8) (i : ℕ) : Check ℕ :=
  match data[i]? with
  | some b => pure b.toNat
  | none => fail .outside

/-! ## Tables and headers -/

/-- `JPEG_COMPONENT_MAX`. -/
def jpegComponentMax : ℕ := 4

/-- `jpeg_validation_state_t`. -/
structure State where
  frameMarker : ℕ
  componentCount : ℕ
  componentIds : ℕ → ℕ
  quantizerIds : ℕ → ℕ
  quantizerPrecision : ℕ → ℕ
  quantizers : ℕ
  dcTables : ℕ
  acTables : ℕ
  initialComponents : ℕ
  restartInterval : ℕ
  sawScan : Bool

/-- `{0}`. -/
def State.zero : State :=
  ⟨0, 0, fun _ => 0, fun _ => 0, fun _ => 0, 0, 0, 0, 0, 0, false⟩

/-- `jpeg_validation_be16`. -/
def jpegValidationBe16 (data : List UInt8) (i : ℕ) : Check ℕ := do
  let high ← byteAt data i
  let low ← byteAt data (i + 1)
  pure ((high <<< 8) ||| low)

/-- The loop over the values of one quantization table, `bytes` long. -/
def quantizerValues (data : List UInt8) (start precision bytes offset : ℕ) : Check Unit :=
  if offset < bytes then do
    let value ← (if precision = 0 then byteAt data (start + offset)
      else jpegValidationBe16 data (start + offset) : Check ℕ)
    rejectIf (value = 0)
    quantizerValues data start precision bytes (offset + (precision + 1))
  else pure ()
termination_by bytes - offset

/-- The loop of `jpeg_validation_quantizers`. -/
def jpegValidationQuantizersFrom (data : List UInt8) (segment size : ℕ) (state : State)
    (position : ℕ) : Check State :=
  if position < size then do
    let table ← byteAt data (segment + position)
    let position := position + 1
    let precision := table >>> 4
    let id := table &&& 15
    rejectIf (1 < precision ∨ jpegComponentMax ≤ id)
    let bytes := if precision = 0 then 64 else 128
    rejectIf (size - position < bytes)
    quantizerValues data (segment + position) precision bytes 0
    jpegValidationQuantizersFrom data segment size
      { state with
        quantizers := state.quantizers ||| 1 <<< id
        quantizerPrecision := Function.update state.quantizerPrecision id precision }
      (position + bytes)
  else do
    rejectIf (position = 0)
    pure state
termination_by size - position

/-- `jpeg_validation_quantizers`. -/
def jpegValidationQuantizers (state : State) (data : List UInt8) (segment size : ℕ) :
    Check State :=
  jpegValidationQuantizersFrom data segment size state 0

/-- The loop over the code counts of one Huffman table: the number of symbols. -/
def huffmanCounts (data : List UInt8) (start : ℕ) : ℕ → ℕ → ℕ → ℤ → Check (ℕ × ℤ)
  | 0, _, symbols, slots => pure (symbols, slots)
  | depths + 1, offset, symbols, slots => do
    let count ← byteAt data (start + offset)
    let symbols := symbols + count
    let slots := slots * 2 - count
    rejectIf (slots < 0 ∨ 256 < symbols)
    huffmanCounts data start depths (offset + 1) symbols slots

/-- The loop of `jpeg_validation_huffman`. -/
def jpegValidationHuffmanFrom (data : List UInt8) (segment size : ℕ) (state : State)
    (position : ℕ) : Check State :=
  if position < size then do
    let table ← byteAt data (segment + position)
    let position := position + 1
    let kind := table >>> 4
    let id := table &&& 15
    rejectIf (1 < kind ∨ jpegComponentMax ≤ id ∨ size - position < 16)
    let (symbols, slots) ← huffmanCounts data (segment + position) 16 0 0 1
    let position := position + 16
    rejectIf (symbols = 0 ∨ slots = 0 ∨ size - position < symbols)
    jpegValidationHuffmanFrom data segment size
      (if kind = 0 then { state with dcTables := state.dcTables ||| 1 <<< id }
        else { state with acTables := state.acTables ||| 1 <<< id })
      (position + symbols)
  else do
    rejectIf (position = 0)
    pure state
termination_by size - position

/-- `jpeg_validation_huffman`. -/
def jpegValidationHuffman (state : State) (data : List UInt8) (segment size : ℕ) : Check State :=
  jpegValidationHuffmanFrom data segment size state 0

/-- The loop of `jpeg_validation_frame` over the components from `i` on. -/
def frameComponents (data : List UInt8) (segment : ℕ) : ℕ → ℕ → State → Check State
  | 0, _, state => pure state
  | components + 1, i, state => do
    let id ← byteAt data (segment + (6 + 3 * i))
    let sampling ← byteAt data (segment + (7 + 3 * i))
    let quantizer ← byteAt data (segment + (8 + 3 * i))
    rejectIf (sampling >>> 4 = 0 ∨ 4 < sampling >>> 4 ∨ sampling &&& 15 = 0 ∨
      4 < sampling &&& 15 ∨ jpegComponentMax ≤ quantizer)
    rejectIf (∃ previous < i, state.componentIds previous = id)
    frameComponents data segment components (i + 1)
      { state with
        componentIds := Function.update state.componentIds i id
        quantizerIds := Function.update state.quantizerIds i quantizer }

/-- `jpeg_validation_frame`. -/
def jpegValidationFrame (state : State) (marker : ℕ) (data : List UInt8)
    (segment size width height : ℕ) : Check State := do
  rejectIf (state.frameMarker ≠ 0 ∨ size < 6)
  let precision ← byteAt data segment
  rejectIf (precision ≠ 8)
  let lines ← jpegValidationBe16 data (segment + 1)
  rejectIf (lines ≠ height)
  let columns ← jpegValidationBe16 data (segment + 3)
  rejectIf (columns ≠ width)
  let count ← byteAt data (segment + 5)
  rejectIf (count = 0 ∨ jpegComponentMax < count ∨ size ≠ 6 + 3 * count)
  let state ← frameComponents data segment count 0 state
  pure { state with componentCount := count, frameMarker := marker }

/-- The search for a component's index: `componentCount` if there is none. -/
def findComponent (state : State) (id component : ℕ) : ℕ :=
  if component < state.componentCount ∧ state.componentIds component ≠ id then
    findComponent state id (component + 1)
  else component
termination_by state.componentCount - component

/-- The loop of `jpeg_validation_scan` over the components of the scan from `i` on. -/
def scanComponents (state : State) (data : List UInt8) (segment : ℕ) (progressive : Bool)
    (first high : ℕ) : ℕ → ℕ → ℕ → Check ℕ
  | 0, _, selected => pure selected
  | components + 1, i, selected => do
    let id ← byteAt data (segment + (1 + 2 * i))
    let tables ← byteAt data (segment + (2 + 2 * i))
    let dc := tables >>> 4
    let ac := tables &&& 15
    let component := findComponent state id 0
    rejectIf (component = state.componentCount ∨ selected &&& 1 <<< component ≠ 0 ∨
      jpegComponentMax ≤ dc ∨ jpegComponentMax ≤ ac)
    let quantizer := state.quantizerIds component
    rejectIf (state.quantizers &&& 1 <<< quantizer = 0 ∨ state.quantizerPrecision quantizer ≠ 0)
    rejectIf ((!progressive ∨ first = 0 ∧ high = 0) ∧ state.dcTables &&& 1 <<< dc = 0)
    rejectIf ((!progressive ∨ first ≠ 0) ∧ state.acTables &&& 1 <<< ac = 0)
    scanComponents state data segment progressive first high components (i + 1)
      (selected ||| 1 <<< component)

/-- `jpeg_validation_scan`. -/
def jpegValidationScan (state : State) (data : List UInt8) (segment size : ℕ) : Check State := do
  rejectIf (state.frameMarker = 0 ∨ size < 4)
  let count ← byteAt data segment
  rejectIf (count = 0 ∨ state.componentCount < count ∨ size ≠ 4 + 2 * count)
  let first ← byteAt data (segment + (1 + 2 * count))
  let last ← byteAt data (segment + (2 + 2 * count))
  let approximation ← byteAt data (segment + (3 + 2 * count))
  let high := approximation >>> 4
  let low := approximation &&& 15
  let progressive := state.frameMarker == 0xc2
  rejectIf (if !progressive then first ≠ 0 ∨ last ≠ 63 ∨ approximation ≠ 0
    else last < first ∨ 63 < last ∨ first = 0 ∧ last ≠ 0 ∨ first ≠ 0 ∧ count ≠ 1 ∨ 13 < high ∨
      13 < low ∨ high ≠ 0 ∧ high ≠ low + 1)
  let selected ← scanComponents state data segment progressive first high count 0 0
  let state := if !progressive ∨ first = 0 ∧ high = 0 then
    { state with initialComponents := state.initialComponents ||| selected } else state
  pure { state with sawScan := true }

/-! ## The walk -/

/-- The loop past the fill bytes before a marker. -/
def skipFill (data : List UInt8) (position : ℕ) : Check ℕ :=
  if position < data.length then do
    let byte ← byteAt data position
    if byte = 0xff then skipFill data (position + 1) else pure position
  else pure position
termination_by data.length - position

/-- The variables of the loop of `esp_vision_jpeg_validate`. -/
structure Walk where
  state : State
  position : ℕ
  inScan : Bool
  scanHasData : Bool
  nextRestart : ℕ

/-- The body of the loop from `if (marker == 0xd9)` on: the marker is outside the entropy-coded
data. -/
def markerSegment (data : List UInt8) (width height marker : ℕ) (walk : Walk) :
    Check (Walk ⊕ Unit) := do
  visit (.marker marker walk.position)
  let state := walk.state
  let position := walk.position
  if marker = 0xd9 then do
    let allComponents := (1 <<< state.componentCount) - 1
    rejectIf (¬(state.sawScan ∧ state.initialComponents = allComponents ∧
      position = data.length))
    pure (.inr ())
  else do
    rejectIf (marker = 0 ∨ marker = 0xd8 ∨ data.length - position < 2)
    let length ← jpegValidationBe16 data position
    rejectIf (length < 2 ∨ data.length - position < length)
    let segment := position + 2
    let segmentSize := length - 2
    let walk := { walk with position := position + length }
    if marker = 0xc0 ∨ marker = 0xc1 ∨ marker = 0xc2 then do
      let state ← jpegValidationFrame state marker data segment segmentSize width height
      pure (.inl { walk with state := state })
    else if marker = 0xdb then do
      let state ← jpegValidationQuantizers state data segment segmentSize
      pure (.inl { walk with state := state })
    else if marker = 0xc4 then do
      let state ← jpegValidationHuffman state data segment segmentSize
      pure (.inl { walk with state := state })
    else if marker = 0xdd then do
      rejectIf (segmentSize ≠ 2)
      let interval ← jpegValidationBe16 data segment
      pure (.inl { walk with state := { state with restartInterval := interval } })
    else if marker = 0xda then do
      let state ← jpegValidationScan state data segment segmentSize
      pure (.inl { walk with
        state := state, inScan := true, scanHasData := false, nextRestart := 0 })
    else do
      rejectIf (¬(0xe0 ≤ marker ∧ marker ≤ 0xef) ∧ marker ≠ 0xfe)
      pure (.inl walk)

/-- The body of the loop of `esp_vision_jpeg_validate`; `.inr` is `return true`. -/
def validateStep (data : List UInt8) (width height : ℕ) (walk : Walk) :
    Check (Walk ⊕ Unit) := do
  let position := walk.position
  rejectIf (data.length ≤ position)
  let byte ← byteAt data position
  if walk.inScan ∧ byte ≠ 0xff then do
    visit (.entropy (position + 1))
    pure (.inl { walk with scanHasData := true, position := position + 1 })
  else do
    let markerStart := position
    let byte ← byteAt data position
    rejectIf (byte ≠ 0xff)
    let position ← skipFill data (position + 1)
    rejectIf (position = data.length)
    let marker ← byteAt data position
    let position := position + 1
    if walk.inScan then
      if marker = 0 then do
        rejectIf (position - markerStart ≠ 2)
        visit (.stuffed position)
        pure (.inl { walk with scanHasData := true, position := position })
      else if 0xd0 ≤ marker ∧ marker ≤ 0xd7 then do
        rejectIf (walk.state.restartInterval = 0 ∨ !walk.scanHasData ∨
          marker ≠ 0xd0 + walk.nextRestart)
        visit (.restart marker position)
        pure (.inl { walk with
          nextRestart := (walk.nextRestart + 1) &&& 7, scanHasData := false, position := position })
      else do
        rejectIf (!walk.scanHasData)
        markerSegment data width height marker { walk with inScan := false, position := position }
    else markerSegment data width height marker { walk with position := position }

/-- `esp_vision_jpeg_validate`: it returns `true` iff this returns. Each round of its loop
takes a byte at least. -/
def espVisionJpegValidate (data : List UInt8) (width height : ℕ) : Check Unit := do
  rejectIf (data.length < 4 ∨ width = 0 ∨ height = 0 ∨ 65535 < width ∨ 65535 < height)
  let first ← byteAt data 0
  rejectIf (first ≠ 0xff)
  let second ← byteAt data 1
  rejectIf (second ≠ 0xd8)
  whileFuel .outOfFuel (validateStep data width height) (data.length + 1)
    ⟨State.zero, 2, false, false, 0⟩

end EspVision.Jpeg
