import EspVision.JsonSkip

/-!
# The control-plane JSON parser (`ev_control_json.h`)

A table of known fields is filled from one JSON object; other members are skipped.
Buffers are lists of cells, and a store outside them is the outcome `fault`.
-/
namespace EspVision.EvControlJson
open Json

/-- The value of an `ev_control_json_field_t`; the constructor is the field's type. -/
inductive FieldValue
  | string (buffer : Option (List UInt8)) (capacity length : ℕ)
  | uint32 (value : UInt32)
  | boolean (value : Bool)
  deriving DecidableEq

/-- `ev_control_json_field_t`. -/
structure Field where
  name : List UInt8
  required : Bool
  present : Bool := false
  value : FieldValue
  deriving DecidableEq

/-- The output arguments of `ev_control_json_string`. -/
structure Output where
  buffer : Option (List UInt8)
  capacity : ℕ
  length : ℕ := 0
  overflow : Bool := false
  hasNul : Bool := false
  deriving DecidableEq

/-- Store one cell. -/
def Output.store (out : Output) (cells : List UInt8) (b : UInt8) : Outcome Output :=
  if out.length < cells.length then
    .ok { out with buffer := some (cells.set out.length b) }
  else .fault

/-- `ev_control_json_append`. -/
def append (byte : UInt8) (out : Output) : Outcome Output := do
  let out ← match out.buffer with
    | none => .ok out
    | some cells =>
      if out.length + 1 < out.capacity then out.store cells byte
      else .ok { out with overflow := true }
  .ok { out with length := out.length + 1 }

/-- `ev_control_json_append_codepoint` only notes a NUL. -/
def sink : Sink Output where
  byte := append
  nul out := .ok { out with hasNul := true }

/-- The terminator that `ev_control_json_string` writes at the closing quote. -/
def terminate (out : Output) : Outcome Output :=
  match out.buffer with
  | none => .ok out
  | some cells => if out.length < out.capacity then out.store cells 0 else .ok out

/-- `ev_control_json_string`. -/
def string (s : List UInt8) (buffer : Option (List UInt8)) (capacity : ℕ) :
    Outcome (Output × List UInt8) := do
  let (out, rest) ← Json.string sink s { buffer := buffer, capacity := capacity }
  let out ← terminate out
  .ok (out, rest)

/-- The digit loop of `ev_control_json_number`. -/
def numberLoop : ℕ → List UInt8 → Outcome (ℕ × List UInt8)
  | value, [] => .ok (value, [])
  | value, b :: rest =>
    if isDigit b then
      let digit := b.toNat - 0x30
      if (4294967295 - digit) / 10 < value then .reject
      else numberLoop (value * 10 + digit) rest
    else .ok (value, b :: rest)

/-- `ev_control_json_number`. -/
def number : List UInt8 → Outcome (UInt32 × List UInt8)
  | [] => .reject
  | b :: rest =>
    if !isDigit b then .reject
    else if b = 0x30 then
      if startsWithDigit rest then .reject else .ok (0, rest)
    else do
      let (value, rest) ← numberLoop 0 (b :: rest)
      .ok (UInt32.ofNat value, rest)

/-- The control parser stores NUL code points nowhere but accepts them, and refuses a digit
after a leading zero. -/
def dialect : Dialect := ⟨true, true⟩

/-- `ev_control_json_skip_value` at depth zero. -/
def skipUnknown (s : List UInt8) : Outcome (List UInt8) := skipValue dialect (skipFuel s) 0 s

/-- The bytes of a buffer up to its terminator, as `strcmp` reads them. -/
def cString (cells : List UInt8) : Outcome (List UInt8) :=
  if cells.contains 0 then .ok (cells.takeWhile (· ≠ 0)) else .fault

/-- The first field with the decoded key as its name. -/
def findField (key : Output) : List Field → ℕ → Outcome (Option ℕ)
  | [], _ => .ok none
  | f :: fields, i =>
    if key.length = f.name.length then do
      let text ← cString (key.buffer.getD [])
      if text = f.name then .ok (some i) else findField key fields (i + 1)
    else findField key fields (i + 1)

/-- `char key[32]`. -/
def keyCapacity : ℕ := 32

/-- The key buffer before anything is written to it; its bytes are indeterminate. -/
def keyBuffer : List UInt8 := List.replicate keyCapacity 0xff

/-- The field of a key that fitted its buffer and has no NUL. -/
def lookup (fields : List Field) (key : Output) : Outcome (Option ℕ) :=
  if !key.overflow && !key.hasNul then findField key fields 0 else .ok none

/-- The value of a known field. -/
def parseField (f : Field) (s : List UInt8) : Outcome (Field × List UInt8) :=
  if f.present then .reject
  else match f.value with
    | .string buffer capacity _ => do
      let (out, rest) ← string s buffer capacity
      if out.overflow || out.hasNul then .reject
      else .ok ({ f with present := true, value := .string out.buffer capacity out.length }, rest)
    | .uint32 _ => do
      let (value, rest) ← number s
      .ok ({ f with present := true, value := .uint32 value }, rest)
    | .boolean value =>
      match s with
      | [] => .reject
      | c :: _ =>
        if c = 0x74 then do
          let rest ← literal (boolText true) s
          .ok ({ f with present := true, value := .boolean true }, rest)
        else if c = 0x66 then do
          let rest ← literal (boolText false) s
          .ok ({ f with present := true, value := .boolean value }, rest)
        else .reject

/-- One member: key, colon and value. -/
def parseMember (fields : List Field) (s : List UInt8) : Outcome (List Field × List UInt8) := do
  let (key, s) ← string s (some keyBuffer) keyCapacity
  let s ← expect colon (whitespace s)
  let s := whitespace s
  let field ← lookup fields key
  match field with
  | none => do
    let rest ← skipUnknown s
    .ok (fields, rest)
  | some i =>
    match fields[i]? with
    | none => .fault
    | some f => do
      let (f, rest) ← parseField f s
      .ok (fields.set i f, rest)

/-- The member loop of `ev_control_json_parse_object`. -/
def membersLoop : ℕ → List Field → List UInt8 → Outcome (List Field × List UInt8)
  | 0, _, _ => .fault
  | fuel + 1, fields, s => do
    let (fields, s) ← parseMember fields s
    let (closed, s) ← separator rbrace (whitespace s)
    if closed then .ok (fields, s) else membersLoop fuel fields s

/-- The initial state of a field. -/
def Field.reset (f : Field) : Outcome Field :=
  match f.value with
  | .string none capacity _ =>
    .ok { f with present := false, value := .string none capacity 0 }
  | .string (some cells) capacity _ =>
    if capacity = 0 then
      .ok { f with present := false, value := .string (some cells) capacity 0 }
    else if cells = [] then .fault
    else .ok { f with present := false, value := .string (some (cells.set 0 0)) capacity 0 }
  | .uint32 _ => .ok { f with present := false, value := .uint32 0 }
  | .boolean _ => .ok { f with present := false, value := .boolean false }

def resetAll : List Field → Outcome (List Field)
  | [] => .ok []
  | f :: fields => do
    let f ← f.reset
    let fields ← resetAll fields
    .ok (f :: fields)

/-- The members up to the closing brace, which may follow at once. -/
def members (fields : List Field) (s : List UInt8) : Outcome (List Field × List UInt8) :=
  if s.head? = some rbrace then .ok (fields, s.tail) else membersLoop (s.length + 1) fields s

/-- `ev_control_json_parse_object`; `ok` is the answer true with the filled table. -/
def parseObject (fields : List Field) (text : List UInt8) : Outcome (List Field) :=
  if text = [] then .reject
  else do
    let fields ← resetAll fields
    let s ← expect lbrace (whitespace text)
    let (fields, s) ← members fields (whitespace s)
    if whitespace s ≠ [] then .reject
    else if fields.any fun f => f.required && !f.present then .reject
    else .ok fields

/-! ## The reference: which objects a table admits, and what it then holds -/

/-- A member of an object: its key and its value. -/
abbrev Member := List ℕ × Value

/-- The field a key denotes: the first of that name, for a key without NUL that fits the key
buffer with its terminator. -/
def boundTo (fields : List Field) (key : List ℕ) : Option ℕ :=
  if key.contains 0 || decide (keyCapacity ≤ (encode key).length) then none
  else fields.findIdx? fun f => f.name = encode key

/-- The value has the field's type; a string leaves room for its terminator. -/
def FieldValue.Admits : FieldValue → Value → Prop
  | .string buffer capacity _, .string s =>
    s.contains 0 = false ∧ (buffer = none ∨ encode s = [] ∨ (encode s).length < capacity)
  | .uint32 _, .number t => Digits t ∧ natValue t < 2 ^ 32
  | .boolean _, .bool _ => True
  | _, _ => False

/-- A buffer with a terminated string at its start. -/
def fill (capacity : ℕ) (bytes cells : List UInt8) : List UInt8 :=
  if bytes.length < capacity then bytes ++ 0 :: cells.drop (bytes.length + 1) else cells

/-- The field after it received a value of its type. -/
def FieldValue.decoded : FieldValue → Value → FieldValue
  | .string buffer capacity _, .string s =>
    .string (buffer.map (fill capacity (encode s))) capacity (encode s).length
  | .uint32 _, .number t => .uint32 (UInt32.ofNat (natValue t))
  | .boolean _, .bool b => .boolean b
  | f, _ => f

/-- The value of a field that received nothing. -/
def FieldValue.cleared : FieldValue → FieldValue
  | .string buffer capacity _ => .string (buffer.map (fill capacity [])) capacity 0
  | .uint32 _ => .uint32 0
  | .boolean _ => .boolean false

/-- The value that the members give field `i`. -/
def valueOf (fields : List Field) (ms : List Member) (i : ℕ) : Option Value :=
  (ms.find? fun m => boundTo fields m.1 = some i).map (·.2)

/-- One field after the members `ms`. -/
def Field.after (f : Field) : Option Value → Field
  | none => { f with present := false, value := f.value.cleared }
  | some v => { f with present := true, value := f.value.decoded v }

/-- The table after the members `ms`. -/
def decoded (fields : List Field) (ms : List Member) : List Field :=
  fields.mapIdx fun i f => f.after (valueOf fields ms i)

/-- The object may be read with this table. -/
structure Admissible (fields : List Field) (ms : List Member) : Prop where
  unknown : ∀ m ∈ ms, boundTo fields m.1 = none → m.2.depth ≤ depthMax
  known : ∀ m ∈ ms, ∀ i f, boundTo fields m.1 = some i → fields[i]? = some f → f.value.Admits m.2
  once : ms.Pairwise fun m m' => ∀ i, boundTo fields m.1 = some i → boundTo fields m'.1 ≠ some i
  required : ∀ i f, fields[i]? = some f → f.required = true →
    ∃ m ∈ ms, boundTo fields m.1 = some i

/-- The buffer of a string field has as many cells as its capacity says. -/
def FieldValue.WellSized : FieldValue → Prop
  | .string (some cells) capacity _ => cells.length = capacity
  | _ => True

end EspVision.EvControlJson
