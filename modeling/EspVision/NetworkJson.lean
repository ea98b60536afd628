import EspVision.ControlJsonObject

/-!
# The network service's request parser (`network_service_json.h`)

The same scanning functions as the control parser, with its own string storage: a NUL
code point is refused, and the callers reserve one cell beyond the capacity they pass.
-/
namespace EspVision.NetworkService
open Json

/-- The output arguments of `parser_string`. -/
structure Output where
  cells : List UInt8
  capacity : ℕ
  length : ℕ := 0
  overflow : Bool := false
  deriving DecidableEq

/-- Store one cell. -/
def Output.store (out : Output) (b : UInt8) : Outcome Output :=
  if out.length < out.cells.length then .ok { out with cells := out.cells.set out.length b }
  else .fault

/-- `parser_byte`. -/
def parserByte (byte : UInt8) (out : Output) : Outcome Output := do
  let out ← if out.length < out.capacity then out.store byte
    else .ok { out with overflow := true }
  .ok { out with length := out.length + 1 }

def sink : Sink Output where
  byte := parserByte
  nul _ := .reject

/-- The terminator that `parser_string` writes at the closing quote. -/
def terminate (out : Output) : Outcome Output :=
  if out.length ≤ out.capacity then out.store 0 else .ok out

/-- `parser_string` with an output. -/
def parserString (s cells : List UInt8) (capacity : ℕ) : Outcome (Output × List UInt8) := do
  let (out, rest) ← string sink s { cells := cells, capacity := capacity }
  let out ← terminate out
  .ok (out, rest)

/-- `parser_known_string`; `capacity` is the size of the buffer. -/
def parserKnownString (s cells : List UInt8) (capacity : ℕ) :
    Outcome (Output × List UInt8) := do
  let (out, rest) ← parserString s cells (capacity - 1)
  if out.overflow then .reject else .ok (out, rest)

/-- A NUL is refused everywhere; a digit after a leading zero is left to the caller. -/
def dialect : Dialect := ⟨false, false⟩

/-- `network_json_request_t`. -/
structure Request where
  action : List UInt8
  operationId : List UInt8
  ssid : List UInt8
  ssidLength : ℕ
  password : List UInt8
  passwordLength : ℕ
  enabled : Bool
  hasOperationId : Bool
  hasSsid : Bool
  hasPassword : Bool
  hasEnabled : Bool
  deriving DecidableEq

/-- The request under construction and the local flags of `parse_network_json`. -/
structure Progress where
  request : Request
  hasAction : Bool
  seenOperationId : Bool
  seenSsid : Bool
  seenPassword : Bool
  seenEnabled : Bool

def actionSize : ℕ := 32
def operationIdSize : ℕ := 33
def ssidSize : ℕ := 33
def passwordSize : ℕ := 65

/-- `action`. -/
def actionName : List UInt8 := [0x61, 0x63, 0x74, 0x69, 0x6f, 0x6e]
/-- `operationId`. -/
def operationIdName : List UInt8 :=
  [0x6f, 0x70, 0x65, 0x72, 0x61, 0x74, 0x69, 0x6f, 0x6e, 0x49, 0x64]
/-- `ssid`. -/
def ssidName : List UInt8 := [0x73, 0x73, 0x69, 0x64]
/-- `password`. -/
def passwordName : List UInt8 := [0x70, 0x61, 0x73, 0x73, 0x77, 0x6f, 0x72, 0x64]
/-- `enabled`. -/
def enabledName : List UInt8 := [0x65, 0x6e, 0x61, 0x62, 0x6c, 0x65, 0x64]
/-- `network.`, the prefix of every action. -/
def networkPrefix : List UInt8 := [0x6e, 0x65, 0x74, 0x77, 0x6f, 0x72, 0x6b, 0x2e]

/-- A buffer of `size` cleared cells. -/
def cleared (size : ℕ) : List UInt8 := List.replicate size 0

/-- The request after `memset` and the flags before the first member. -/
def initial : Progress where
  request :=
    { action := cleared actionSize, operationId := cleared operationIdSize
      ssid := cleared ssidSize, ssidLength := 0, password := cleared passwordSize
      passwordLength := 0, enabled := false, hasOperationId := false, hasSsid := false
      hasPassword := false, hasEnabled := false }
  hasAction := false
  seenOperationId := false
  seenSsid := false
  seenPassword := false
  seenEnabled := false

/-- A string member that may be seen once. -/
def knownOnce (seen : Bool) (s cells : List UInt8) (capacity : ℕ) :
    Outcome (Output × List UInt8) :=
  if seen then .reject else parserKnownString s cells capacity

/-- The value of `enabled`. -/
def parserBoolean (s : List UInt8) : Outcome (Bool × List UInt8) :=
  match literal (boolText true) s with
  | .ok rest => .ok (true, rest)
  | .fault => .fault
  | .reject => do
    let rest ← literal (boolText false) s
    .ok (false, rest)

/-- The value of a member with the key `name`; `none` is a key that overflowed its buffer. -/
def parseValue (p : Progress) (name : Option (List UInt8)) (s : List UInt8) :
    Outcome (Progress × List UInt8) :=
  if name = some actionName then do
    let (out, rest) ← knownOnce p.hasAction s p.request.action actionSize
    .ok ({ p with request := { p.request with action := out.cells }, hasAction := true }, rest)
  else if name = some operationIdName then do
    let (out, rest) ← knownOnce p.seenOperationId s p.request.operationId operationIdSize
    .ok ({ p with
      request := { p.request with operationId := out.cells, hasOperationId := true }
      seenOperationId := true }, rest)
  else if name = some ssidName then do
    let (out, rest) ← knownOnce p.seenSsid s p.request.ssid ssidSize
    .ok ({ p with
      request := { p.request with ssid := out.cells, ssidLength := out.length, hasSsid := true }
      seenSsid := true }, rest)
  else if name = some passwordName then do
    let (out, rest) ← knownOnce p.seenPassword s p.request.password passwordSize
    .ok ({ p with
      request := { p.request with
        password := out.cells, passwordLength := out.length, hasPassword := true }
      seenPassword := true }, rest)
  else if name = some enabledName then
    if p.seenEnabled then .reject
    else do
      let (b, rest) ← parserBoolean s
      .ok ({ p with
        request := { p.request with enabled := b, hasEnabled := true }, seenEnabled := true }, rest)
  else do
    let rest ← skipValue dialect (skipFuel s) 0 s
    .ok (p, rest)

/-- `char key[32]`. -/
def keySize : ℕ := 32

/-- The key as `strcmp` sees it, unless it overflowed. -/
def keyName (key : Output) : Outcome (Option (List UInt8)) :=
  if key.overflow then .ok none
  else do
    let text ← EvControlJson.cString key.cells
    .ok (some text)

/-- One member: key, colon and value. -/
def parseMember (p : Progress) (s : List UInt8) : Outcome (Progress × List UInt8) := do
  let (key, s) ← parserString s (List.replicate keySize 0xff) (keySize - 1)
  let s ← expect colon (whitespace s)
  let name ← keyName key
  parseValue p name (whitespace s)

/-- The member loop of `parse_network_json`: it also ends when no byte is left. -/
def membersLoop : ℕ → Progress → List UInt8 → Outcome (Progress × List UInt8)
  | 0, _, _ => .fault
  | fuel + 1, p, s =>
    if s = [] then .ok (p, [])
    else do
      let (p, s) ← parseMember p s
      let (closed, s) ← separator rbrace (whitespace s)
      if closed then .ok (p, s) else membersLoop fuel p s

/-- The longest request that is looked at. -/
def requestMax : ℕ := 2048

/-- `parse_network_json`. -/
def parseNetworkJson (text : List UInt8) : Outcome Request :=
  if text = [] ∨ requestMax < text.length then .reject
  else do
    let s ← expect lbrace (whitespace text)
    let s := whitespace s
    if s.head? = some rbrace then .reject
    else do
      let (p, rest) ← membersLoop (s.length + 1) initial s
      if whitespace rest = [] ∧ p.hasAction ∧ p.request.action.take 8 = networkPrefix then
        .ok p.request
      else .reject

/-! ## The reference -/

open EvControlJson (Member boundTo valueOf fill Admissible Field)

/-- The known members as a field table; `action` must be there. -/
def table : List Field :=
  [⟨actionName, true, false, .string (some (cleared actionSize)) actionSize 0⟩,
    ⟨operationIdName, false, false, .string (some (cleared operationIdSize)) operationIdSize 0⟩,
    ⟨ssidName, false, false, .string (some (cleared ssidSize)) ssidSize 0⟩,
    ⟨passwordName, false, false, .string (some (cleared passwordSize)) passwordSize 0⟩,
    ⟨enabledName, false, false, .boolean false⟩]

/-- The cells of a string member. -/
def textOf (size : ℕ) : Option Value → List UInt8
  | some (.string s) => fill size (encode s) (cleared size)
  | _ => cleared size

def lengthOf : Option Value → ℕ
  | some (.string s) => (encode s).length
  | _ => 0

def boolOf : Option Value → Bool
  | some (.bool b) => b
  | _ => false

/-- What the members `ms` say, read with a reference decoder. -/
def Request.decoded (ms : List Member) : Request where
  action := textOf actionSize (valueOf table ms 0)
  operationId := textOf operationIdSize (valueOf table ms 1)
  ssid := textOf ssidSize (valueOf table ms 2)
  ssidLength := lengthOf (valueOf table ms 2)
  password := textOf passwordSize (valueOf table ms 3)
  passwordLength := lengthOf (valueOf table ms 3)
  enabled := boolOf (valueOf table ms 4)
  hasOperationId := (valueOf table ms 1).isSome
  hasSsid := (valueOf table ms 2).isSome
  hasPassword := (valueOf table ms 3).isSome
  hasEnabled := (valueOf table ms 4).isSome

/-- The progress after the members `ms`. -/
def Progress.decoded (ms : List Member) : Progress where
  request := Request.decoded ms
  hasAction := (valueOf table ms 0).isSome
  seenOperationId := (valueOf table ms 1).isSome
  seenSsid := (valueOf table ms 2).isSome
  seenPassword := (valueOf table ms 3).isSome
  seenEnabled := (valueOf table ms 4).isSome

/-- The members form a request: the known ones have their type and occur once, the others
are not nested too deeply, there is no NUL, and the action belongs to the network service. -/
structure Valid (ms : List Member) : Prop where
  admissible : Admissible table ms
  noNul : hasNulMembers ms = false
  action : ∃ s, valueOf table ms 0 = some (.string s) ∧ networkPrefix <+: encode s

/-- An object that stops after a comma between its members. -/
def OpenDocument (t : List UInt8) (ms : List Member) : Prop :=
  ∃ a b u c, t = a ++ lbrace :: (b ++ (u ++ comma :: c)) ∧ Ws a ∧ Ws b ∧ MembersText u ms ∧ Ws c

end EspVision.NetworkService
