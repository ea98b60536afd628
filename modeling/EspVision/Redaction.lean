import Mathlib.Data.Rat.Defs
import EspVision.Replace

/-!
# Redaction of network credentials (`_redactRpcPayload` of `device_session.js`)

What the host shows of a network request and of its response. Strings are UTF-16 code units.
`toLowerCase` is only compared with three lower-case words here: no letter outside ASCII has its
lower case among their letters.
-/
namespace EspVision.Host.Redaction

open Replace

/-- A string of JavaScript. -/
abbrev Text := List UInt16

/-- The code units of an ASCII text. -/
def units (s : String) : Text := s.toList.map fun c => UInt16.ofNat c.toNat

/-- What redaction passes on without a look at it. -/
inductive Atom
  | null
  | bool (b : Bool)
  | number (n : ℚ)
  deriving DecidableEq

/-- A value of JSON over strings of type `σ`. -/
inductive Doc (σ : Type)
  | atom (a : Atom)
  | string (s : σ)
  | array (items : List (Doc σ))
  | object (members : List (Text × Doc σ))

/-- A payload: bytes or a value. -/
inductive Payload
  | binary (byteLength : ℕ)
  | json (doc : Doc Text)

/-- `doc?.key`. -/
def Doc.member {σ : Type} (key : Text) : Doc σ → Option (Doc σ)
  | .object members => (members.find? fun m => m.1 == key).map fun m => m.2
  | _ => none

/-- `payload?.key`. -/
def Payload.member (key : Text) : Payload → Option (Doc Text)
  | .json doc => doc.member key
  | .binary _ => none

/-- `isNetworkAction`. -/
def isNetworkAction (method : Text) (payload : Option Payload) : Bool :=
  method == units "device.control" &&
    match payload.bind (Payload.member (units "action")) with
    | some (.string action) => (units "network.").isPrefixOf action
    | _ => false

/-- The text in the place of a secret. -/
def redacted : Text := units "[redacted]"

/-- The text in the place of every `message`. -/
def failureMessage : Text := units "Wi-Fi operation failed. Use the error code to diagnose it."

/-- The lower case of a code unit, as far as the keys below need it. -/
def lowerUnit (u : UInt16) : UInt16 := if 0x41 ≤ u ∧ u ≤ 0x5a then u + 0x20 else u

/-- `key.toLowerCase()`. -/
def toLowerCase (key : Text) : Text := key.map lowerUnit

/-- The fixed string that `sanitize` puts in the place of a member's value because of its key. -/
def keyReplacement (redactSsid : Bool) (key : Text) : Option Text :=
  if toLowerCase key = units "password" ∨ redactSsid ∧ toLowerCase key = units "ssid" then
    some redacted
  else if toLowerCase key = units "message" then some failureMessage
  else none

/-- A string with each of the secrets replaced, one after another. -/
def redactString (secrets : List Text) (value : Text) : Text :=
  secrets.foldl (fun result secret => replaceAll secret redacted result) value

mutual

/-- `sanitize`. -/
def sanitize (secrets : List Text) (redactSsid : Bool) (key : Text) : Doc Text → Doc Text
  | .string value =>
    match keyReplacement redactSsid key with
    | some text => .string text
    | none => .string (redactString secrets value)
  | .array items =>
    match keyReplacement redactSsid key with
    | some text => .string text
    | none => .array (sanitizeItems secrets redactSsid items)
  | .object members =>
    match keyReplacement redactSsid key with
    | some text => .string text
    | none => .object (sanitizeMembers secrets redactSsid members)
  | .atom a =>
    match keyReplacement redactSsid key with
    | some text => .string text
    | none => .atom a

/-- `value.map((item) => sanitize(item))`. -/
def sanitizeItems (secrets : List Text) (redactSsid : Bool) : List (Doc Text) → List (Doc Text)
  | [] => []
  | item :: items =>
    sanitize secrets redactSsid [] item :: sanitizeItems secrets redactSsid items

/-- The entries of an object, sanitized with their keys. -/
def sanitizeMembers (secrets : List Text) (redactSsid : Bool) :
    List (Text × Doc Text) → List (Text × Doc Text)
  | [] => []
  | (key, value) :: members =>
    (key, sanitize secrets redactSsid key value) :: sanitizeMembers secrets redactSsid members

end

/-- `[requestPayload?.ssid, requestPayload?.password]` without what is no string or empty. -/
def requestSecrets (requestPayload : Option Payload) : List Text :=
  [units "ssid", units "password"].filterMap fun key =>
    match requestPayload.bind (Payload.member key) with
    | some (.string s) => if s.length > 0 then some s else none
    | _ => none

/-- `_redactRpcPayload`. -/
def redactRpcPayload (method : Text) (payload : Payload) (requestPayload : Option Payload)
    (redactSsid forceNetwork : Bool) : Payload :=
  match payload with
  | .binary byteLength => .json (.object [(units "binaryBytes", .atom (.number byteLength))])
  | .json doc =>
    if !forceNetwork && !isNetworkAction method (some payload) &&
        !isNetworkAction method requestPayload then payload
    else .json (sanitize (requestSecrets requestPayload) redactSsid [] doc)

/-- What `rpc` tells its listeners of the payloads: with `rpcRequest`, with `rpcResponse` and with
the diagnostic `rpc.response`. -/
structure Told where
  request : Payload
  response : Payload
  ok : Option (Doc Text)

/-- The listeners' view of a request and of its response. -/
def told (method : Text) (request response : Payload) : Told where
  request := redactRpcPayload method request none true false
  response := redactRpcPayload method response (some request) true false
  ok := response.member (units "ok")

end EspVision.Host.Redaction
