import EspVision.Dialogue
import EspVision.FirmwareImage

/-!
# Handing a serial port over to the ROM (`node_rom_port.js`)

The collaborators answer as they like: the abort signal, the clock, the file system, the serial
enumeration and the device session. The interpreter's path and the signal go to the calls
unchanged and are left out.
-/
namespace EspVision.NodeRomPort
open Dialogue
open Firmware (Js)

/-! ## Records and errors -/

structure ErrorInfo where
  code : Js
  message : String
  deriving DecidableEq

/-- `transition.command`. -/
structure Command where
  attempted : Bool
  acknowledged : Bool
  outcome : Js
  error : Option ErrorInfo := none
  deriving DecidableEq

/-- `transition.cleanup`. -/
inductive Cleanup
  | ok
  | failed (error : ErrorInfo)
  deriving DecidableEq

inductive IdentitySource
  | runtimeDeviceId | machineUniqueId
  deriving DecidableEq

/-- `transition.recovery`. -/
structure Recovery where
  previousPort : Js
  runtimePid : Js
  deriving DecidableEq

/-- What is reported about the handoff; `observed` is whether it is `'rom'`. -/
structure Transition where
  requested : Bool := false
  selectedPort : String
  runtimePort : Option Js := none
  expectedMac : Option String := none
  serial : Option String := none
  location : Option String
  command : Option Command := none
  cleanup : Option Cleanup := none
  observed : Bool := false
  port : Option Js := none
  identitySource : Option IdentitySource := none
  recovery : Option Recovery := none

/-- An error object: the members that are read, and `String(error.message ?? error)`. -/
structure ErrorObject where
  code : Js := .undefined
  name : Js := .string "Error"
  message : String
  outcome : Js := .undefined
  /-- `error.reset?.outcome`. -/
  resetOutcome : Js := .undefined
  transition : Option Transition := none
  cleanupError : Option ErrorInfo := none

/-- Anything can be thrown. -/
inductive Thrown
  /-- `undefined` or `null`. -/
  | nullish (text : String)
  | primitive (truthy : Bool) (text : String)
  | object (error : ErrorObject)

/-- `fail(code, message)`. -/
def failure (code message : String) (transition : Option Transition := none) : Thrown :=
  .object { code := .string code, message := message, transition := transition }

def typeError (message : String) : Thrown :=
  .object { name := .string "TypeError", message := message }

def rangeError (message : String) : Thrown :=
  .object { name := .string "RangeError", message := message }

namespace Thrown

def truthy : Thrown → Bool
  | .nullish _ => false
  | .primitive truthy _ => truthy
  | .object _ => true

/-- `error.code`. -/
def code : Thrown → Except Thrown Js
  | .nullish _ => .error (typeError "Cannot read properties of undefined (reading 'code')")
  | .primitive _ _ => .ok .undefined
  | .object e => .ok e.code

/-- `error.reset?.outcome === 'unknown' || error.outcome === 'unknown'`. -/
def outcomeUnknown : Thrown → Except Thrown Bool
  | .nullish _ => .error (typeError "Cannot read properties of undefined (reading 'reset')")
  | .primitive _ _ => .ok false
  | .object e => .ok (e.resetOutcome = .string "unknown" || e.outcome = .string "unknown")

/-- `primary.transition = transition`, with `cleanupError` behind a failed cleanup. -/
def withTransition (t : Transition) : Thrown → Thrown
  | .object e => .object { e with
      transition := some t
      cleanupError := match t.cleanup with
        | some (.failed error) => some error
        | _ => e.cleanupError }
  | _ => typeError "Cannot create property 'transition' on a primitive value"

end Thrown

/-- `??`. -/
def orElse : Js → Js → Js
  | .undefined, b => b
  | .null, b => b
  | a, _ => a

/-- The first `n` UTF-16 code units, as far as they are whole characters. -/
def sliceUnits : ℕ → List Char → List Char
  | _, [] => []
  | n, c :: rest =>
    let units := if c.val < 0x10000 then 1 else 2
    if units ≤ n then c :: sliceUnits (n - units) rest else []

def errorInfo : Thrown → ErrorInfo
  | .nullish text => ⟨.string "ERROR", text⟩
  | .primitive _ text => ⟨.string "ERROR", String.ofList (sliceUnits 512 text.toList)⟩
  | .object e => ⟨orElse (orElse e.code e.name) (.string "ERROR"),
      String.ofList (sliceUnits 512 e.message.toList)⟩

/-! ## Descriptors -/

/-- A descriptor of the serial enumeration. -/
structure Port where
  path : Js := .undefined
  vendorId : Js := .undefined
  productId : Js := .undefined
  serialNumber : Js := .undefined
  location : Js := .undefined
  deriving DecidableEq

/-- What the enumeration returns: `none` is no array, a descriptor `none` has no members. -/
abbrev Enumeration := Option (List (Option Port))

/-- `[0-9a-f]`. -/
def isHexDigit (c : Char) : Bool := c.isDigit || ('a' ≤ c && c ≤ 'f')

/-- `/^[0-9a-f]{12}$/`. -/
def isMac (chars : List Char) : Bool := chars.length = 12 && chars.all isHexDigit

def mac : Js → Option String
  | .string value =>
    let result := (value.toList.filter fun c => c ≠ ':' ∧ c ≠ '-').map Char.toLower
    if isMac result then some (String.ofList result) else none
  | _ => none

/-- `/^\\\\\.\\/`. -/
def devicePath : List Char := ['\\', '\\', '.', '\\']

def comKey : Js → Option String
  | .string value =>
    let chars := value.toList
    let name := (if chars.take 4 = devicePath then chars.drop 4 else chars).map Char.toUpper
    match name with
    | 'C' :: 'O' :: 'M' :: d :: rest =>
      if '1' ≤ d ∧ d ≤ '9' ∧ rest.all Char.isDigit then some (String.ofList name) else none
    | _ => none
  | _ => none

/-- The white space and line terminators that `trim` removes. -/
def isSpace (c : Char) : Bool :=
  c ∈ ['\t', '\n', '\x0b', '\x0c', '\r', ' ', '\u00a0', '\u1680', '\u2028', '\u2029', '\u202f',
    '\u205f', '\u3000', '\ufeff'] || ('\u2000' ≤ c && c ≤ '\u200a')

def trim (chars : List Char) : List Char :=
  ((chars.dropWhile isSpace).reverse.dropWhile isSpace).reverse

/-- `/^(?:\d+|x)\.\d+$/i`. -/
def isInterface (chars : List Char) : Bool :=
  let configuration := chars.takeWhile (· ≠ '.')
  let interface := (chars.dropWhile (· ≠ '.')).drop 1
  (configuration = ['x'] || configuration = ['X'] ||
    configuration ≠ [] && configuration.all Char.isDigit) &&
    interface ≠ [] && interface.all Char.isDigit

/-- The text without a last `:configuration.interface`. -/
def dropInterface : List Char → List Char
  | [] => []
  | c :: rest => if c = ':' && isInterface rest then [] else c :: dropInterface rest

def physicalLocation : Js → Option String
  | .string value =>
    let trimmed := trim value.toList
    if trimmed = [] then none else some (String.ofList (dropInterface trimmed))
  | _ => none

def vendor : Js := .number 0x303a

def isOneOf (ids : List ℚ) (value : Js) : Bool := ids.any fun q => value.same (.number q)

def nativeRom (port : Port) : Bool :=
  port.vendorId.same vendor && isOneOf [2, 9, 18, 32] port.productId

def nativeRuntime (port : Port) : Bool :=
  port.vendorId.same vendor && isOneOf [0x4003, 0x4023] port.productId

/-- The array, if every member of it has members. -/
def descriptors : Enumeration → Except Thrown (List Port)
  | none => .error (failure "ROM_PORT_ENUMERATION_FAILED"
      "Serial enumeration returned invalid descriptors")
  | some items => match items.mapM id with
    | none => .error (typeError "Cannot read properties of null")
    | some ports => .ok ports

/-- A MAC and a physical location. -/
structure Identity where
  mac : String
  location : String
  deriving DecidableEq

/-- The descriptor carries the identity. -/
def hasIdentity (id : Identity) (port : Port) : Bool :=
  mac port.serialNumber = some id.mac && physicalLocation port.location = some id.location

/-- Both are there and not empty. -/
def identityOf (serial location : Js) : Option Identity :=
  match mac serial, physicalLocation location with
  | some mac, some location => if location = "" then none else some ⟨mac, location⟩
  | _, _ => none

/-! ## Answers of the device -/

/-- A member of `connected.capabilities.sinks`. -/
structure Sink where
  owner : Js := .undefined
  id : Js := .undefined
  kind : Js := .undefined
  state : Js := .undefined
  ready : Js := .undefined
  deriving DecidableEq

/-- `connected.capabilities.sinks`; a sink `none` has no members. -/
inductive Sinks
  | nullish
  /-- Something without `filter`. -/
  | other
  | array (items : List (Option Sink))
  deriving DecidableEq

/-- What `connect` returns. -/
structure Connected where
  sinks : Sinks := .nullish
  deviceId : Js := .undefined
  deriving DecidableEq

/-- What `python.execute` returns. -/
structure Execution where
  ok : Js := .undefined
  outputTruncated : Js := .undefined
  output : Js := .undefined
  deriving DecidableEq

/-- What `control` returns. -/
structure ControlResult where
  ok : Js := .undefined
  operation : Js := .undefined
  acknowledged : Js := .undefined
  outcome : Js := .undefined
  deriving DecidableEq

/-- The runtime has one owner, and it is the active USB interface. -/
def checkOwner (connected : Connected) : Except Thrown Unit :=
  let mismatch := failure "ROM_RUNTIME_INTERFACE_MISMATCH"
    "The selected runtime did not establish the active USB owner"
  match connected.sinks with
  | .nullish => .error mismatch
  | .other => .error (typeError "filter is not a function")
  | .array items => match items.mapM id with
    | none => .error (typeError "Cannot read properties of null (reading 'owner')")
    | some sinks => match sinks.filter fun sink => sink.owner = .boolean true with
      | [owner] =>
        if owner.id = .string "usb" ∧ owner.kind = .string "usb_otg_cdc" ∧
            owner.state = .string "active" ∧ owner.ready = .boolean true then .ok ()
        else .error mismatch
      | _ => .error mismatch

/-- The line terminators of a multiline pattern. -/
def isLineEnd (c : Char) : Bool := c ∈ ['\n', '\r', '\u2028', '\u2029']

def marker : List Char := "__EV_ROM_ID__".toList

/-- The identity on a line `/^__EV_ROM_ID__([0-9a-f]{12})$/i`. -/
def romId (line : List Char) : Option String :=
  let id := line.drop marker.length
  if (line.take marker.length).map Char.toUpper = marker ∧ isMac (id.map Char.toLower) then
    some (String.ofList id)
  else none

def romIds (output : String) : List String := (output.toList.splitOnP isLineEnd).filterMap romId

/-- The identity that the legacy program printed. -/
def legacyId (result : Option Execution) : Except Thrown String :=
  let unavailable := failure "ROM_RUNTIME_IDENTITY_UNAVAILABLE"
    "The legacy runtime did not return one complete unique_id"
  match result with
  | none => .error unavailable
  | some result => match result.output with
    | .string output => match romIds output with
      | [id] =>
        if result.ok = .boolean true ∧ result.outputTruncated = .boolean false ∧
            ¬ "Traceback".toList <:+: output.toList then .ok id
        else .error unavailable
      | _ => .error unavailable
    | _ => .error unavailable

/-- The command that the runtime accepted. -/
def accepted (result : Option ControlResult) : Except Thrown Command :=
  let rejected := failure "ROM_BOOTLOADER_REJECTED" "Runtime did not accept the bootloader command"
  match result with
  | none => .error rejected
  | some result =>
    if result.ok = .boolean true ∧ result.operation = .string "bootloader" then
      .ok ⟨true, result.acknowledged = .boolean true, orElse result.outcome (.string "unknown"),
        none⟩
    else .error rejected

/-! ## Calls -/

inductive Call
  /-- `signal.aborted` and `signal.reason`. -/
  | aborted
  | now
  | realpath (path : String)
  | listSerial (timeout : ℤ)
  | sleep (ms : ℚ)
  | serialTransport (serial : Js)
  | createDevice
  | connect (timeout : ℤ)
  | execute (timeout : ℤ)
  | control (timeout : ℤ)
  | disconnect
  deriving DecidableEq

/-- What a call returns when it succeeds. An abort comes with its reason, which may be no error;
`createDevice` returns an object or not. -/
@[reducible] def Call.Value : Call → Type
  | .aborted => Option (Option ErrorObject)
  | .now => ℚ
  | .realpath _ => Js
  | .listSerial _ => Enumeration
  | .createDevice => Bool
  | .connect _ => Connected
  | .execute _ => Option Execution
  | .control _ => Option ControlResult
  | _ => Unit

/-- The variables of a handoff: `transition`, and whether `device` is set. -/
structure State where
  transition : Transition
  device : Bool

abbrev Log := List (Event Call.Value Thrown)

abbrev Flow := Prog State Call.Value Thrown

def ask (c : Call) : Flow c.Value := call c

def checkAbort : Flow Unit := do
  match ← ask .aborted with
  | none => pure ()
  | some reason => fail (.object (reason.getD
      { name := .string "AbortError", message := "ROM port preparation cancelled" }))

/-- `catch (error) { checkAbort(signal); throw … }` behind an enumeration. -/
def orFail (enumeration : Flow Enumeration) (error : Thrown) : Flow Enumeration :=
  attempt enumeration fun _ => do
    checkAbort
    fail error

/-- `Math.max(1, Math.ceil(deadline - now()))`. -/
def remaining (deadline : ℚ) : Flow ℤ := do
  let t ← ask .now
  pure (max 1 ⌈deadline - t⌉)

/-- `await sleep(Math.min(50, Math.max(1, deadline - now())), signal)`. -/
def pause (deadline : ℚ) : Flow Unit := do
  let t ← ask .now
  ask (.sleep (min 50 (max 1 (deadline - t))))

def modifyTransition (f : Transition → Transition) : Flow Unit :=
  update fun s => { s with transition := f s.transition }

/-- Fail with an error that carries the transition. -/
def failWith {α : Type} (code message : String) : Flow α := do
  let s ← getState
  fail (failure code message s.transition)

/-! ## The selected port -/

/-- The identity that a recovery asks for. -/
structure Expected where
  mac : Js := .undefined
  location : Js := .undefined
  deriving DecidableEq

/-- The argument of `prepareNodeRomPort`. -/
structure Options where
  port : Js := .undefined
  timeout : Js := .number 5000
  expectedIdentity : Option Expected := none
  deriving DecidableEq

/-- What `prepareNodeRomPort` returns. -/
structure Prepared where
  port : Js
  expectedMac : Option String
  transition : Option Transition

/-- The port, a text without control characters. -/
def checkPort : Js → Except Thrown String
  | .string port =>
    if port = "" ∨ port.toList.any fun c => c ≤ '\x1f' ∨ c = '\x7f' then
      .error (typeError "ROM preparation requires a local port")
    else .ok port
  | _ => .error (typeError "ROM preparation requires a local port")

def checkTimeout (message : String) (timeout : Js) : Except Thrown ℤ :=
  match timeout.safeInteger? with
  | some n => if n ≤ 0 ∨ 5000 < n then .error (rangeError message) else .ok n
  | none => .error (rangeError message)

def requiredIdentity : Option Expected → Except Thrown (Option Identity)
  | none => .ok none
  | some expected => match identityOf expected.mac expected.location with
    | none => .error (typeError "Bound ROM preparation requires a MAC and physical USB location")
    | some id => .ok (some id)

/-- One turn of the loop that waits for the path. -/
def resolveTurn (port : String) (settleDeadline : ℚ) : Flow (Turn String) :=
  attempt (do
    match ← ask (.realpath port) with
    | .string canonical =>
      failIf (canonical = "") (failure "ROM_PORT_LOST"
        "The selected path has no canonical serial address")
      pure (.found canonical)
    | _ => fail (failure "ROM_PORT_LOST"
        "The selected path has no canonical serial address")) fun error => do
    let lost := failure "ROM_PORT_LOST"
      "The selected serial path is unavailable; select its current port"
    checkAbort
    let code ← lift error.code
    failIf (code ≠ .string "ENOENT") lost
    let t ← ask .now
    failIf (settleDeadline ≤ t) lost
    let t ← ask .now
    ask (.sleep (min 50 (settleDeadline - t)))
    pure .again

/-- The canonical address of the port. -/
def resolve (fuel : ℕ) (port : String) (settleDeadline : ℚ) : Flow (Option (Option String)) :=
  match comKey (.string port) with
  | some key => pure (some (some key))
  | none => waitFor (do checkAbort; resolveTurn port settleDeadline) fuel

/-- The descriptor belongs to the selected port. -/
def isSelected (port canonical : String) (item : Port) : Bool :=
  item.path.same (.string port) || item.path.same (.string canonical) ||
    comKey item.path = some canonical

/-- What the selected port turns out to be. -/
inductive Selection
  | itself (result : Prepared)
  | runtime (current : Port) (id : Identity)

/-- The path is used as it is. -/
def unprobed (canonical : String) : Prepared := ⟨.string canonical, none, none⟩

def select (port canonical : String) (required : Option Identity) (ports : List Port) :
    Except Thrown Selection :=
  match ports.filter (isSelected port canonical) with
  | [] => match required with
    | some _ => .error (failure "ROM_PORT_LOST" "The bound runtime port is no longer enumerated")
    | none => .ok (.itself (unprobed canonical))
  | [current] =>
    let expectedMac := mac current.serialNumber
    let location := physicalLocation current.location
    if required.any fun id => ¬ hasIdentity id current then
      .error (failure "ROM_RUNTIME_IDENTITY_MISMATCH"
        "The selected runtime descriptors changed before recovery")
    else if nativeRom current then
      .ok (.itself ⟨current.path, expectedMac, some
        { selectedPort := port, serial := expectedMac, location := location, observed := true,
          port := some current.path }⟩)
    else if nativeRuntime current then
      match identityOf current.serialNumber current.location with
      | some id => .ok (.runtime current id)
      | none => .error (failure "ROM_PORT_IDENTITY_REQUIRED"
          "Native USB runtime requires a MAC serial and physical USB location")
    else .ok (.itself (unprobed canonical))
  | _ => .error (failure "ROM_PORT_AMBIGUOUS" "The selected port has ambiguous descriptors")

/-- The first enumeration; without one, the known path is used as it is. -/
def enumerateSelected (timeout : ℤ) (required : Option Identity) : Flow (Option Enumeration) :=
  attempt (do
    let ports ← ask (.listSerial timeout)
    pure (some ports)) fun _ => do
    checkAbort
    failIf (required ≠ none) (failure "ROM_PORT_IDENTITY_REQUIRED"
      "Cannot confirm the bound runtime descriptors")
    pure none

/-! ## The handoff -/

/-- The identity of the connected runtime, as it says itself. -/
def runtimeIdentity (timeout : ℤ) (connected : Connected) : Flow (Js × IdentitySource) :=
  if connected.deviceId = .undefined ∨ connected.deviceId = .null then do
    let result ← ask (.execute timeout)
    checkAbort
    let id ← lift (legacyId result)
    pure (.string id, .machineUniqueId)
  else pure (connected.deviceId, .runtimeDeviceId)

/-- The bootloader command. -/
def submit (timeout : ℤ) : Flow Unit := do
  modifyTransition fun t => { t with
    requested := true, command := some ⟨true, false, .string "unknown", none⟩ }
  attempt (do
    let result ← ask (.control timeout)
    checkAbort
    let command ← lift (accepted result)
    modifyTransition fun t => { t with command := some command }) fun error => do
    checkAbort
    let unknown ← lift error.outcomeUnknown
    failIf (unknown = false) error
    modifyTransition fun t => { t with
      command := some ⟨true, false, .string "unknown", some (errorInfo error)⟩ }

/-- The session with the selected runtime, up to the bootloader command. -/
def handoff (timeout : ℤ) (current : Port) (id : Identity) : Flow Unit := do
  ask (.serialTransport current.path)
  let device ← ask .createDevice
  update fun s => { s with device := device }
  failIf (device = false) (typeError "device.connect is not a function")
  let connected ← ask (.connect timeout)
  checkAbort
  lift (checkOwner connected)
  let runtime ← runtimeIdentity timeout connected
  failIf (mac runtime.1 ≠ some id.mac) (failure "ROM_RUNTIME_IDENTITY_MISMATCH"
    "Runtime identity does not match the selected USB serial")
  modifyTransition fun t => { t with identitySource := some runtime.2 }
  checkAbort
  submit timeout

/-- `if (device)` of the `finally` clause. -/
def cleanUp : Flow Unit := do
  let s ← getState
  if s.device then
    attempt (do
      ask .disconnect
      modifyTransition fun t => { t with cleanup := some .ok }) fun error =>
      modifyTransition fun t => { t with cleanup := some (.failed (errorInfo error)) }
  else pure ()

/-- `try { … } catch (error) { primary = error }`. -/
def caught (body : Flow Unit) : Flow (Option Thrown) :=
  attempt (do body; pure none) fun error => pure (some error)

/-- `primary ??= error`. -/
def orError : Option Thrown → Option Thrown → Option Thrown
  | none, late => late
  | some (.nullish text), late => some (late.getD (.nullish text))
  | primary, _ => primary

/-- The ROM of the selected device, if the enumeration has it. -/
def matchingRom (id : Identity) (transition : Transition) (candidates : Enumeration) :
    Except Thrown (Option Port) :=
  if candidates = none then
    .error (failure "ROM_PORT_ENUMERATION_FAILED"
      "Serial enumeration returned invalid descriptors" transition)
  else do
    let ports ← descriptors candidates
    match ports.filter fun item => nativeRom item && hasIdentity id item with
    | [] => .ok none
    | [selectedRom] => .ok (some selectedRom)
    | _ => .error (failure "ROM_PORT_AMBIGUOUS" "Multiple ROM ports match the selected device"
        transition)

/-- One turn of the loop that waits for the ROM of the selected device. -/
def rebindTurn (id : Identity) (deadline : ℚ) : Flow (Turn Port) := do
  let t ← ask .now
  if deadline ≤ t then pure .quit
  else do
    checkAbort
    let timeout ← remaining deadline
    let s ← getState
    let candidates ← orFail (ask (.listSerial timeout)) (failure "ROM_PORT_REBIND_FAILED"
      "Cannot enumerate the selected device after bootloader submission" s.transition)
    checkAbort
    let t ← ask .now
    if deadline ≤ t then pure .quit
    else do
      match ← lift (matchingRom id s.transition candidates) with
      | some selectedRom => pure (.found selectedRom)
      | none => do
        pause deadline
        pure .again

/-- The transition before anything was done. -/
def Transition.planned (port : String) (current : Port) (id : Identity) : Transition where
  selectedPort := port
  runtimePort := some current.path
  expectedMac := some id.mac
  location := some id.location
  command := some ⟨false, false, .string "not_attempted", none⟩

/-- The handoff of a selected runtime to the ROM of the same device. -/
def handOver (fuel : ℕ) (port : String) (timeout : ℤ) (current : Port) (id : Identity) :
    Flow (Option Prepared) := do
  update fun _ => ⟨.planned port current id, false⟩
  let primary ← caught (handoff timeout current id)
  cleanUp
  let late ← caught checkAbort
  let s ← getState
  match (orError primary late).filter Thrown.truthy with
  | some error => fail (error.withTransition s.transition)
  | none => do
    let t ← ask .now
    match ← waitFor (rebindTurn id (t + timeout)) fuel with
    | none => pure none
    | some none =>
      failWith "ROM_PORT_REBIND_TIMEOUT"
        "The selected device did not expose one matching ROM port within the deadline"
    | some (some selectedRom) => do
      modifyTransition fun t => { t with observed := true, port := some selectedRom.path }
      let s ← getState
      pure (some ⟨selectedRom.path, some id.mac, some s.transition⟩)

/-- `prepareNodeRomPort`; `none` while a loop is still waiting when its turns are used up. -/
def prepareNodeRomPort (fuel : ℕ) (o : Options) : Flow (Option Prepared) := do
  let port ← lift (checkPort o.port)
  let timeout ← lift (checkTimeout
    "ROM preparation timeout must be positive and at most 5000 ms" o.timeout)
  let required ← lift (requiredIdentity o.expectedIdentity)
  checkAbort
  let t ← ask .now
  match ← resolve fuel port (t + timeout) with
  | some (some canonical) => do
    checkAbort
    match ← enumerateSelected timeout required with
    | none => pure (some (unprobed canonical))
    | some enumeration => do
      checkAbort
      let ports ← lift (descriptors enumeration)
      match ← lift (select port canonical required ports) with
      | .itself result => pure (some result)
      | .runtime current id => handOver fuel port timeout current id
  | _ => pure none

/-! ## Recovery -/

/-- `previous.transition`. -/
structure PreviousTransition where
  requested : Js := .undefined
  observed : Js := .undefined
  serial : Js := .undefined
  location : Js := .undefined
  deriving DecidableEq

/-- What `recoverNodeRomPort` is told about the earlier selection. -/
structure Previous where
  port : Js := .undefined
  expectedMac : Js := .undefined
  transition : Option PreviousTransition := none
  deriving DecidableEq

/-- The device that an untouched ROM selection was bound to. -/
def boundIdentity (previous : Previous) : Option Identity :=
  match previous.transition with
  | none => none
  | some transition => match identityOf previous.expectedMac transition.location with
    | none => none
    | some id =>
      if transition.observed = .string "rom" ∧ transition.requested = .boolean false ∧
          mac transition.serial = some id.mac then some id
      else none

/-- The runtime of the bound device, if the enumeration has it. -/
def findRuntime (id : Identity) (ports : List Port) : Except Thrown (Option Port) :=
  let candidates := ports.filter fun item => nativeRom item || nativeRuntime item
  let conflicting := candidates.filter fun item =>
    (mac item.serialNumber = some id.mac || physicalLocation item.location = some id.location) &&
      !hasIdentity id item
  if conflicting ≠ [] then
    .error (failure "ROM_RUNTIME_IDENTITY_MISMATCH"
      "Runtime descriptors do not match the previously selected ROM device")
  else match candidates.filter (hasIdentity id) with
    | [] => .ok none
    | [item] => .ok (if nativeRuntime item then some item else none)
    | _ => .error (failure "ROM_PORT_AMBIGUOUS"
        "Multiple native USB ports match the selected device")

/-- One turn of the loop that waits for the runtime. -/
def watchTurn (id : Identity) (deadline : ℚ) : Flow (Turn Port) := do
  let t ← ask .now
  if deadline ≤ t then pure .quit
  else do
    checkAbort
    let enumeration ← orFail (do
      let timeout ← remaining deadline
      ask (.listSerial timeout)) (failure "ROM_PORT_ENUMERATION_FAILED"
      "Cannot verify the selected device for read-only initialization recovery")
    checkAbort
    let t ← ask .now
    failIf (deadline ≤ t) (failure "ROM_PORT_REBIND_TIMEOUT"
      "Read-only initialization recovery enumeration exceeded its deadline")
    let ports ← lift (descriptors enumeration)
    match ← lift (findRuntime id ports) with
    | some runtime => pure (.found runtime)
    | none => do
      pause deadline
      pure .again

/-- The prepared port is the ROM of the bound device. -/
def keepsIdentity (id : Identity) (result : Prepared) : Bool :=
  result.expectedMac = some id.mac && match result.transition with
    | none => false
    | some transition => transition.observed && match transition.location with
      | none => false
      | some location => physicalLocation (.string location) = some id.location

/-- `result.transition.recovery = …`. -/
def Prepared.recovered (result : Prepared) (recovery : Recovery) : Prepared :=
  { result with transition := result.transition.map fun t => { t with recovery := some recovery } }

/-- `recoverNodeRomPort`; the outer `none` while a loop is still waiting when its turns are used
up, the inner one is `null`. -/
def recoverNodeRomPort (fuel : ℕ) (previous : Previous) (timeout : Js) :
    Flow (Option (Option Prepared)) := do
  checkAbort
  let ms ← lift (checkTimeout "ROM recovery timeout must be positive and at most 5000 ms" timeout)
  match boundIdentity previous with
  | none => pure (some none)
  | some id => do
    let t ← ask .now
    match ← waitFor (watchTurn id (t + ms)) fuel with
    | none => pure none
    | some none => pure (some none)
    | some (some runtime) => do
      match ← prepareNodeRomPort fuel ⟨runtime.path, timeout,
          some ⟨.string id.mac, .string id.location⟩⟩ with
      | none => pure none
      | some result => do
        failIf (keepsIdentity id result = false) (failure "ROM_RUNTIME_IDENTITY_MISMATCH"
          "Recovery did not preserve the selected physical device identity")
        pure (some (some (result.recovered ⟨previous.port, runtime.productId⟩)))

end EspVision.NodeRomPort
