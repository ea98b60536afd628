import EspVision.DeviceActions
import EspVision.OperationCoordinator

/-!
# The gateway to the device (`DeviceLease` and `DeviceActionGateway` of `device_actions.js`)

A call of `invoke` is checked at entry, waits for the answer of `authorize`, and then gives its
handler to the coordinator. Leases, sessions, answers and operations change between these steps as
they like.
-/
namespace EspVision.DeviceActions
open EventLog TransitionSystem OperationCoordinator
open PlainObject (Text units)

/-! ## The lease -/

structure Lease where
  primary : Option Text := none
  holders : List (ℕ × Text) := []
  sequence : ℕ := 1
  deriving DecidableEq

/-- `assertActor`. -/
def assertActor (actor : Text) : Except ActionError Unit :=
  throwIf (!deviceActors.contains actor)
    { code := units "INVALID_ACTOR"
      message := units "Unsupported device actor: " ++ actor
      recovery := some (units "Use one of: " ++ commaSeparated deviceActors ++ units ".") }

/-- `DeviceLeaseConflictError`. -/
def leaseConflict (owner requester : Text) : ActionError where
  code := units "DEVICE_BUSY"
  message := units "Device is controlled by " ++ owner ++ units "; " ++ requester ++
    units " cannot acquire it"
  recovery := some (units
    "Disconnect the current controller or perform an explicit handoff, then retry.")
  details := [(units "owner", owner), (units "requester", requester)]

def leaseRequired : ActionError where
  code := units "DEVICE_LEASE_REQUIRED"
  message := units "No actor owns the active device session"
  recovery := some (units "Connect the device and acquire its lease before invoking device actions.")

namespace Lease

/-- `acquire`, and the number of the new lease. -/
def acquire (l : Lease) (actor : Text) : Except ActionError (ℕ × Lease) := do
  assertActor actor
  l.primary.forM fun owner => throwIf (actor ≠ owner) (leaseConflict owner actor)
  return (l.sequence,
    { primary := some (l.primary.getD actor)
      sequence := l.sequence + 1
      holders := l.holders ++ [(l.sequence, actor)] })

/-- `release`; a lease that was released before changes nothing. -/
def release (l : Lease) (id : ℕ) : Lease :=
  let holders := l.holders.filter fun h => h.1 ≠ id
  match holders with
  | [] => { l with holders := [], primary := none }
  | first :: _ =>
    match l.primary with
    | some owner =>
      if (holders.map Prod.snd).contains owner then { l with holders := holders }
      else { l with holders := holders, primary := some first.2 }
    | none => { l with holders := holders, primary := some first.2 }

/-- `assertAccess`. -/
def assertAccess (l : Lease) (actor : Text) : Except ActionError Unit := do
  assertActor actor
  match l.primary with
  | none => throw leaseRequired
  | some owner => throwIf (!(l.holders.map Prod.snd).contains actor) (leaseConflict owner actor)

end Lease

/-! ## The registry -/

/-- `DeviceActionRegistry`: the descriptors, and the names that have a handler. -/
structure Registry where
  descriptors : List Descriptor := deviceActionDescriptors
  handlers : List Text := []

namespace Registry

def descriptor (r : Registry) (name : Text) : Option Descriptor :=
  r.descriptors.find? fun d => d.name == name

def unknownAction (name : Text) : ActionError :=
  { code := units "UNKNOWN_ACTION", message := units "Unknown device action: " ++ name }

/-- `validate`. -/
def validate (r : Registry) (name : Text) (input : Value) : Except ActionError Members :=
  match r.descriptor name with
  | none => throw (unknownAction name)
  | some d => applyDefaultsAndValidate input d.inputSchema

end Registry

/-! ## The gateway -/

/-- What `getSession` returns: a session, by its number, in its present state. -/
structure Session where
  id : ℕ
  state : Text
  deriving DecidableEq

def Session.ready (s : Session) : Bool := s.state == units "ready"

/-- The context of a call; an empty request id is none. -/
structure Context where
  actor : Text
  requestId : Text
  signal : Option ℕ := none
  deriving DecidableEq

/-- A call of `invoke` that passed its checks. -/
structure Invocation where
  id : ℕ
  descriptor : Descriptor
  input : Members
  context : Context

/-- How the promise of `authorize` settles. -/
inductive Verdict
  | allowed
  | denied
  | failed
  deriving DecidableEq

inductive GatewayEvent
  /-- `authorize` is called with the descriptor and the input of the invocation. -/
  | asked (inv : Invocation)
  | authorized (inv : Invocation)
  /-- `invoke` throws; no error where `authorize` has thrown its own. -/
  | rejected (id : ℕ) (error : Option ActionError)
  /-- The handler is called with the input of the invocation and this session. -/
  | handled (inv : Invocation) (session : Option Session)

/-- `DeviceActionGateway`, with the calls that wait for `authorize` and the invocations of the
operations that the coordinator was given, by the number of its `run` call. -/
structure Gateway where
  lease : Lease := {}
  session : Option Session := none
  calls : ℕ := 0
  authorizing : List Invocation := []
  operations : List Invocation := []
  coordinator : Coordinator := {}
  log : List GatewayEvent := []

def requestIdRequired : ActionError where
  code := units "REQUEST_ID_REQUIRED"
  message := units "Device actions require a requestId"

def unavailable (name : Text) : ActionError where
  code := units "ACTION_UNAVAILABLE"
  message := units "No handler is bound for " ++ name

def notReady : ActionError where
  code := units "DEVICE_NOT_READY"
  message := units "No ready ESP Vision device session"
  recovery := some (units "Connect the device and complete EV-MUX negotiation before retrying.")

def notAuthorized (name : Text) : ActionError where
  code := units "ACTION_NOT_AUTHORIZED"
  message := name ++ units " was not authorized"
  recovery := some (units "Request approval with a narrower action or input scope.")

namespace Gateway

/-- The check of an action that requires a ready device. -/
def assertReady (g : Gateway) (actor : Text) : Except ActionError Unit := do
  g.lease.assertAccess actor
  throwIf (!g.session.any Session.ready) notReady

/-- The checks of `invoke` in front of `authorize`. -/
def precheck (registry : Registry) (g : Gateway) (name : Text) (input : Value) (context : Context) :
    Except ActionError Invocation := do
  assertActor context.actor
  throwIf context.requestId.isEmpty requestIdRequired
  match registry.descriptor name with
  | none => throw (Registry.unknownAction name)
  | some descriptor =>
    let validatedInput ← registry.validate name input
    throwIf (!registry.handlers.contains name) (unavailable name)
    (if descriptor.requiresReadyDevice then g.assertReady context.actor else return)
    return ⟨g.calls, descriptor, validatedInput, context⟩

/-- `invoke`, as far as the call of `authorize`. -/
def invoke (registry : Registry) (g : Gateway) (name : Text) (input : Value) (context : Context) :
    Gateway :=
  match g.precheck registry name input context with
  | .error e => { g with calls := g.calls + 1, log := g.log ++ [.rejected g.calls (some e)] }
  | .ok inv =>
    { g with
      calls := g.calls + 1
      authorizing := g.authorizing ++ [inv]
      log := g.log ++ [.asked inv] }

/-- The arguments of `coordinator.run`. -/
def request (inv : Invocation) : Request :=
  ⟨inv.context.actor, inv.context.requestId, inv.descriptor.name, inv.context.signal⟩

/-- `invoke` behind `authorize`. -/
def resume (g : Gateway) (inv : Invocation) (verdict : Verdict) : Gateway :=
  let g := { g with authorizing := g.authorizing.filter fun i => i.id ≠ inv.id }
  match verdict with
  | .failed => { g with log := g.log ++ [.rejected inv.id none] }
  | .denied =>
    { g with log := g.log ++ [.rejected inv.id (some (notAuthorized inv.descriptor.name))] }
  | .allowed =>
    match g.coordinator.run (request inv) with
    | none => { g with log := g.log ++ [.authorized inv, .rejected inv.id none] }
    | some coordinator =>
      { g with
        coordinator := coordinator
        operations := g.operations ++ [inv]
        log := g.log ++ [.authorized inv] }

/-- The invocation whose operation the coordinator calls next. -/
def starting (g : Gateway) : Option Invocation :=
  match g.coordinator.active with
  | some ⟨item, .marked⟩ => g.operations[item.call]?
  | _ => none

end Gateway

inductive GatewayStep
  | invoke (name : Text) (input : Value) (context : Context)
  | resume (id : ℕ) (verdict : Verdict)
  | acquire (actor : Text)
  | release (id : ℕ)
  | setSession (session : Option Session)
  | operation (step : Step)

/-- One step; `none` where it cannot happen. -/
def Gateway.next (registry : Registry) (g : Gateway) : GatewayStep → Option Gateway
  | .invoke name input context => some (g.invoke registry name input context)
  | .resume id verdict =>
    (g.authorizing.find? fun inv => inv.id == id).map fun inv => g.resume inv verdict
  | .acquire actor =>
    match g.lease.acquire actor with
    | .error _ => none
    | .ok (_, lease) => some { g with lease := lease }
  | .release id => some { g with lease := g.lease.release id }
  | .setSession session => some { g with session := session }
  | .operation (.run _) => none
  | .operation .start => (g.coordinator.next .start).map fun coordinator =>
    { g with
      coordinator := coordinator
      log := g.log ++ g.starting.toList.map fun inv => .handled inv g.session }
  | .operation step => (g.coordinator.next step).map fun coordinator =>
    { g with coordinator := coordinator }

def gateway (registry : Registry) : System Gateway GatewayStep where
  init g := g = {}
  step g e g' := g.next registry e = some g'

end EspVision.DeviceActions
