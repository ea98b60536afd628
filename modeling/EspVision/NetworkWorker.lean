import EspVision.NetworkService
import EspVision.TaskProgram

/-!
# The worker of the network service (`network_service.c`)

The task `network_worker` as a program: its atomic actions are the critical sections, the readings
of the clock, the calls of the driver, and the commit of a record. Waiting is left out, since every
wait of the task ends by itself.
-/
namespace EspVision.NetworkService

open TaskProgram

/-- How a call of the driver ends. -/
inductive Err
  | ok | wifiConn | notConnect | notStarted | notStopped | failed
  deriving DecidableEq

/-- `wifi_mode_t`. -/
inductive Mode
  | null | sta | ap | apsta
  deriving DecidableEq

/-- `mode_has_sta`. -/
def Mode.hasSta : Mode → Bool
  | .sta | .apsta => true
  | _ => false

def Mode.withSta : Mode → Mode
  | .null | .sta => .sta
  | .ap | .apsta => .apsta

def Mode.withoutSta : Mode → Mode
  | .null | .sta => .null
  | .ap | .apsta => .ap

/-- What an action of the worker gets from outside. -/
structure Outcome where
  err : Err := .ok
  mode : Mode := .null
  jitter : ℕ := 0
  persist : PersistAnswers := {}
  deriving DecidableEq

/-- Where the worker stands: inside a sequence of driver calls, and between the start of the
connection attempt of a `network.configure` and its verdict. -/
structure Place where
  driving : Bool := false
  trying : Bool := false
  deriving DecidableEq

abbrev Task := Prog Service Outcome Place

/-! ## The driver -/

/-- A failed call is recorded. -/
def Service.driverFailed (s : Service) : Service :=
  { s with trace := { s.trace with cause := .driver, driverOk := false } }

/-- A call of the driver that does not fail with the errors that `tolerated` lists. -/
def driverCall (tolerated : List Err) (f : Service → Service) (trying : Bool) : Task Bool :=
  atomic { driving := true, trying := trying } fun o s =>
    if o.err = .ok then (true, f s)
    else if o.err ∈ tolerated then (true, s)
    else (false, s.driverFailed)

/-- `esp_wifi_get_mode`, after the value that the mode has when the call fails. -/
def wifiGetMode : Task (Err × Mode) :=
  atomic { driving := true } fun o s =>
    if o.err = .ok then ((.ok, o.mode), s)
    else if o.err = .notStarted then ((.notStarted, .null), s)
    else ((o.err, .null), s.driverFailed)

def wifiSetMode (_ : Mode) : Task Bool := driverCall [] id false
def wifiStart : Task Bool := driverCall [.notStopped] id false
def wifiStop : Task Bool := driverCall [.notStarted] id false
def wifiDisconnect : Task Bool := driverCall [.notConnect, .notStarted] id false
def wifiSetConfig (p : Profile) : Task Bool := driverCall [] (fun s => { s with profile := p }) false

/-- `esp_wifi_get_config`. -/
def wifiGetConfig : Task (Option Profile) :=
  atomic { driving := true } fun o s =>
    if o.err = .ok then (some s.profile, s) else (none, s.driverFailed)

/-- The driver starts to make an association with its profile. -/
def Service.associate (s : Service) (trying : Bool) : Service :=
  { s with
    associations := s.associations ++ [s.profile]
    trace := { s.trace with
      own := if trying then some s.associations.length else s.trace.own } }

/-- `esp_wifi_connect`. -/
def wifiConnect (trying : Bool) : Task Bool :=
  driverCall [.wifiConn] (fun s => s.associate trying) trying

/-! ## Connecting -/

/-- `ensure_sta_mode`. -/
def ensureStaMode : Task Bool := do
  let (err, mode) ← wifiGetMode
  if err ≠ .ok ∧ err ≠ .notStarted then pure false
  else do
    let set ← (if mode.hasSta then pure true else wifiSetMode mode.withSta : Task Bool)
    onlyIf set wifiStart

/-- One look of `wait_for_ip`. -/
def Service.look (s : Service) (interrupt : Bool) : Option Bool × Service :=
  if s.staConnected && s.ipv4 != [] then
    (some true, { s with trace := { s.trace with cause := .address s.trace.addressOf } })
  else if !s.connectInProgress && !s.staAssociated then
    (some false, { s with trace := { s.trace with cause := .down s.trace.downBy } })
  else if interrupt && s.hasOperation && s.operation.state == .queued then
    (some false, { s with trace := { s.trace with cause := .interrupted } })
  else (none, s)

/-- The clock has not reached the deadline. -/
def Service.early (s : Service) (deadline : ℕ) : Bool × Service :=
  if s.clock < deadline then (true, s)
  else (false, { s with trace := { s.trace with cause := .deadline } })

/-- `wait_for_ip`. -/
def waitForIp (timeoutMs : ℕ) (interrupt trying : Bool) : Task Bool := do
  let deadline ← atomic { trying := trying } fun _ s => (s.clock + timeoutMs * 1000, s)
  repeatUntil { trying := trying } do
    let early ← atomic { trying := trying } fun _ s => s.early deadline
    if early then atomic { trying := trying } fun _ s => s.look interrupt else pure (some false)

/-- `classify_connect_failure`. -/
def Service.classifyConnectFailure (s : Service) : Error :=
  match s.disconnectReason with
  | .authFail | .connectionFail => .authFailed
  | .noApFound | .noApFoundInRssiThreshold | .noApFoundInAuthmodeThreshold
  | .noApFoundWCompatibleSecurity => .apNotFound
  | _ => if s.staAssociated then .ipTimeout else .connectTimeout

/-- The attempt begins. -/
def Service.publishAttempt (s : Service) (r : Record) (trying : Bool) : Service :=
  { s with
    staConnectRequested := true
    connectInProgress := true
    staAssociated := false
    retryAt := 0
    disconnectReason := .none
    ipv4 := []
    ssid := r.ssid.take r.ssidLength.toNat
    trace := { s.trace with
      own := if trying then none else s.trace.own, addressOf := none, downBy := none } }

/-- `connect_record`; `none` is `ESP_OK`. -/
def connectRecord (r : Record) (timeoutMs : ℕ) (interrupt trying : Bool) : Task Error := do
  let ready ← ensureStaMode
  if !ready then pure .driverError
  else do
    let set ← wifiSetConfig (configFromRecord r)
    if !set then pure .driverError
    else do
      update { driving := true } fun s => s.publishAttempt r trying
      let connecting ← wifiConnect trying
      if !connecting then do
        update {} fun s => { s with connectInProgress := false }
        pure .driverError
      else do
        let connected ← waitForIp timeoutMs interrupt trying
        if connected then pure .none
        else atomic { trying := trying } fun _ s => (s.classifyConnectFailure, s)

/-- `schedule_retry`. -/
def scheduleRetry : Task Unit :=
  atomic {} fun o s =>
    let s := { s with connectInProgress := false, staConnected := false, ipv4 := [] }
    ((), if s.retryAt = 0 ∨ s.retryAt ≤ s.clock then s.retryLater o.jitter else s)

/-- The service wants to connect by itself. -/
def Service.reconnectDue (s : Service) : Bool :=
  let requested := if s.staRuntimeControlled then s.staConnectRequested
    else s.persisted.configured != 0 && s.persisted.enabled != 0
  let limitReached := s.runtimeOverride && s.pythonReconnectLimit != 0 &&
    s.pythonReconnectLimit ≤ s.pythonReconnectCount
  let due := decide (s.retryAt = 0 ∨ s.retryAt ≤ s.clock)
  !s.hasOperation && !s.pythonMutationActive && requested && !s.connectInProgress &&
    !s.staConnected && !limitReached && due

/-- `try_reconnect`. -/
def tryReconnect : Task Unit := do
  let attempt ← atomic {} fun _ s =>
    if s.reconnectDue then (true, { s with connectInProgress := true }) else (false, s)
  if !attempt then pure ()
  else do
    let ready ← ensureStaMode
    let connecting ← onlyIf ready do
      update { driving := true } fun s => { s with retryAt := 0 }
      wifiConnect false
    if !connecting then scheduleRetry
    else do
      let connected ← atomic {} fun _ s => (s.staConnected, s)
      if connected then pure () else scheduleRetry

/-! ## Operations -/

/-- `disconnect_sta`. -/
def disconnectSta : Task Bool := do
  update {} fun s =>
    { s with staConnectRequested := false, connectInProgress := false, retryAt := 0 }
  wifiDisconnect

/-- `clear_sta_credentials`. -/
def clearStaCredentials : Task Bool := do
  let ready ← ensureStaMode
  onlyIf ready (wifiSetConfig {})

/-- `stop_sta_interface`. -/
def stopStaInterface : Task Bool := do
  let (err, mode) ← wifiGetMode
  if err = .notStarted then pure true
  else if err ≠ .ok then pure false
  else if !mode.hasSta then pure true
  else if mode.withoutSta ≠ .null then wifiSetMode mode.withoutSta
  else do
    let stopped ← wifiStop
    onlyIf stopped (wifiSetMode .null)

/-- A record goes to the storage. -/
def persist (r : Record) : Task Bool :=
  atomic {} fun o s =>
    match persistRecord s.stored r o.persist with
    | (true, stored) => (true, { s with stored := stored }.record
        (.committed s.activeRequest r s.trace.verdict))
    | (false, stored) => (false, { s with stored := stored })

/-- `persist_and_publish`. -/
def persistAndPublish (r : Record) : Task Bool := do
  let done ← persist r
  if done then do
    update {} fun s => { s with persisted := r, configurationError := false }
    pure true
  else pure false

/-- The name of the network that the record is for. -/
def Record.name (r : Record) : List UInt8 := r.ssid.take r.ssidLength.toNat

/-- `rollback_runtime`. -/
def rollbackRuntime (previous : Record) : Task Unit := do
  update {} fun s => { s with trace := { s.trace with driverOk := true } }
  if previous.configured = 0 then do
    let _ ← disconnectSta
    let _ ← clearStaCredentials
    update {} fun s => { s with ssid := [], ipv4 := [] }
  else if previous.enabled ≠ 0 then do
    let failure ← connectRecord previous configTimeoutMs false false
    if failure = .none then pure () else scheduleRetry
  else do
    let ready ← ensureStaMode
    let _ ← onlyIf ready (wifiSetConfig (configFromRecord previous))
    let _ ← disconnectSta
    update {} fun s => { s with ssid := previous.name, ipv4 := [] }

/-- `notify_operation_change` as the operation starts to run. -/
def Service.startOperation (s : Service) (request : NetworkRequest) : Service :=
  { s with
    operation := if s.hasOperation then { s.operation with state := .running, error := .none }
      else s.operation
    trace := { s.trace with
      before := (s.persisted, s.stored), verdict := {}, own := none, cause := .none }
    }.record (.executed request s.clock)

/-- `complete_operation`. -/
def Service.completeOperation (s : Service) (succeeded : Bool) (error : Error) : Service :=
  if s.hasOperation then
    let operation := { s.operation with
      state := if succeeded then .succeeded else .failed
      error := if succeeded then .none else error }
    { s with
      operation := operation
      lastOperation := operation
      lastRequest := {
        id := s.activeRequest.id
        action := s.activeRequest.action
        parameterHash := s.activeRequest.parameterHash }
      hasLastOperation := true
      hasOperation := false
      replyReleased := false
      activeRequest := {}
      pythonMutationActive := false }.record (.completed {
        request := s.activeRequest
        succeeded := succeeded
        error := if succeeded then .none else error
        verdict := s.trace.verdict
        before := s.trace.before
        after := (s.persisted, s.stored)
        profile := s.profile
        driverOk := s.trace.driverOk })
  else s

def completeOperation (succeeded : Bool) (error : Error) : Task Unit :=
  update {} fun s => s.completeOperation succeeded error

/-- The record that a `network.configure` is about. -/
def candidateRecord (previous : Record) (request : NetworkRequest) : Record where
  revision := previous.revision + 1
  configured := 1
  enabled := 1
  ssidLength := request.ssidLength
  passwordLength := request.passwordLength
  ssid := memcpy (cleared ssidMax) request.ssid request.ssidLength.toNat
  password := memcpy (cleared passwordMax) request.password request.passwordLength.toNat

/-- How the attempt ended is kept. -/
def Service.judge (s : Service) : Service :=
  { s with trace := { s.trace with verdict := {
      cause := s.trace.cause
      own := s.trace.own
      made := s.trace.own.bind (s.associations[·]?) } } }

/-- `run_configure`. -/
def runConfigure (request : NetworkRequest) : Task Unit := do
  let previous ← atomic {} fun _ s => (s.persisted, { s with
    runtimeOverride := false
    staRuntimeControlled := false
    reconnectPaused := false
    pythonReconnectLimit := 0
    pythonReconnectCount := 0 })
  let candidate := candidateRecord previous request
  let _ ← disconnectSta
  let failure ← connectRecord candidate configTimeoutMs false true
  update {} Service.judge
  if failure ≠ .none then do
    rollbackRuntime previous
    completeOperation false failure
  else do
    let published ← persistAndPublish candidate
    if !published then do
      rollbackRuntime previous
      completeOperation false .persistFailed
    else do
      update {} fun s => { s with
        runtimeOverride := false
        staRuntimeControlled := false
        reconnectPaused := false
        staConnectRequested := true
        retryCount := 0
        retryAt := 0 }
      completeOperation true .none

/-- The driver has the profile of the record. -/
def Profile.same (p : Profile) (r : Record) : Bool :=
  (stringOf p.ssid).length == r.ssidLength.toNat &&
    (stringOf p.password).length == r.passwordLength.toNat &&
    p.ssid.take r.ssidLength.toNat == r.name &&
    p.password.take r.passwordLength.toNat == r.password.take r.passwordLength.toNat

/-- The driver gets the profile of the record that is enabled. -/
def restoreProfile (r : Record) : Task Bool := do
  let ready ← ensureStaMode
  if !ready then pure false
  else do
    let current ← wifiGetConfig
    match current with
    | none => pure false
    | some p =>
      if p.same r then pure true
      else do
        let disconnected ← disconnectSta
        onlyIf disconnected (wifiSetConfig (configFromRecord r))

/-- The flags after `network.enable`. -/
def Service.enabled (s : Service) (r : Record) (enable driverOk : Bool) : Service :=
  let s := { s with
    runtimeOverride := !driverOk
    staRuntimeControlled := !driverOk
    reconnectPaused := false
    retryCount := 0
    pythonReconnectLimit := 0
    configurationError := !driverOk
    staConnectRequested := if !enable || !driverOk then false else s.staConnectRequested }
  if enable && driverOk then { s with ssid := r.name, staConnectRequested := true, retryAt := 0 }
  else s

/-- The end of `network.enable` when it disables. -/
def disableSta : Task Bool := do
  let disconnected ← disconnectSta
  if disconnected then pure true
  else do
    update {} fun s => { s with
      runtimeOverride := true, staRuntimeControlled := true, configurationError := true }
    pure false

/-- `run_enable`. -/
def runEnable (request : NetworkRequest) : Task Unit := do
  let current ← atomic {} fun _ s => (s.persisted, s)
  if current.configured = 0 ∧ request.enabled ≠ 0 then completeOperation false .driverError
  else do
    let updated := { current with enabled := request.enabled, revision := current.revision + 1 }
    let published ← persistAndPublish updated
    if !published then completeOperation false .persistFailed
    else do
      let enable := request.enabled != 0
      let ready ← (if enable then restoreProfile updated else pure true : Task Bool)
      update {} fun s => s.enabled updated enable ready
      let done ← (if ready && !enable then disableSta else pure ready : Task Bool)
      if done then completeOperation true .none else completeOperation false .driverError

/-- The flags and the record after `network.forget`. -/
def Service.forgotten (s : Service) (empty : Record) (cleared : Bool) : Service :=
  let s := { s with
    persisted := empty
    reconnectPaused := false
    staConnectRequested := false
    configurationError := !cleared
    runtimeOverride := !cleared
    staRuntimeControlled := !cleared
    retryCount := 0
    retryAt := 0
    pythonReconnectLimit := 0 }
  if cleared then
    { s with staActive := false, staConnected := false, staAssociated := false
             ssid := [], ipv4 := [] }
  else s

/-- `run_forget`. -/
def runForget : Task Unit := do
  let empty ← atomic {} fun _ s => (({ revision := s.persisted.revision + 1 } : Record), s)
  let persisted ← persist empty
  if !persisted then completeOperation false .persistFailed
  else do
    let _ ← disconnectSta
    let credentials ← clearStaCredentials
    let interface ← stopStaInterface
    let cleared := credentials && interface
    update {} fun s => s.forgotten empty cleared
    completeOperation cleared (if cleared then .none else .driverError)

/-- The wait of `run_operation` for the response to the request. -/
def awaitReply (deadline : ℕ) : Task Unit :=
  repeatUntil {} do
    let early ← atomic {} fun _ s => (decide (s.clock < deadline), s)
    if early then atomic {} fun _ s => (if s.replyReleased then some () else none, s)
    else pure (some ())

/-- The operation itself. -/
def perform (request : NetworkRequest) : Task Unit :=
  match request.action with
  | .configure => runConfigure request
  | .enable => runEnable request
  | .forget => runForget
  | .none => completeOperation false .driverError

/-- `run_operation`. -/
def runOperation : Task Unit := do
  let job ← atomic {} fun _ s =>
    (if s.hasOperation && s.operation.state == .queued then some (s.activeRequest, s.replyDeadline)
      else none, s)
  match job with
  | none => pure ()
  | some (request, deadline) => do
    awaitReply deadline
    update {} fun s => s.startOperation request
    perform request

/-! ## The worker -/

/-- The connection that the worker makes first. -/
def connectInitially : Task Unit := do
  let initial ← atomic {} fun _ s =>
    if s.persisted.configured != 0 && s.persisted.enabled != 0 && !s.hasOperation &&
        !s.pythonMutationActive && !s.connectInProgress && !s.staConnected then
      (some s.persisted, { s with
        staConnectRequested := true, connectInProgress := true, retryAt := 0 })
    else (none, s)
  match initial with
  | none => pure ()
  | some r => do
    let failure ← connectRecord r configTimeoutMs true false
    if failure = .none then pure () else scheduleRetry

/-- One round of the loop. -/
def workerRound : Task Unit := do
  let (pending, retryAt) ← atomic {} fun _ s =>
    ((s.hasOperation && s.operation.state == .queued, s.retryAt), s)
  if pending then runOperation
  else do
    let due ← atomic {} fun _ s => (s.reconnectDue, s)
    if !due then pure ()
    else do
      let now ← atomic {} fun _ s => (s.clock, s)
      if retryAt = 0 ∨ retryAt ≤ now then tryReconnect else pure ()

/-- `network_worker`. -/
def networkWorker : Task Empty := do
  connectInitially
  forever {} workerRound

/-- The service after boot, with what the storage holds. -/
def Service.boot (d : Defaults) (stored : Stored) (a : BootAnswers) : Service :=
  let restored := restoreRecordFromNvs d stored a
  { persisted := restored.persisted
    configurationError := restored.configurationError
    ssid := if restored.persisted.configured = 0 then [] else restored.persisted.name
    stored := restored.stored }

/-- The worker among the rest of the system, from boot on; the rest takes only steps that are `ok`
where the worker stands. -/
def network (sha256 : List UInt8 → List UInt8) (ok : Place → Other → Service → Prop) :
    TransitionSystem.System (Task Empty × Service) (Move Other Outcome) :=
  among networkWorker (fun s => ∃ d stored a, s = Service.boot d stored a)
    (Service.other sha256) ok

end EspVision.NetworkService
