import EspVision.NetworkRecord

/-!
# The network service (`network_service.c`)

The state behind `s_lock`, the handlers of Wi-Fi and IP events, the requests of the host, and the
calls that Python makes. Each function here is what one critical section does. The driver is what
the service sees of it: the station profile, the associations that it was asked to make, and the
events that it has posted and the event task has not handled yet. `trace` records what the service
did and does not influence it.
-/
namespace EspVision.NetworkService

/-! ## Data -/

/-- `esp_vision_network_action_t`. -/
inductive Action
  | none | configure | enable | forget
  deriving DecidableEq

/-- `esp_vision_network_operation_state_t`. -/
inductive OperationState
  | none | queued | running | succeeded | failed
  deriving DecidableEq

/-- `esp_vision_network_error_t`. -/
inductive Error
  | none | authFailed | apNotFound | connectTimeout | ipTimeout | persistFailed | driverError
  deriving DecidableEq

/-- `network_request_t`; the id is a C string. -/
structure NetworkRequest where
  id : List UInt8 := []
  action : Action := .none
  enabled : UInt8 := 0
  ssidLength : UInt8 := 0
  passwordLength : UInt8 := 0
  ssid : List UInt8 := cleared ssidSize
  password : List UInt8 := cleared passwordSize
  parameterHash : List UInt8 := cleared 32
  deriving DecidableEq

/-- `esp_vision_network_operation_t`. -/
structure Operation where
  id : List UInt8 := []
  action : Action := .none
  state : OperationState := .none
  error : Error := .none
  deriving DecidableEq

/-- What the service uses of `wifi_config_t`. -/
structure Profile where
  ssid : List UInt8 := cleared ssidMax
  password : List UInt8 := cleared passwordMax
  bssid : Option (List UInt8) := none
  deriving DecidableEq

/-- `config_from_record`. -/
def configFromRecord (r : Record) : Profile where
  ssid := memcpy (cleared ssidMax) r.ssid (min r.ssidLength.toNat ssidMax)
  password := memcpy (cleared passwordMax) r.password (min r.passwordLength.toNat passwordMax)

/-- The disconnect reasons that are told apart; `none` is 0. -/
inductive Reason
  | none | authFail | connectionFail | noApFound | noApFoundInRssiThreshold
  | noApFoundInAuthmodeThreshold | noApFoundWCompatibleSecurity | other
  deriving DecidableEq

/-- The Wi-Fi and IP events that are handled; no address stands for an event without data. -/
inductive WifiEvent
  | staStart | staStop | staConnected
  | staDisconnected (reason : Option Reason) (jitter : ℕ)
  | apStart | apStop
  | gotIp (address : List UInt8)
  | lostIp
  deriving DecidableEq

/-- An event on its way, and the association that it comes from. -/
structure Posted where
  event : WifiEvent
  association : ℕ
  deriving DecidableEq

/-- Why a connection attempt ended as it did; the numbers are associations. -/
inductive Cause
  | none
  | address (association : Option ℕ)
  | down (association : Option ℕ)
  | deadline
  | interrupted
  | driver
  deriving DecidableEq

/-- How a connection attempt ended: why, its own association, and the profile that this
association was made with. -/
structure Verdict where
  cause : Cause := .none
  own : Option ℕ := none
  made : Option Profile := none
  deriving DecidableEq

/-- A completed operation: what it reported, how its attempt ended, the records before and after
it, the profile that the driver has then, and whether no driver call of a rollback failed. -/
structure Report where
  request : NetworkRequest
  succeeded : Bool
  error : Error
  verdict : Verdict
  before : Record × Stored
  after : Record × Stored
  profile : Profile
  driverOk : Bool

/-- What is recorded of a run. -/
inductive Entry
  | accepted (request : NetworkRequest) (deadline : ℕ)
  | responseSent (id : List UInt8)
  | executed (request : NetworkRequest) (time : ℕ)
  | committed (request : NetworkRequest) (record : Record) (verdict : Verdict)
  | completed (report : Report)

/-- What is recorded: the entries, oldest first; of the present operation, the records at its
start and how its attempt ended; the association of the present attempt and why it ended; the
association that the address comes from, and the one whose loss was handled last; and whether every
driver call of a rollback has succeeded. -/
structure Trace where
  log : List Entry := []
  before : Record × Stored := ({}, .absent)
  verdict : Verdict := {}
  own : Option ℕ := none
  cause : Cause := .none
  addressOf : Option ℕ := none
  downBy : Option ℕ := none
  driverOk : Bool := true

/-- The static variables, the clock in microseconds, the storage and the driver. -/
structure Service where
  persisted : Record := {}
  configurationError : Bool := false
  runtimeOverride : Bool := false
  staRuntimeControlled : Bool := false
  reconnectPaused : Bool := false
  pythonMutationActive : Bool := false
  staActive : Bool := false
  apActive : Bool := false
  staConnected : Bool := false
  staAssociated : Bool := false
  staConnectRequested : Bool := false
  connectInProgress : Bool := false
  disconnectReason : Reason := .none
  pythonReconnectLimit : UInt8 := 0
  pythonReconnectCount : UInt8 := 0
  staReconnectCount : UInt8 := 0
  retryCount : UInt32 := 0
  retryAt : ℕ := 0
  ssid : List UInt8 := []
  ipv4 : List UInt8 := []
  hasOperation : Bool := false
  activeRequest : NetworkRequest := {}
  operation : Operation := {}
  hasLastOperation : Bool := false
  lastRequest : NetworkRequest := {}
  lastOperation : Operation := {}
  replyReleased : Bool := false
  replyDeadline : ℕ := 0
  started : Bool := false
  clock : ℕ := 0
  stored : Stored := .absent
  profile : Profile := {}
  associations : List Profile := []
  posted : List Posted := []
  trace : Trace := {}

def ackTimeoutMs : ℕ := 1000
def configTimeoutMs : ℕ := 30000
def retryMaxMs : ℕ := 30000

def Service.record (s : Service) (e : Entry) : Service :=
  { s with trace := { s.trace with log := s.trace.log ++ [e] } }

/-! ## Events -/

/-- `retry_delay_seconds`. -/
def retryDelaySeconds (count : UInt32) : ℕ :=
  if count = 0 then 1 else if 6 ≤ count then retryMaxMs / 1000 else 2 ^ (count.toNat - 1)

/-- The retry is put off. -/
def Service.retryLater (s : Service) (jitter : ℕ) : Service :=
  let count := s.retryCount + 1
  { s with
    retryCount := count
    retryAt := s.clock + retryDelaySeconds count * 1000000 + jitter % 501 * 1000 }

/-- `network_wifi_event` and `network_ip_event`. -/
def Service.handleEvent (s : Service) (p : Posted) : Service :=
  match p.event with
  | .staStart => { s with staActive := true, pythonReconnectCount := 0 }
  | .staStop =>
    { s with
      staActive := false
      staConnected := false
      staAssociated := false
      connectInProgress := false
      ipv4 := []
      trace := { s.trace with downBy := some p.association } }
  | .staConnected => { s with staAssociated := true }
  | .staDisconnected reason jitter =>
    let s := { s with
      disconnectReason := reason.getD s.disconnectReason
      staConnected := false
      staAssociated := false
      connectInProgress := false
      ipv4 := []
      trace := { s.trace with downBy := some p.association } }
    if s.staConnectRequested || s.persisted.enabled != 0 then
      { s with
        pythonReconnectCount := s.pythonReconnectCount + 1
        staReconnectCount :=
          if s.staReconnectCount < 255 then s.staReconnectCount + 1 else s.staReconnectCount
        }.retryLater jitter
    else s
  | .apStart => { s with apActive := true }
  | .apStop => { s with apActive := false }
  | .gotIp address =>
    { s with
      staConnected := true
      staAssociated := true
      connectInProgress := false
      disconnectReason := .none
      retryCount := 0
      retryAt := 0
      pythonReconnectCount := 0
      staReconnectCount := 0
      ipv4 := address
      trace := { s.trace with addressOf := some p.association } }
  | .lostIp => { s with staConnected := false, ipv4 := [] }

/-! ## Requests -/

/-- The C string in a character array. -/
def stringOf (cells : List UInt8) : List UInt8 := cells.takeWhile (· != 0)

/-- `lower_hex_operation_id`. -/
def lowerHexOperationId (id : List UInt8) : Bool :=
  id.length == 32 && id.all fun c => (0x30 ≤ c && c ≤ 0x39) || (0x61 ≤ c && c ≤ 0x66)

/-- `network.configure`. -/
def configureAction : List UInt8 :=
  networkPrefix ++ [0x63, 0x6f, 0x6e, 0x66, 0x69, 0x67, 0x75, 0x72, 0x65]
/-- `network.enable`. -/
def enableAction : List UInt8 := networkPrefix ++ [0x65, 0x6e, 0x61, 0x62, 0x6c, 0x65]
/-- `network.forget`. -/
def forgetAction : List UInt8 := networkPrefix ++ [0x66, 0x6f, 0x72, 0x67, 0x65, 0x74]
/-- `network.status`. -/
def statusAction : List UInt8 := networkPrefix ++ [0x73, 0x74, 0x61, 0x74, 0x75, 0x73]

def Action.code : Action → UInt8
  | .none => 0
  | .configure => 1
  | .enable => 2
  | .forget => 3

/-- The bytes that `request_fingerprint` hashes. -/
def NetworkRequest.parameters (r : NetworkRequest) : List UInt8 :=
  [r.action.code, r.enabled, r.ssidLength] ++ r.ssid.take r.ssidLength.toNat ++
    [r.passwordLength] ++ r.password.take r.passwordLength.toNat

/-- A response that reports an error. -/
structure RpcError where
  code : String
  message : String
  deriving DecidableEq

/-- The parameters of a request, without its fingerprint. -/
def requestParameters (json : Request) : Except RpcError NetworkRequest :=
  let id := stringOf json.operationId
  let action := stringOf json.action
  if !lowerHexOperationId id then
    .error ⟨"INVALID_ARGUMENT", "operationId must be 32 lowercase hexadecimal characters"⟩
  else if action = configureAction then
    if !json.hasSsid || !json.hasPassword || json.hasEnabled || json.ssidLength = 0 ||
        json.ssidLength > ssidMax || !passwordValid json.password json.passwordLength then
      .error ⟨"INVALID_ARGUMENT", "SSID or password is outside the supported format"⟩
    else .ok {
      id := id
      action := .configure
      ssidLength := json.ssidLength.toUInt8
      passwordLength := json.passwordLength.toUInt8
      ssid := memcpy (cleared ssidSize) json.ssid json.ssidLength.toUInt8.toNat
      password :=
        memcpy (cleared passwordSize) json.password json.passwordLength.toUInt8.toNat }
  else if action = enableAction then
    if !json.hasEnabled || json.hasSsid || json.hasPassword then
      .error ⟨"INVALID_ARGUMENT", "enabled must be a boolean"⟩
    else .ok { id := id, action := .enable, enabled := if json.enabled then 1 else 0 }
  else if action = forgetAction then
    if json.hasEnabled || json.hasSsid || json.hasPassword then
      .error ⟨"INVALID_ARGUMENT", "network.forget takes no parameters"⟩
    else .ok { id := id, action := .forget }
  else .error ⟨"UNSUPPORTED_OPERATION", "Unsupported network action"⟩

/-- `make_request`; `hashed` tells whether the hash could be computed. -/
def makeRequest (sha256 : List UInt8 → List UInt8) (json : Request) (hashed : Bool) :
    Except RpcError NetworkRequest := do
  let r ← requestParameters json
  if !hashed then .error ⟨"INTERNAL_ERROR", "Could not calculate operation identity"⟩
  else .ok { r with parameterHash := sha256 r.parameters }

/-- `network_json_operation_match_t`. -/
inductive OperationMatch
  | new | duplicateActive | duplicateLast | idConflict | busy
  deriving DecidableEq

/-- `network_json_operation_match`. -/
def Service.operationMatch (s : Service) (r : NetworkRequest) : OperationMatch :=
  if s.hasOperation then
    if r.id ≠ s.activeRequest.id then .busy
    else if r.action = s.activeRequest.action ∧
        r.parameterHash = s.activeRequest.parameterHash then .duplicateActive
    else .idConflict
  else if s.hasLastOperation ∧ r.id = s.lastRequest.id then
    if r.action = s.lastRequest.action ∧ r.parameterHash = s.lastRequest.parameterHash then
      .duplicateLast
    else .idConflict
  else .new

/-- What the host is told. -/
inductive Response
  | status
  | accepted (operation : Operation) (fresh : Bool)
  | error (e : RpcError)
  deriving DecidableEq

/-- The critical section of `esp_vision_network_rpc_handle`. -/
def Service.submit (s : Service) (r : NetworkRequest) : Response × Service :=
  if !s.started then
    (.error ⟨"UNSUPPORTED_OPERATION", "Background Wi-Fi service is unavailable"⟩, s)
  else if s.pythonMutationActive then
    (.error ⟨"NETWORK_BUSY", "A Python WLAN change is active"⟩, s)
  else
    match s.operationMatch r with
    | .duplicateActive => (.accepted s.operation false, s)
    | .duplicateLast => (.accepted s.lastOperation false, s)
    | .idConflict =>
      (.error ⟨"INVALID_ARGUMENT", "operationId was already used with different parameters"⟩, s)
    | .busy => (.error ⟨"NETWORK_BUSY", "Another network operation is active"⟩, s)
    | .new =>
      if r.action = .enable ∧ r.enabled ≠ 0 ∧ s.persisted.configured = 0 then
        (.error ⟨"NOT_CONFIGURED", "Configure a network before enabling it"⟩, s)
      else
        let operation : Operation := { id := r.id, action := r.action, state := .queued }
        let deadline := s.clock + ackTimeoutMs * 1000
        (.accepted operation true, { s with
          activeRequest := r
          operation := operation
          hasOperation := true
          replyReleased := false
          replyDeadline := deadline }.record (.accepted r deadline))

/-- `contains_network_action`. -/
def containsNetworkAction (text : List UInt8) : Bool := text.tails.any networkPrefix.isPrefixOf

/-- The part of `esp_vision_network_rpc_handle` before its critical section: the request, or the
response. No response means that the action is for someone else. -/
def requestOf (sha256 : List UInt8 → List UInt8) (text : List UInt8) (capacity : ℕ)
    (hashed : Bool) : Except (Option Response) NetworkRequest :=
  if capacity = 0 then .error none
  else
    match parseNetworkJson text with
    | .ok json =>
      if capacity < 1024 then
        .error (some (.error
          ⟨"INTERNAL_ERROR", "Network response buffer must be at least 1024 bytes"⟩))
      else if stringOf json.action = statusAction then
        if json.hasOperationId || json.hasSsid || json.hasPassword || json.hasEnabled then
          .error (some (.error ⟨"INVALID_ARGUMENT", "network.status takes no parameters"⟩))
        else .error (some .status)
      else if !json.hasOperationId then
        .error (some (.error ⟨"INVALID_ARGUMENT", "Invalid network action parameters"⟩))
      else (makeRequest sha256 json hashed).mapError fun e => some (.error e)
    | _ =>
      if containsNetworkAction text then
        .error (some (.error ⟨"INVALID_ARGUMENT", "Malformed network action JSON"⟩))
      else .error none

/-- `esp_vision_network_rpc_handle`. -/
def Service.rpcHandle (sha256 : List UInt8 → List UInt8) (s : Service) (text : List UInt8)
    (capacity : ℕ) (hashed : Bool) : Option Response × Service :=
  match requestOf sha256 text capacity hashed with
  | .error response => (response, s)
  | .ok r => (some (s.submit r).1, (s.submit r).2)

/-- `esp_vision_network_rpc_response_sent`. -/
def Service.rpcResponseSent (s : Service) (id : List UInt8) : Service :=
  if !lowerHexOperationId id then s
  else
    ({ s with
      replyReleased := if s.hasOperation && s.operation.state == .queued && id == s.operation.id
        then true else s.replyReleased } : Service).record (.responseSent id)

/-! ## Python -/

/-- The calls of Python's `network.WLAN`, and its calls of the driver. -/
inductive PythonCall
  | mutationBegin | mutationCancel | mutationEnd
  | setConnectRequested (requested : Bool)
  | setStaActive (active : Bool)
  | setApActive (active : Bool)
  | setReconnectLimit (maxAttempts : UInt8)
  | runtimeChanged
  | wifiSetConfig (p : Profile)
  | wifiConnect
  deriving DecidableEq

/-- One call. Every wrapper begins a mutation first and makes its other calls before it ends. -/
def Service.python (s : Service) : PythonCall → Option Service
  | .mutationBegin =>
    if s.hasOperation || s.pythonMutationActive || s.connectInProgress then some s
    else some { s with pythonMutationActive := true }
  | c =>
    if !s.pythonMutationActive then none
    else
      match c with
      | .mutationBegin => none
      | .mutationCancel => some { s with pythonMutationActive := false }
      | .mutationEnd =>
        some { s with
          pythonMutationActive := false
          runtimeOverride := true
          retryCount := 0
          retryAt := 0 }
      | .setConnectRequested requested =>
        let s := { s with
          staConnectRequested := requested
          runtimeOverride := true
          staRuntimeControlled := true
          reconnectPaused := false
          retryAt := 0
          connectInProgress := requested }
        some (if requested then { s with pythonReconnectCount := 0 } else s)
      | .setStaActive active =>
        let s := { s with staActive := active }
        if !active then
          some { s with
            reconnectPaused :=
              s.reconnectPaused || s.staConnectRequested || s.persisted.enabled != 0
            staConnectRequested := false
            staRuntimeControlled := true
            runtimeOverride := true
            retryAt := 0
            connectInProgress := false
            staConnected := false
            staAssociated := false
            ipv4 := [] }
        else if s.reconnectPaused || s.persisted.enabled != 0 then
          some { s with
            staConnectRequested := true
            reconnectPaused := false
            staRuntimeControlled := true
            runtimeOverride := true
            retryAt := s.clock + 1000000 }
        else some s
      | .setApActive active => some { s with apActive := active, runtimeOverride := true }
      | .setReconnectLimit maxAttempts =>
        some { s with pythonReconnectLimit := maxAttempts, pythonReconnectCount := 0 }
      | .runtimeChanged =>
        some { s with
          ssid := stringOf s.profile.ssid
          runtimeOverride := true
          staRuntimeControlled := true }
      | .wifiSetConfig p => some { s with profile := p }
      | .wifiConnect => some { s with associations := s.associations ++ [s.profile] }

/-! ## The rest of the system -/

/-- The event comes from an association. -/
def WifiEvent.associated : WifiEvent → Bool
  | .staConnected | .staDisconnected .. | .gotIp _ | .lostIp => true
  | _ => false

/-- What happens beside the worker: time passes, the driver posts an event, the event task handles
the oldest one, the start function returns, the host's request is handled, its response has been
sent, and Python makes a call. -/
inductive Other
  | elapse (microseconds : ℕ)
  | post (p : Posted)
  | deliver
  | start
  | rpc (text : List UInt8) (capacity : ℕ) (hashed : Bool)
  | responseSent (id : List UInt8)
  | python (call : PythonCall)
  deriving DecidableEq

/-- One step of the rest. -/
def Service.other (sha256 : List UInt8 → List UInt8) (e : Other) (s : Service) : Option Service :=
  match e with
  | .elapse us => some { s with clock := s.clock + us }
  | .post p =>
    if p.event.associated && decide (s.associations.length ≤ p.association) then none
    else some { s with posted := s.posted ++ [p] }
  | .deliver =>
    match s.posted with
    | [] => none
    | p :: rest => some ({ s with posted := rest }.handleEvent p)
  | .start => some { s with started := true }
  | .rpc text capacity hashed => some (s.rpcHandle sha256 text capacity hashed).2
  | .responseSent id => some (s.rpcResponseSent id)
  | .python call => s.python call

end EspVision.NetworkService
