import EspVision.SessionHistory

/-!
# The UART speed of the device

`ev_uart_baud` is a state machine that three parties advance: the handler of the
`transport.uart` requests, the completion of their acknowledgements, and a poll. The poll takes
its view of the session and its clock before the section that decides, and changes the hardware
outside of it; every stage of it is a step of its own here. The handler and the poll run in one
task, so no request is handled between two stages.
-/
namespace EspVision.UartBaud

open EvTransport EvSession

/-! ## The state machine -/

/-- A C string: its bytes before the NUL. -/
abbrev Token := List UInt8

/-- A session id. -/
abbrev Id := List UInt8

def baseline : UInt32 := 115200
def timeoutMs : UInt32 := 5000
def switchDelayMs : UInt32 := 100
def probeBytes : ℕ := 512
def tokenMax : ℕ := 32

/-- `ev_uart_baud_phase_t`. -/
inductive Phase
  | idle | prepareAck | waitSwitch | probing | commitAck | active | restore
  deriving DecidableEq

/-- `ev_uart_baud_t`. -/
structure Baud where
  phase : Phase := .idle
  requested : UInt32 := 0
  sinceMs : UInt32 := 0
  probed : Bool := false
  token : Token := []
  deriving DecidableEq

/-- `ev_uart_baud_candidate`. -/
def candidate (baud : UInt32) : Bool :=
  baud == 2000000 || baud == 1500000 || baud == 921600 || baud == 460800 || baud == baseline

/-- The characters of a token. -/
def tokenByte (c : UInt8) : Bool :=
  (0x61 ≤ c && c ≤ 0x7a) || (0x41 ≤ c && c ≤ 0x5a) || (0x30 ≤ c && c ≤ 0x39) || c == 0x5f ||
    c == 0x2d

/-- `ev_uart_baud_token_valid`. -/
def tokenValid (token : Token) : Bool :=
  token ≠ [] && token.length ≤ tokenMax && token.all tokenByte

/-- `ev_uart_baud_prepare`; `none` is `false`. -/
def Baud.prepare (s : Baud) (baud : UInt32) (token : Token) (now : UInt32) : Option Baud :=
  if (s.phase ≠ .idle ∧ s.phase ≠ .active) ∨ !candidate baud ∨ !tokenValid token then none
  else some { phase := .prepareAck, requested := baud, sinceMs := now, token := token }

/-- `ev_uart_baud_prepare_complete`. -/
def Baud.prepareComplete (s : Baud) (token : Token) (success : Bool) (now : UInt32) : Baud :=
  if s.phase = .prepareAck ∧ s.token = token then
    { s with phase := if success then .waitSwitch else .restore, sinceMs := now }
  else s

/-- `ev_uart_baud_switch_due`. -/
def Baud.switchDue (s : Baud) (now : UInt32) : Bool :=
  s.phase = .waitSwitch && switchDelayMs ≤ now - s.sinceMs

/-- `ev_uart_baud_expired`. -/
def Baud.expired (s : Baud) (now : UInt32) : Bool :=
  s.phase ≠ .idle && s.phase ≠ .active && s.phase ≠ .restore && timeoutMs ≤ now - s.sinceMs

/-- `ev_uart_baud_matches`. -/
def Baud.matching (s : Baud) (token : Token) : Bool :=
  (s.phase = .probing || s.phase = .active) && s.token = token

/-- `ev_uart_baud_commit`; `none` is `false`. -/
def Baud.commit (s : Baud) (token : Token) : Option Baud :=
  if !s.matching token || !s.probed then none
  else some (if s.phase ≠ .active then { s with phase := .commitAck } else s)

/-- `ev_uart_baud_commit_complete`. -/
def Baud.commitComplete (s : Baud) (token : Token) (success : Bool) : Baud :=
  if s.phase = .commitAck ∧ s.token = token then
    { s with phase := if success then .active else .restore }
  else s

/-! ## The device -/

/-- An acknowledgement whose transmission has not completed. -/
inductive Ack
  | prepare (token : Token)
  | commit (token : Token)
  deriving DecidableEq

/-- Where `ev_control_transport_uart_baud_poll` stands. -/
inductive Stage
  | rest
  | sampled (session : Snapshot) (now : UInt32)
  | decided (restore sameOwner : Bool) (requested : UInt32) (link : LinkRef)
  | setting (restore : Bool) (requested : UInt32)
  | failed
  | finishing (restore : Bool)
  deriving DecidableEq

/-- The session manager, `s_uart_baud` with the link and the session that it is bound to, the
speed of the hardware, whether ordinary output is paused, and every id that the session manager
has granted, with the nonce that it was granted to. -/
structure Device where
  session : EvSession.State
  baud : Baud := {}
  link : LinkRef := {}
  bound : Id := []
  rate : UInt32 := baseline
  paused : Bool := false
  stage : Stage := .rest
  acks : List Ack := []
  granted : List (List UInt8 × Id) := []

/-- What a `transport.uart` request asks for. -/
inductive Method
  | prepare (baudRate : UInt32)
  | probe (data : List UInt8)
  | commit
  deriving DecidableEq

structure Call where
  token : Token
  method : Method
  deriving DecidableEq

/-- The error responses of the handler. -/
inductive Fault
  | notUart | invalidParameters | unsupportedBaud | probeLength | probeText | invalidState
  | notAuthorized (r : Result)
  deriving DecidableEq

/-- The payload of a response. -/
inductive Payload
  | prepared (token : Token) (baudRate timeoutMs switchDelayMs : UInt32)
  | probed (token : Token) (data : List UInt8) (baudRate : UInt32)
  | committed (token : Token) (baudRate timeoutMs switchDelayMs : UInt32)
  | error (f : Fault)

/-- The tests on a request before the critical section. -/
def Call.refused (c : Call) (link : LinkRef) : Option Fault :=
  if link.transportId ≠ .uart then some .notUart
  else if !tokenValid c.token then some .invalidParameters
  else
    match c.method with
    | .prepare baudRate => if !candidate baudRate then some .unsupportedBaud else none
    | .probe data =>
      if data.length = 0 ∨ data.length > probeBytes then some .probeLength
      else if data.any fun b => b < 0x20 || b > 0x7e then some .probeText
      else none
    | .commit => none

/-- The request comes from the link and the session that the negotiation is bound to. -/
def Device.fromBound (d : Device) (link : LinkRef) (id : Id) : Bool :=
  link == d.link && id == d.bound

/-- The critical section of `ev_control_send_uart_baud`; `none` when it does not accept. -/
def Device.accept (d : Device) (link : LinkRef) (id : Id) (c : Call) (now : UInt32) :
    Option Device :=
  match c.method with
  | .prepare baudRate =>
    (d.baud.prepare baudRate c.token now).map fun baud =>
      { d with baud := baud, link := link, bound := id, paused := true }
  | .probe _ =>
    if d.fromBound link id && d.baud.matching c.token then
      some { d with baud := { d.baud with probed := true } }
    else none
  | .commit =>
    if d.fromBound link id then
      (d.baud.commit c.token).map fun baud => { d with baud := baud }
    else none

/-- The response to an accepted request. -/
def Device.response (d : Device) (c : Call) : Payload :=
  match c.method with
  | .prepare baudRate => .prepared c.token baudRate timeoutMs switchDelayMs
  | .probe data => .probed c.token data d.baud.requested
  | .commit => .committed c.token d.baud.requested timeoutMs switchDelayMs

/-- The response is handed to the multiplexer. An acknowledgement that it takes will complete;
one that it does not take rolls the negotiation back. -/
def Device.acknowledge (d : Device) (c : Call) (taken : Bool) : Device :=
  match c.method with
  | .probe _ => d
  | .prepare _ =>
    if taken then { d with acks := d.acks ++ [.prepare c.token] }
    else { d with baud := { d.baud with phase := .restore } }
  | .commit =>
    if taken then { d with acks := d.acks ++ [.commit c.token] }
    else { d with baud := { d.baud with phase := .restore } }

/-- `ev_control_send_uart_baud`, with the response it makes. -/
def Device.sendUartBaud (d : Device) (link : LinkRef) (id : Id) (c : Call) (now : UInt32)
    (taken : Bool) : Device × Payload :=
  match c.refused link with
  | some f => (d, .error f)
  | none =>
    match d.accept link id c now with
    | none => (d, .error .invalidState)
    | some d' => (d'.acknowledge c taken, d'.response c)

/-- What surrounds a request at the device: the link it came on, the clock, whether the link is
current, and whether the multiplexer takes the response. -/
structure Arrival where
  link : LinkRef
  now : UInt32
  linkCurrent : Bool
  taken : Bool
  deriving DecidableEq

/-- A `transport.uart` request on the wire is authorized and handled. -/
def Device.handle (d : Device) (id : Id) (c : Call) (a : Arrival) : Device × Payload :=
  match authorize d.session a.link (some id) false none a.now a.linkCurrent with
  | (session, .ok) => { d with session := session }.sendUartBaud a.link id c a.now a.taken
  | (session, r) => ({ d with session := session }, .error (.notAuthorized r))

/-- `ev_control_tx_complete` of an acknowledgement. -/
def Device.txComplete (d : Device) (ack : Ack) (success : Bool) (now : UInt32) : Device :=
  match ack with
  | .prepare token => { d with baud := d.baud.prepareComplete token success now }
  | .commit token =>
    let baud := d.baud.commitComplete token success
    { d with baud := baud, paused := if baud.phase = .active then false else d.paused }

/-- How `ev_transport_uart_set_baudrate` ends. -/
inductive SetResult
  | ok | invalidState | failed
  deriving DecidableEq

/-- The owner that a snapshot shows is the one that the negotiation is bound to. -/
def Device.sameOwner (d : Device) (session : Snapshot) : Bool :=
  session.hasOwner && session.ownerLink == d.link && session.sessionId == d.bound

/-- The first critical section of the poll. -/
def Device.decide (d : Device) (session : Snapshot) (now : UInt32) : Device :=
  if d.baud.phase = .idle then { d with stage := .rest }
  else
    let same := d.sameOwner session
    let baud :=
      if !same || d.baud.expired now then { d.baud with phase := .restore } else d.baud
    let restore := baud.phase = .restore
    { d with
      baud := baud
      paused := if restore then true else d.paused
      stage := if !restore && !baud.switchDue now then .rest
        else .decided restore same (if restore then baseline else baud.requested) d.link }

/-- The last critical section of the poll. -/
def Device.finish (d : Device) (restore : Bool) : Device :=
  if restore then { d with baud := {}, bound := [], paused := false, stage := .rest }
  else
    { d with
      baud := if d.baud.phase = .waitSwitch then { d.baud with phase := .probing } else d.baud
      stage := .rest }

/-- The next stage of `ev_control_transport_uart_baud_poll`. -/
def Device.poll (cfg : Config) (d : Device) (now : UInt32) (result : SetResult) : Device :=
  match d.stage with
  | .rest => { d with stage := .sampled (d.session.snapshot now) now }
  | .sampled session now => d.decide session now
  | .decided restore same requested link =>
    { d with
      session := if restore && same then (linkLost cfg d.session link).1 else d.session
      stage := .setting restore requested }
  | .setting restore requested =>
    match result with
    | .ok => { d with rate := requested, stage := .finishing restore }
    | .invalidState => { d with stage := .rest }
    | .failed => { d with stage := .failed }
  | .failed => { d with baud := { d.baud with phase := .restore }, stage := .rest }
  | .finishing restore => d.finish restore

/-- A section of the session manager that some task runs; ids are drawn at random, and none
comes up twice. -/
def Device.runSession (cfg : Config) (d : Device) (op : Op) : Option Device :=
  let r := op.apply cfg d.session
  match op, r.2 with
  | .acquire _ nonce _ _ _, .acquired (.granted id) =>
    if (d.granted.map (·.2)).contains id then none
    else some { d with session := r.1, granted := d.granted ++ [(nonce, id)] }
  | _, _ => some { d with session := r.1 }

end EspVision.UartBaud
