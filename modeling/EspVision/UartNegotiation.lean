import EspVision.TransitionSystem
import EspVision.UartBaudSteps

/-!
# The two ends of a UART speed negotiation

`DeviceSession._negotiateUartBaud` tries one speed after another, each with a token of its own
and, after a failure, in a session of its own. The link loses frames and delays them, so a
request or a response may arrive long after the attempt that it belongs to. The device's tasks
run in any order between the frames.
-/
namespace EspVision.UartBaud

open EvSession TransitionSystem

/-! ## The host -/

/-- `UART_BAUD_CANDIDATES`. -/
def uartBaudCandidates : List UInt32 := [2000000, 1500000, 921600, 460800, 115200]

/-- `capabilities.uartBaud`, as the device advertised it. -/
structure Options where
  baseline : UInt32 := 115200
  candidates : List UInt32
  probeBytes : ℕ
  timeoutMs : UInt32

/-- The checks before the loop. -/
def Options.usable (o : Options) : Bool :=
  o.baseline == 115200 && (1000 ≤ o.timeoutMs && o.timeoutMs ≤ 10000) &&
    (32 ≤ o.probeBytes && o.probeBytes ≤ 512) &&
      (uartBaudCandidates.filter (o.candidates.contains ·)).contains 115200

/-- The lengths of the probes, two rounds each. -/
def Options.probeLengths (o : Options) : List ℕ :=
  [32, min 128 o.probeBytes, o.probeBytes].eraseDups.flatMap fun n => [n, n]

/-- A probe and the echo that it was answered with. -/
structure Echo where
  sent : List UInt8
  token : Token
  data : List UInt8
  deriving DecidableEq

/-- One turn of the loop, with the probes answered so far. -/
structure Attempt where
  token : Token
  baudRate : UInt32
  echoes : List Echo := []
  deriving DecidableEq

/-- Where an attempt stands; `seq` is the number of the request that it waits for. -/
inductive Progress
  | preparing (seq : ℕ)
  | switching
  | verified (lengths : List ℕ)
  | probing (seq : ℕ) (data : List UInt8) (lengths : List ℕ)
  | committing (seq : ℕ) (retried : Bool)
  deriving DecidableEq

/-- What the host is doing: acquiring a session, holding one between two attempts, trying a
speed, recovering from a failure; it has selected a speed, or has stopped. -/
inductive HostPhase
  | greeting
  | holding
  | trying (a : Attempt) (p : Progress)
  | recovering
  | selected (a : Attempt)
  | stopped
  deriving DecidableEq

/-- The host, with the speed of its port, the candidates that are left, and the token of the
latest attempt. -/
structure Host where
  nonce : List UInt8
  sessionId : Option Id := none
  rate : UInt32 := 115200
  queue : List UInt32 := []
  nextSeq : ℕ := 0
  phase : HostPhase := .greeting
  latest : Option Token := none

/-- A request on the wire. -/
structure Request where
  seq : ℕ
  id : Id
  call : Call
  deriving DecidableEq

/-- A response on the wire. -/
structure Response where
  seq : ℕ
  id : Id
  payload : Payload

/-- The tests of an attempt on the response that it waits for. A response to another request, or
of another session, is not one of these. -/
def Attempt.judge (o : Options) (a : Attempt) : Progress → Payload → HostPhase
  | .preparing _, .prepared token baudRate timeoutMs switchDelayMs =>
    if baudRate = a.baudRate ∧ token = a.token ∧ timeoutMs = o.timeoutMs ∧
        switchDelayMs ≤ 1000 then .trying a .switching
    else .recovering
  | .probing _ data lengths, .probed token data' _ =>
    if token = a.token ∧ data' = data then
      .trying { a with echoes := a.echoes ++ [⟨data, token, data'⟩] } (.verified lengths)
    else .recovering
  | .committing _ _, .committed token baudRate _ _ =>
    if token = a.token ∧ baudRate = a.baudRate then .selected a else .recovering
  | _, _ => .recovering

/-- The number of the request that an attempt waits for. -/
def Progress.awaits : Progress → Option ℕ
  | .preparing seq | .probing seq _ _ | .committing seq _ => some seq
  | _ => none

/-- A response arrives. -/
def Host.receive (o : Options) (h : Host) (r : Response) : Host :=
  match h.phase with
  | .trying a p =>
    if p.awaits = some r.seq ∧ h.sessionId = some r.id then { h with phase := a.judge o p r.payload }
    else h
  | _ => h

/-! ## The composition -/

/-- Both ends, what is on the wire, and every token drawn so far. -/
structure Joint where
  device : Device
  host : Host
  requests : List Request := []
  responses : List Response := []
  tokens : List Token := []

/-- What happens next, at the host, on the wire or at the device. -/
inductive Action
  | startLoop
  | begin (token : Token)
  | switched
  | probe (data : List UInt8)
  | commit
  | timeout
  | failed
  | aborted
  | recovered (nonce : List UInt8)
  | adopted (id : Id)
  | reconnected (nonce : List UInt8)
  | receive (k : ℕ)
  | loseRequest (k : ℕ)
  | loseResponse (k : ℕ)
  | deliver (k : ℕ) (a : Arrival)
  | session (op : Op)
  | complete (k : ℕ) (success : Bool) (now : UInt32)
  | poll (now : UInt32) (result : SetResult)

/-- The host sends a request of its session. -/
def Joint.send (s : Joint) (id : Id) (c : Call) (phase : ℕ → HostPhase) : Joint :=
  { s with
    host := { s.host with nextSeq := s.host.nextSeq + 1, phase := phase s.host.nextSeq }
    requests := s.requests ++ [⟨s.host.nextSeq, id, c⟩] }

/-- No session has been granted to the nonce. -/
def Device.fresh (d : Device) (nonce : List UInt8) : Bool :=
  hexNonceValid nonce && !(d.granted.map (·.1)).contains nonce

/-- The host's part. Random tokens and nonces are ones that have not been seen. -/
def Joint.nextHost (o : Options) (s : Joint) : Action → Option Joint
  | .startLoop =>
    if s.host.phase = .holding ∧ s.host.queue = [] ∧ o.usable then
      some { s with host := { s.host with
        queue := uartBaudCandidates.filter (o.candidates.contains ·) } }
    else none
  | .begin token =>
    match s.host.phase, s.host.queue, s.host.sessionId with
    | .holding, baudRate :: queue, some id =>
      if hexNonceValid token ∧ !s.tokens.contains token then
        let s := { s with
          host := { s.host with queue := queue, latest := some token }
          tokens := token :: s.tokens }
        some (s.send id ⟨token, .prepare baudRate⟩ fun seq =>
          .trying ⟨token, baudRate, []⟩ (.preparing seq))
      else none
    | _, _, _ => none
  | .switched =>
    match s.host.phase with
    | .trying a .switching =>
      some { s with host := { s.host with
        rate := a.baudRate, phase := .trying a (.verified o.probeLengths) } }
    | _ => none
  | .probe data =>
    match s.host.phase, s.host.sessionId with
    | .trying a (.verified (n :: lengths)), some id =>
      if data.length = n then
        some (s.send id ⟨a.token, .probe data⟩ fun seq => .trying a (.probing seq data lengths))
      else none
    | _, _ => none
  | .commit =>
    match s.host.phase, s.host.sessionId with
    | .trying a (.verified []), some id =>
      some (s.send id ⟨a.token, .commit⟩ fun seq => .trying a (.committing seq false))
    | _, _ => none
  | .timeout =>
    match s.host.phase, s.host.sessionId with
    | .trying a (.committing _ false), some id =>
      some (s.send id ⟨a.token, .commit⟩ fun seq => .trying a (.committing seq true))
    | .trying _ _, _ => some { s with host := { s.host with phase := .recovering } }
    | _, _ => none
  | .failed =>
    match s.host.phase with
    | .trying _ _ => some { s with host := { s.host with phase := .recovering } }
    | _ => none
  | .aborted => some { s with host := { s.host with phase := .stopped } }
  | .recovered nonce =>
    if s.host.phase = .recovering ∧ s.device.fresh nonce then
      some { s with host := { s.host with
        nonce := nonce, sessionId := none, rate := 115200, phase := .greeting } }
    else none
  | .adopted id =>
    if s.host.phase = .greeting ∧ (s.host.nonce, id) ∈ s.device.granted then
      some { s with host := { s.host with sessionId := some id, phase := .holding } }
    else none
  | .reconnected nonce =>
    if s.device.fresh nonce then
      some { s with host := { s.host with
        nonce := nonce, sessionId := none, rate := 115200, queue := [], phase := .greeting } }
    else none
  | .receive k =>
    (s.responses[k]?).map fun r =>
      { s with host := s.host.receive o r, responses := s.responses.eraseIdx k }
  | _ => none

/-- One step of the composition. A response that the multiplexer does not take is not sent. -/
def Joint.next (cfg : Config) (o : Options) (s : Joint) (a : Action) : Option Joint :=
  match a with
  | .loseRequest k => some { s with requests := s.requests.eraseIdx k }
  | .loseResponse k => some { s with responses := s.responses.eraseIdx k }
  | .deliver k a =>
    match s.requests[k]? with
    | none => none
    | some m =>
      if s.device.stage = .rest then
        let r := s.device.handle m.id m.call a
        some { s with
          device := r.1
          requests := s.requests.eraseIdx k
          responses := if a.taken then s.responses ++ [⟨m.seq, m.id, r.2⟩] else s.responses }
      else none
  | .session op => (s.device.runSession cfg op).map fun d => { s with device := d }
  | .complete k success now =>
    (s.device.acks[k]?).map fun ack =>
      { s with device := { s.device with acks := s.device.acks.eraseIdx k }
        |>.txComplete ack success now }
  | .poll now result => some { s with device := s.device.poll cfg now result }
  | a => s.nextHost o a

/-- The composition, from a device at the baseline speed and a host without a session. -/
def negotiation (cfg : Config) (o : Options) : System Joint Action where
  init s := ∃ epoch nonce, s = { device := { session := init0 cfg epoch }, host := { nonce := nonce } }
  step s a t := s.next cfg o a = some t

end EspVision.UartBaud
