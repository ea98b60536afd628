import EspVision.ReplQueue
import EspVision.SessionContext

/-!
# Input on its way to the interpreter

Received input waits in two queues: bytes in the REPL ring, whole RPC frames in
the VM queue. A frame handler authorizes its frame when it arrives, again just
before it queues anything, and compares the lock-free input generation inside
the queue's own lock; the VM task consumes later. Each action below is one
section under one lock together with the thread-local work next to it, so every
interleaving of the tasks is an order of actions. A handler may queue input any
number of times, which covers `repl.stdin`, Ctrl-C, VM RPC frames and the input
that a running `script.run` injects.
-/
namespace EspVision.EvInput
open EvTransport EvSession TransitionSystem

/-- The frame an input came in: its running number and the context it was authorised under. -/
structure Origin where
  frame : ℕ := 0
  context : Context := {}
  deriving DecidableEq

/-- The part of `ev_control_vm_frame_t` that the host sent. -/
structure VmRequest where
  debug : Bool := false
  method : List UInt8 := []
  seq : UInt32 := 0
  payload : List UInt8 := []
  deriving DecidableEq

/-- `ev_control_vm_frame_t`; `uid` numbers the accepted frames and is not in the source. -/
structure VmFrame where
  request : VmRequest := {}
  origin : Origin := {}
  queuedMs : UInt32 := 0
  uid : ℕ := 0
  deriving DecidableEq

/-! ## The VM queue -/

/-- `EV_CONTROL_VM_QUEUE_LEN`; one cell stays free. -/
def vmQueueLen : ℕ := 2
/-- `EV_CONTROL_VM_EXPIRE_MS`. -/
def vmExpireMs : UInt32 := 5000
/-- `EV_CONTROL_JSON_METHOD_MAX`. -/
def methodMax : ℕ := 31

/-- `s_vm_queue` with its indices and the lock-free `pending` word. -/
structure VmQueue where
  cells : ℕ → VmFrame := fun _ => {}
  head : ℕ := 0
  tail : ℕ := 0
  pending : Bool := false

def VmQueue.contents (q : VmQueue) : List VmFrame :=
  RingBuffer.contents vmQueueLen q.cells q.head q.tail

/-- Take the frame at the head of a queue that is not empty. -/
def VmQueue.take (q : VmQueue) : VmQueue :=
  let head := RingBuffer.next vmQueueLen q.head
  { q with head := head, pending := head ≠ q.tail }

/-- `ev_control_vm_queue_clear_stale` inside the lock. -/
def VmQueue.clearStale (q : VmQueue) (generation current : UInt32) : VmQueue :=
  if generation = 0 ∨ current ≠ generation then q
  else if q.head ≠ q.tail ∧ (q.cells q.head).origin.context.inputGeneration ≠ generation then
    { q with
      cells := Function.update q.cells q.head {}
      head := q.tail
      pending := false }
  else q

/-- The locked section of `ev_control_vm_queue_push`. -/
def VmQueue.push (q : VmQueue) (f : VmFrame) (current : UInt32) : Option VmQueue :=
  if current ≠ f.origin.context.inputGeneration then none
  else
    let nextTail := RingBuffer.next vmQueueLen q.tail
    if nextTail = q.head then none
    else some { q with
      cells := Function.update q.cells q.tail f
      tail := nextTail
      pending := true }

/-! ## State -/

/-- Where the handler of a received frame stands. -/
inductive Handler
  | idle
  | handling (o : Origin)
  | replChecked (o : Origin) (data : List UInt8)
  | vmChecked (o : Origin) (r : VmRequest)
  | vmExpiring (o : Origin) (r : VmRequest) (head : VmFrame)
  | vmPushing (o : Origin) (r : VmRequest)

/-- A reader of REPL input between its snapshot and its look at the ring. -/
inductive Reader
  | idle
  | popping (generation : UInt32) (ready : Bool)
  | peeking (generation : UInt32) (ready : Bool)
  deriving DecidableEq

/-- The main VM task: polling the VM queue, running a handler, or resetting. -/
inductive VmTask
  | idle
  | polled (f : VmFrame)
  | matched (f : VmFrame)
  | running (f : VmFrame)
  | unready
  | advanced
  | cleared

/-- Where an accepted frame is; not in the source. -/
inductive Place
  | absent
  | queued
  | expiring (handler : ℕ)
  | polled
  | ended
  deriving DecidableEq

/-- `counted.changes`, `frames`, `accepted` and `place` only record what happened. -/
structure State where
  counted : Counted
  repl : EvReplQueue.Queue (UInt8 × Origin) := { entries := fun _ => ⟨(0, {}), 0⟩ }
  vm : VmQueue := {}
  handler : ℕ → Handler := fun _ => .idle
  reader : ℕ → Reader := fun _ => .idle
  vmTask : VmTask := .idle
  frames : ℕ := 0
  accepted : ℕ := 0
  place : ℕ → Place := fun _ => .absent

def State.session (s : State) : EvSession.State := s.counted.state

/-- `ev_session_input_generation`, read without the session lock. -/
def State.generation (s : State) : UInt32 := s.session.inputGeneration

def State.setHandler (s : State) (h : ℕ) (p : Handler) : State :=
  { s with handler := Function.update s.handler h p }

def State.setReader (s : State) (r : ℕ) (p : Reader) : State :=
  { s with reader := Function.update s.reader r p }

def State.setPlace (s : State) (uid : ℕ) (p : Place) : State :=
  { s with place := Function.update s.place uid p }

/-- The frames of `fs` have left the VM queue for good. -/
def State.endAll (s : State) (fs : List VmFrame) : State :=
  { s with place := fun uid => if uid ∈ fs.map (·.uid) then .ended else s.place uid }

/-! ## Actions -/

inductive Action
  /-- Any session call other than those of the VM task below. -/
  | session (op : Op)
  /-- A frame arrives and is authorised, as `ev_control_frame_authorized` does. -/
  | receive (h : ℕ) (link : LinkRef) (sessionId : Option (List UInt8)) (vmRelated : Bool)
      (vmEpoch : Option UInt32) (now : UInt32) (linkCurrent : Bool)
  | finish (h : ℕ)
  /-- `ev_control_repl_rx_push`: authorization, then the ring. -/
  | replCheck (h : ℕ) (data : List UInt8) (now : UInt32) (linkCurrent : Bool)
  | replPush (h : ℕ)
  /-- `ev_control_vm_queue_push`: authorization, the expiry loop, then the queue. -/
  | vmCheck (h : ℕ) (r : VmRequest) (now : UInt32) (linkCurrent : Bool)
  | vmExpireTake (h : ℕ) (now : UInt32)
  | vmExpireCheck (h : ℕ) (now : UInt32) (linkCurrent : Bool)
  | vmPush (h : ℕ) (now : UInt32)
  /-- `ev_control_repl_rx_pop` and `ev_control_transport_repl_pending`: snapshot, then ring. -/
  | readSnapshot (r : ℕ) (peek : Bool) (originAccepted : Bool) (now : UInt32)
  | readRing (r : ℕ)
  /-- `ev_control_transport_vm_poll`. -/
  | pollTake
  | pollMatch
  | pollCheck (now : UInt32) (linkCurrent : Bool) (scopeAvailable : Bool)
  | pollHandle (h : ℕ)
  | pollDone
  /-- `ev_control_transport_vm_reset_begin`, section by section, and `..._vm_ready`. -/
  | resetUnready
  | resetAdvance
  | resetClearVm
  | resetClearRepl
  | vmReady
  /-- The two clears of `ev_control_session_changed`. -/
  | clearStale (generation : UInt32)
  | clearReplGeneration (generation : UInt32)

/-- What an action did to an input. -/
inductive Outcome
  | silent
  | received (o : Origin)
  | popped (byte : UInt8) (o : Origin)
  | accepted (f : VmFrame)
  | dispatched (f : VmFrame)
  /-- Answered INTERNAL_ERROR: no output context was available. -/
  | internalError (f : VmFrame)
  | timedOut (f : VmFrame)
  | droppedStale (f : VmFrame)
  | cleared (fs : List VmFrame)

/-- Session calls that only the VM task makes. -/
def vmOnly : Op → Bool
  | .vmEpochAdvance => true
  | .setVmReady _ => true
  | _ => false

/-- Run one session call. -/
def State.call (cfg : Config) (s : State) (op : Op) : State :=
  { s with counted := (s.counted.call cfg op).1 }

/-- Run the authorization that guards the queues; the flag tells whether it passed. -/
def State.reauthorize (cfg : Config) (s : State) (c : Context) (now : UInt32)
    (linkCurrent : Bool) : State × Bool :=
  let r := s.counted.reauthorize cfg c now linkCurrent
  ({ s with counted := r.1 }, r.2.2)

/-- A frame arrives: only an OK answer starts a handler. -/
def receive (cfg : Config) (s : State) (h : ℕ) (link : LinkRef) (op : Op) (now : UInt32) :
    State × Outcome :=
  let r := s.counted.call cfg op
  let s' := s.call cfg op
  if r.2.reply = .result .ok then
    let o : Origin := ⟨s.frames, (r.1.state.snapshot now).contextOn link⟩
    ({ s' with frames := s.frames + 1 }.setHandler h (.handling o), .received o)
  else (s', .silent)

/-- The head of the VM queue once it is older than the limit. -/
def vmExpireTake (s : State) (h : ℕ) (o : Origin) (r : VmRequest) (now : UInt32) : State :=
  if s.vm.head = s.vm.tail then s.setHandler h (.vmPushing o r)
  else
    let f := s.vm.cells s.vm.head
    if now - f.queuedMs ≤ vmExpireMs then s.setHandler h (.vmPushing o r)
    else ({ s with vm := s.vm.take }.setHandler h (.vmExpiring o r f)).setPlace f.uid (.expiring h)

/-- An expired frame is answered VM_TIMEOUT while it is still authorised. -/
def vmExpireCheck (cfg : Config) (s : State) (h : ℕ) (o : Origin) (r : VmRequest) (f : VmFrame)
    (now : UInt32) (linkCurrent : Bool) : State × Outcome :=
  let a := s.reauthorize cfg f.origin.context now linkCurrent
  ((a.1.setHandler h (.vmChecked o r)).setPlace f.uid .ended,
    if a.2 then .timedOut f else .droppedStale f)

/-- The locked section of `ev_control_vm_queue_push`. -/
def vmPush (s : State) (h : ℕ) (o : Origin) (r : VmRequest) (now : UInt32) : State × Outcome :=
  let f : VmFrame := ⟨r, o, now, s.accepted⟩
  match s.vm.push f s.generation with
  | none => (s.setHandler h (.handling o), .silent)
  | some vm =>
    (({ s with vm := vm, accepted := s.accepted + 1 }.setHandler h (.handling o)).setPlace
      f.uid .queued, .accepted f)

/-- Whether the interpreter takes input, as the readers compute it. -/
def replReady (snap : Snapshot) : Bool :=
  snap.phase = .owned && snap.handshakeComplete && snap.vmReady

/-- The reader's snapshot; a stale edit origin reads as Ctrl-C and leaves the ring alone. -/
def readSnapshot (s : State) (r : ℕ) (peek originAccepted : Bool) (now : UInt32) : State :=
  let snap := s.session.snapshot now
  if peek then s.setReader r (.peeking snap.inputGeneration (replReady snap))
  else if replReady snap && !originAccepted then s
  else s.setReader r (.popping snap.inputGeneration (replReady snap))

/-- The critical section of `ev_control_repl_rx_pop`. -/
def readPop (s : State) (r : ℕ) (generation : UInt32) (ready : Bool) : State × Outcome :=
  let p := EvReplQueue.pop s.repl generation s.generation ready
  ({ s with repl := p.1 }.setReader r .idle,
    match p.2 with
    | some v => .popped v.1 v.2
    | none => .silent)

/-- The poll takes the head of the queue. -/
def pollTake (s : State) : State :=
  if !s.vm.pending then s
  else if s.vm.head = s.vm.tail then { s with vm := { s.vm with pending := false } }
  else
    let f := s.vm.cells s.vm.head
    { s with vm := s.vm.take, vmTask := .polled f }.setPlace f.uid .polled

/-- The lock-free generation check of the poll. -/
def pollMatch (s : State) (f : VmFrame) : State × Outcome :=
  if s.generation ≠ f.origin.context.inputGeneration then
    ({ s with vmTask := .idle }.setPlace f.uid .ended, .droppedStale f)
  else ({ s with vmTask := .matched f }, .silent)

/-- The authorization of the poll and the dispatch behind it. -/
def pollCheck (cfg : Config) (s : State) (f : VmFrame) (now : UInt32)
    (linkCurrent scopeAvailable : Bool) : State × Outcome :=
  let a := s.reauthorize cfg f.origin.context now linkCurrent
  if !a.2 then ({ a.1 with vmTask := .idle }.setPlace f.uid .ended, .droppedStale f)
  else if !scopeAvailable then
    ({ a.1 with vmTask := .idle }.setPlace f.uid .ended, .internalError f)
  else ({ a.1 with vmTask := .running f }.setPlace f.uid .ended, .dispatched f)

/-- One action, when it can run. -/
def act (cfg : Config) (s : State) : Action → Option (State × Outcome)
  | .session op =>
    if op.enabled s.counted.sessions ∧ vmOnly op = false then some (s.call cfg op, .silent)
    else none
  | .receive h link id vm epoch now cur =>
    match s.handler h with
    | .idle => some (receive cfg s h link (.authorize link id vm epoch now cur) now)
    | _ => none
  | .finish h =>
    match s.handler h with
    | .handling _ => some (s.setHandler h .idle, .silent)
    | _ => none
  | .replCheck h data now cur =>
    match s.handler h with
    | .handling o =>
      if o.context.inputGeneration = 0 then some (s, .silent)
      else
        let a := s.reauthorize cfg o.context now cur
        some (if a.2 then a.1.setHandler h (.replChecked o data) else a.1, .silent)
    | _ => none
  | .replPush h =>
    match s.handler h with
    | .replChecked o data =>
      let p := EvReplQueue.push s.repl (data.map fun b => (b, o)) o.context.inputGeneration
        s.generation
      some ({ s with repl := p.1 }.setHandler h (.handling o), .silent)
    | _ => none
  | .vmCheck h r now cur =>
    match s.handler h with
    | .handling o =>
      if methodMax < r.method.length then some (s, .silent)
      else
        let a := s.reauthorize cfg o.context now cur
        some (if a.2 then a.1.setHandler h (.vmChecked o r) else a.1, .silent)
    | _ => none
  | .vmExpireTake h now =>
    match s.handler h with
    | .vmChecked o r => some (vmExpireTake s h o r now, .silent)
    | _ => none
  | .vmExpireCheck h now cur =>
    match s.handler h with
    | .vmExpiring o r f => some (vmExpireCheck cfg s h o r f now cur)
    | _ => none
  | .vmPush h now =>
    match s.handler h with
    | .vmPushing o r => some (vmPush s h o r now)
    | _ => none
  | .readSnapshot r peek accepted now =>
    match s.reader r with
    | .idle => some (readSnapshot s r peek accepted now, .silent)
    | _ => none
  | .readRing r =>
    match s.reader r with
    | .popping generation ready => some (readPop s r generation ready)
    | .peeking generation ready =>
      let p := EvReplQueue.pending s.repl generation s.generation ready
      some ({ s with repl := p.1 }.setReader r .idle, .silent)
    | .idle => none
  | .pollTake =>
    match s.vmTask with
    | .idle => some (pollTake s, .silent)
    | _ => none
  | .pollMatch =>
    match s.vmTask with
    | .polled f => some (pollMatch s f)
    | _ => none
  | .pollCheck now cur scope =>
    match s.vmTask with
    | .matched f => some (pollCheck cfg s f now cur scope)
    | _ => none
  | .pollHandle h =>
    match s.vmTask, s.handler h with
    | .running f, .idle => some (s.setHandler h (.handling f.origin), .silent)
    | _, _ => none
  | .pollDone =>
    match s.vmTask with
    | .running _ => some ({ s with vmTask := .idle }, .silent)
    | _ => none
  | .resetUnready =>
    match s.vmTask with
    | .idle => some ({ s.call cfg (.setVmReady false) with vmTask := .unready }, .silent)
    | _ => none
  | .resetAdvance =>
    match s.vmTask with
    | .unready => some ({ s.call cfg .vmEpochAdvance with vmTask := .advanced }, .silent)
    | _ => none
  | .resetClearVm =>
    match s.vmTask with
    | .advanced =>
      some ({ s with vm := {}, vmTask := .cleared }.endAll s.vm.contents, .cleared s.vm.contents)
    | _ => none
  | .resetClearRepl =>
    match s.vmTask with
    | .cleared =>
      some ({ s with repl := EvReplQueue.forceClear s.repl s.generation, vmTask := .idle },
        .silent)
    | _ => none
  | .vmReady =>
    match s.vmTask with
    | .idle => some (s.call cfg (.setVmReady true), .silent)
    | _ => none
  | .clearStale generation =>
    let vm := s.vm.clearStale generation s.generation
    let gone := s.vm.contents.filter fun f => f ∉ vm.contents
    some ({ s with vm := vm }.endAll gone, .cleared gone)
  | .clearReplGeneration generation =>
    some ({ s with
      repl := (EvReplQueue.clearGeneration s.repl generation s.generation).1 }, .silent)

structure Event where
  action : Action
  outcome : Outcome

/-- Handlers, readers, the VM task and session calls in any order. -/
def inputs (cfg : Config) : System State Event where
  init s := ∃ epoch, s = { counted := ⟨{ state := init0 cfg epoch }, 0⟩ }
  step s e t := act cfg s e.action = some (t, e.outcome)

end EspVision.EvInput
