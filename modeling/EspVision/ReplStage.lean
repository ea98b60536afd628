import EspVision.MetadataBind
import EspVision.MuxSystem

/-!
# The stage of the REPL output

Pieces of output for one owner are gathered in one buffer. It is handed to the queue when a line
ends in it, when it is full, or when the worker finds it old enough. Only the task that holds the
producer mutex touches the stage; a task that waits for room in the queue keeps the mutex, so each
step below is a part of one call, and cancellations may come in between.
-/
namespace EspVision.ReplStage

open EvTransport EvMux EvSession TransitionSystem
open Json EvControlJson EvControl
open MuxTx (espOk espErrNoMem espErrInvalidArg espErrInvalidSize espErrTimeout queueTimeoutMs)
open MetadataBind (CString)

/-- `EV_MUX_REPL_STAGE_BYTES`. -/
def replStageBytes : ℕ := 512

/-- `EV_MUX_REPL_COALESCE_MS`. -/
def replCoalesceMs : UInt32 := 5

def newline : UInt8 := 0x0a

/-! ## What metadata says -/

/-- `ev_mux_repl_metadata_semantics_t`, its buffers as C strings. -/
structure MetadataSemantics where
  channel : List UInt8
  type : List UInt8
  method : List UInt8
  sid : List UInt8
  encoding : List UInt8
  hasMethod : Bool
  hasSid : Bool
  hasEncoding : Bool

/-- `sizeof(sid)` and `sizeof(encoding)`. -/
def semanticsCapacity : ℕ := 16

/-- The fields of `ev_mux_repl_metadata_semantics`. -/
def semanticsFields : List Field :=
  [stringField channelKey true channelCapacity, stringField typeKey true typeCapacity,
    stringField methodKey false methodCapacity, stringField sidKey false semanticsCapacity,
    stringField encodingKey false semanticsCapacity]

def readSemantics : List Field → Json.Outcome MetadataSemantics
  | [channel, type, method, sid, encoding] => do
    let channelText ← fieldText channel
    let typeText ← fieldText type
    let methodText ← fieldText method
    let sidText ← fieldText sid
    let encodingText ← fieldText encoding
    .ok
      { channel := channelText, type := typeText, method := methodText, sid := sidText
        encoding := encodingText, hasMethod := method.present, hasSid := sid.present
        hasEncoding := encoding.present }
  | _ => .fault

/-- `ev_mux_repl_metadata_semantics`. -/
def metadataSemantics (text : List UInt8) : Json.Outcome MetadataSemantics := do
  let fields ← parseObject semanticsFields text
  readSemantics fields

/-- `ev_mux_repl_metadata_compatible`. -/
def metadataCompatible (left right : List UInt8) : Bool :=
  match metadataSemantics left, metadataSemantics right with
  | .ok l, .ok r =>
    l.channel == r.channel && l.type == r.type && l.hasMethod == r.hasMethod &&
      (!l.hasMethod || l.method == r.method) && l.hasSid == r.hasSid &&
      (!l.hasSid || l.sid == r.sid) && l.hasEncoding == r.hasEncoding &&
      (!l.hasEncoding || l.encoding == r.encoding)
  | _, _ => false

/-! ## The stage -/

/-- `ev_mux_repl_stage_t`. A list stands for a buffer and its length, and the session id for the C
string; `metadata` has the cells up to the terminator. -/
structure Stage where
  used : Bool := false
  retrying : Bool := false
  link : LinkRef := {}
  sessionId : List UInt8 := []
  vmEpoch : UInt32 := 0
  outputInputGeneration : UInt32 := 0
  outputTransitionId : UInt32 := 0
  lastAppendMs : UInt32 := 0
  retryStartedMs : UInt32 := 0
  metadataLen : ℕ := 0
  metadata : List UInt8 := []
  payload : List UInt8 := []
  deriving DecidableEq

deriving instance DecidableEq for CString, MetadataBind.SubmitOptions

/-- The parts of `ev_mux_stream_target_t` that are read. -/
structure StreamTarget where
  link : LinkRef
  options : MetadataBind.SubmitOptions
  origin : Context
  deriving DecidableEq

/-- The session id of the options, an empty string for a null pointer. -/
def StreamTarget.sessionId (target : StreamTarget) : List UInt8 :=
  (target.options.sessionId.map CString.bytes).getD []

/-- Whom the staged bytes are for. -/
def Stage.owner (stage : Stage) : Context :=
  ⟨stage.link, stage.sessionId, stage.vmEpoch, stage.outputInputGeneration,
    stage.outputTransitionId⟩

/-- Whom the bytes written to the target are for. -/
def StreamTarget.owner (target : StreamTarget) : Context :=
  ⟨target.link, target.sessionId, target.options.vmEpoch, target.origin.inputGeneration,
    target.origin.transitionId⟩

/-- `ev_mux_repl_target_matches`. -/
def targetMatches (stage : Stage) (target : StreamTarget) (metadata : CString) : Bool :=
  stage.link == target.link && stage.vmEpoch == target.options.vmEpoch &&
    stage.outputInputGeneration == target.origin.inputGeneration &&
    stage.outputTransitionId == target.origin.transitionId &&
    stage.sessionId == target.sessionId &&
    metadataCompatible (stage.metadata.takeWhile (· ≠ 0)) metadata.bytes

/-- A look at the link and at the session. -/
structure Look where
  linkCurrent : Bool := true
  snapshot : Option Snapshot := none
  deriving DecidableEq

/-- `ev_mux_session_matches_output_origin`, whose arguments a frame carries too. -/
def matchesOrigin (snapshot : Snapshot) (c : Context) : Bool :=
  MuxTx.sessionMatchesOutputOrigin snapshot
    { link := c.link, sessionId := c.sessionId, vmEpoch := c.vmEpoch
      outputInputGeneration := c.inputGeneration, outputTransitionId := c.transitionId }

/-- `ev_mux_output_origin_is_current`; the length check refuses a session id that is not whole. -/
def outputOriginIsCurrent (origin : Context) (snapshot : Option Snapshot) : Bool :=
  origin.inputGeneration != 0 && origin.sessionId.length == MetadataBind.sessionIdHexLen &&
    snapshot.any fun now => matchesOrigin now origin

/-- `ev_mux_repl_stage_is_current`. -/
def stageIsCurrent (stage : Stage) (cancelledEpoch : UInt32) (look : Look) : Bool :=
  if !look.linkCurrent then false
  else if stage.sessionId = [] then stage.vmEpoch == 0
  else if stage.vmEpoch ≠ 0 ∧ cancelledEpoch = stage.vmEpoch then false
  else match look.snapshot with
    | none => false
    | some snapshot =>
      if stage.outputInputGeneration ≠ 0 then matchesOrigin snapshot stage.owner
      else
        snapshot.hasOwner && snapshot.phase == .owned && snapshot.ownerLink == stage.link &&
          snapshot.sessionId == stage.sessionId &&
          (stage.vmEpoch == 0 || snapshot.vmEpoch == stage.vmEpoch)

def statusErr : MetadataBind.Status → EspErr
  | .ok => espOk
  | .invalidArg => espErrInvalidArg
  | .invalidSize => espErrInvalidSize
  | .invalidState => espErrInvalidState

/-- `ev_mux_repl_stage_begin_locked`. -/
def stageBegin (target : StreamTarget) (metadata : CString) (nowMs : UInt32) :
    Json.Outcome (Except EspErr Stage) := do
  let bind ← MetadataBind.metadataBind (some metadata) (some target.options) true true
  if bind.status ≠ .ok then .ok (.error (statusErr bind.status))
  else match bind.output with
    | some (cells, metadataLen) =>
      .ok (.ok
        { used := true, link := target.link, vmEpoch := target.options.vmEpoch
          outputInputGeneration := target.origin.inputGeneration
          outputTransitionId := target.origin.transitionId, sessionId := target.sessionId
          metadataLen := metadataLen, metadata := cells, lastAppendMs := nowMs })
    | none => .fault

/-- The options of the frame that `ev_mux_repl_flush_locked` submits. -/
def Stage.options (stage : Stage) : MuxTx.SubmitOptions :=
  { link := stage.link, sessionId := if stage.sessionId = [] then none else some stage.sessionId
    vmEpoch := stage.vmEpoch, txClass := .repl
    vmOutputOrigin := if stage.outputInputGeneration = 0 then none else some stage.owner }

/-! ## The calls -/

/-- What became of the bytes when the stage was reset. -/
inductive Fate
  /-- The queue took them at this look, where this epoch was the last one cancelled. -/
  | queued (look : Look) (cancelledEpoch : UInt32)
  | stale
  | timedOut
  | refused (e : EspErr)
  deriving DecidableEq

/-- A stage that is gone. -/
structure Gone where
  stage : Stage
  fate : Fate
  deriving DecidableEq

/-- A call of `ev_mux_write_repl_target` that has the producer mutex. -/
structure Writing where
  target : StreamTarget
  metadata : CString
  payload : List UInt8
  offset : ℕ := 0
  startedMs : UInt32
  deriving DecidableEq

/-- A call that has had the mutex, with its result. -/
structure Returned where
  writing : Writing
  result : EspErr

/-- What the task that holds the producer mutex does next: the loop of the write, or
`ev_mux_repl_flush_locked` from its start or from its loop, for a write or for the worker. -/
inductive Holder
  | free
  | writing (w : Writing)
  | entering (producerStartedMs : UInt32) (w : Option Writing)
  | flushing (admissionStartedMs : UInt32) (w : Option Writing)
  deriving DecidableEq

/-- `s_repl_stage` and `s_repl_cancelled_epoch`, with the holder of the mutex and the history. -/
structure State where
  stage : Stage := {}
  cancelledEpoch : UInt32 := 0
  holder : Holder := .free
  gone : List Gone := []
  returned : List Returned := []

/-- The result of a write that is over, and the session that the caller is to fail. -/
structure Reply where
  result : Option EspErr := none
  failSession : Option (LinkRef × List UInt8) := none
  deriving DecidableEq

/-- What a write meets before it has the mutex, and the look at the stage behind it. -/
structure WriteLook where
  origin : Option Snapshot := none
  initialized : Bool := true
  mutexTaken : Bool := true
  startedMs : UInt32 := 0
  stage : Look := {}

/-- The checks of `ev_mux_write_repl_target` up to the mutex. -/
def refusal (target : StreamTarget) (metadata : CString) (payload : List UInt8)
    (look : WriteLook) : Json.Outcome (Option EspErr) :=
  if payload = [] then .ok (some espOk)
  else if metadataMax < MetadataBind.strnlen metadata (metadataMax + 1) then
    .ok (some espErrInvalidSize)
  else do
    let bind ← MetadataBind.metadataBind (some metadata) (some target.options) false false
    if bind.status ≠ .ok then .ok (some (statusErr bind.status))
    else if target.origin.inputGeneration ≠ 0 ∧
        outputOriginIsCurrent target.origin look.origin = false then .ok (some espErrInvalidState)
    else if !look.initialized then .ok (some espErrNoMem)
    else if !look.mutexTaken then .ok (some espErrTimeout)
    else .ok none

/-- How many of the remaining bytes are copied at once: up to the first line end, as far as there
is room. -/
def copyLen (rest : List UInt8) (available : ℕ) : ℕ :=
  let copyLen := min rest.length available
  match (rest.take copyLen).idxOf? newline with
  | some i => i + 1
  | none => copyLen

/-- The stage is handed over when it is full or ends with a line end. -/
def shouldFlush (payload : List UInt8) : Bool :=
  payload.length == replStageBytes || payload.getLast? == some newline

namespace State

variable (s : State)

/-- `ev_mux_repl_stage_reset_locked`, where the stage is given up or has been taken. -/
def discard (fate : Fate) : State :=
  { s with stage := {}, gone := s.gone ++ [⟨s.stage, fate⟩] }

/-- The write is over. -/
def finish (w : Writing) (result : EspErr) : State :=
  { s with holder := .free, returned := s.returned ++ [⟨w, result⟩] }

/-- The flush is over: the worker is done, and a write goes on when the flush was successful. -/
def flushed (w : Option Writing) (result : EspErr) : State :=
  match w with
  | none => { s with holder := .free }
  | some w => if result = espOk then { s with holder := .writing w } else s.finish w result

/-- The answer of a flush that is over. -/
def answer (w : Option Writing) (result : EspErr) (failSession : Option (LinkRef × List UInt8)) :
    Reply :=
  { result := w.bind fun _ => if result = espOk then none else some result
    failSession := failSession }

/-- The session that a flush reports when it gives the stage up. -/
def failed : Option (LinkRef × List UInt8) :=
  if s.stage.sessionId = [] then none else some (s.stage.link, s.stage.sessionId)

/-- `ev_mux_write_repl_target` from the mutex to its loop. -/
def start (w : Writing) (look : Look) : State :=
  if s.stage.used ∧ stageIsCurrent s.stage s.cancelledEpoch look = false then
    { s.discard .stale with holder := .writing w }
  else if s.stage.used ∧ targetMatches s.stage w.target w.metadata = false then
    { s with holder := .entering w.startedMs (some w) }
  else { s with holder := .writing w }

/-- A call of `ev_mux_write_repl_target`. -/
def write (target : StreamTarget) (metadata : CString) (payload : List UInt8) (look : WriteLook) :
    Option (State × Reply) :=
  match refusal target metadata payload look, s.holder with
  | .ok (some e), _ => some (s, { result := some e })
  | .ok none, .free =>
    some (s.start ⟨target, metadata, payload, 0, look.startedMs⟩ look.stage, {})
  | _, _ => none

/-- The stage that a turn of the loop of `ev_mux_write_repl_target` appends to. -/
def stageFor (w : Writing) (nowMs : UInt32) : Json.Outcome (Except EspErr Stage) :=
  if s.stage.used then .ok (.ok s.stage) else stageBegin w.target w.metadata nowMs

/-- The bytes that a turn of the loop appends. -/
def append (w : Writing) (stage : Stage) (nowMs : UInt32) : State :=
  let rest := w.payload.drop w.offset
  let n := copyLen rest (replStageBytes - stage.payload.length)
  let payload := stage.payload ++ rest.take n
  let w := { w with offset := w.offset + n }
  { s with
    stage := { stage with payload := payload, lastAppendMs := nowMs }
    holder := if shouldFlush payload then .entering w.startedMs (some w) else .writing w }

/-- A turn of the loop of `ev_mux_write_repl_target`, or its end. -/
def turn (w : Writing) (beginMs nowMs : UInt32) : Option (State × Reply) :=
  if w.offset < w.payload.length then
    match s.stageFor w beginMs with
    | .ok (.error e) => some ({ s with stage := {} }.finish w e, { result := some e })
    | .ok (.ok stage) =>
      if targetMatches stage w.target w.metadata = false then
        some ({ s with stage := stage }.finish w espErrInvalidState,
          { result := some espErrInvalidState })
      else some (s.append w stage nowMs, {})
    | _ => none
  else some (s.finish w espOk, { result := some espOk })

/-- The start of `ev_mux_repl_flush_locked`. -/
def enter (producerStartedMs : UInt32) (w : Option Writing) (look : Look) : State × Reply :=
  if !s.stage.used then (s.flushed w espOk, answer w espOk none)
  else if !stageIsCurrent s.stage s.cancelledEpoch look then
    ((s.discard .stale).flushed w espErrInvalidState, answer w espErrInvalidState none)
  else
    ({ s with
      holder := .flushing (if s.stage.retrying then s.stage.retryStartedMs else producerStartedMs)
        w }, {})

/-- The flush gives the stage up. -/
def giveUp (w : Option Writing) (fate : Fate) (result : EspErr) : State × Reply :=
  ((s.discard fate).flushed w result, answer w result s.failed)

/-- A turn of the loop of `ev_mux_repl_flush_locked`; `result` is the answer of
`ev_mux_enqueue_normal`. The worker does not wait. -/
def round (admissionStartedMs : UInt32) (w : Option Writing) (look : Look) (nowMs : UInt32)
    (result : EspErr) (laterMs : UInt32) : State × Reply :=
  if !stageIsCurrent s.stage s.cancelledEpoch look then
    ((if s.stage.used then s.discard .stale else s).flushed w espErrInvalidState,
      answer w espErrInvalidState none)
  else if w.isSome ∧ queueTimeoutMs ≤ nowMs - admissionStartedMs then
    s.giveUp w .timedOut espErrTimeout
  else if result = espOk then
    ((s.discard (.queued look s.cancelledEpoch)).flushed w espOk, answer w espOk none)
  else if result ≠ espErrTimeout then s.giveUp w (.refused result) result
  else if w.isNone then
    if !s.stage.retrying then
      ({ s with stage := { s.stage with retrying := true, retryStartedMs := laterMs } }.flushed w
        espErrTimeout, answer w espErrTimeout none)
    else if queueTimeoutMs ≤ laterMs - s.stage.retryStartedMs then
      s.giveUp w .timedOut espErrTimeout
    else (s.flushed w espErrTimeout, answer w espErrTimeout none)
  else if queueTimeoutMs ≤ laterMs - admissionStartedMs then s.giveUp w .timedOut espErrTimeout
  else (s, {})

/-- `ev_mux_repl_worker_flush` up to the flush. -/
def workerFlush (nowMs : UInt32) : State :=
  match s.holder with
  | .free =>
    if s.stage.used && (replCoalesceMs ≤ nowMs - s.stage.lastAppendMs || s.stage.retrying) then
      { s with holder := .entering nowMs none }
    else s
  | _ => s

/-- The part of `ev_mux_cancel_vm_epoch` that is about the stage. -/
def cancelVmEpoch (vmEpoch : UInt32) : State :=
  if vmEpoch = 0 then s
  else
    let s := { s with cancelledEpoch := vmEpoch }
    match s.holder with
    | .free => if s.stage.used ∧ s.stage.vmEpoch = vmEpoch then s.discard .stale else s
    | _ => s

end State

/-- What happens to the stage, with the answers of the surroundings. -/
inductive Step
  | write (target : StreamTarget) (metadata : CString) (payload : List UInt8) (look : WriteLook)
  | workerFlush (nowMs : UInt32)
  | turn (beginMs nowMs : UInt32)
  | enter (look : Look)
  | round (look : Look) (nowMs : UInt32) (result : EspErr) (laterMs : UInt32)
  | cancelVmEpoch (vmEpoch : UInt32)

/-- A step of the holder is one that the holder is at. -/
def State.next (s : State) : Step → Option (State × Reply)
  | .write target metadata payload look => s.write target metadata payload look
  | .workerFlush nowMs => some (s.workerFlush nowMs, {})
  | .cancelVmEpoch vmEpoch => some (s.cancelVmEpoch vmEpoch, {})
  | .turn beginMs nowMs =>
    match s.holder with
    | .writing w => s.turn w beginMs nowMs
    | _ => none
  | .enter look =>
    match s.holder with
    | .entering startedMs w => some (s.enter startedMs w look)
    | _ => none
  | .round look nowMs result laterMs =>
    match s.holder with
    | .flushing startedMs w => some (s.round startedMs w look nowMs result laterMs)
    | _ => none

/-- The stage from its initialization on. -/
def replOutput : System State (Step × Reply) where
  init s := s = {}
  step s l t := s.next l.1 = some (t, l.2)

end EspVision.ReplStage
