import EspVision.MuxFrame

/-!
# The state of the transmit multiplexer

A queue for each target, the arenas of their payloads, the counters that the TCP targets share,
and the pool of large frames and previews. The task that holds a queue's mutex stands at one of the
places `Holder`: what it does to the shared counters and to the shared bit map are critical
sections of their own, and tasks that hold other queues may come in between.
-/
namespace EspVision.MuxTx

open EvTransport EvMux EvSession Host ByteMedium BlockArena

/-! ## Normal queues -/

abbrev FrameSlot := Fin queueFrames

/-- What a completion is called with. -/
structure Completion where
  callback : Option ℕ
  link : LinkRef
  result : EspErr
  ticket : Ticket
  context : List UInt8
  id : ℕ
  deriving DecidableEq

/-- What the worker does after it has let the mutexes go. -/
inductive Aftermath
  | complete (c : Completion)
  | failSession (link : LinkRef) (sessionId : List UInt8)
  | close (link : LinkRef)
  deriving DecidableEq

/-- Which frames a cancellation is for. -/
inductive Cancel
  | vmEpoch (epoch : UInt32)
  | session (link : LinkRef) (sessionId : List UInt8)
  deriving DecidableEq

/-- `ev_mux_special_kind_t`; the frames of the queues have the first kind. -/
inductive SpecialKind
  | none | preview | large | observer
  deriving DecidableEq

/-- What an accepted submission consists of, and where its frame was put into the order of all. -/
structure Submission where
  link : LinkRef
  metadata : List UInt8
  payload : List UInt8
  kind : SpecialKind := .none
  priority : ℕ := 0
  uartBaudControl : Bool := false
  enqueueMs : UInt32 := 0
  enqueueOrder : UInt32 := 0
  deriving DecidableEq

/-- The submission that a frame carries. -/
def Frame.submission (f : Frame) (payload : List UInt8) (kind : SpecialKind) : Submission where
  link := f.link
  metadata := f.metadata
  payload := payload
  kind := kind
  priority := f.priority
  uartBaudControl := f.uartBaudControl
  enqueueMs := f.enqueueMs
  enqueueOrder := f.enqueueOrder

@[simp] theorem submission_kind (f : Frame) (payload : List UInt8) (kind : SpecialKind) :
    (f.submission payload kind).kind = kind := rfl

/-- How a frame's release goes on: the worker lets the queue go, or a cancellation looks at the
next frame. -/
inductive Continue
  | worker (after : List Aftermath)
  | cancel (next : ℕ) (which : Cancel)
  deriving DecidableEq

/-- Where the task that holds the queue's mutex stands. -/
inductive Holder
  | free
  | reserving (k : FrameSlot) (payload : List UInt8) (frameTimeout : ℕ)
  | allocating (k : FrameSlot) (payload : List UInt8) (frameTimeout : ℕ)
  | refusing (k : FrameSlot)
  | filling (k : FrameSlot) (payload : List UInt8) (frameTimeout : ℕ)
  | releasing (k : FrameSlot) (next : Continue)
  | unreserving (k : FrameSlot) (next : Continue)
  | clearing (k : FrameSlot) (next : Continue)
  | cancelling (i : ℕ) (which : Cancel)
  deriving DecidableEq

/-- `ev_mux_target_queue_t` without its arena, and who holds its mutex. -/
structure Queue where
  bytesUsed : ℕ := 0
  framesUsed : ℕ := 0
  frames : FrameSlot → Frame := fun _ => {}
  holder : Holder := .free

/-- The memory of a queue, or of the TCP queues, and the bit map of its free blocks. -/
structure Arena where
  freeBlocks : BitVec blockCount := BitVec.allOnes blockCount
  memory : ℕ → UInt8 := fun _ => 0

abbrev ArenaIndex := Fin (serialTargets + 1)

/-- The arena of a target: the TCP targets share the last one. -/
def arenaOf (t : Target) : ArenaIndex := ⟨min t.val serialTargets, by omega⟩

/-- The counters behind `s_tcp_quota_mux`. -/
@[ext] structure TcpQuota where
  bytesUsed : ℕ := 0
  framesUsed : ℕ := 0
  discoveryBytesUsed : ℕ := 0
  discoveryFramesUsed : ℕ := 0
  lowBytesUsed : ℕ := 0
  lowFramesUsed : ℕ := 0

/-! ## The special frames -/

/-- `EV_MUX_OWNER_PREVIEW_FRAMES`. -/
def ownerPreviewFrames : ℕ := 2
/-- `EV_TRANSPORT_PREVIEW_OBSERVERS`. -/
def previewObservers : ℕ := 2
/-- `EV_MUX_PREVIEW_FRAMES`. -/
def previewFrames : ℕ := ownerPreviewFrames + 2 * previewObservers
/-- `EV_MUX_OBSERVER_BUFFERS`. -/
def observerBuffers : ℕ := previewObservers + 1

/-- An address that `malloc` has given; addresses are not given twice. -/
abbrev Ptr := ℕ

/-- `ev_mux_special_frame_t`. -/
structure Special where
  used : Bool := false
  kind : SpecialKind := .none
  poolIndex : ℕ := 0
  frame : Frame := {}
  payload : Option Ptr := none
  deriving DecidableEq

/-- The special frames in the order in which the worker looks at them. -/
inductive SpecialRef
  | preview (i : Fin previewFrames)
  | large
  deriving DecidableEq

def SpecialRef.all : List SpecialRef := (List.finRange previewFrames).map .preview ++ [.large]

/-- A buffer of the heap. -/
structure Buffer where
  capacity : ℕ
  cells : ℕ → UInt8

/-- A variable that owns a buffer, with the capacity that it remembers. -/
structure Owned where
  buffer : Option Ptr := none
  capacity : ℕ := 0
  deriving DecidableEq

/-- The frames and buffers behind `s_special_mutex`, the marks of started special frames, and the
heap that the buffers are taken from. -/
structure Pool where
  frames : SpecialRef → Special := fun _ => {}
  previewBuffers : Fin ownerPreviewFrames → Owned := fun _ => {}
  observerBuffers : Fin observerBuffers → Owned := fun _ => {}
  largeBuffer : Owned := {}
  previewPending : Option (Fin ownerPreviewFrames) := none
  previewActive : Option (Fin ownerPreviewFrames) := none
  partialFrame : Target → Option SpecialRef := fun _ => none
  heap : Ptr → Option Buffer := fun _ => none
  nextPtr : Ptr := 0

/-! ## All of it -/

/-- The multiplexer, the links that it writes to, and what it has done: `wire` are the bytes that
each link generation has taken, `segments` says to which submission they belong, `accepted` are
the accepted submissions by number, `left` those that have left their queue, with the result, and
`completed` are the completions that have run. No function reads the last five. -/
structure Mux where
  queues : Target → Queue := fun _ => {}
  arenas : ArenaIndex → Arena := fun _ => {}
  quota : TcpQuota := {}
  enqueueOrder : UInt32 := 0
  pool : Pool := {}
  after : Target → List Aftermath := fun _ => []
  due : List Completion := []
  registry : Registry
  wire : LinkRef → List UInt8 := fun _ => []
  segments : LinkRef → List (ℕ × ℕ) := fun _ => []
  accepted : List Submission := []
  left : List (ℕ × EspErr) := []
  completed : List Completion := []

namespace Mux

variable (s : Mux)

def frame (t : Target) (k : FrameSlot) : Frame := (s.queues t).frames k

def holder (t : Target) : Holder := (s.queues t).holder

def arena (t : Target) : Arena := s.arenas (arenaOf t)

def setQueue (t : Target) (q : Queue) : Mux := { s with queues := Function.update s.queues t q }

def setHolder (t : Target) (h : Holder) : Mux := s.setQueue t { s.queues t with holder := h }

def setFrame (t : Target) (k : FrameSlot) (f : Frame) : Mux :=
  s.setQueue t { s.queues t with frames := Function.update (s.queues t).frames k f }

def setArena (t : Target) (a : Arena) : Mux :=
  { s with arenas := Function.update s.arenas (arenaOf t) a }

def setAfter (t : Target) (after : List Aftermath) : Mux :=
  { s with after := Function.update s.after t after }

/-- `ev_mux_payload_pointer` for a frame of a queue. -/
def normalPayload (t : Target) (k : FrameSlot) (offset : ℕ) : List UInt8 :=
  slice blockSize (s.frame t k).blocks (s.frame t k).payloadLen offset (s.arena t).memory

/-- `ev_mux_payload_pointer` for a special frame; what no buffer holds any more reads as empty. -/
def specialPayload (r : SpecialRef) (offset : ℕ) : List UInt8 :=
  match (s.pool.frames r).payload.bind s.pool.heap with
  | none => []
  | some b => window b.cells offset ((s.pool.frames r).frame.payloadLen - offset)

end Mux

/-- `memset` of a frame. -/
def Frame.zeroed : Frame := {}

/-- What `ev_mux_completion_prepare` takes from the frame. -/
def Frame.completionOf (f : Frame) (result : EspErr) : Completion :=
  ⟨f.completion, f.link, result, f.ticket, f.completionContext, f.id⟩

end EspVision.MuxTx
