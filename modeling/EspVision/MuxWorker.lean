import EspVision.MuxPool

/-!
# The transmit worker (`ev_mux_process_target`)

One visit of the worker to a target: it chooses a frame, decides whether the frame may be sent,
offers some of its bytes to the link, and drops the frame when it is done, stale, late or failed.
What the visit learns from the rest of the firmware is an argument.
-/
namespace EspVision.MuxTx

open EvTransport EvMux EvSession Host

/-- `ev_io_status_t`. -/
inductive IoStatus
  | progress | wouldBlock | closed | error
  deriving DecidableEq

/-- `ev_io_result_t`. -/
structure IoResult where
  status : IoStatus
  transferred : ℕ := 0
  error : EspErr := 0
  deriving DecidableEq

/-- What one visit learns: whether it got `s_special_mutex`, the clock each time it is read, the
pause of the UART, the answers about the frame it looks at, and the result of the write. -/
structure WorkerLook where
  specialLocked : Bool := true
  chooseMs : UInt32 := 0
  expireMs : UInt32 := 0
  nowMs : UInt32 := 0
  progressMs : UInt32 := 0
  pausedAtChoice : Bool := false
  pausedAtCheck : Bool := false
  linkIsCurrent : Bool := true
  previewSubscribed : Bool := true
  snapshot : Option Snapshot := none
  outputReady : Bool := false
  baudrate : ℕ := 115200
  io : IoResult

/-- A frame that the worker has chosen. -/
inductive Pick
  | normal (k : FrameSlot)
  | special (r : SpecialRef)
  deriving DecidableEq

/-! ## Authorization -/

/-- `ev_mux_session_matches_output_origin`. -/
def sessionMatchesOutputOrigin (snapshot : Snapshot) (f : Frame) : Bool :=
  f.outputInputGeneration != 0 && snapshot.hasOwner && snapshot.phase == .owned &&
    snapshot.handshakeComplete && snapshot.vmReady && snapshot.ownerLink == f.link &&
    snapshot.sessionId == f.sessionId && snapshot.vmEpoch == f.vmEpoch &&
    snapshot.inputGeneration == f.outputInputGeneration &&
    snapshot.transitionId == f.outputTransitionId

/-- `ev_mux_frame_auth_t`. -/
inductive FrameAuth
  | allowed | wait | stale
  deriving DecidableEq

/-- The part of `ev_mux_frame_authorized` that looks at the session. -/
def sessionAuthorized (f : Frame) (snapshot : Snapshot) (outputReady : Bool) : FrameAuth :=
  if f.txOffset = 0 ∧ f.vmEpoch ≠ 0 ∧ f.vmEpoch ≠ snapshot.vmEpoch then .stale
  else if f.txOffset = 0 ∧ f.outputInputGeneration ≠ 0 ∧
      sessionMatchesOutputOrigin snapshot f = false then .stale
  else if f.sessionId = [] then .allowed
  else
    let sameOwner := snapshot.hasOwner && snapshot.ownerLink == f.link &&
      snapshot.sessionId == f.sessionId
    let releasing := snapshot.phase == .releasing && sameOwner
    if !sameOwner && !releasing then .stale
    else if f.priority = TxClass.session.priority then .allowed
    else if f.txOffset ≠ 0 then .allowed
    else if outputReady then .allowed
    else .wait

/-- `ev_mux_frame_authorized`. -/
def frameAuthorized (f : Frame) (look : WorkerLook) : FrameAuth :=
  if f.previewObserver ∧ f.txOffset = 0 ∧ look.previewSubscribed = false then .stale
  else if f.link.transportId = .uart ∧ f.uartBaudControl = false ∧ f.txOffset = 0 ∧
      look.pausedAtCheck = true then .wait
  else if f.sessionId = [] ∧ f.vmEpoch = 0 then .allowed
  else
    match look.snapshot with
    | none => .stale
    | some snapshot => sessionAuthorized f snapshot look.outputReady

/-! ## The choice of a frame -/

/-- A frame has waited too long. -/
def Frame.expired (f : Frame) (nowMs : UInt32) : Bool := queueTimeoutMs ≤ nowMs - f.enqueueMs

/-- `ev_mux_uart_frame_paused`. -/
def Frame.uartPaused (f : Frame) (paused : Bool) : Bool :=
  f.link.transportId == .uart && !f.uartBaudControl && paused

/-- The best candidate so far. -/
structure Best where
  pick : Option Pick := none
  priority : ℕ := 100
  order : UInt32 := 0
  deriving DecidableEq

def Best.offer (b : Best) (p : Pick) (f : Frame) : Best :=
  if f.priority < b.priority ∨ f.priority = b.priority ∧ f.enqueueOrder < b.order then
    ⟨some p, f.priority, f.enqueueOrder⟩
  else b

namespace Mux

variable (s : Mux)

def pickFrame (t : Target) : Pick → Frame
  | .normal k => s.frame t k
  | .special r => (s.special r).frame

def pickPayload (t : Target) : Pick → ℕ → List UInt8
  | .normal k => s.normalPayload t k
  | .special r => s.specialPayload r

/-- A special frame for the target. -/
def specialFor (t : Target) (r : SpecialRef) : Bool :=
  (s.special r).used && targetIndex (s.special r).frame.link == some t

/-- The started frame of the target; special frames are seen under their mutex only. -/
def startedFrame (t : Target) (specialLocked : Bool) : Option Pick :=
  match (List.finRange queueFrames).find? fun k =>
      (s.frame t k).used && (s.frame t k).txOffset != 0 with
  | some k => some (.normal k)
  | none =>
    if specialLocked then
      (SpecialRef.all.find? fun r => s.specialFor t r &&
        (s.special r).frame.txOffset != 0).map .special
    else none

/-- The frames of the target that may be chosen. -/
def candidates (t : Target) (look : WorkerLook) : List Pick :=
  let ready (f : Frame) : Bool := !f.uartPaused look.pausedAtChoice && !f.expired look.chooseMs
  ((List.finRange queueFrames).filter fun k => (s.frame t k).used && ready (s.frame t k)).map
      .normal ++
    if look.specialLocked then
      (SpecialRef.all.filter fun r => s.specialFor t r && ready (s.special r).frame).map .special
    else []

/-- `ev_mux_choose_frame_locked`. -/
def chooseFrame (t : Target) (look : WorkerLook) : Option Pick :=
  if !look.specialLocked && (s.pool.partialFrame t).isSome then none
  else
    match s.startedFrame t look.specialLocked with
    | some p => some p
    | none =>
      ((s.candidates t look).foldl (fun (b : Best) p => b.offer p (s.pickFrame t p)) {}).pick

/-- The first frame that has waited too long, when there is none to send. -/
def expiredFrame (t : Target) (look : WorkerLook) : Option Pick :=
  match (List.finRange queueFrames).find? fun k => (s.frame t k).used &&
      (s.frame t k).txOffset == 0 && (s.frame t k).expired look.expireMs with
  | some k => some (.normal k)
  | none =>
    if look.specialLocked then
      (SpecialRef.all.find? fun r => s.specialFor t r && (s.special r).frame.txOffset == 0 &&
        (s.special r).frame.expired look.expireMs).map .special
    else none

/-! ## Dropping a frame -/

/-- `ev_mux_drop_frame_locked`: a normal frame goes on leaving its queue, a special one is gone. -/
def dropFrame (t : Target) (p : Pick) (result : EspErr) (after : List Aftermath) : Mux :=
  match p with
  | .normal k => s.beginRelease t k result (.worker after)
  | .special r => (s.releaseSpecial r result).setAfter t after

end Mux

/-- Why a frame is dropped. -/
structure Drop where
  result : EspErr
  stale : Bool := false
  failedPartial : Bool := false
  closeTcp : Bool := false
  deriving DecidableEq

/-- What follows a drop once the mutexes are free: the completion, the end of the session, and the
end of the link. -/
def Drop.after (d : Drop) (f : Frame) : List Aftermath :=
  .complete (f.completionOf d.result) ::
    if d.result ≠ espOk ∧ d.stale = false then
      (if f.sessionId ≠ [] then [Aftermath.failSession f.link f.sessionId] else []) ++
        (if (d.closeTcp || d.failedPartial) ∧ f.link.transportId = .tcp then
            [Aftermath.close f.link]
          else [])
    else if d.stale ∧ d.failedPartial ∧ f.link.transportId = .tcp then [.close f.link]
    else []

/-! ## One visit -/

/-- What the worker does with the frame that it has chosen. -/
inductive Verdict
  | drop (d : Drop)
  | keep (f : Frame)
  | write (f : Frame)
  deriving DecidableEq

/-- The decisions of `ev_mux_process_target` before it writes. -/
def verdict (f : Frame) (payload : ℕ → List UInt8) (look : WorkerLook) : Verdict :=
  if f.expired look.nowMs ∧ f.txOffset = 0 then .drop { result := espErrTimeout }
  else if look.linkIsCurrent = false then
    .drop { result := espErrInvalidState, stale := true, failedPartial := f.txOffset != 0 }
  else
    match frameAuthorized f look with
    | .stale =>
      .drop { result := espErrInvalidState, stale := true, failedPartial := f.txOffset != 0 }
    | .wait => .keep f
    | .allowed =>
      let f := f.crcStep payload
      if !f.headerReady then .keep f
      else
        let recheck := f.attempted = false ∧ f.link.transportId = .uart
        let f := if recheck then { f with
          frameTimeoutMs := frameTimeout f.link look.baudrate f.totalLen } else f
        if recheck ∧ f.frameTimeoutMs = 0 then .drop { result := espErrInvalidSize }
        else if f.attempted ∧ (f.frameTimeoutMs ≤ (look.nowMs - f.startMs).toNat ∨
            f.previewObserver ∧ observerIdleTimeoutMs ≤ look.nowMs - f.lastProgressMs) then
          .drop { result := espErrTimeout, failedPartial := f.txOffset != 0
                  closeTcp := f.link.transportId == .tcp }
        else if f.attempted then .write f
        else .write { f with
          attempted := true, startMs := look.nowMs, lastProgressMs := look.nowMs }

namespace Mux

variable (s : Mux)

def setPick (t : Target) (p : Pick) (f : Frame) : Mux :=
  match p with
  | .normal k => s.setFrame t k f
  | .special r => { s with pool := s.pool.setFrame r { s.special r with frame := f } }

/-- What the pool remembers when a special frame makes progress: a preview is no longer pending
once it has started, and a frame that is not yet complete marks its target. -/
def markProgress (t : Target) (p : Pick) (before after : Frame) : Pool :=
  match p with
  | .normal _ => s.pool
  | .special r =>
    let sp := s.special r
    let slot := (List.finRange ownerPreviewFrames).find? fun i => decide (i.val = sp.poolIndex)
    let starts := sp.kind = .preview ∧ before.txOffset = 0
    { s.pool with
      previewPending :=
        if starts ∧ s.pool.previewPending.map Fin.val = some sp.poolIndex then none
        else s.pool.previewPending
      previewActive := if starts then slot else s.pool.previewActive
      partialFrame := if after.txOffset < after.totalLen then
          Function.update s.pool.partialFrame t (some r) else s.pool.partialFrame }

/-- The number of a submission, and how many of its bytes were sent, when `n` more follow. -/
def extendSegments (segments : List (ℕ × ℕ)) (f : Frame) (n : ℕ) : List (ℕ × ℕ) :=
  if f.txOffset = 0 then segments ++ [(f.id, n)]
  else segments.dropLast ++ [(f.id, f.txOffset + n)]

/-- The link takes the first `n` of the bytes that are offered. -/
def transmit (t : Target) (p : Pick) (f : Frame) (payload : ℕ → List UInt8) (n : ℕ)
    (progressMs : UInt32) : Mux :=
  let sent := { f with txOffset := f.txOffset + n, lastProgressMs := progressMs }
  let s' := { s with
    pool := s.markProgress t p f sent
    wire := Function.update s.wire f.link (s.wire f.link ++ (f.offered payload).take n)
    segments := Function.update s.segments f.link (extendSegments (s.segments f.link) f n) }
  let s' := s'.setPick t p sent
  if sent.totalLen ≤ sent.txOffset then
    s'.dropFrame t p espOk (Drop.after { result := espOk } f)
  else s'

/-- The rest of `ev_mux_process_target` for a frame that may be written. -/
def writeFrame (t : Target) (p : Pick) (f : Frame) (look : WorkerLook) : Mux :=
  let payload := s.pickPayload t p
  if look.io.status = .progress ∧ 0 < look.io.transferred ∧
      look.io.transferred ≤ (f.offered payload).length then
    s.transmit t p f payload look.io.transferred look.progressMs
  else if look.io.status = .wouldBlock then s.setPick t p f
  else
    let d : Drop := {
      result := if look.io.error ≠ espOk then look.io.error else espFail
      failedPartial := f.txOffset != 0
      closeTcp := f.link.transportId == .tcp }
    s.dropFrame t p d.result (d.after f)

/-- `ev_mux_process_target`. The worker comes here after it has done what followed its last visit,
and goes away when the queue's mutex is held. -/
def processTarget (t : Target) (look : WorkerLook) : Option Mux :=
  if s.after t ≠ [] ∨ s.holder t ≠ .free then none
  else
    match s.chooseFrame t look with
    | none =>
      match s.expiredFrame t look with
      | none => some s
      | some p => some (s.dropFrame t p espErrTimeout
          [.complete ((s.pickFrame t p).completionOf espErrTimeout)])
    | some p =>
      match verdict (s.pickFrame t p) (s.pickPayload t p) look with
      | .drop d => some (s.dropFrame t p d.result (d.after (s.pickFrame t p)))
      | .keep f => some (s.setPick t p f)
      | .write f => some (s.writeFrame t p f look)

end Mux

end EspVision.MuxTx
