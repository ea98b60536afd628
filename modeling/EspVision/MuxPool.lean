import EspVision.MuxQueue

/-!
# Large frames, previews and observers

What is done under `s_special_mutex`. The previews of the owner take turns on two buffers; the
observers share a third kind of buffer, which a started frame keeps. A buffer that is too small is
replaced only when the allocation has succeeded.
-/
namespace EspVision.MuxTx

open EvTransport EvMux EvSession Host ByteMedium

/-- `EV_MUX_LARGE_PAYLOAD_MAX`. -/
def largePayloadMax : ℕ := 262144
/-- `EV_MUX_SPECIAL_BUFFER_MIN`. -/
def specialBufferMin : ℕ := 1024
/-- `EV_MUX_OBSERVER_FRAME_TIMEOUT_MS`. -/
def observerFrameTimeoutMs : ℕ := 8000
/-- `EV_MUX_OBSERVER_IDLE_TIMEOUT_MS`. -/
def observerIdleTimeoutMs : UInt32 := 4000

/-! ## Buffers -/

/-- The loop that doubles the capacity; eight passes take it to its limit. -/
def grow (payloadLen : ℕ) : ℕ → ℕ → ℕ
  | 0, needed => needed
  | fuel + 1, needed =>
    if needed < payloadLen then
      grow payloadLen fuel (if largePayloadMax / 2 < needed then largePayloadMax else needed * 2)
    else needed

/-- `ev_mux_special_buffer_prepare`: the buffer to use, and the pool with it on the heap. -/
def Pool.prepareBuffer (p : Pool) (b : Owned) (payloadLen : ℕ) (malloc : Bool) :
    Option (Owned × Pool) :=
  if largePayloadMax < payloadLen then none
  else if b.buffer.isSome ∧ payloadLen ≤ b.capacity then some (b, p)
  else if malloc then
    let needed := grow payloadLen 8 specialBufferMin
    some (⟨some p.nextPtr, needed⟩, { p with
      heap := Function.update p.heap p.nextPtr (some ⟨needed, fun _ => 0⟩)
      nextPtr := p.nextPtr + 1 })
  else none

/-- `ev_mux_special_buffer_commit`, for the heap: an old buffer that is replaced is freed. -/
def Pool.commitBuffer (p : Pool) (old prepared : Owned) : Pool :=
  match old.buffer with
  | none => p
  | some ptr =>
    if old.buffer = prepared.buffer then p
    else { p with heap := Function.update p.heap ptr none }

/-- `memcpy` to the start of a buffer. -/
def Pool.store (p : Pool) (b : Owned) (payload : List UInt8) : Pool :=
  match b.buffer with
  | none => p
  | some ptr => { p with
      heap := Function.update p.heap ptr ((p.heap ptr).map fun buffer =>
        { buffer with cells := put 0 payload buffer.cells }) }

def Pool.setFrame (p : Pool) (r : SpecialRef) (f : Special) : Pool :=
  { p with frames := Function.update p.frames r f }

namespace Mux

variable (s : Mux)

def special (r : SpecialRef) : Special := s.pool.frames r

/-- What `ev_mux_special_release_locked` does to the pool. -/
def releasedPool (r : SpecialRef) : Pool :=
  let f := s.special r
  let p := { s.pool.setFrame r { f with used := false, frame := .zeroed } with
    partialFrame :=
      if f.frame.txOffset = 0 then s.pool.partialFrame
      else match targetIndex f.frame.link with
        | none => s.pool.partialFrame
        | some t => if s.pool.partialFrame t = some r then
            Function.update s.pool.partialFrame t none else s.pool.partialFrame }
  if f.kind = .preview then
    { p with
      previewPending := if s.pool.previewPending.map Fin.val = some f.poolIndex then none
        else s.pool.previewPending
      previewActive := if s.pool.previewActive.map Fin.val = some f.poolIndex then none
        else s.pool.previewActive }
  else p

/-- `ev_mux_special_release_locked`. -/
def releaseSpecial (r : SpecialRef) (result : EspErr) : Mux :=
  if !(s.special r).used then s
  else { s with pool := s.releasedPool r, left := s.left ++ [((s.special r).frame.id, result)] }

/-- Put an accepted submission into a special frame. -/
def putSpecial (r : SpecialRef) (sp : Special) (payload : List UInt8) : Mux :=
  { s with
    pool := s.pool.setFrame r { sp with frame := { sp.frame with id := s.accepted.length } }
    accepted := s.accepted ++ [sp.frame.submission payload sp.kind] }

/-! ## Submitting a large frame or a preview -/

/-- The frames of the owner's previews. -/
def ownerFrame (i : Fin ownerPreviewFrames) : SpecialRef := .preview (Fin.castLE (by decide) i)

/-- The slot that `ev_mux_submit_special` takes for a preview. -/
def previewSlot : Option (Fin ownerPreviewFrames) :=
  match s.pool.previewPending with
  | some i => some i
  | none =>
    match (List.finRange ownerPreviewFrames).find? fun i =>
        decide (s.pool.previewActive ≠ some i) && !(s.special (ownerFrame i)).used with
    | some i => some i
    | none => if s.pool.previewActive = none then some ⟨0, by decide⟩ else none

/-- The part of `ev_mux_submit_special` for a large frame that holds the mutex. -/
def submitLarge (f : Frame) (payload : List UInt8) (malloc : Bool) : Mux × Option EspErr :=
  if (s.special .large).used then (s, some espErrTimeout)
  else
    match s.pool.prepareBuffer s.pool.largeBuffer payload.length malloc with
    | none => (s, some espErrNoMem)
    | some (b, p) =>
      let p := { p.commitBuffer s.pool.largeBuffer b with largeBuffer := b }
      let sp : Special := { used := true, kind := .large, frame := f, payload := b.buffer
                            poolIndex := (s.special .large).poolIndex }
      ({ s with pool := p.store b payload }.putSpecial .large sp payload, none)

/-- The part of `ev_mux_submit_special` for a preview that holds the mutex. -/
def submitPreview (f : Frame) (payload : List UInt8) (malloc : Bool) : Mux × Option EspErr :=
  match s.previewSlot with
  | none => (s, some espErrTimeout)
  | some i =>
    let r := ownerFrame i
    if (s.special r).used ∧ (s.special r).frame.txOffset ≠ 0 then (s, some espErrTimeout)
    else
      let old := s.pool.previewBuffers i
      match s.pool.prepareBuffer old payload.length malloc with
      | none => (s, some espErrNoMem)
      | some (b, p) =>
        let s' := { s with pool := p }.releaseSpecial r espErrInvalidState
        let p := { s'.pool.commitBuffer old b with
          previewBuffers := Function.update s'.pool.previewBuffers i b
          previewPending := some i }
        let sp : Special := { used := true, kind := .preview, poolIndex := i.val, frame := f
                              payload := b.buffer }
        ({ s' with pool := p.store b payload }.putSpecial r sp payload, none)

/-- `ev_mux_submit_special`; where `mutexTaken` is false, the wait for the mutex has run out. -/
def submitSpecial (o : SubmitOptions) (metadata payload : List UInt8) (isLarge : Bool)
    (ticket : Ticket) (look : PrepareLook) (mutexTaken malloc : Bool) : Mux × Option EspErr :=
  if largePayloadMax < payload.length then (s, some espErrInvalidSize)
  else if (targetIndex o.link).isNone then (s, some espErrInvalidArg)
  else if metadataMax < metadata.length then (s, some espErrInvalidSize)
  else if headerMax ≤ (headerText metadata.length payload.length 0).length then
    (s, some espErrInvalidSize)
  else
    let timeout := frameTimeout o.link look.baudrate (encodedLength metadata.length payload.length)
    if timeout = 0 then (s, some espErrTimeout)
    else
      match prepareFrame o metadata payload.length ticket look s.enqueueOrder with
      | (none, order) => ({ s with enqueueOrder := order }, some espErrInvalidArg)
      | (some f, order) =>
        let s := { s with enqueueOrder := order }
        let f := { f with
          used := true
          frameTimeoutMs := timeout
          priority := if isLarge then TxClass.control.priority else TxClass.preview.priority }
        if !mutexTaken then (s, some espErrTimeout)
        else if isLarge then s.submitLarge f payload malloc
        else s.submitPreview f payload malloc

end Mux

/-! ## Observers -/

/-- What a socket has waited for since: the generation and the two times. -/
structure Waiting where
  generation : UInt32 := 0
  since : UInt32 := 0
  progress : UInt32 := 0

/-- A TCP slot as `ev_mux_preview_publish_observers` finds it: the link that is subscribed, and
what the preparation of its frame asks for. -/
structure ObserverLook where
  link : Option LinkRef := none
  prepare : PrepareLook := {}
  deriving DecidableEq

/-- The frames of the observers, in the order of the pool. -/
def observerFrames : List SpecialRef :=
  ((List.finRange previewFrames).filter fun i => ownerPreviewFrames ≤ i.val).map .preview

namespace Mux

variable (s : Mux)

/-- The frames of the observers that nothing was sent of. -/
def unstarted (r : SpecialRef) : Bool := (s.special r).used && (s.special r).frame.txOffset == 0

/-- The blocked sends of a TCP slot, of which the last in the pool counts. -/
def waitingOf (slot : ℕ) : Waiting :=
  observerFrames.foldl (fun w r =>
    let f := (s.special r).frame
    if s.unstarted r && f.attempted && f.link.slot == slot then
      ⟨f.link.generation, f.startMs, f.lastProgressMs⟩
    else w) {}

/-- A started frame keeps the buffer. -/
def observerBusy (b : Fin observerBuffers) : Bool :=
  observerFrames.any fun r => (s.special r).used && (s.special r).frame.txOffset != 0 &&
    (s.special r).payload == (s.pool.observerBuffers b).buffer

/-- The body of the loop over the TCP slots. -/
def publishTo (b : Owned) (metadata payload : List UInt8) (waiting : ℕ → Waiting) (s : Mux)
    (slot : ℕ) (look : ObserverLook) : Mux :=
  match look.link with
  | none => s
  | some link =>
    match observerFrames.find? fun r => !(s.special r).used with
    | none => s
    | some r =>
      match prepareFrame { link := link, txClass := .preview } metadata payload.length 0
          look.prepare s.enqueueOrder with
      | (none, order) => { s with enqueueOrder := order }
      | (some f, order) =>
        let w := waiting slot
        let kept := w.generation == link.generation
        let f := { f with
          used := true
          previewObserver := true
          attempted := kept
          startMs := if kept then w.since else f.startMs
          lastProgressMs := if kept then w.progress else f.lastProgressMs
          frameTimeoutMs := observerFrameTimeoutMs }
        let f := match buildHeader f (payloadChecksum payload) with
          | none => { f with headerReady := false }
          | some f => { f with headerReady := true }
        let sp : Special := { (s.special r) with
          used := true, kind := .observer, frame := f, payload := b.buffer }
        { s with enqueueOrder := order }.putSpecial r sp payload

/-- `ev_mux_preview_publish_observers` behind its checks, with the answers for the TCP slots. -/
def publishObservers (metadata payload : List UInt8) (looks : Fin tcpLinks → ObserverLook)
    (malloc : Bool) : Mux × Option EspErr :=
  if largePayloadMax < payload.length ∨ metadataMax < metadata.length then
    (s, some espErrInvalidSize)
  else
    match (List.finRange observerBuffers).find? fun b => !s.observerBusy b with
    | none => (s, some espErrNoMem)
    | some i =>
      let old := s.pool.observerBuffers i
      match s.pool.prepareBuffer old payload.length malloc with
      | none => (s, some espErrNoMem)
      | some (b, p) =>
        let s' := observerFrames.foldl
          (fun s r => if s.unstarted r then s.releaseSpecial r espErrInvalidState else s)
          { s with pool := p }
        let p := { s'.pool.commitBuffer old b with
          observerBuffers := Function.update s'.pool.observerBuffers i b }
        ((List.finRange tcpLinks).foldl
          (fun t slot => publishTo b metadata payload s.waitingOf t slot.val (looks slot))
          { s' with pool := p.store b payload }, none)

/-! ## Cancellation -/

/-- `ev_mux_cancel_special_frames`. -/
def cancelSpecial (which : Cancel) : Mux :=
  SpecialRef.all.foldl (fun s r =>
    let f := (s.special r).frame
    if s.unstarted r && which.isFor f then
      { s.releaseSpecial r espErrInvalidState with
        due := s.due ++ [f.completionOf espErrInvalidState] }
    else s) s

end Mux

end EspVision.MuxTx
