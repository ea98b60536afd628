import EspVision.MuxState

/-!
# Queueing and releasing normal frames

`ev_mux_enqueue_normal` and the two ways in which a frame leaves its queue, cut at the critical
sections. Each part is a step of the task that holds the queue's mutex; the answer of a step is the
error that the caller gets, if the step ends a submission that is refused.
-/
namespace EspVision.MuxTx

open EvTransport EvMux EvSession Host BlockArena

/-! ## Admission -/

/-- What `ev_mux_enqueue_normal` checks before it takes the mutex: the target and the budget. -/
def enqueueTarget (o : SubmitOptions) (metadata payload : List UInt8) (look : PrepareLook) :
    Except EspErr (Target × ℕ) :=
  match targetIndex o.link with
  | none => .error espErrInvalidArg
  | some t =>
    if queueBytes < payload.length then .error espErrInvalidSize
    else if headerMax ≤ (headerText metadata.length payload.length 0).length then
      .error espErrInvalidSize
    else if queueBytes < encodedLength metadata.length payload.length then
      .error espErrInvalidSize
    else
      let timeout := frameTimeout o.link look.baudrate
        (encodedLength metadata.length payload.length)
      if timeout = 0 then .error espErrTimeout else .ok (t, timeout)

/-- `ev_mux_free_frame_slot`. -/
def freeFrameSlot (q : Queue) : Option FrameSlot :=
  (List.finRange queueFrames).find? fun k => !(q.frames k).used

/-- The checks against the queue; `none` is the refusal with `ESP_ERR_TIMEOUT`. -/
def admitFrame (q : Queue) (c : TxClass) (encodedLen : ℕ) : Option FrameSlot :=
  if queueFrames ≤ q.framesUsed then none
  else if TxClass.repl.priority ≤ c.priority ∧ (queueFrames - queueReservedFrames ≤ q.framesUsed ∨
      queueBytes - queueReservedBytes < q.bytesUsed + encodedLen) then none
  else if queueBytes < q.bytesUsed + encodedLen then none
  else freeFrameSlot q

/-! ## The counters of the TCP targets -/

/-- A frame without a session id. -/
def Frame.isDiscovery (f : Frame) : Bool := f.sessionId.isEmpty

/-- A frame of the classes that must leave a reserve. -/
def Frame.isLow (f : Frame) : Bool := TxClass.repl.priority ≤ f.priority

/-- `ev_mux_tcp_reserve`; `none` is `false`. -/
def tcpReserve (q : TcpQuota) (f : Frame) (encodedLen : ℕ) : Option (TcpQuota × Frame) :=
  if q.framesUsed < queueFrames ∧ q.bytesUsed + encodedLen ≤ queueBytes ∧
      (f.isDiscovery → q.discoveryFramesUsed < queueFrames - queueReservedFrames ∧
        q.discoveryBytesUsed + encodedLen ≤ queueBytes - queueReservedBytes) ∧
      (f.isLow → q.lowFramesUsed < queueFrames - queueReservedFrames ∧
        q.lowBytesUsed + encodedLen ≤ queueBytes - queueReservedBytes) then
    some ({
      framesUsed := q.framesUsed + 1
      bytesUsed := q.bytesUsed + encodedLen
      discoveryFramesUsed := q.discoveryFramesUsed + f.isDiscovery.toNat
      discoveryBytesUsed := q.discoveryBytesUsed + f.isDiscovery.toNat * encodedLen
      lowFramesUsed := q.lowFramesUsed + f.isLow.toNat
      lowBytesUsed := q.lowBytesUsed + f.isLow.toNat * encodedLen },
      { f with
        tcpQuotaReserved := true
        tcpDiscoveryReservation := f.isDiscovery || f.tcpDiscoveryReservation
        tcpLowReservation := f.isLow || f.tcpLowReservation })
  else none

/-- Take one from a count that stops at zero. -/
def countDown (n : ℕ) : ℕ := if 0 < n then n - 1 else n

/-- Take bytes from a sum that stops at zero. -/
def bytesDown (n len : ℕ) : ℕ := if len ≤ n then n - len else 0

/-- `ev_mux_tcp_release_reservation`. -/
def tcpRelease (q : TcpQuota) (f : Frame) : TcpQuota × Frame :=
  if !f.tcpQuotaReserved then (q, f)
  else
    ({
      framesUsed := countDown q.framesUsed
      bytesUsed := bytesDown q.bytesUsed f.totalLen
      discoveryFramesUsed := if f.tcpDiscoveryReservation then countDown q.discoveryFramesUsed
        else q.discoveryFramesUsed
      discoveryBytesUsed := if f.tcpDiscoveryReservation then
        bytesDown q.discoveryBytesUsed f.totalLen else q.discoveryBytesUsed
      lowFramesUsed := if f.tcpLowReservation then countDown q.lowFramesUsed else q.lowFramesUsed
      lowBytesUsed := if f.tcpLowReservation then bytesDown q.lowBytesUsed f.totalLen
        else q.lowBytesUsed },
      { f with
        tcpQuotaReserved := false
        tcpDiscoveryReservation := false
        tcpLowReservation := false })

/-! ## Blocks -/

/-- The blocks that a payload needs. -/
def blocksFor (payloadLen : ℕ) : ℕ := (payloadLen + blockSize - 1) / blockSize

/-- `ev_mux_allocate_blocks`: the bit map, and the frame if there were enough. -/
def allocateBlocks (m : BitVec blockCount) (f : Frame) : BitVec blockCount × Option Frame :=
  if blockCount < blocksFor f.payloadLen then (m, none)
  else
    let r := allocate m (blocksFor f.payloadLen)
    (r.1, r.2.map fun blocks => { f with blocks := blocks })

/-! ## A submission -/

namespace Mux

variable (s : Mux)

/-- `ev_mux_enqueue_normal` up to the prepared frame. Where the mutex is held, the wait for it has
run out. -/
def enqueue (o : SubmitOptions) (metadata payload : List UInt8) (ticket : Ticket)
    (look : PrepareLook) : Mux × Option EspErr :=
  match enqueueTarget o metadata payload look with
  | .error e => (s, some e)
  | .ok (t, timeout) =>
    if s.holder t ≠ .free then (s, some espErrTimeout)
    else
      match admitFrame (s.queues t) o.txClass (encodedLength metadata.length payload.length) with
      | none => (s, some espErrTimeout)
      | some k =>
        match prepareFrame o metadata payload.length ticket look s.enqueueOrder with
        | (none, order) =>
          ({ s.setFrame t k .zeroed with enqueueOrder := order }, some espErrInvalidArg)
        | (some f, order) =>
          ({ (s.setFrame t k f).setHolder t (.reserving k payload timeout) with
              enqueueOrder := order }, none)

/-- `ev_mux_tcp_reserve`; a serial queue has nothing to reserve. -/
def reserve (t : Target) : Option (Mux × Option EspErr) :=
  match s.holder t with
  | .reserving k payload timeout =>
    if t.isTcp then
      match tcpReserve s.quota (s.frame t k) (s.frame t k).totalLen with
      | none => some ((s.setFrame t k .zeroed).setHolder t .free, some espErrTimeout)
      | some (quota, f) => some ({ (s.setFrame t k f).setHolder t (.allocating k payload timeout)
          with quota := quota }, none)
    else some (s.setHolder t (.allocating k payload timeout), none)
  | _ => none

/-- `ev_mux_allocate_blocks`. -/
def allocate (t : Target) : Option Mux :=
  match s.holder t with
  | .allocating k payload timeout =>
    match allocateBlocks (s.arena t).freeBlocks (s.frame t k) with
    | (m, none) => some ((s.setArena t { s.arena t with freeBlocks := m }).setHolder t
        (.refusing k))
    | (m, some f) => some (((s.setArena t { s.arena t with freeBlocks := m }).setFrame t k
        f).setHolder t (.filling k payload timeout))
  | _ => none

/-- The end of a submission that got no blocks. -/
def refuse (t : Target) : Option (Mux × EspErr) :=
  match s.holder t with
  | .refusing k =>
    some ({ (s.setFrame t k .zeroed).setHolder t .free with
      quota := (tcpRelease s.quota (s.frame t k)).1 }, espErrNoMem)
  | _ => none

/-- The end of a submission that is accepted. -/
def fill (t : Target) : Option Mux :=
  match s.holder t with
  | .filling k payload timeout =>
    let f := { s.frame t k with
      frameTimeoutMs := timeout
      used := true
      id := s.accepted.length }
    let a := { s.arena t with
      memory := copyIn blockSize f.blocks payload (s.arena t).memory }
    let q := { s.queues t with
      frames := Function.update (s.queues t).frames k f
      bytesUsed := (s.queues t).bytesUsed + f.totalLen
      framesUsed := (s.queues t).framesUsed + 1
      holder := .free }
    some { (s.setArena t a).setQueue t q with
      accepted := s.accepted ++ [f.submission payload .none] }
  | _ => none

/-! ## Releasing a frame -/

/-- Begin to release the frame: its completion is prepared first. -/
def beginRelease (t : Target) (k : FrameSlot) (result : EspErr) (next : Continue) : Mux :=
  { s.setHolder t (.releasing k next) with left := s.left ++ [((s.frame t k).id, result)] }

/-- `ev_mux_release_blocks`. -/
def release (t : Target) : Option Mux :=
  match s.holder t with
  | .releasing k next =>
    some ((s.setArena t { s.arena t with
      freeBlocks := BlockArena.release (s.arena t).freeBlocks (s.frame t k).blocks }).setHolder t
        (.unreserving k next))
  | _ => none

/-- `ev_mux_tcp_release_reservation`. -/
def unreserve (t : Target) : Option Mux :=
  match s.holder t with
  | .unreserving k next =>
    let r := tcpRelease s.quota (s.frame t k)
    some { (s.setFrame t k r.2).setHolder t (.clearing k next) with quota := r.1 }
  | _ => none

/-- A difference of `size_t` values. -/
def sizeDown (n len : ℕ) : ℕ := (n + 2 ^ 32 - len) % 2 ^ 32

/-- `--frames_used`, a byte. -/
def byteDown (n : ℕ) : ℕ := (n + 255) % 256

/-- The end of a release. The worker's counters stop at zero, those of a cancellation do not. -/
def clear (t : Target) : Option Mux :=
  match s.holder t with
  | .clearing k next =>
    let q := s.queues t
    let len := (s.frame t k).totalLen
    let frames := Function.update q.frames k .zeroed
    match next with
    | .worker after =>
      some ((s.setQueue t {
        bytesUsed := bytesDown q.bytesUsed len
        framesUsed := countDown q.framesUsed
        frames := frames
        holder := .free }).setAfter t after)
    | .cancel i which =>
      some (s.setQueue t {
        bytesUsed := sizeDown q.bytesUsed len
        framesUsed := byteDown q.framesUsed
        frames := frames
        holder := .cancelling i which })
  | _ => none

end Mux

/-! ## Cancellation -/

/-- `ev_mux_frame_matches_epoch` and `ev_mux_frame_same_session`. -/
def Cancel.isFor (c : Cancel) (f : Frame) : Bool :=
  match c with
  | .vmEpoch epoch => epoch != 0 && f.vmEpoch == epoch
  | .session link sessionId => f.link == link && f.sessionId == sessionId

namespace Mux

variable (s : Mux)

/-- A task takes the queue's mutex for `ev_mux_cancel_target_frames`. -/
def cancel (t : Target) (which : Cancel) : Option Mux :=
  if s.holder t = .free then some (s.setHolder t (.cancelling 0 which)) else none

/-- One turn of the loop of `ev_mux_cancel_target_frames`. -/
def scan (t : Target) : Option Mux :=
  match s.holder t with
  | .cancelling i which =>
    if h : i < queueFrames then
      let f := s.frame t ⟨i, h⟩
      if f.used && which.isFor f && f.txOffset == 0 then
        some { s.beginRelease t ⟨i, h⟩ espErrInvalidState (.cancel (i + 1) which) with
          due := s.due ++ [f.completionOf espErrInvalidState] }
      else some (s.setHolder t (.cancelling (i + 1) which))
    else some (s.setHolder t .free)
  | _ => none

end Mux

/-! ## What the parts do -/

/-- The queue has room for a frame of the class and the length. -/
structure Room (q : Queue) (priority encodedLen : ℕ) : Prop where
  frames : q.framesUsed < queueFrames
  bytes : q.bytesUsed + encodedLen ≤ queueBytes
  low : TxClass.repl.priority ≤ priority → q.framesUsed < queueFrames - queueReservedFrames ∧
    q.bytesUsed + encodedLen ≤ queueBytes - queueReservedBytes

theorem admitFrame_some {q : Queue} {c : TxClass} {len : ℕ} {k : FrameSlot}
    (h : admitFrame q c len = some k) : (q.frames k).used = false ∧ Room q c.priority len := by
  unfold admitFrame at h
  split_ifs at h with hframes hlow hbytes
  refine ⟨?_, by omega, by omega, fun hc => ?_⟩
  · simpa using List.find?_some h
  · have hnot := fun hor => hlow ⟨hc, hor⟩
    exact ⟨Nat.lt_of_not_le fun h => hnot (.inl h), Nat.le_of_not_lt fun h => hnot (.inr h)⟩

/-- What was checked of a submission before the mutex is taken. -/
structure Addressed (o : SubmitOptions) (metadata payload : List UInt8) (t : Target) : Prop where
  target : targetIndex o.link = some t
  short : payload.length ≤ queueBytes
  encoded : encodedLength metadata.length payload.length ≤ queueBytes

theorem enqueueTarget_ok {o : SubmitOptions} {metadata payload : List UInt8} {look : PrepareLook}
    {t : Target} {timeout : ℕ} (h : enqueueTarget o metadata payload look = .ok (t, timeout)) :
    Addressed o metadata payload t := by
  unfold enqueueTarget at h
  split at h
  · cases h
  · rename_i t' ht
    simp only at h
    split_ifs at h with hp hh he hz
    obtain ⟨rfl, -⟩ := Prod.mk.inj (Except.ok.inj h)
    exact ⟨ht, by omega, by omega⟩

/-- The ways in which the first part of a submission ends. -/
inductive Enqueued (s : Mux) (o : SubmitOptions) (metadata payload : List UInt8)
    (ticket : Ticket) : Mux × Option EspErr → Prop
  | refused (e : EspErr) : Enqueued s o metadata payload ticket (s, some e)
  | failed (t : Target) (k : FrameSlot) (order : UInt32) : s.holder t = .free →
      (s.frame t k).used = false → Enqueued s o metadata payload ticket
        ({ s.setFrame t k .zeroed with enqueueOrder := order }, some espErrInvalidArg)
  | prepared (t : Target) (k : FrameSlot) (f : Frame) (timeout : ℕ) (order : UInt32) :
      s.holder t = .free → (s.frame t k).used = false → Addressed o metadata payload t →
      Prepared o metadata payload.length ticket f → Room (s.queues t) f.priority f.totalLen →
      Enqueued s o metadata payload ticket
        ({ (s.setFrame t k f).setHolder t (.reserving k payload timeout) with
            enqueueOrder := order }, none)

theorem Mux.enqueue_enqueued (s : Mux) (o : SubmitOptions) (metadata payload : List UInt8)
    (ticket : Ticket) (look : PrepareLook) :
    Enqueued s o metadata payload ticket (s.enqueue o metadata payload ticket look) := by
  unfold Mux.enqueue
  split
  · exact .refused _
  · rename_i t timeout ht
    split_ifs with hfree
    · exact .refused _
    · have hfree : s.holder t = .free := not_not.mp hfree
      split
      · exact .refused _
      · rename_i k hk
        obtain ⟨hunused, hroom⟩ := admitFrame_some hk
        split
        · exact .failed t k _ hfree hunused
        · rename_i f order hf
          have hp := prepareFrame_some hf
          refine .prepared t k f timeout order hfree hunused (enqueueTarget_ok ht) hp ?_
          rw [hp.priority, hp.totalLen]
          exact hroom

theorem tcpReserve_some {q q' : TcpQuota} {f f' : Frame} {len : ℕ}
    (h : tcpReserve q f len = some (q', f')) :
    f' = { f with
      tcpQuotaReserved := true
      tcpDiscoveryReservation := f.isDiscovery || f.tcpDiscoveryReservation
      tcpLowReservation := f.isLow || f.tcpLowReservation } ∧
    q' = {
      framesUsed := q.framesUsed + 1
      bytesUsed := q.bytesUsed + len
      discoveryFramesUsed := q.discoveryFramesUsed + f.isDiscovery.toNat
      discoveryBytesUsed := q.discoveryBytesUsed + f.isDiscovery.toNat * len
      lowFramesUsed := q.lowFramesUsed + f.isLow.toNat
      lowBytesUsed := q.lowBytesUsed + f.isLow.toNat * len } ∧
    q.framesUsed < queueFrames ∧ q.bytesUsed + len ≤ queueBytes ∧
    (f.isDiscovery = true → q.discoveryFramesUsed < queueFrames - queueReservedFrames ∧
      q.discoveryBytesUsed + len ≤ queueBytes - queueReservedBytes) ∧
    (f.isLow = true → q.lowFramesUsed < queueFrames - queueReservedFrames ∧
      q.lowBytesUsed + len ≤ queueBytes - queueReservedBytes) := by
  unfold tcpReserve at h
  split_ifs at h with hc
  obtain ⟨rfl, rfl⟩ := Prod.mk.inj (Option.some.inj h)
  exact ⟨rfl, rfl, hc⟩

theorem allocateBlocks_none {m m' : BitVec blockCount} {f : Frame}
    (h : allocateBlocks m f = (m', none)) : m' = m := by
  unfold allocateBlocks at h
  split_ifs at h
  · exact (Prod.mk.inj h).1.symm
  · obtain ⟨rfl, hnone⟩ := Prod.mk.inj h
    rw [Option.map_eq_none_iff] at hnone
    exact (allocate_none (Prod.ext rfl hnone)).1

theorem allocateBlocks_some {m m' : BitVec blockCount} {f f' : Frame}
    (h : allocateBlocks m f = (m', some f')) :
    ∃ blocks, f' = { f with blocks := blocks } ∧
      Allocated m (blocksFor f.payloadLen) m' blocks := by
  unfold allocateBlocks at h
  split_ifs at h
  · cases (Prod.mk.inj h).2
  · obtain ⟨rfl, hsome⟩ := Prod.mk.inj h
    obtain ⟨blocks, hb, rfl⟩ := Option.map_eq_some_iff.mp hsome
    exact ⟨blocks, rfl, allocate_some (Prod.ext rfl hb)⟩

end EspVision.MuxTx
