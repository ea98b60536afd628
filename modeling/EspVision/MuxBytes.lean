import EspVision.MuxVisit

/-!
# The bytes of a frame

A frame that carries a payload hands out the bytes of its encoding from its offset on, however the
payload is cut by the blocks that it lies in, and its header names the checksum of the payload by
the time that the first byte is handed out.
-/
namespace EspVision.MuxTx

open EvTransport EvMux EvSession Host

/-- The function hands out the payload piece by piece. -/
def Serves (source : ℕ → List UInt8) (payload : List UInt8) : Prop :=
  ∀ i < payload.length, source i ≠ [] ∧ source i <+: payload.drop i

variable {f g : Frame} {source : ℕ → List UInt8} {payload : List UInt8} {pos stop offset : ℕ}
  {crc : BitVec 32}

/-! ## The checksum -/

/-- The state of the checksum behind some of the payload. -/
structure Summed (payload : List UInt8) (pos : ℕ) (crc : BitVec 32) : Prop where
  le : pos ≤ payload.length
  state : crc = (payload.take pos).foldl (fun crc b => Crc32.update crc b.toBitVec)
    (BitVec.allOnes 32)

theorem Summed.all (h : Summed payload payload.length crc) : ~~~ crc = payloadChecksum payload := by
  rw [h.state, List.take_length]
  rfl

theorem crcLoop_summed (hsource : Serves source payload) (stop : ℕ) (hstop : stop ≤ payload.length)
    (h : Summed payload pos crc) (fuel : ℕ) :
    Summed payload (crcLoop source stop fuel pos crc).1 (crcLoop source stop fuel pos crc).2 := by
  induction fuel generalizing pos crc with
  | zero => exact h
  | succ fuel ih =>
    unfold crcLoop
    split_ifs with hlt
    · refine ih ?_
      set data := (source pos).take (stop - pos)
      have hdata : data <+: payload.drop pos :=
        (List.take_prefix _ _).trans (hsource pos (by omega)).2
      have hlen := hdata.length_le
      rw [List.length_drop] at hlen
      refine ⟨by omega, ?_⟩
      rw [h.state, List.take_add, List.foldl_append, ← List.prefix_iff_eq_take.mp hdata]
    · exact h

/-! ## What a frame carries -/

@[simp] theorem headerText_length (metadataLen payloadLen : ℕ) (crc : BitVec 32) :
    (headerText metadataLen payloadLen crc).length =
      (headerText metadataLen payloadLen 0).length := by
  simp [headerText, checksumText]

@[simp] theorem wireBytes_length (metadata payload : List UInt8) :
    (wireBytes metadata payload).length = encodedLength metadata.length payload.length := by
  simp only [wireBytes, encodedLength, List.length_append, headerText_length, List.length_singleton]
  omega

/-- What is short enough to be submitted. -/
def Short (metadata payload : List UInt8) : Prop :=
  metadata.length ≤ metadataMax ∧ payload.length ≤ largePayloadMax

/-- The frame has the payload, and its header unless the checksum is still to be computed. -/
structure Carries (f : Frame) (payload : List UInt8) : Prop where
  payloadLen : f.payloadLen = payload.length
  totalLen : f.totalLen = encodedLength f.metadata.length payload.length
  header : f.header = headerText f.metadata.length payload.length
    (if f.headerReady then payloadChecksum payload else 0)
  summed : f.headerReady = false → Summed payload f.payloadCrcPos f.payloadCrcState
  started : f.txOffset ≠ 0 → f.headerReady = true ∧ f.attempted = true
  within : f.txOffset < f.totalLen
  short : Short f.metadata payload

theorem encodedLength_pos (m n : ℕ) : 0 < encodedLength m n := Nat.succ_pos _

/-- A frame that was prepared for a payload of this length carries it. -/
theorem Prepared.carries {o : SubmitOptions} {m : List UInt8} {number : Ticket}
    (h : Prepared o m payload.length number f) (hshort : payload.length ≤ largePayloadMax) :
    Carries f payload where
  payloadLen := h.payloadLen
  totalLen := by rw [h.totalLen, h.metadata]
  header := by
    rw [h.header, h.metadata, h.headerReady]
    split_ifs with hz
    · rw [List.length_eq_zero_iff.mp (of_decide_eq_true hz)]
      rfl
    · rfl
  summed _ := by
    rw [h.crcPos, h.crcState]
    exact ⟨Nat.zero_le _, rfl⟩
  started hne := absurd h.txOffset hne
  within := by
    rw [h.txOffset, h.totalLen]
    exact encodedLength_pos _ _
  short := ⟨h.metadata ▸ h.metadataLen, hshort⟩

theorem Carries.crcStep (h : Carries f payload) (hsource : Serves source payload) :
    Carries (f.crcStep source) payload := by
  by_cases hready : f.headerReady = true
  · rwa [Frame.crcStep, if_pos hready]
  · have hunready : f.headerReady = false := by simpa using hready
    have hzero : f.txOffset = 0 := by
      by_contra hne
      exact hready (h.started hne).1
    have hsummed := crcLoop_summed hsource (min (f.payloadCrcPos + crcChunkBytes)
      f.payloadLen) (by rw [h.payloadLen]; exact min_le_right _ _) (h.summed hunready) crcChunkBytes
    have hheader := h.header
    rw [hunready] at hheader
    unfold Frame.crcStep
    rw [if_neg hready]
    dsimp only
    split_ifs with hall
    · rw [hall, h.payloadLen] at hsummed
      unfold buildHeader
      dsimp only
      split_ifs with hlen
      · exact ⟨h.payloadLen, h.totalLen, by simpa [hunready] using hheader,
          fun _ => by rw [hall, h.payloadLen]; exact hsummed, fun hne => absurd hzero hne, h.within,
          h.short⟩
      · refine ⟨h.payloadLen, h.totalLen, ?_, fun hf => Bool.noConfusion hf,
          fun hne => absurd hzero hne, h.within,
          h.short⟩
        rw [if_pos rfl, ← hsummed.all, ← h.payloadLen]
    · exact ⟨h.payloadLen, h.totalLen, by simpa [hunready] using hheader, fun _ => hsummed,
        fun hne => absurd hzero hne, h.within,
          h.short⟩

/-! ## The bytes that are handed out -/

theorem drop_behind {a b : List UInt8} {n : ℕ} (h : a.length ≤ n) :
    (a ++ b).drop n = b.drop (n - a.length) := by
  rw [List.drop_append, List.drop_of_length_le h, List.nil_append]

theorem drop_ne_nil {a : List UInt8} {n : ℕ} (h : n < a.length) : a.drop n ≠ [] := fun he =>
  absurd (List.drop_eq_nil_iff.mp he) (Nat.not_le_of_lt h)

/-- A frame whose header is ready consists of its encoding. -/
theorem Carries.segment (h : Carries f payload) (hready : f.headerReady = true)
    (hsource : Serves source payload) (hlt : offset < f.totalLen) :
    f.segment source offset ≠ [] ∧
      f.segment source offset <+: (wireBytes f.metadata payload).drop offset := by
  have hheader := h.header
  rw [if_pos hready] at hheader
  have hwire : wireBytes f.metadata payload =
      f.header ++ (f.metadata ++ (payload ++ [eofGuard])) := by rw [wireBytes, hheader]
  have htotal : f.totalLen = f.header.length + f.metadata.length + payload.length + 1 := by
    rw [h.totalLen, ← wireBytes_length, hwire]
    simp only [List.length_append, List.length_singleton]
    omega
  rw [hwire]
  unfold Frame.segment
  split_ifs with h1 h2 h3
  · rw [List.drop_append_of_le_length h1.le]
    exact ⟨drop_ne_nil h1, List.prefix_append _ _⟩
  · rw [drop_behind (by omega), List.drop_append_of_le_length h2.le]
    exact ⟨drop_ne_nil h2, List.prefix_append _ _⟩
  · rw [h.payloadLen] at h3
    rw [drop_behind (by omega), drop_behind (by omega), List.drop_append_of_le_length h3.le]
    obtain ⟨hne, hpart⟩ := hsource _ h3
    exact ⟨hne, hpart.trans (List.prefix_append _ _)⟩
  · rw [h.payloadLen] at h3
    rw [drop_behind (by omega), drop_behind (by omega), drop_behind (by omega),
      show offset - f.header.length - f.metadata.length - payload.length = 0 by omega]
    exact ⟨List.cons_ne_nil _ _, List.prefix_rfl⟩

/-- The gathered bytes go on where the others end. -/
theorem Carries.gather (h : Carries f payload) (hready : f.headerReady = true)
    (hsource : Serves source payload) (count : ℕ) {start : ℕ} {done : List UInt8}
    (hoffset : offset = start + done.length)
    (hdone : done <+: (wireBytes f.metadata payload).drop start) :
    f.gather source count offset done <+: (wireBytes f.metadata payload).drop start := by
  induction count generalizing offset done with
  | zero => exact hdone
  | succ count ih =>
    unfold Frame.gather
    split_ifs with hmore
    · dsimp only
      have hpart := (List.take_prefix (writeChunkBytes - done.length) (f.segment source offset)).trans
        (h.segment hready hsource hmore.1).2
      refine ih (by rw [List.length_append]; omega) ?_
      obtain ⟨rest, hrest⟩ := hdone
      have hdrop : (wireBytes f.metadata payload).drop offset = rest := by
        rw [hoffset, ← List.drop_drop, ← hrest, List.drop_left]
      rw [hdrop] at hpart
      rw [← hrest]
      exact (List.prefix_append_right_inj _).mpr hpart
    · exact hdone

/-- What is offered to the link is what the encoding has at the offset. -/
theorem Carries.offered (h : Carries f payload) (hready : f.headerReady = true)
    (hsource : Serves source payload) :
    f.offered source <+: (wireBytes f.metadata payload).drop f.txOffset := by
  unfold Frame.offered
  split_ifs
  · exact h.gather hready hsource ioVectorsMax rfl List.nil_prefix
  · exact (List.take_prefix _ _).trans (h.segment hready hsource h.within).2

/-! ## Frames at work -/

/-- The times of a frame may change. -/
theorem Carries.timed (h : Carries f payload) (timeout : ℕ) (start progress : UInt32) :
    Carries { f with frameTimeoutMs := timeout, attempted := true, startMs := start,
                     lastProgressMs := progress } payload :=
  ⟨h.payloadLen, h.totalLen, h.header, h.summed, fun hne => ⟨(h.started hne).1, rfl⟩, h.within,
    h.short⟩

theorem Writable.begun {look : WorkerLook} (h : Writable f source look g) :
    g.headerReady = true ∧ g.attempted = true ∧ g.txOffset = f.txOffset := by
  have hready := h.ready
  obtain ⟨timeout, start, progress, rfl⟩ := h.form
  exact ⟨hready, rfl, crcStep_txOffset f source⟩

theorem Carries.writable {look : WorkerLook} (h : Carries f payload) (hsource : Serves source payload)
    (hw : Writable f source look g) : Carries g payload := by
  obtain ⟨timeout, start, progress, rfl⟩ := hw.form
  exact (h.crcStep hsource).timed timeout start progress

theorem Carries.kept {look : WorkerLook} (h : Carries f payload) (hsource : Serves source payload)
    (hk : Kept f source look g) : Carries g payload := by
  rcases hk with rfl | rfl | hw
  · exact h
  · exact h.crcStep hsource
  · exact h.writable hsource hw

theorem Kept.txOffset {look : WorkerLook} (hk : Kept f source look g) : g.txOffset = f.txOffset := by
  rcases hk with rfl | rfl | hw
  · rfl
  · exact crcStep_txOffset f source
  · exact hw.begun.2.2

/-- The link has taken some bytes, and the frame is not at its end. -/
theorem Carries.sent {n : ℕ} {progress : UInt32} (h : Carries f payload)
    (hready : f.headerReady = true ∧ f.attempted = true) (hlt : f.txOffset + n < f.totalLen) :
    Carries { f with txOffset := f.txOffset + n, lastProgressMs := progress } payload :=
  ⟨h.payloadLen, h.totalLen, h.header, h.summed, fun _ => hready, hlt, h.short⟩

end EspVision.MuxTx
