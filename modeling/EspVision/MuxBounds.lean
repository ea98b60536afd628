import EspVision.MuxContents

/-!
# Bounds of the queues, and what is kept free for whom

The counters are the sums over the frames, so the bounds that a submission is checked against are
bounds of the frames. The checks also decide who finds blocks: what the low classes, and what the
clients without a session, can take leaves enough for the others.
-/
namespace EspVision.MuxTx

open EvTransport EvMux EvSession Host TransitionSystem BlockArena Ledger

/-! ## Counters -/

namespace Mux

variable (s : Mux)

def usedFrames (t : Target) : Finset FrameSlot := Finset.univ.filter fun k => (s.frame t k).used = true

/-- The used frames of the classes that must leave a reserve. -/
def lowFrames (t : Target) : Finset FrameSlot :=
  (s.usedFrames t).filter fun k => (s.frame t k).isLow = true

end Mux

/-- A frame of the low classes in the queue of the USB link. -/
def lowQueued : List (Step × Reply) := submission { link := usbLink, txClass := .repl } usbTarget

/-- A client without a session has queued a frame on its TCP link. -/
def discoveryQueued : List (Step × Reply) :=
  submission { link := tcpLink 0, txClass := .control } firstTcp

def firstSlot : FrameSlot := ⟨0, by decide⟩

def secondSlot : FrameSlot := ⟨1, by decide⟩

section

variable {s s' : Mux} {h : List (Step × Reply)} {t : Target} {k : FrameSlot}

theorem toNat_mul_eq (b : Bool) (n : ℕ) : b.toNat * n = if b = true then n else 0 := by
  cases b <;> simp

theorem total_countIn : total (countIn t) s.entry = (s.usedFrames t).card := by
  refine (total_row (M := ℕ) (fun e : Entry => e.2.used.toNat) s.entry t).trans ?_
  rw [Mux.usedFrames, Finset.card_filter]
  exact Finset.sum_congr rfl fun k _ =>
    (Nat.mul_one _).symm.trans (toNat_mul_eq (s.frame t k).used 1)

theorem total_bytesIn :
    total (bytesIn t) s.entry = ∑ k ∈ s.usedFrames t, (s.frame t k).totalLen := by
  refine (total_row (M := ℕ) (fun e : Entry => e.2.used.toNat * e.2.totalLen) s.entry t).trans ?_
  rw [Mux.usedFrames, Finset.sum_filter]
  exact Finset.sum_congr rfl fun k _ => toNat_mul_eq _ _

theorem total_lowBytesIn :
    total (lowBytesIn t) s.entry = ∑ k ∈ s.lowFrames t, (s.frame t k).totalLen := by
  refine (total_row (M := ℕ) (fun e : Entry => e.2.used.toNat * e.2.isLow.toNat * e.2.totalLen) s.entry t).trans ?_
  rw [Mux.lowFrames, Mux.usedFrames, Finset.filter_filter, Finset.sum_filter]
  refine Finset.sum_congr rfl fun k _ => ?_
  rw [Nat.mul_assoc, toNat_mul_eq, toNat_mul_eq, ite_and]
  rfl

theorem total_lowCountIn : total (lowCountIn t) s.entry = (s.lowFrames t).card := by
  refine (total_row (M := ℕ) (fun e : Entry => e.2.used.toNat * e.2.isLow.toNat) s.entry t).trans ?_
  rw [Mux.lowFrames, Mux.usedFrames, Finset.filter_filter, Finset.card_filter]
  refine Finset.sum_congr rfl fun k _ => ?_
  rw [← Nat.mul_one (_ * _), Nat.mul_assoc, toNat_mul_eq, toNat_mul_eq, ite_and]
  rfl

theorem Balanced.counts (hs : Balanced s) (t : Target) :
    (s.queues t).framesUsed = (s.usedFrames t).card ∧
      (s.queues t).bytesUsed = ∑ k ∈ s.usedFrames t, (s.frame t k).totalLen :=
  ⟨(hs.count t).trans total_countIn, (hs.bytes t).trans total_bytesIn⟩

theorem Balanced.low_within (hs : Balanced s) (t : Target) :
    (s.lowFrames t).card ≤ queueFrames - queueReservedFrames ∧
      ∑ k ∈ s.lowFrames t, (s.frame t k).totalLen ≤ queueBytes - queueReservedBytes := by
  obtain ⟨-, -, hlow, hlowBytes⟩ := hs.queueWithin t
  exact ⟨total_lowCountIn.symm.trans_le hlow, total_lowBytesIn.symm.trans_le hlowBytes⟩

/-- The counters of a queue are the number and the bytes of its used frames, which keep within the
bounds of the queue, and those of the low classes within theirs. -/
theorem queue_counts (hr : Reaches mux h s) (t : Target) :
    ((s.queues t).framesUsed = (s.usedFrames t).card ∧
      (s.queues t).bytesUsed = ∑ k ∈ s.usedFrames t, (s.frame t k).totalLen) ∧
    (s.usedFrames t).card ≤ queueFrames ∧
    ∑ k ∈ s.usedFrames t, (s.frame t k).totalLen ≤ queueBytes ∧
    (s.lowFrames t).card ≤ queueFrames - queueReservedFrames ∧
    ∑ k ∈ s.lowFrames t, (s.frame t k).totalLen ≤ queueBytes - queueReservedBytes := by
  have hs := balanced_of_reaches hr
  obtain ⟨hcount, hbytes⟩ := hs.counts t
  obtain ⟨hn, hb, -, -⟩ := hs.queueWithin t
  exact ⟨⟨hcount, hbytes⟩, hcount ▸ hn, hbytes ▸ hb, hs.low_within t⟩

theorem queue_counts_lowQueued :
    ((ranTo lowQueued).queues usbTarget).framesUsed = 1 ∧
      ((ranTo lowQueued).queues usbTarget).framesUsed =
        ((ranTo lowQueued).usedFrames usbTarget).card :=
  ⟨by decide +kernel, (queue_counts (ranTo_reaches (by decide +kernel)) usbTarget).1.1⟩

/-- The counters that the TCP targets share are the sums of what the flags of all frames say that
they have reserved, and an accepted frame has the flags of its target, its session and its class. -/
theorem quota_counts (hr : Reaches mux h s) :
    s.quota = ∑ i : Place, (s.frame i.1 i.2).reservation ∧ s.quota.Within ∧
      ∀ t k, Live (s.entry (t, k)) → Reserved t (s.frame t k) := by
  have hs := balanced_of_reaches hr
  refine ⟨hs.quota, hs.within, fun t k hlive => ?_⟩
  have hok := hs.frameOk (t, k)
  rw [hlive.1] at hok
  rcases hok with hzero | ⟨-, hsup⟩
  · have hused := hlive.2
    rw [hzero] at hused
    cases hused
  · exact hsup.reserved

theorem quota_counts_discoveryQueued :
    (ranTo discoveryQueued).quota.discoveryFramesUsed = 1 ∧
      (ranTo discoveryQueued).quota =
        ∑ i : Place, ((ranTo discoveryQueued).frame i.1 i.2).reservation :=
  ⟨by decide +kernel, (quota_counts (ranTo_reaches (by decide +kernel))).1⟩

/-- Whichever way a frame leaves its queue, by the worker, which stops the counters at zero, or by a
cancellation, which lets them wrap round, they go down by exactly what the frame counted for. -/
theorem release_exact (hr : Reaches mux h s) (hu : (s.frame t k).used = true) :
    CountedDown (s.queues t) (s.frame t k) (countDown (s.queues t).framesUsed)
        (bytesDown (s.queues t).bytesUsed (s.frame t k).totalLen) ∧
      CountedDown (s.queues t) (s.frame t k) (Mux.byteDown (s.queues t).framesUsed)
        (Mux.sizeDown (s.queues t).bytesUsed (s.frame t k).totalLen) :=
  (balanced_of_reaches hr).countedDown hu

theorem release_exact_lowQueued :
    CountedDown ((ranTo lowQueued).queues usbTarget) ((ranTo lowQueued).frame usbTarget firstSlot)
      (Mux.byteDown ((ranTo lowQueued).queues usbTarget).framesUsed)
      (Mux.sizeDown ((ranTo lowQueued).queues usbTarget).bytesUsed
        ((ranTo lowQueued).frame usbTarget firstSlot).totalLen) :=
  (release_exact (ranTo_reaches (by decide +kernel)) (by decide +kernel)).2

/-! ## Blocks -/

/-- Each block of an arena is free, or held by exactly one frame of its targets. -/
theorem Balanced.count_block (hs : Balanced s) (a : ArenaIndex) (b : Fin blockCount) :
    ∑ i, (heldIn a i (s.entry i)).count b + (free (s.arenas a).freeBlocks).val.count b = 1 := by
  have hall := congrArg (Multiset.count b) (hs.blocks a)
  rw [Multiset.count_add, total, Multiset.count_sum'] at hall
  rw [hall]
  exact Multiset.count_eq_one_of_mem Finset.univ.nodup (Finset.mem_univ b)

theorem mem_heldIn {a : ArenaIndex} {i : Place} {b : Fin blockCount} {e : Entry} :
    b ∈ heldIn a i e ↔ arenaOf i.1 = a ∧ b ∈ held e := by
  unfold heldIn
  split_ifs with ha <;> simp [ha]

/-- A block of an arena is free exactly when no frame of its targets holds it, and no two frames
hold the same block. -/
theorem blocks_partition (hr : Reaches mux h s) (a : ArenaIndex) (b : Fin blockCount) :
    (isFree (s.arenas a).freeBlocks b = true ↔ ∀ i, arenaOf i.1 = a → b ∉ held (s.entry i)) ∧
      (∀ i j, arenaOf i.1 = a → arenaOf j.1 = a → b ∈ held (s.entry i) → b ∈ held (s.entry j) →
        i = j) ∧ ∀ i, (held (s.entry i)).Nodup := by
  have hs := balanced_of_reaches hr
  have hone := hs.count_block a b
  have hfree : isFree (s.arenas a).freeBlocks b = true ↔
      (free (s.arenas a).freeBlocks).val.count b ≠ 0 := by
    rw [Multiset.count_ne_zero, Finset.mem_val, mem_free]
  refine ⟨?_, fun i j hi hj hbi hbj => ?_, fun i => (Multiset.nodup_add.mp (hs.held_nodup i.1 i.2)).1⟩
  · rw [hfree]
    constructor
    · intro hne i hi hb
      have hpos := Multiset.count_pos.mpr (mem_heldIn.mpr ⟨hi, hb⟩)
      have hle := Finset.single_le_sum (f := fun i => (heldIn a i (s.entry i)).count b)
        (fun _ _ => Nat.zero_le _) (Finset.mem_univ i)
      omega
    · intro hnone
      rw [Finset.sum_eq_zero fun i _ => Multiset.count_eq_zero.mpr fun hb =>
        hnone i (mem_heldIn.mp hb).1 (mem_heldIn.mp hb).2] at hone
      omega
  · by_contra hne
    have hposi := Multiset.count_pos.mpr (mem_heldIn.mpr ⟨hi, hbi⟩)
    have hposj := Multiset.count_pos.mpr (mem_heldIn.mpr ⟨hj, hbj⟩)
    have hle := Finset.add_le_sum (f := fun i => (heldIn a i (s.entry i)).count b)
      (fun _ _ => Nat.zero_le _) (Finset.mem_univ i) (Finset.mem_univ j) hne
    omega

theorem blocks_partition_lowQueued :
    isFree ((ranTo lowQueued).arenas (arenaOf usbTarget)).freeBlocks ⟨0, by decide⟩ = false := by
  refine Bool.eq_false_iff.mpr fun hfree => ?_
  exact (blocks_partition (ranTo_reaches (by decide +kernel)) (arenaOf usbTarget) _).1.mp hfree
    (usbTarget, firstSlot) rfl (by decide +kernel)

/-- A frame has at most one block more than its bytes need. -/
theorem blocksFor_le (n : ℕ) : blockSize * blocksFor n ≤ n + (blockSize - 1) := by
  unfold blocksFor
  exact (Nat.mul_div_le _ _).trans (by simp [blockSize])

theorem allocateBlocks_enough {m : BitVec blockCount} {f : Frame}
    (h : blocksFor f.payloadLen ≤ (free m).card) : ∃ m' g, allocateBlocks m f = (m', some g) := by
  have hmax : (free m).card ≤ blockCount := by simpa using Finset.card_le_univ (free m)
  obtain ⟨blocks, hblocks⟩ := Option.isSome_iff_exists.mp (allocate_isSome_iff.mpr h)
  unfold allocateBlocks
  rw [if_neg (by omega)]
  exact ⟨_, _, Prod.ext rfl (congrArg (Option.map fun blocks => { f with blocks := blocks }) hblocks)⟩

/-- The submission that stands at the allocation of its blocks gets them if there are enough. -/
theorem allocate_filling {payload : List UInt8} {timeout : ℕ}
    (hh : s.holder t = .allocating k payload timeout)
    (henough : blocksFor (s.frame t k).payloadLen ≤ (free (s.arena t).freeBlocks).card) :
    ∃ s', s.allocate t = some s' ∧ s'.holder t = .filling k payload timeout := by
  obtain ⟨m, f, hf⟩ := allocateBlocks_enough henough
  unfold Mux.allocate
  rw [hh]
  dsimp only
  rw [hf]
  refine ⟨_, rfl, ?_⟩
  simp [Mux.holder, Mux.setHolder]

/-- The free blocks are those that the frames leave. -/
theorem Balanced.card_free (hs : Balanced s) (a : ArenaIndex) :
    ∑ i, (heldIn a i (s.entry i)).card + (free (s.arenas a).freeBlocks).card = blockCount := by
  have hall := congrArg Multiset.card (hs.blocks a)
  rw [Multiset.card_add, total, Multiset.card_sum] at hall
  simpa using hall

/-! ## Who always finds blocks -/

theorem held_empty {e : Entry} (h : e.2.blocks = []) : held e = 0 := by simp [held, h]

/-- A frame that has blocks has its reservations, and is used or about to be. -/
theorem held_supplied {e : Entry} (hok : FrameOk t e.1 e.2) (hne : held e ≠ 0) :
    Supplied t e.2 ∧ (e.1 ≠ .filling → e.2.used = true) := by
  obtain ⟨st, f⟩ := e
  cases st with
  | rest =>
    rcases hok with rfl | ⟨hused, hsup⟩
    · exact absurd rfl hne
    · exact ⟨hsup, fun _ => hused⟩
  | reserving | allocating | refusing => exact absurd (held_empty hok.2.2) hne
  | filling => exact ⟨hok.2, fun hst => absurd rfl hst⟩
  | releasing | unreserving => exact ⟨hok.2, fun _ => hok.1⟩
  | clearing => exact absurd rfl hne

theorem card_held_le {e : Entry} (hok : FrameOk t e.1 e.2) (hsized : e.2.payloadLen ≤ e.2.totalLen) :
    blockSize * (held e).card ≤ e.2.totalLen + (blockSize - 1) := by
  by_cases hne : held e = 0
  · rw [hne]
    exact Nat.zero_le _
  · have hle : (held e).card ≤ blocksFor e.2.payloadLen := by
      rw [← (held_supplied hok hne).1.blocks]
      unfold held
      split_ifs
      · exact le_rfl
      · exact Nat.zero_le _
    calc blockSize * (held e).card
      _ ≤ blockSize * blocksFor e.2.payloadLen := Nat.mul_le_mul_left _ hle
      _ ≤ e.2.payloadLen + (blockSize - 1) := blocksFor_le _
      _ ≤ e.2.totalLen + (blockSize - 1) := Nat.add_le_add_right hsized _

/-- Frames that are counted together, with their bytes, leave the blocks that they cannot have. -/
theorem Balanced.blocks_left (hs : Balanced s) (a : ArenaIndex) (w v : Place → Entry → ℕ)
    (hw : ∀ i, arenaOf i.1 = a → held (s.entry i) ≠ 0 →
      1 ≤ w i (s.entry i) ∧ (s.entry i).2.totalLen ≤ v i (s.entry i)) :
    blockSize * blockCount ≤ total v s.entry + (blockSize - 1) * total w s.entry +
      blockSize * (free (s.arenas a).freeBlocks).card := by
  have hone : ∀ i, blockSize * (heldIn a i (s.entry i)).card ≤
      v i (s.entry i) + (blockSize - 1) * w i (s.entry i) := by
    intro i
    by_cases hne : heldIn a i (s.entry i) = 0
    · rw [hne]
      exact Nat.zero_le _
    · have ha : arenaOf i.1 = a := by
        by_contra hother
        exact hne (if_neg hother)
      have hheld : heldIn a i (s.entry i) = held (s.entry i) := if_pos ha
      rw [hheld] at hne ⊢
      obtain ⟨hcount, hbytes⟩ := hw i ha hne
      have hcard := card_held_le (hs.frameOk i) (hs.sized i)
      have hmul := Nat.mul_le_mul_left (blockSize - 1) hcount
      omega
  have hsum := Finset.sum_le_sum fun i (_ : i ∈ Finset.univ) => hone i
  rw [← Finset.mul_sum, Finset.sum_add_distrib, ← Finset.mul_sum] at hsum
  have hcard := congrArg (blockSize * ·) (hs.card_free a)
  rw [Nat.mul_add] at hcard
  unfold total
  omega

theorem arenaOf_serial {u : Target} (ht : t.isTcp = false) (h : arenaOf u = arenaOf t) : u = t := by
  have hlt : t.val < serialTargets := by simpa [Target.isTcp] using ht
  have hval := congrArg Fin.val h
  simp only [arenaOf] at hval
  exact Fin.ext (by omega)

theorem arenaOf_tcp {u : Target} (ht : t.isTcp = true) (h : arenaOf u = arenaOf t) :
    u.isTcp = true := by
  have hle : serialTargets ≤ t.val := by simpa [Target.isTcp] using ht
  have hval := congrArg Fin.val h
  simp only [arenaOf] at hval
  have hu : serialTargets ≤ u.val := by omega
  simpa [Target.isTcp] using hu

theorem blocksFor_le_of {m n : ℕ} (h : m ≤ n) : blocksFor m ≤ blocksFor n :=
  Nat.div_le_div_right (by omega)

/-- The frames of a serial target leave the blocks that its counters leave. -/
theorem Balanced.serial_left {payload : List UInt8} {timeout : ℕ} (hs : Balanced s)
    (ht : t.isTcp = false) (hh : s.holder t = .allocating k payload timeout) :
    blockSize * blockCount ≤ (s.queues t).bytesUsed + (blockSize - 1) * (s.queues t).framesUsed +
      blockSize * (free (s.arena t).freeBlocks).card := by
  rw [hs.count t, hs.bytes t]
  refine hs.blocks_left (arenaOf t) (countIn t) (bytesIn t) fun i hi hne => ?_
  obtain rfl := arenaOf_serial ht hi
  have hused : (s.entry i).2.used = true := by
    refine (held_supplied (hs.frameOk i) hne).2 ?_
    show (s.holder i.1).stageAt i.2 ≠ .filling
    rw [hh]
    unfold Holder.stageAt Holder.work
    dsimp only
    split_ifs <;> exact Stage.noConfusion
  simp [countIn, bytesIn, hused]

/-- On a serial target a submission of the low classes that was admitted always gets its blocks: it
is never refused for want of memory. -/
theorem low_gets_blocks {payload : List UInt8} {timeout : ℕ} (hr : Reaches mux h s)
    (ht : t.isTcp = false) (hh : s.holder t = .allocating k payload timeout)
    (hlow : (s.frame t k).isLow = true) :
    ∃ s', s.allocate t = some s' ∧ s'.holder t = .filling k payload timeout := by
  have hs := balanced_of_reaches hr
  have hw : (s.holder t).work = some (k, .allocating) := by rw [hh]; rfl
  obtain ⟨hframes, hbytes⟩ := (hs.admitted hw trivial).low (by simpa [Frame.isLow] using hlow)
  have hsized : (s.frame t k).payloadLen ≤ (s.frame t k).totalLen := hs.sized (t, k)
  have hleft := hs.serial_left ht hh
  have hneeded := blocksFor_le (s.frame t k).payloadLen
  refine allocate_filling hh ?_
  simp only [queueFrames, queueReservedFrames, queueBytes, queueReservedBytes, blockSize,
    blockCount] at *
  omega

theorem low_gets_blocks_sample :
    ∃ s', (ranTo (offering { link := usbLink, txClass := .repl } ++
        [(.reserve usbTarget, none)])).allocate usbTarget = some s' ∧
      s'.holder usbTarget = .filling firstSlot [0x41] 1500 :=
  low_gets_blocks (k := firstSlot) (ranTo_reaches (by decide +kernel)) (by decide)
    (by decide +kernel) (by decide +kernel)

/-- The longest payload that the reserve has blocks for. -/
def reservePayload : ℕ := 2816

/-- On a serial target whose used frames are all of the low classes, a submission of another class
is admitted if it fits into the reserved bytes, and gets its blocks if its payload is at most 2816
bytes. -/
theorem serial_reserve (hr : Reaches mux h s) (ht : t.isTcp = false)
    (hlow : ∀ j, (s.frame t j).used = true → (s.frame t j).isLow = true) :
    (∀ c len, c.priority < TxClass.repl.priority → len ≤ queueReservedBytes →
        (admitFrame (s.queues t) c len).isSome = true) ∧
      ∀ k payload timeout, s.holder t = .allocating k payload timeout →
        (s.frame t k).payloadLen ≤ reservePayload →
        ∃ s', s.allocate t = some s' ∧ s'.holder t = .filling k payload timeout := by
  have hs := balanced_of_reaches hr
  obtain ⟨hcount, hbytes⟩ := hs.counts t
  obtain ⟨hlowCount, hlowBytes⟩ := hs.low_within t
  have hsame : s.lowFrames t = s.usedFrames t :=
    Finset.filter_true_of_mem fun j hj => hlow j (Finset.mem_filter.mp hj).2
  rw [hsame, ← hcount] at hlowCount
  rw [hsame, ← hbytes] at hlowBytes
  refine ⟨fun c len hc hlen => ?_, fun k payload timeout hh hpayload => ?_⟩
  · have hfree : (freeFrameSlot (s.queues t)).isSome = true := by
      unfold freeFrameSlot
      rw [List.find?_isSome]
      by_contra hnone
      have hall : s.usedFrames t = Finset.univ := by
        refine Finset.filter_true_of_mem fun j _ => ?_
        by_contra hj
        exact hnone ⟨j, List.mem_finRange j, by simpa [Mux.frame] using hj⟩
      rw [hcount, hall, Finset.card_univ, Fintype.card_fin] at hlowCount
      exact absurd hlowCount (by decide)
    unfold admitFrame
    rw [if_neg, if_neg, if_neg]
    · exact hfree
    all_goals
      simp only [queueFrames, queueReservedFrames, queueBytes, queueReservedBytes] at *
      omega
  · have hleft := hs.serial_left ht hh
    have hneeded := blocksFor_le_of hpayload
    refine allocate_filling hh (hneeded.trans ?_)
    have hreserve : blocksFor reservePayload = 11 := rfl
    simp only [queueFrames, queueReservedFrames, queueBytes, queueReservedBytes, blockSize,
      blockCount] at *
    omega

theorem serial_reserve_sample :
    ∃ s', (ranTo (lowQueued ++ offering { link := usbLink, txClass := .control } ++
        [(.reserve usbTarget, none)])).allocate usbTarget = some s' ∧
      s'.holder usbTarget = .filling secondSlot [0x41] 1500 :=
  (serial_reserve (ranTo_reaches (by decide +kernel)) (by decide) (by decide +kernel)).2 secondSlot
    _ _ (by decide +kernel) (by decide +kernel)

/-- Every other frame that counts towards the TCP quota counts towards the share of the clients
without a session, or every one towards that of the low classes. -/
def SharesFull (s : Mux) (t : Target) (k : FrameSlot) : Prop :=
  (∀ i : Place, i ≠ (t, k) → (s.frame i.1 i.2).tcpQuotaReserved = true →
      (s.frame i.1 i.2).tcpDiscoveryReservation = true) ∨
    ∀ i : Place, i ≠ (t, k) → (s.frame i.1 i.2).tcpQuotaReserved = true →
      (s.frame i.1 i.2).tcpLowReservation = true

/-- A counter of the quota is the sum over the frames. -/
theorem Balanced.quota_field (hs : Balanced s) (φ : TcpQuota →+ ℕ) :
    φ s.quota = total (fun _ e => φ e.2.reservation) s.entry := by
  rw [hs.quota]
  exact map_sum φ _ _

/-- The frames of a share, with their bytes, keep within the share. -/
structure Share (s : Mux) (flag : Frame → Bool) : Prop where
  frames : total (fun _ e => (flag e.2).toNat) s.entry ≤ queueFrames - queueReservedFrames
  bytes : total (fun _ e => (flag e.2).toNat * e.2.totalLen) s.entry ≤
    queueBytes - queueReservedBytes

theorem Balanced.discovery_share (hs : Balanced s) : Share s Frame.tcpDiscoveryReservation := by
  have hframes := hs.quota_field ⟨⟨TcpQuota.discoveryFramesUsed, rfl⟩, fun _ _ => rfl⟩
  have hbytes := hs.quota_field ⟨⟨TcpQuota.discoveryBytesUsed, rfl⟩, fun _ _ => rfl⟩
  exact ⟨hframes.symm.trans_le hs.within.discoveryFrames,
    hbytes.symm.trans_le hs.within.discoveryBytes⟩

theorem Balanced.low_share (hs : Balanced s) : Share s Frame.tcpLowReservation := by
  have hframes := hs.quota_field ⟨⟨TcpQuota.lowFramesUsed, rfl⟩, fun _ _ => rfl⟩
  have hbytes := hs.quota_field ⟨⟨TcpQuota.lowBytesUsed, rfl⟩, fun _ _ => rfl⟩
  exact ⟨hframes.symm.trans_le hs.within.lowFrames, hbytes.symm.trans_le hs.within.lowBytes⟩

/-- The others keep within one share. -/
theorem SharesFull.share (h : SharesFull s t k) (hs : Balanced s) :
    ∃ flag, Share s flag ∧ ∀ i : Place, i ≠ (t, k) →
      (s.frame i.1 i.2).tcpQuotaReserved = true → flag (s.frame i.1 i.2) = true := by
  rcases h with h | h
  · exact ⟨_, hs.discovery_share, h⟩
  · exact ⟨_, hs.low_share, h⟩

/-- On a TCP target, while all other frames belong to clients without a session or all to the low
classes, a submission of neither kind passes the quota if it fits into the reserved bytes, and gets
its blocks if its payload is at most 2816 bytes. -/
theorem tcp_reserve {payload : List UInt8} {timeout : ℕ} (hr : Reaches mux h s)
    (ht : t.isTcp = true) (hothers : SharesFull s t k) :
    (s.holder t = .reserving k payload timeout → (s.frame t k).isDiscovery = false →
        (s.frame t k).isLow = false → (s.frame t k).totalLen ≤ queueReservedBytes →
        ∃ s', s.reserve t = some (s', none) ∧ s'.holder t = .allocating k payload timeout) ∧
      (s.holder t = .allocating k payload timeout →
        (s.frame t k).payloadLen ≤ reservePayload →
        ∃ s', s.allocate t = some s' ∧ s'.holder t = .filling k payload timeout) := by
  have hs := balanced_of_reaches hr
  obtain ⟨flag, hshare, hflag⟩ := hothers.share hs
  obtain ⟨hframes, hbytes⟩ := hshare
  refine ⟨fun hh hdiscovery hlow hlen => ?_, fun hh hpayload => ?_⟩
  · have hw : (s.holder t).work = some (k, .reserving) := by rw [hh]; rfl
    obtain ⟨-, hun, -⟩ := hs.worked hw
    have hquota : ∀ i, (s.entry i).2.tcpQuotaReserved.toNat ≤ (flag (s.entry i).2).toNat := by
      intro i
      cases hq : (s.entry i).2.tcpQuotaReserved with
      | false => exact Nat.zero_le _
      | true =>
        have hne : i ≠ (t, k) := by
          rintro rfl
          rw [show (s.entry (t, k)).2.tcpQuotaReserved = false from hun.quota] at hq
          cases hq
        rw [show flag (s.entry i).2 = true from hflag i hne hq]
    have hcount := hs.quota_field ⟨⟨TcpQuota.framesUsed, rfl⟩, fun _ _ => rfl⟩
    have hsize := hs.quota_field ⟨⟨TcpQuota.bytesUsed, rfl⟩, fun _ _ => rfl⟩
    have hcountLe := total_le_total (f := s.entry) (w := fun _ e => e.2.tcpQuotaReserved.toNat)
      (v := fun _ e => (flag e.2).toNat) hquota
    have hsizeLe := total_le_total (f := s.entry)
      (w := fun _ e => e.2.tcpQuotaReserved.toNat * e.2.totalLen)
      (v := fun _ e => (flag e.2).toNat * e.2.totalLen) fun i => Nat.mul_le_mul_right _ (hquota i)
    have hcountLe := (hcount.trans_le hcountLe).trans hframes
    have hsizeLe := (hsize.trans_le hsizeLe).trans hbytes
    have hroom : s.quota.framesUsed < queueFrames ∧
        s.quota.bytesUsed + (s.frame t k).totalLen ≤ queueBytes := by
      refine ⟨Nat.lt_of_le_of_lt hcountLe (by decide), ?_⟩
      refine (Nat.add_le_add hsizeLe hlen).trans (by decide)
    unfold Mux.reserve
    rw [hh]
    dsimp only
    unfold tcpReserve
    rw [if_pos ht, if_pos ⟨hroom.1, hroom.2, by rw [hdiscovery]; rintro ⟨⟩, by rw [hlow]; rintro ⟨⟩⟩]
    refine ⟨_, rfl, ?_⟩
    simp [Mux.holder, Mux.setHolder]
  · have hw : (s.holder t).work = some (k, .allocating) := by rw [hh]; rfl
    obtain ⟨-, -, hblocks⟩ := hs.worked hw
    have hleft := hs.blocks_left (arenaOf t) (fun _ e => (flag e.2).toNat)
      (fun _ e => (flag e.2).toNat * e.2.totalLen) fun i hi hne => ?_
    · have hneeded := blocksFor_le_of hpayload
      refine allocate_filling hh (hneeded.trans ?_)
      have hreserve : blocksFor reservePayload = 11 := rfl
      simp only [queueFrames, queueReservedFrames, queueBytes, queueReservedBytes, blockSize,
        blockCount, Mux.arena] at *
      omega
    · have hother : i ≠ (t, k) := by
        rintro rfl
        exact hne (held_empty hblocks)
      have hres := (held_supplied (hs.frameOk i) hne).1.reserved.quota.trans (arenaOf_tcp ht hi)
      rw [show flag (s.entry i).2 = true from hflag i hother hres]
      exact ⟨le_rfl, by simp⟩

theorem tcp_reserve_discoveryQueued :
    ∃ s', (ranTo (discoveryQueued ++ offering { link := tcpLink 1, txClass := .control
                                                sessionId := some [0x61] })).reserve secondTcp =
        some (s', none) ∧
      s'.holder secondTcp = .allocating firstSlot [0x41] 1500 :=
  (tcp_reserve (k := firstSlot) (ranTo_reaches (by decide +kernel)) (by decide)
    (.inl (by decide +kernel))).1 (by decide +kernel) (by decide +kernel) (by decide +kernel)
    (by decide +kernel)

end

end EspVision.MuxTx
