import EspVision.MuxVisit

/-!
# Accounting of queues, blocks and reservations

Each step of a task moves a frame from one stage to the next, and moves what the frame holds
between the accounts: its blocks, its reservations, its place in the queue. The sums over all
entries agree with the counters and with the bit maps in every state.
-/
namespace EspVision.MuxTx

open EvTransport EvMux EvSession Host TransitionSystem BlockArena Ledger

/-! ## Reservations as amounts -/

instance : Add TcpQuota where
  add p q :=
    { bytesUsed := p.bytesUsed + q.bytesUsed
      framesUsed := p.framesUsed + q.framesUsed
      discoveryBytesUsed := p.discoveryBytesUsed + q.discoveryBytesUsed
      discoveryFramesUsed := p.discoveryFramesUsed + q.discoveryFramesUsed
      lowBytesUsed := p.lowBytesUsed + q.lowBytesUsed
      lowFramesUsed := p.lowFramesUsed + q.lowFramesUsed }

instance : Zero TcpQuota where
  zero := {}

section

variable (p q : TcpQuota)

@[simp] theorem add_bytesUsed : (p + q).bytesUsed = p.bytesUsed + q.bytesUsed := rfl
@[simp] theorem add_framesUsed : (p + q).framesUsed = p.framesUsed + q.framesUsed := rfl
@[simp] theorem add_discoveryBytesUsed :
    (p + q).discoveryBytesUsed = p.discoveryBytesUsed + q.discoveryBytesUsed := rfl
@[simp] theorem add_discoveryFramesUsed :
    (p + q).discoveryFramesUsed = p.discoveryFramesUsed + q.discoveryFramesUsed := rfl
@[simp] theorem add_lowBytesUsed : (p + q).lowBytesUsed = p.lowBytesUsed + q.lowBytesUsed := rfl
@[simp] theorem add_lowFramesUsed : (p + q).lowFramesUsed = p.lowFramesUsed + q.lowFramesUsed := rfl
@[simp] theorem zero_bytesUsed : (0 : TcpQuota).bytesUsed = 0 := rfl
@[simp] theorem zero_framesUsed : (0 : TcpQuota).framesUsed = 0 := rfl
@[simp] theorem zero_discoveryBytesUsed : (0 : TcpQuota).discoveryBytesUsed = 0 := rfl
@[simp] theorem zero_discoveryFramesUsed : (0 : TcpQuota).discoveryFramesUsed = 0 := rfl
@[simp] theorem zero_lowBytesUsed : (0 : TcpQuota).lowBytesUsed = 0 := rfl
@[simp] theorem zero_lowFramesUsed : (0 : TcpQuota).lowFramesUsed = 0 := rfl

end

instance : AddCommMonoid TcpQuota where
  add_assoc p q r := by ext <;> simp [Nat.add_assoc]
  zero_add p := by ext <;> simp
  add_zero p := by ext <;> simp
  add_comm p q := by ext <;> simp [Nat.add_comm]
  nsmul := nsmulRec

theorem TcpQuota.add_cancel {p q r : TcpQuota} (h : p + r = q + r) : p = q :=
  TcpQuota.ext (Nat.add_right_cancel (congrArg TcpQuota.bytesUsed h))
    (Nat.add_right_cancel (congrArg TcpQuota.framesUsed h))
    (Nat.add_right_cancel (congrArg TcpQuota.discoveryBytesUsed h))
    (Nat.add_right_cancel (congrArg TcpQuota.discoveryFramesUsed h))
    (Nat.add_right_cancel (congrArg TcpQuota.lowBytesUsed h))
    (Nat.add_right_cancel (congrArg TcpQuota.lowFramesUsed h))

/-- What the flags of a frame say that it has reserved. -/
def Frame.reservation (f : Frame) : TcpQuota where
  framesUsed := f.tcpQuotaReserved.toNat
  bytesUsed := f.tcpQuotaReserved.toNat * f.totalLen
  discoveryFramesUsed := f.tcpDiscoveryReservation.toNat
  discoveryBytesUsed := f.tcpDiscoveryReservation.toNat * f.totalLen
  lowFramesUsed := f.tcpLowReservation.toNat
  lowBytesUsed := f.tcpLowReservation.toNat * f.totalLen

/-- The flags of a frame that has its reservations. -/
structure Reserved (t : Target) (f : Frame) : Prop where
  quota : f.tcpQuotaReserved = t.isTcp
  discovery : f.tcpDiscoveryReservation = (t.isTcp && f.isDiscovery)
  low : f.tcpLowReservation = (t.isTcp && f.isLow)

/-- The flags of a frame without reservations. -/
structure Unreserved (f : Frame) : Prop where
  quota : f.tcpQuotaReserved = false
  discovery : f.tcpDiscoveryReservation = false
  low : f.tcpLowReservation = false

theorem Unreserved.reservation {f : Frame} (h : Unreserved f) : f.reservation = 0 := by
  ext <;> simp [Frame.reservation, h.quota, h.discovery, h.low]

/-- The counters are within their bounds. -/
structure TcpQuota.Within (q : TcpQuota) : Prop where
  frames : q.framesUsed ≤ queueFrames
  bytes : q.bytesUsed ≤ queueBytes
  discoveryFrames : q.discoveryFramesUsed ≤ queueFrames - queueReservedFrames
  discoveryBytes : q.discoveryBytesUsed ≤ queueBytes - queueReservedBytes
  lowFrames : q.lowFramesUsed ≤ queueFrames - queueReservedFrames
  lowBytes : q.lowBytesUsed ≤ queueBytes - queueReservedBytes

/-! ## What the entries say -/

/-- A frame that has all that a queued frame has. -/
structure Supplied (t : Target) (f : Frame) : Prop where
  reserved : Reserved t f
  blocks : f.blocks.length = blocksFor f.payloadLen

/-- What a frame of the target has at each stage. -/
def FrameOk (t : Target) : Stage → Frame → Prop
  | .rest, f => f = .zeroed ∨ f.used = true ∧ Supplied t f
  | .reserving, f => f.used = false ∧ Unreserved f ∧ f.blocks = []
  | .allocating, f | .refusing, f => f.used = false ∧ Reserved t f ∧ f.blocks = []
  | .filling, f => f.used = false ∧ Supplied t f
  | .releasing, f | .unreserving, f => f.used = true ∧ Supplied t f
  | .clearing, f => f.used = true ∧ Unreserved f

/-- The stages of a submission that has passed the checks against its queue. -/
def Stage.Admitted : Stage → Prop
  | .reserving | .allocating | .filling => True
  | _ => False

/-- The blocks that an entry holds: those of its frame, unless they were given back. -/
def held (e : Entry) : Multiset (Fin blockCount) :=
  if e.1 ≠ .unreserving ∧ e.1 ≠ .clearing then e.2.blocks else 0

/-- The blocks of the arena that an entry holds. -/
def heldIn (a : ArenaIndex) (i : Place) (e : Entry) : Multiset (Fin blockCount) :=
  if arenaOf i.1 = a then held e else 0

/-- What an entry has reserved. -/
def reservedBy (_ : Place) (e : Entry) : TcpQuota := e.2.reservation

/-- The used frames of the target. -/
def countIn (t : Target) (i : Place) (e : Entry) : ℕ := if i.1 = t then e.2.used.toNat else 0

/-- The bytes of the used frames of the target. -/
def bytesIn (t : Target) (i : Place) (e : Entry) : ℕ :=
  if i.1 = t then e.2.used.toNat * e.2.totalLen else 0

/-- The used frames of the target of the classes that must leave a reserve. -/
def lowCountIn (t : Target) (i : Place) (e : Entry) : ℕ :=
  if i.1 = t then e.2.used.toNat * e.2.isLow.toNat else 0

/-- Their bytes. -/
def lowBytesIn (t : Target) (i : Place) (e : Entry) : ℕ :=
  if i.1 = t then e.2.used.toNat * e.2.isLow.toNat * e.2.totalLen else 0

/-- The queue keeps within its bounds. -/
structure QueueWithin (s : Mux) (t : Target) : Prop where
  frames : (s.queues t).framesUsed ≤ queueFrames
  bytes : (s.queues t).bytesUsed ≤ queueBytes
  lowFrames : total (lowCountIn t) s.entry ≤ queueFrames - queueReservedFrames
  lowBytes : total (lowBytesIn t) s.entry ≤ queueBytes - queueReservedBytes

/-- The counters and the bit maps agree with the entries. -/
structure Balanced (s : Mux) : Prop where
  frameOk : ∀ i, FrameOk i.1 (s.entry i).1 (s.entry i).2
  blocks : ∀ a, total (heldIn a) s.entry + (free (s.arenas a).freeBlocks).val =
    (Finset.univ : Finset (Fin blockCount)).val
  quota : s.quota = total reservedBy s.entry
  count : ∀ t, (s.queues t).framesUsed = total (countIn t) s.entry
  bytes : ∀ t, (s.queues t).bytesUsed = total (bytesIn t) s.entry
  within : s.quota.Within
  queueWithin : ∀ t, QueueWithin s t
  room : ∀ i, (s.entry i).1.Admitted → Room (s.queues i.1) (s.entry i).2.priority (s.entry i).2.totalLen
  sized : ∀ i, (s.entry i).2.payloadLen ≤ (s.entry i).2.totalLen

/-- What is to be shown of a step that changes the entry at `i` to `e`. -/
structure Moves (s s' : Mux) (i : Place) (e : Entry) : Prop where
  entry : s'.entry = Function.update s.entry i e
  frameOk : FrameOk i.1 e.1 e.2
  blocks : ∀ a, heldIn a i e + (free (s'.arenas a).freeBlocks).val =
    heldIn a i (s.entry i) + (free (s.arenas a).freeBlocks).val
  quota : s'.quota + (s.entry i).2.reservation = s.quota + e.2.reservation
  within : s'.quota.Within
  count : ∀ t, (s'.queues t).framesUsed + countIn t i (s.entry i) =
    (s.queues t).framesUsed + countIn t i e
  bytes : ∀ t, (s'.queues t).bytesUsed + bytesIn t i (s.entry i) =
    (s.queues t).bytesUsed + bytesIn t i e
  filled : e.2.used = true → (s.entry i).2.used = false → Room (s.queues i.1) e.2.priority e.2.totalLen
  same : e.2.used = true → (s.entry i).2.used = true →
    e.2.totalLen = (s.entry i).2.totalLen ∧ e.2.isLow = (s.entry i).2.isLow
  room : ∀ j, (s'.entry j).1.Admitted →
    Room (s'.queues j.1) (s'.entry j).2.priority (s'.entry j).2.totalLen
  sized : e.2.payloadLen ≤ e.2.totalLen

/-- A frame counts towards its own queue. -/
theorem lowCountIn_le (t : Target) (i : Place) (e : Entry) :
    lowCountIn t i e ≤ countIn t i e := by
  unfold lowCountIn countIn
  split_ifs
  · cases e.2.isLow <;> simp
  · exact le_rfl

theorem lowBytesIn_le (t : Target) (i : Place) (e : Entry) :
    lowBytesIn t i e ≤ bytesIn t i e := by
  unfold lowBytesIn bytesIn
  split_ifs
  · cases e.2.isLow <;> simp
  · exact le_rfl

/-- A step that gives no frame to the queue without room for it keeps the queue's bounds. -/
theorem Moves.queueWithin {s s' : Mux} {i : Place} {e : Entry} (hm : Moves s s' i e)
    (hs : Balanced s) (t : Target) : QueueWithin s' t := by
  have hlow := total_update (w := lowCountIn t) (f := s.entry) (i := i) (x := e)
  have hlowBytes := total_update (w := lowBytesIn t) (f := s.entry) (i := i) (x := e)
  have hle : total (lowCountIn t) s.entry ≤ (s.queues t).framesUsed :=
    (total_le_total fun j => lowCountIn_le t j (s.entry j)).trans_eq (hs.count t).symm
  have hleBytes : total (lowBytesIn t) s.entry ≤ (s.queues t).bytesUsed :=
    (total_le_total fun j => lowBytesIn_le t j (s.entry j)).trans_eq (hs.bytes t).symm
  have hbytes := hm.bytes t
  have hcount := hm.count t
  rw [← hm.entry] at hlow hlowBytes
  obtain ⟨hn, hb, hf, hlb⟩ := hs.queueWithin t
  by_cases ht : i.1 = t
  · subst ht
    cases hnew : e.2.used with
    | false =>
      simp [lowCountIn, lowBytesIn, bytesIn, countIn, hnew] at hlow hlowBytes hbytes hcount
      exact ⟨by omega, by omega, by omega, by omega⟩
    | true =>
      cases hold : (s.entry i).2.used with
      | true =>
        obtain ⟨hlen, hislow⟩ := hm.same hnew hold
        simp [lowCountIn, lowBytesIn, bytesIn, countIn, hnew, hold, hlen, hislow]
          at hlow hlowBytes hbytes hcount
        exact ⟨by omega, by omega, by omega, by omega⟩
      | false =>
        obtain ⟨hframes, hroom, hroomLow⟩ := hm.filled hnew hold
        cases hislow : e.2.isLow with
        | false =>
          simp [lowCountIn, lowBytesIn, bytesIn, countIn, hnew, hold, hislow]
            at hlow hlowBytes hbytes hcount
          exact ⟨by omega, by omega, by omega, by omega⟩
        | true =>
          have hr := hroomLow (by simpa [Frame.isLow] using hislow)
          simp [lowCountIn, lowBytesIn, bytesIn, countIn, hnew, hold, hislow]
            at hlow hlowBytes hbytes hcount
          exact ⟨by omega, by omega, by omega, by omega⟩
  · simp [lowCountIn, lowBytesIn, bytesIn, countIn, ht] at hlow hlowBytes hbytes hcount
    exact ⟨by omega, by omega, by omega, by omega⟩

theorem Moves.balanced {s s' : Mux} {i : Place} {e : Entry} (hm : Moves s s' i e)
    (hs : Balanced s) : Balanced s' where
  frameOk j := by
    rw [hm.entry]
    by_cases hj : j = i
    · subst hj
      rw [Function.update_self]
      exact hm.frameOk
    · rw [Function.update_of_ne hj]
      exact hs.frameOk j
  blocks a := by
    have htotal := total_update (w := heldIn a) (f := s.entry) (i := i) (x := e)
    have hold := hs.blocks a
    have hmove := hm.blocks a
    rw [hm.entry, ← hold]
    refine Multiset.add_right_inj.mp (?_ : heldIn a i (s.entry i) + _ = heldIn a i (s.entry i) + _)
    rw [← add_assoc, add_comm (heldIn a i (s.entry i)), htotal, add_assoc, hmove]
    abel
  quota := by
    have htotal := total_update (w := reservedBy) (f := s.entry) (i := i) (x := e)
    have hmove := hm.quota
    rw [hs.quota] at hmove
    rw [hm.entry]
    exact TcpQuota.add_cancel (hmove.trans htotal.symm)
  count t := by
    have htotal := total_update (w := countIn t) (f := s.entry) (i := i) (x := e)
    have hmove := hm.count t
    rw [hs.count t] at hmove
    rw [hm.entry]
    omega
  bytes t := by
    have htotal := total_update (w := bytesIn t) (f := s.entry) (i := i) (x := e)
    have hmove := hm.bytes t
    rw [hs.bytes t] at hmove
    rw [hm.entry]
    omega
  within := hm.within
  queueWithin := hm.queueWithin hs
  room := hm.room
  sized j := by
    rw [hm.entry]
    by_cases hj : j = i
    · subst hj
      rw [Function.update_self]
      exact hm.sized
    · rw [Function.update_of_ne hj]
      exact hs.sized j

/-- A step that changes nothing that is accounted for. -/
theorem Balanced.congr {s s' : Mux} (hs : Balanced s) (hentry : s'.entry = s.entry)
    (harenas : ∀ a, (s'.arenas a).freeBlocks = (s.arenas a).freeBlocks) (hquota : s'.quota = s.quota)
    (hframes : ∀ t, (s'.queues t).framesUsed = (s.queues t).framesUsed)
    (hbytes : ∀ t, (s'.queues t).bytesUsed = (s.queues t).bytesUsed) : Balanced s' where
  frameOk := by
    rw [hentry]
    exact hs.frameOk
  blocks a := by
    rw [hentry, harenas]
    exact hs.blocks a
  quota := by
    rw [hentry, hquota]
    exact hs.quota
  count t := by
    rw [hentry, hframes]
    exact hs.count t
  bytes t := by
    rw [hentry, hbytes]
    exact hs.bytes t
  within := by
    rw [hquota]
    exact hs.within
  queueWithin t := by
    obtain ⟨hn, hb, hf, hlb⟩ := hs.queueWithin t
    exact ⟨(hframes t).trans_le hn, (hbytes t).trans_le hb, hentry ▸ hf, hentry ▸ hlb⟩
  room i hi := by
    rw [hentry] at hi ⊢
    obtain ⟨hf, hb, hl⟩ := hs.room i hi
    rw [← hframes] at hf hl
    rw [← hbytes] at hb hl
    exact ⟨hf, hb, hl⟩
  sized := by
    rw [hentry]
    exact hs.sized

/-- What is to be shown of a step that changes one frame of one queue. -/
structure QueueMoves (s s' : Mux) (t : Target) (k : FrameSlot) (q : Queue) : Prop where
  queues : s'.queues = Function.update s.queues t q
  old : (s.holder t).OnlyAt k
  new : q.holder.OnlyAt k
  frames : ∀ j, j ≠ k → q.frames j = s.frame t j
  frameOk : FrameOk t (q.holder.stageAt k) (q.frames k)
  blocks : ∀ a, heldIn a (t, k) (q.entry k) + (free (s'.arenas a).freeBlocks).val =
    heldIn a (t, k) (s.entry (t, k)) + (free (s.arenas a).freeBlocks).val
  quota : s'.quota + (s.frame t k).reservation = s.quota + (q.frames k).reservation
  within : s'.quota.Within
  count : q.framesUsed + (s.frame t k).used.toNat =
    (s.queues t).framesUsed + (q.frames k).used.toNat
  bytes : q.bytesUsed + (s.frame t k).used.toNat * (s.frame t k).totalLen =
    (s.queues t).bytesUsed + (q.frames k).used.toNat * (q.frames k).totalLen
  filled : (q.frames k).used = true → (s.frame t k).used = false →
    Room (s.queues t) (q.frames k).priority (q.frames k).totalLen
  same : (q.frames k).used = true → (s.frame t k).used = true →
    (q.frames k).totalLen = (s.frame t k).totalLen ∧ (q.frames k).isLow = (s.frame t k).isLow
  room : (q.holder.stageAt k).Admitted → Room q (q.frames k).priority (q.frames k).totalLen
  sized : (q.frames k).payloadLen ≤ (q.frames k).totalLen

theorem QueueMoves.balanced {s s' : Mux} {t : Target} {k : FrameSlot} {q : Queue}
    (h : QueueMoves s s' t k q) (hs : Balanced s) : Balanced s' := by
  have hentry := Mux.entry_update h.queues h.old h.new h.frames
  have hqueue : ∀ t', t' ≠ t → s'.queues t' = s.queues t' := fun t' ht => by
    rw [h.queues, Function.update_of_ne ht]
  have hself : s'.queues t = q := by rw [h.queues, Function.update_self]
  refine Moves.balanced (i := (t, k)) (e := q.entry k) ⟨hentry, h.frameOk, h.blocks, h.quota,
    h.within, fun t' => ?_, fun t' => ?_, h.filled, h.same, ?_, h.sized⟩ hs
  · by_cases ht : t' = t
    · subst ht
      simpa [countIn, hself, Queue.entry, Mux.entry, Mux.frame] using h.count
    · rw [hqueue t' ht]
      simp [countIn, Ne.symm ht]
  · by_cases ht : t' = t
    · subst ht
      simpa [bytesIn, hself, Queue.entry, Mux.entry, Mux.frame] using h.bytes
    · rw [hqueue t' ht]
      simp [bytesIn, Ne.symm ht]
  · rintro ⟨t', j⟩ hj
    rw [hentry] at hj ⊢
    by_cases hp : (t', j) = (t, k)
    · obtain ⟨rfl, rfl⟩ := Prod.mk.inj hp
      rw [Function.update_self] at hj ⊢
      rw [hself]
      exact h.room hj
    · rw [Function.update_of_ne hp] at hj ⊢
      by_cases ht : t' = t
      · subst ht
        have hne : j ≠ k := fun he => hp (by rw [he])
        have hrest : (s.entry (t', j)).1 = .rest := h.old.stageAt_ne hne
        rw [hrest] at hj
        exact hj.elim
      · rw [hqueue t' ht]
        exact hs.room (t', j) hj

/-- A step that works on a frame without changing whether it is used. -/
theorem Balanced.work {s s' : Mux} {t : Target} {k : FrameSlot} {f : Frame} {h : Holder}
    (hs : Balanced s) (queues : s'.queues = Function.update s.queues t { s.queues t with
      frames := Function.update (s.queues t).frames k f, holder := h })
    (old : (s.holder t).OnlyAt k) (new : h.OnlyAt k) (frameOk : FrameOk t (h.stageAt k) f)
    (blocks : ∀ a, heldIn a (t, k) (h.stageAt k, f) + (free (s'.arenas a).freeBlocks).val =
      heldIn a (t, k) (s.entry (t, k)) + (free (s.arenas a).freeBlocks).val)
    (quota : s'.quota + (s.frame t k).reservation = s.quota + f.reservation)
    (within : s'.quota.Within) (used : f.used = (s.frame t k).used)
    (same : f.used = true → f.totalLen = (s.frame t k).totalLen ∧ f.isLow = (s.frame t k).isLow)
    (room : (h.stageAt k).Admitted → Room (s.queues t) f.priority f.totalLen)
    (sized : f.payloadLen ≤ f.totalLen) : Balanced s' := by
  refine QueueMoves.balanced ⟨queues, old, new, fun j hj => Function.update_of_ne hj _ _, ?_, ?_,
    ?_, within, ?_, ?_, ?_, ?_, ?_, ?_⟩ hs
  all_goals simp only [Queue.entry, Function.update_self]
  · exact frameOk
  · exact blocks
  · exact quota
  · rw [used]
  · cases hu : f.used with
    | false => rw [← used, hu]; simp
    | true => rw [← used, hu, (same hu).1]
  · intro h1 h0
    rw [← used, h1] at h0
    cases h0
  · exact fun hu _ => same hu
  · intro ha
    obtain ⟨hf, hb, hl⟩ := room ha
    exact ⟨hf, hb, hl⟩
  · exact sized

/-! ## The steps of a submission -/

theorem heldIn_empty {a : ArenaIndex} {i : Place} {e : Entry} (h : e.2.blocks = []) :
    heldIn a i e = 0 := by simp [heldIn, held, h]

@[simp] theorem reservation_zeroed : Frame.zeroed.reservation = 0 := rfl

/-- A frame that nobody works on and that is not used is empty. -/
theorem Balanced.zeroed {s : Mux} (hs : Balanced s) {t : Target} {k : FrameSlot}
    (hw : (s.holder t).work = none) (hu : (s.frame t k).used = false) :
    s.frame t k = .zeroed := by
  have hok := hs.frameOk (t, k)
  have hstage : (s.entry (t, k)).1 = .rest := stageAt_none hw k
  rw [hstage] at hok
  exact hok.resolve_right fun h => absurd h.1 (by rw [show (s.entry (t, k)).2 = s.frame t k from rfl, hu]; decide)

theorem Enqueued.balanced {s : Mux} {o : SubmitOptions} {metadata payload : List UInt8}
    {ticket : Ticket} {r : Mux × Option EspErr} (h : Enqueued s o metadata payload ticket r)
    (hs : Balanced s) : Balanced r.1 := by
  cases h with
  | refused e => exact hs
  | failed t k order hfree hunused =>
    have hzero := hs.zeroed (by rw [hfree]; rfl) hunused
    refine hs.congr ?_ (fun _ => rfl) rfl (fun t' => ?_) fun t' => ?_
    · refine Mux.entry_same (t := t) rfl (by rw [hfree]; rfl) (by
        show (s.holder t).work = none
        rw [hfree]; rfl) ?_
      show Function.update (s.queues t).frames k .zeroed = (s.queues t).frames
      rw [← hzero]
      exact Function.update_eq_self k _
    all_goals
      by_cases ht : t' = t
      · subst ht
        simp [Mux.setFrame]
      · simp [Mux.setFrame, ht]
  | prepared t k f timeout order hfree hunused haddr hp hroom =>
    have hold : (s.holder t).work = none := by rw [hfree]; rfl
    have hstage : (Holder.reserving k payload timeout).stageAt k = .reserving := by
      simp [Holder.stageAt, Holder.work]
    have hun : Unreserved f := ⟨hp.quota, hp.discovery, hp.low⟩
    have hzero := hs.zeroed hold hunused
    refine hs.work (t := t) (k := k) (f := f) (h := .reserving k payload timeout) ?_
      (onlyAt_none hold k) (onlyAt_work (h := .reserving k payload timeout) rfl) ?_ (fun a => ?_) ?_ hs.within
      (hp.used.trans hunused.symm) ?_ (fun _ => hroom) hp.sized
    · show Function.update (Function.update s.queues t _) t _ = _
      simp [Mux.setFrame]
    · rw [hstage]
      exact ⟨hp.used, hun, hp.blocks⟩
    · have hempty : (s.entry (t, k)).2.blocks = [] := congrArg Frame.blocks hzero
      rw [heldIn_empty (e := (_, f)) hp.blocks, heldIn_empty hempty]
      rfl
    · rw [hzero, hun.reservation, reservation_zeroed]
      rfl
    · rw [hp.used]
      rintro ⟨⟩

section

variable {s : Mux} {t : Target} {k : FrameSlot} {st : Stage}

/-- The frame that the holder works on. -/
theorem Mux.entry_work (hw : (s.holder t).work = some (k, st)) :
    s.entry (t, k) = (st, s.frame t k) := Prod.ext (stageAt_of_work hw) rfl

theorem Balanced.worked (hs : Balanced s) (hw : (s.holder t).work = some (k, st)) :
    FrameOk t st (s.frame t k) := by
  have hok := hs.frameOk (t, k)
  rwa [Mux.entry_work hw] at hok

theorem Balanced.admitted (hs : Balanced s) (hw : (s.holder t).work = some (k, st))
    (hst : st.Admitted) : Room (s.queues t) (s.frame t k).priority (s.frame t k).totalLen := by
  have hroom := hs.room (t, k)
  rw [Mux.entry_work hw] at hroom
  exact hroom hst

/-- A frame that is not used has nothing to do with the bytes of its queue. -/
theorem not_used_of {f : Frame} {P : Prop} (h : f.used = false) : f.used = true → P := by
  rw [h]
  rintro ⟨⟩

/-- What a reservation adds to the counters. -/
theorem tcpReserve_reserved {q q' : TcpQuota} {f f' : Frame} (ht : t.isTcp = true)
    (hf : Unreserved f) (h : tcpReserve q f f.totalLen = some (q', f')) :
    Reserved t f' ∧ q' = q + f'.reservation ∧ (q.Within → q'.Within) := by
  obtain ⟨rfl, rfl, hframes, hbytes, hdisc, hlow⟩ := tcpReserve_some h
  refine ⟨⟨ht.symm, ?_, ?_⟩, ?_, fun hq => ?_⟩
  · simp [hf.discovery, ht, Frame.isDiscovery]
  · simp [hf.low, ht, Frame.isLow]
  · ext <;> simp [Frame.reservation, hf.discovery, hf.low, Frame.isDiscovery, Frame.isLow]
  · obtain ⟨-, -, h3, h4, h5, h6⟩ := hq
    refine ⟨hframes, hbytes, ?_, ?_, ?_, ?_⟩
    · cases hd : f.isDiscovery with
      | false => exact h3
      | true => exact (hdisc hd).1
    · cases hd : f.isDiscovery with
      | false => simpa using h4
      | true => simpa using (hdisc hd).2
    · cases hl : f.isLow with
      | false => exact h5
      | true => exact (hlow hl).1
    · cases hl : f.isLow with
      | false => simpa using h6
      | true => simpa using (hlow hl).2

/-- What a release takes from the counters, the clamps at zero not being reached. -/
theorem tcpRelease_reserved {q rest : TcpQuota} {f : Frame} (hf : Reserved t f)
    (hq : q = f.reservation + rest) :
    (tcpRelease q f).1 = rest ∧ Unreserved (tcpRelease q f).2 ∧
      (tcpRelease q f).2 = { f with
        tcpQuotaReserved := false
        tcpDiscoveryReservation := false
        tcpLowReservation := false } := by
  subst hq
  obtain ⟨hquota, hdisc, hlow⟩ := hf
  unfold tcpRelease
  cases ht : t.isTcp with
  | false =>
    rw [ht] at hquota hdisc hlow
    rw [Bool.false_and] at hdisc hlow
    have hzero : f.reservation = 0 := Unreserved.reservation ⟨hquota, hdisc, hlow⟩
    rw [hquota, hzero]
    refine ⟨zero_add _, ⟨hquota, hdisc, hlow⟩, ?_⟩
    cases f
    simp_all
  | true =>
    rw [ht] at hquota hdisc hlow
    rw [hquota]
    refine ⟨?_, ⟨rfl, rfl, rfl⟩, rfl⟩
    have hcount : ∀ n, countDown (1 + n) = n := fun n => by simp [countDown]
    have hbytes : ∀ n len, bytesDown (len + n) len = n := fun n len => by simp [bytesDown]
    cases hd : f.tcpDiscoveryReservation <;> cases hl : f.tcpLowReservation <;>
      ext <;> simp [Frame.reservation, hquota, hd, hl, hcount, hbytes]

/-- What an entry holds depends on its frame's blocks, unless they were given back. -/
theorem heldIn_of {a : ArenaIndex} {f g : Frame} {st st' : Stage} (hb : f.blocks = g.blocks)
    (h : st ≠ .unreserving ∧ st ≠ .clearing) (h' : st' ≠ .unreserving ∧ st' ≠ .clearing) :
    heldIn a (t, k) (st, f) = heldIn a (t, k) (st', g) := by
  simp [heldIn, held, hb, h, h']

/-- Blocks move between an entry and the free blocks of its arena. -/
theorem blocks_moved {s' : Mux} {x : Arena} {e : Entry}
    (harenas : s'.arenas = Function.update s.arenas (arenaOf t) x)
    (h : held e + (free x.freeBlocks).val =
      held (s.entry (t, k)) + (free (s.arena t).freeBlocks).val) (a : ArenaIndex) :
    heldIn a (t, k) e + (free (s'.arenas a).freeBlocks).val =
      heldIn a (t, k) (s.entry (t, k)) + (free (s.arenas a).freeBlocks).val := by
  rw [harenas]
  by_cases ha : arenaOf t = a
  · subst ha
    simpa only [heldIn, if_true, Function.update_self, Mux.arena] using h
  · rw [Function.update_of_ne (Ne.symm ha)]
    simp only [heldIn, if_neg ha]

/-- A frame's reservations are part of the counters. -/
theorem Balanced.reservation_le (hs : Balanced s) (t : Target) (k : FrameSlot) :
    ∃ rest, s.quota = (s.frame t k).reservation + rest := by
  obtain ⟨rest, hrest⟩ := total_eq_add (w := reservedBy) (f := s.entry) (t, k)
  exact ⟨rest, hs.quota.trans hrest⟩

theorem TcpQuota.Within.of_add {p rest : TcpQuota} (h : (p + rest).Within) : rest.Within := by
  obtain ⟨h1, h2, h3, h4, h5, h6⟩ := h
  simp only [add_framesUsed, add_bytesUsed, add_discoveryFramesUsed, add_discoveryBytesUsed,
    add_lowFramesUsed, add_lowBytesUsed] at h1 h2 h3 h4 h5 h6
  exact ⟨by omega, by omega, by omega, by omega, by omega, by omega⟩

theorem Balanced.reserve {s' : Mux} {r : Option EspErr} (hs : Balanced s)
    (h : s.reserve t = some (s', r)) : Balanced s' := by
  unfold Mux.reserve at h
  split at h
  · rename_i k payload timeout hh
    have hw : (s.holder t).work = some (k, .reserving) := by rw [hh]; rfl
    have hw' : (Holder.allocating k payload timeout).work = some (k, .allocating) := rfl
    obtain ⟨hu, hun, hb⟩ := hs.worked hw
    have hroom := hs.admitted hw trivial
    split_ifs at h with ht
    · split at h
      · obtain ⟨rfl, -⟩ := Prod.mk.inj (Option.some.inj h)
        refine hs.work (k := k) Mux.work_queues (onlyAt_work hw) (onlyAt_none rfl k) ?_ (fun a => ?_)
          ?_ hs.within hu.symm (not_used_of rfl) ?_ le_rfl
        · rw [stageAt_none rfl]
          exact .inl rfl
        · rw [heldIn_empty rfl, heldIn_empty (e := s.entry (t, k)) hb]
          rfl
        · rw [hun.reservation]
          rfl
        · rw [stageAt_none rfl]
          rintro ⟨⟩
      · rename_i quota f hf
        obtain ⟨rfl, -⟩ := Prod.mk.inj (Option.some.inj h)
        obtain ⟨hres, hquota, hwithin⟩ := tcpReserve_reserved ht hun hf
        obtain ⟨hfeq, -⟩ := tcpReserve_some hf
        refine hs.work (k := k) (f := f) Mux.work_queues (onlyAt_work hw) (onlyAt_work hw') ?_
          (fun a => ?_) ?_ (hwithin hs.within) ?_ ?_ ?_ (by rw [hfeq]; exact hs.sized (t, k))
        · rw [stageAt_of_work hw']
          exact ⟨by rw [hfeq]; exact hu, hres, by rw [hfeq]; exact hb⟩
        · rw [Mux.entry_work hw]
          refine congrArg (· + _) (heldIn_of ?_ (by rw [stageAt_of_work hw']; decide) (by decide))
          rw [hfeq]
        · rw [hun.reservation, add_zero]
          exact hquota
        · rw [hfeq]
        · exact not_used_of (by rw [hfeq]; exact hu)
        · rw [hfeq]
          exact fun _ => hroom
    · obtain ⟨rfl, -⟩ := Prod.mk.inj (Option.some.inj h)
      have ht : t.isTcp = false := by simpa using ht
      refine hs.work (k := k) Mux.holder_queues (onlyAt_work hw) (onlyAt_work hw') ?_ (fun a => ?_)
        rfl hs.within rfl (fun _ => ⟨rfl, rfl⟩) (fun _ => hroom) (hs.sized (t, k))
      · rw [stageAt_of_work hw']
        exact ⟨hu, ⟨by rw [ht, hun.quota], by rw [ht, hun.discovery]; rfl,
          by rw [ht, hun.low]; rfl⟩, hb⟩
      · rw [Mux.entry_work hw]
        exact congrArg (· + _) (heldIn_of rfl (by rw [stageAt_of_work hw']; decide) (by decide))
  · cases h

theorem Balanced.allocate {s' : Mux} (hs : Balanced s) (h : s.allocate t = some s') :
    Balanced s' := by
  unfold Mux.allocate at h
  split at h
  · rename_i k payload timeout hh
    have hw : (s.holder t).work = some (k, .allocating) := by rw [hh]; rfl
    obtain ⟨hu, hres, hb⟩ := hs.worked hw
    have hroom := hs.admitted hw trivial
    have hempty : held (s.entry (t, k)) = 0 := by
      rw [Mux.entry_work hw]
      simp [held, hb]
    split at h
    · rename_i m hm
      obtain rfl := Option.some.inj h
      have hw' : (Holder.refusing k).work = some (k, .refusing) := rfl
      refine hs.work (k := k) (f := s.frame t k) Mux.holder_queues (onlyAt_work hw) (onlyAt_work hw')
        ?_ (blocks_moved rfl ?_) rfl hs.within rfl (fun _ => ⟨rfl, rfl⟩) ?_ (hs.sized (t, k))
      · rw [stageAt_of_work hw']
        exact ⟨hu, hres, hb⟩
      · rw [hempty, allocateBlocks_none hm]
        simp [held, hb]
      · rw [stageAt_of_work hw']
        rintro ⟨⟩
    · rename_i m f hm
      obtain rfl := Option.some.inj h
      have hw' : (Holder.filling k payload timeout).work = some (k, .filling) := rfl
      obtain ⟨blocks, rfl, ha⟩ := allocateBlocks_some hm
      refine hs.work (k := k) Mux.work_queues (onlyAt_work hw) (onlyAt_work hw') ?_
        (blocks_moved rfl ?_) rfl hs.within rfl (not_used_of hu) (fun _ => hroom) (hs.sized (t, k))
      · rw [stageAt_of_work hw']
        exact ⟨hu, ⟨hres.quota, hres.discovery, hres.low⟩, ha.length⟩
      · rw [hempty, stageAt_of_work hw', zero_add, ← ha.add_free]
        simp [held]
  · cases h

/-- The release of a frame's reservations takes exactly them from the counters. -/
theorem Balanced.tcpRelease (hs : Balanced s) (hres : Reserved t (s.frame t k)) :
    (tcpRelease s.quota (s.frame t k)).1 + (s.frame t k).reservation = s.quota ∧
      (tcpRelease s.quota (s.frame t k)).1.Within := by
  obtain ⟨rest, hrest⟩ := hs.reservation_le t k
  obtain ⟨hq, -⟩ := tcpRelease_reserved hres hrest
  rw [hq]
  exact ⟨by rw [hrest, add_comm], (hrest ▸ hs.within).of_add⟩

theorem Balanced.refuse {s' : Mux} {r : EspErr} (hs : Balanced s)
    (h : s.refuse t = some (s', r)) : Balanced s' := by
  unfold Mux.refuse at h
  split at h
  · rename_i k hh
    have hw : (s.holder t).work = some (k, .refusing) := by rw [hh]; rfl
    obtain ⟨hu, hres, hb⟩ := hs.worked hw
    obtain ⟨hquota, hwithin⟩ := hs.tcpRelease hres
    obtain ⟨rfl, -⟩ := Prod.mk.inj (Option.some.inj h)
    refine hs.work (k := k) Mux.work_queues (onlyAt_work hw) (onlyAt_none rfl k) ?_ (fun a => ?_)
      ?_ hwithin hu.symm (not_used_of rfl) ?_ le_rfl
    · rw [stageAt_none rfl]
      exact .inl rfl
    · rw [heldIn_empty rfl, heldIn_empty (e := s.entry (t, k)) hb]
      rfl
    · rw [reservation_zeroed, add_zero]
      exact hquota
    · rw [stageAt_none rfl]
      rintro ⟨⟩
  · cases h

theorem Balanced.fill {s' : Mux} (hs : Balanced s) (h : s.fill t = some s') : Balanced s' := by
  unfold Mux.fill at h
  split at h
  · rename_i k payload timeout hh
    have hw : (s.holder t).work = some (k, .filling) := by rw [hh]; rfl
    obtain ⟨hu, hsup⟩ := hs.worked hw
    have hroom := hs.admitted hw trivial
    obtain rfl := Option.some.inj h
    refine QueueMoves.balanced (s := s) (t := t) (k := k) ⟨rfl, onlyAt_work hw, onlyAt_none rfl k,
      fun j hj => Function.update_of_ne hj _ _, ?_, blocks_moved rfl ?_, ?_, hs.within, ?_, ?_,
      ?_, ?_, ?_, ?_⟩ hs
    all_goals simp only [Queue.entry, Function.update_self]
    · rw [stageAt_none rfl]
      exact .inr ⟨rfl, ⟨hsup.reserved.quota, hsup.reserved.discovery, hsup.reserved.low⟩,
        hsup.blocks⟩
    · rw [Mux.entry_work hw, stageAt_none rfl]
      simp [held, Mux.arena]
    · rfl
    · rw [hu]
      rfl
    · rw [hu]
      simp
    · exact fun _ _ => hroom
    · exact fun _ => not_used_of hu
    · rw [stageAt_none rfl]
      rintro ⟨⟩
    · exact hs.sized (t, k)
  · cases h

/-! ## The steps of a release -/

/-- What an entry holds is not free, and holds no block twice. -/
theorem Balanced.held_nodup (hs : Balanced s) (t : Target) (k : FrameSlot) :
    (held (s.entry (t, k)) + (free (s.arena t).freeBlocks).val).Nodup := by
  obtain ⟨rest, hrest⟩ := total_eq_add (w := heldIn (arenaOf t)) (f := s.entry) (t, k)
  have hall := hs.blocks (arenaOf t)
  rw [hrest, show heldIn (arenaOf t) (t, k) (s.entry (t, k)) = held (s.entry (t, k)) from
    if_pos rfl] at hall
  refine Multiset.nodup_of_le ?_ (hall ▸ Finset.univ.nodup)
  rw [add_right_comm]
  exact Multiset.le_add_right _ _

/-- A frame that the worker may have changed begins to leave its queue, or stays. -/
theorem Balanced.changed {s' : Mux} {f : Frame} {h : Holder} (hs : Balanced s)
    (hw : (s.holder t).work = none) (hu : (s.frame t k).used = true)
    (hqueues : s'.queues = Function.update s.queues t { s.queues t with
      frames := Function.update (s.queues t).frames k f, holder := h })
    (harenas : s'.arenas = s.arenas) (hquota : s'.quota = s.quota)
    (hh : h.work = none ∨ h.work = some (k, .releasing))
    (hf : f.used = true ∧ f.blocks = (s.frame t k).blocks ∧
      f.reservation = (s.frame t k).reservation ∧ f.totalLen = (s.frame t k).totalLen ∧
      f.isLow = (s.frame t k).isLow ∧ (Supplied t (s.frame t k) → Supplied t f))
    (hpayload : f.payloadLen = (s.frame t k).payloadLen) : Balanced s' := by
  obtain ⟨hused, hblocks, hreservation, hlen, hlow, hsupplied⟩ := hf
  have hok := hs.frameOk (t, k)
  have hentry : s.entry (t, k) = (.rest, s.frame t k) := Prod.ext (stageAt_none hw k) rfl
  rw [hentry] at hok
  have hsup : Supplied t (s.frame t k) := (hok.resolve_left fun hz => by
    rw [show (s.frame t k).used = false from congrArg Frame.used hz] at hu
    cases hu).2
  have hstage : h.stageAt k = .rest ∨ h.stageAt k = .releasing :=
    hh.imp (fun hn => stageAt_none hn k) stageAt_of_work
  refine hs.work (k := k) (f := f) hqueues (onlyAt_none hw k)
    (hh.elim (fun hn => onlyAt_none hn k) onlyAt_work) ?_ (fun a => ?_) ?_ ?_
    (hused.trans hu.symm) (fun _ => ⟨hlen, hlow⟩) ?_ (by rw [hpayload, hlen]; exact hs.sized (t, k))
  · rcases hstage with he | he <;> rw [he]
    · exact .inr ⟨hused, hsupplied hsup⟩
    · exact ⟨hused, hsupplied hsup⟩
  · rw [harenas, hentry]
    refine congrArg (· + _) (heldIn_of hblocks ?_ (by decide))
    rcases hstage with he | he <;> rw [he] <;> decide
  · rw [hquota, hreservation]
  · rw [hquota]
    exact hs.within
  · rcases hstage with he | he <;> rw [he] <;> rintro ⟨⟩

theorem Balanced.release {s' : Mux} (hs : Balanced s) (h : s.release t = some s') :
    Balanced s' := by
  unfold Mux.release at h
  split at h
  · rename_i k next hh
    have hw : (s.holder t).work = some (k, .releasing) := by rw [hh]; rfl
    have hw' : (Holder.unreserving k next).work = some (k, .unreserving) := rfl
    obtain ⟨hu, hsup⟩ := hs.worked hw
    have hheld : held (s.entry (t, k)) = (s.frame t k).blocks := by
      rw [Mux.entry_work hw]
      rfl
    have hnodup := hs.held_nodup t k
    rw [hheld] at hnodup
    obtain rfl := Option.some.inj h
    refine hs.work (k := k) (f := s.frame t k) Mux.holder_queues (onlyAt_work hw) (onlyAt_work hw')
      ?_ (blocks_moved rfl ?_) rfl hs.within rfl (fun _ => ⟨rfl, rfl⟩) ?_ (hs.sized (t, k))
    · rw [stageAt_of_work hw']
      exact ⟨hu, hsup⟩
    · rw [hheld, stageAt_of_work hw', release_add_free hnodup]
      exact zero_add _
    · rw [stageAt_of_work hw']
      rintro ⟨⟩
  · cases h

theorem Balanced.unreserve {s' : Mux} (hs : Balanced s) (h : s.unreserve t = some s') :
    Balanced s' := by
  unfold Mux.unreserve at h
  split at h
  · rename_i k next hh
    have hw : (s.holder t).work = some (k, .unreserving) := by rw [hh]; rfl
    have hw' : (Holder.clearing k next).work = some (k, .clearing) := rfl
    obtain ⟨hu, hsup⟩ := hs.worked hw
    obtain ⟨hquota, hwithin⟩ := hs.tcpRelease hsup.reserved
    obtain ⟨rest, hrest⟩ := hs.reservation_le t k
    obtain ⟨-, hun, hf⟩ := tcpRelease_reserved hsup.reserved hrest
    obtain rfl := Option.some.inj h
    refine hs.work (k := k) Mux.work_queues (onlyAt_work hw) (onlyAt_work hw') ?_ (fun a => ?_)
      ?_ hwithin ?_ (fun _ => ?_) ?_ (by rw [hf]; exact hs.sized (t, k))
    · rw [stageAt_of_work hw']
      exact ⟨by rw [hf]; exact hu, hun⟩
    · rw [Mux.entry_work hw, stageAt_of_work hw']
      simp [heldIn, held]
      rfl
    · rw [hun.reservation, add_zero]
      exact hquota
    · rw [hf]
    · rw [hf]
      exact ⟨rfl, rfl⟩
    · rw [stageAt_of_work hw']
      rintro ⟨⟩
  · cases h

/-- The counters of a queue go down by exactly what the frame counted for. -/
structure CountedDown (q : Queue) (f : Frame) (framesUsed bytesUsed : ℕ) : Prop where
  frames : framesUsed + 1 = q.framesUsed
  bytes : bytesUsed + f.totalLen = q.bytesUsed

/-- No counter stops at zero or wraps round when a frame leaves its queue. -/
theorem Balanced.countedDown (hs : Balanced s) (hu : (s.frame t k).used = true) :
    CountedDown (s.queues t) (s.frame t k) (countDown (s.queues t).framesUsed)
        (bytesDown (s.queues t).bytesUsed (s.frame t k).totalLen) ∧
      CountedDown (s.queues t) (s.frame t k) (Mux.byteDown (s.queues t).framesUsed)
        (Mux.sizeDown (s.queues t).bytesUsed (s.frame t k).totalLen) := by
  have hcount := (le_total (w := countIn t) (f := s.entry) (t, k)).trans_eq (hs.count t).symm
  have hbytes := (le_total (w := bytesIn t) (f := s.entry) (t, k)).trans_eq (hs.bytes t).symm
  obtain ⟨hn, hb, -, -⟩ := hs.queueWithin t
  have hu' : (s.entry (t, k)).2.used = true := hu
  simp only [countIn, bytesIn, if_true, hu', Bool.toNat_true, one_mul] at hcount hbytes
  have hbytes : (s.frame t k).totalLen ≤ (s.queues t).bytesUsed := hbytes
  simp only [queueFrames, queueBytes] at hn hb
  constructor <;> constructor
  · unfold countDown
    split_ifs <;> omega
  · unfold bytesDown
    split_ifs
    omega
  · unfold Mux.byteDown
    omega
  · unfold Mux.sizeDown
    omega

theorem Balanced.cleared {s' : Mux} {framesUsed bytesUsed : ℕ} {h : Holder} (hs : Balanced s)
    (hw : (s.holder t).work = some (k, .clearing)) (hn : h.work = none)
    (hc : CountedDown (s.queues t) (s.frame t k) framesUsed bytesUsed)
    (hqueues : s'.queues = Function.update s.queues t {
      bytesUsed := bytesUsed
      framesUsed := framesUsed
      frames := Function.update (s.queues t).frames k .zeroed
      holder := h })
    (harenas : s'.arenas = s.arenas) (hquota : s'.quota = s.quota) : Balanced s' := by
  obtain ⟨hu, hun⟩ := hs.worked hw
  refine QueueMoves.balanced (s := s) (t := t) (k := k) ⟨hqueues, onlyAt_work hw, onlyAt_none hn k,
    fun j hj => Function.update_of_ne hj _ _, ?_, fun a => ?_, ?_, hquota ▸ hs.within, ?_, ?_, ?_,
    ?_, ?_, ?_⟩ hs
  all_goals simp only [Queue.entry, Function.update_self, stageAt_none hn]
  · exact .inl rfl
  · rw [harenas, heldIn_empty rfl, Mux.entry_work hw]
    simp [heldIn, held]
  · rw [hquota, hun.reservation]
    rfl
  · rw [hu, Bool.toNat_true, hc.frames]
    rfl
  · rw [hu, Bool.toNat_true, one_mul, hc.bytes]
    exact (Nat.zero_mul _).symm ▸ rfl
  · exact not_used_of rfl
  · exact not_used_of rfl
  · rintro ⟨⟩
  · exact le_rfl

theorem Balanced.clear {s' : Mux} (hs : Balanced s) (h : s.clear t = some s') : Balanced s' := by
  unfold Mux.clear at h
  split at h
  · rename_i k next hh
    have hw : (s.holder t).work = some (k, .clearing) := by rw [hh]; rfl
    obtain ⟨hu, -⟩ := hs.worked hw
    obtain ⟨hworker, hcancel⟩ := hs.countedDown hu
    dsimp only at h
    split at h
    · obtain rfl := Option.some.inj h
      exact hs.cleared hw rfl hworker rfl rfl rfl
    · obtain rfl := Option.some.inj h
      exact hs.cleared hw rfl hcancel rfl rfl rfl
  · cases h

/-! ## Cancellation -/

/-- Who works on no frame may change places. -/
theorem Balanced.setHolder {h : Holder} (hs : Balanced s) (hw : (s.holder t).work = none)
    (hh : h.work = none) : Balanced (s.setHolder t h) := by
  refine hs.congr (Mux.entry_same Mux.setHolder_queues hw hh rfl) (fun _ => rfl) rfl
    (fun t' => ?_) fun t' => ?_
  all_goals
    rw [Mux.setHolder_queues]
    by_cases ht : t' = t
    · subst ht
      rw [Function.update_self]
    · rw [Function.update_of_ne ht]

theorem Balanced.cancel {s' : Mux} {which : Cancel} (hs : Balanced s)
    (h : s.cancel t which = some s') : Balanced s' := by
  unfold Mux.cancel at h
  split_ifs at h with hfree
  obtain rfl := Option.some.inj h
  exact hs.setHolder (by rw [hfree]; rfl) rfl

theorem Balanced.scan {s' : Mux} (hs : Balanced s) (h : s.scan t = some s') : Balanced s' := by
  unfold Mux.scan at h
  split at h
  · rename_i i which hh
    have hw : (s.holder t).work = none := by rw [hh]; rfl
    dsimp only at h
    split_ifs at h with hi hfor
    · simp only [Bool.and_eq_true] at hfor
      obtain rfl := Option.some.inj h
      exact hs.changed hw hfor.1.1 Mux.holder_queues rfl rfl (.inr rfl)
        ⟨hfor.1.1, rfl, rfl, rfl, rfl, id⟩ rfl
    · obtain rfl := Option.some.inj h
      exact hs.setHolder hw rfl
    · obtain rfl := Option.some.inj h
      exact hs.setHolder hw rfl
  · cases h

/-! ## All steps -/

theorem Balanced.sameQueues {s' : Mux} (hs : Balanced s) (h : SameQueues s s') : Balanced s' := by
  refine hs.congr ?_ (fun a => by rw [h.arenas]) h.quota (fun t => by rw [h.queues]) fun t => by
    rw [h.queues]
  funext i
  simp only [Mux.entry, h.queues]

theorem Balanced.visited {s' : Mux} (hs : Balanced s) (h : Mux.Visited s t s') : Balanced s' := by
  cases h with
  | aside h => exact hs.sameQueues h
  | frame k f h hfree hused hp hnext hqueues harenas hquota =>
    refine hs.changed (by rw [hfree]; rfl) hused hqueues harenas hquota ?_
      ⟨hp.used.trans hused, hp.blocks, ?_, hp.totalLen, hp.isLow, fun hsup => ?_⟩ hp.payloadLen
    · rcases hnext with rfl | ⟨next, rfl⟩
      · exact .inl rfl
      · exact .inr rfl
    · simp only [Frame.reservation, hp.quota, hp.discovery, hp.low, hp.totalLen]
    · obtain ⟨⟨hq, hd, hl⟩, hb⟩ := hsup
      exact ⟨⟨hp.quota.trans hq, by rw [hp.discovery, hp.isDiscovery, hd],
        by rw [hp.low, hp.isLow, hl]⟩, by rw [hp.blocks, hp.payloadLen, hb]⟩

theorem Balanced.next {s' : Mux} {l : Step} {r : Reply} (hs : Balanced s)
    (h : s.next l = some (s', r)) : Balanced s' := by
  cases l with
  | enqueue o metadata payload ticket look =>
    have he := s.enqueue_enqueued o metadata payload ticket look
    rw [Option.some.inj h] at he
    exact he.balanced hs
  | reserve t => exact hs.reserve h
  | allocate t =>
    obtain ⟨u, hu, he⟩ := Option.map_eq_some_iff.mp h
    obtain ⟨rfl, -⟩ := Prod.mk.inj he
    exact hs.allocate hu
  | refuse t =>
    obtain ⟨u, hu, he⟩ := Option.map_eq_some_iff.mp h
    obtain ⟨rfl, -⟩ := Prod.mk.inj he
    exact hs.refuse hu
  | fill t =>
    obtain ⟨u, hu, he⟩ := Option.map_eq_some_iff.mp h
    obtain ⟨rfl, -⟩ := Prod.mk.inj he
    exact hs.fill hu
  | release t =>
    obtain ⟨u, hu, he⟩ := Option.map_eq_some_iff.mp h
    obtain ⟨rfl, -⟩ := Prod.mk.inj he
    exact hs.release hu
  | unreserve t =>
    obtain ⟨u, hu, he⟩ := Option.map_eq_some_iff.mp h
    obtain ⟨rfl, -⟩ := Prod.mk.inj he
    exact hs.unreserve hu
  | clear t =>
    obtain ⟨u, hu, he⟩ := Option.map_eq_some_iff.mp h
    obtain ⟨rfl, -⟩ := Prod.mk.inj he
    exact hs.clear hu
  | cancel t which =>
    obtain ⟨u, hu, he⟩ := Option.map_eq_some_iff.mp h
    obtain ⟨rfl, -⟩ := Prod.mk.inj he
    exact hs.cancel hu
  | scan t =>
    obtain ⟨u, hu, he⟩ := Option.map_eq_some_iff.mp h
    obtain ⟨rfl, -⟩ := Prod.mk.inj he
    exact hs.scan hu
  | submitSpecial o metadata payload isLarge ticket look mutexTaken malloc =>
    have ha := s.submitSpecial_aside o metadata payload isLarge ticket look mutexTaken malloc
    rw [Option.some.inj h] at ha
    exact hs.sameQueues ha.queues
  | publishObservers metadata payload looks malloc =>
    have ha := s.publishObservers_aside metadata payload looks malloc
    rw [Option.some.inj h] at ha
    exact hs.sameQueues ha.queues
  | cancelSpecial which =>
    obtain ⟨rfl, -⟩ := Prod.mk.inj (Option.some.inj h)
    exact hs.sameQueues (s.cancelSpecial_aside which).queues
  | processTarget t look =>
    obtain ⟨u, hu, he⟩ := Option.map_eq_some_iff.mp h
    obtain ⟨rfl, -⟩ := Prod.mk.inj he
    exact hs.visited (Mux.processTarget_visited hu).2.2
  | afterwards t =>
    obtain ⟨u, hu, he⟩ := Option.map_eq_some_iff.mp h
    obtain ⟨rfl, -⟩ := Prod.mk.inj he
    unfold Mux.afterwards at hu
    split at hu
    · obtain rfl := Option.some.inj hu
      exact hs.sameQueues ⟨rfl, rfl, rfl⟩
    · obtain rfl := Option.some.inj hu
      exact hs.sameQueues ⟨rfl, rfl, rfl⟩
    · cases hu
  | closeLink t =>
    obtain ⟨u, hu, he⟩ := Option.map_eq_some_iff.mp h
    obtain ⟨rfl, -⟩ := Prod.mk.inj he
    unfold Mux.closeLink at hu
    split at hu
    · obtain rfl := Option.some.inj hu
      exact hs.sameQueues ⟨rfl, rfl, rfl⟩
    · cases hu
  | complete i =>
    obtain ⟨u, hu, he⟩ := Option.map_eq_some_iff.mp h
    obtain ⟨rfl, -⟩ := Prod.mk.inj he
    unfold Mux.runDue at hu
    split_ifs at hu
    obtain rfl := Option.some.inj hu
    exact hs.sameQueues ⟨rfl, rfl, rfl⟩
  | link change =>
    obtain ⟨rfl, -⟩ := Prod.mk.inj (Option.some.inj h)
    exact hs.sameQueues ⟨rfl, rfl, rfl⟩

/-- Empty queues are balanced. -/
theorem balanced_init (registry : Registry) : Balanced { registry := registry } := by
  have hentry : ∀ i : Place, ({ registry := registry } : Mux).entry i = (.rest, {}) := fun _ => rfl
  constructor
  · intro i
    rw [hentry]
    exact .inl rfl
  · intro a
    rw [total_zero fun i => by rw [hentry]; exact heldIn_empty rfl, zero_add,
      show ({ registry := registry } : Mux).arenas a = {} from rfl, free_allOnes]
  · rw [total_zero fun i => by rw [hentry]; rfl]
    rfl
  · intro t
    rw [total_zero fun i => by rw [hentry]; simp [countIn]]
  · intro t
    rw [total_zero fun i => by rw [hentry]; simp [bytesIn]]
  · constructor <;> exact Nat.zero_le _
  · intro t
    refine ⟨Nat.zero_le _, Nat.zero_le _, ?_, ?_⟩
    · rw [total_zero fun i => by rw [hentry]; simp [lowCountIn]]
      exact Nat.zero_le _
    · rw [total_zero fun i => by rw [hentry]; simp [lowBytesIn]]
      exact Nat.zero_le _
  · intro i hi
    rw [hentry] at hi
    cases hi
  · exact fun i => le_rfl

theorem balanced_of_reaches {h : List (Step × Reply)} (hr : Reaches mux h s) : Balanced s := by
  refine hr.stateInvariant (I := Balanced) ?_ ?_
  · rintro s ⟨registry, rfl⟩
    exact balanced_init registry
  · rintro s ⟨l, r⟩ s' hs ⟨-, hnext⟩
    exact hs.next hnext

end

end EspVision.MuxTx
