import EspVision.MuxAccounting
import EspVision.MuxMoves

/-!
# What the frames of the queues hold

The payload of an accepted frame lies in the blocks of the frame until the frame begins to leave its
queue: no other frame has these blocks, and only an accepted submission writes to its own.
-/
namespace EspVision.MuxTx

open EvTransport EvMux EvSession Host TransitionSystem BlockArena Ledger

/-! ## Steps that leave accepted frames alone -/

/-- The frame is in its queue: it was accepted, and its release has not begun. -/
def Live (e : Entry) : Prop := e.1 = .rest ∧ e.2.used = true

/-- What the holder will leave to the worker. -/
def Continue.aftermath : Continue → List Aftermath
  | .worker after => after
  | .cancel _ _ => []

def Holder.aftermath : Holder → List Aftermath
  | .releasing _ next | .unreserving _ next | .clearing _ next => next.aftermath
  | _ => []

/-- The worker holds the queue while it releases a frame. -/
def Holder.isWorker : Holder → Bool
  | .releasing _ (.worker _) | .unreserving _ (.worker _) | .clearing _ (.worker _) => true
  | _ => false

/-- What the worker still has to do for the target. -/
def Mux.pendingOf (s : Mux) (t : Target) : List Aftermath := (s.holder t).aftermath ++ s.after t

/-- The worker has nothing left to do from an earlier visit when it begins to release a frame. -/
def Orderly (s : Mux) : Prop := ∀ t, (s.holder t).isWorker = true → s.after t = []

/-- Nothing changes outside the frames and holders of the queues, the bit maps and the counters. -/
structure SameRest (s s' : Mux) : Prop where
  memory : ∀ a, (s'.arenas a).memory = (s.arenas a).memory
  pool : s'.pool = s.pool
  registry : s'.registry = s.registry
  wire : s'.wire = s.wire
  segments : s'.segments = s.segments
  accepted : s'.accepted = s.accepted
  left : s'.left = s.left
  due : s'.due = s.due
  completed : s'.completed = s.completed

/-- The frame and the payload that the holder is about to accept. -/
def Holder.submits : Holder → Option (FrameSlot × List UInt8)
  | .reserving k payload _ | .allocating k payload _ | .filling k payload _ => some (k, payload)
  | _ => none

/-- A frame that was prepared for the payload and is not accepted yet. -/
structure Offered (t : Target) (f : Frame) (payload : List UInt8) : Prop where
  target : targetIndex f.link = some t
  carries : Carries f payload
  txOffset : f.txOffset = 0

/-- Reservations do not concern what the frame carries, and neither do blocks. -/
theorem Offered.reserved {t : Target} {f : Frame} {payload : List UInt8} (h : Offered t f payload)
    (quota discovery low : Bool) : Offered t { f with
      tcpQuotaReserved := quota
      tcpDiscoveryReservation := discovery
      tcpLowReservation := low } payload :=
  ⟨h.target, ⟨h.carries.payloadLen, h.carries.totalLen, h.carries.header, h.carries.summed,
    h.carries.started, h.carries.within, h.carries.short⟩, h.txOffset⟩

theorem Offered.withBlocks {t : Target} {f : Frame} {payload : List UInt8} (h : Offered t f payload)
    (blocks : List (Fin blockCount)) : Offered t { f with blocks := blocks } payload :=
  ⟨h.target, ⟨h.carries.payloadLen, h.carries.totalLen, h.carries.header, h.carries.summed,
    h.carries.started, h.carries.within, h.carries.short⟩, h.txOffset⟩

/-- Every frame that is about to be accepted carries the payload that its submitter gave. -/
def Offers (s : Mux) : Prop :=
  ∀ t k payload, (s.holder t).submits = some (k, payload) → Offered t (s.frame t k) payload

/-- Nothing happens to accepted frames, or to what they leave behind. -/
structure Quiet (s s' : Mux) : Prop where
  entries : ∀ i, s'.entry i = s.entry i ∨ ¬ Live (s.entry i) ∧ ¬ Live (s'.entry i)
  pending : ∀ t, s'.pendingOf t = s.pendingOf t
  orderly : Orderly s'
  offers : Offers s → Offers s'
  rest : SameRest s s'

section

variable {s s' : Mux} {t : Target} {k : FrameSlot}

theorem SameRest.refl (s : Mux) : SameRest s s := ⟨fun _ => rfl, rfl, rfl, rfl, rfl, rfl, rfl, rfl, rfl⟩

theorem Quiet.refl (hs : Orderly s) : Quiet s s :=
  ⟨fun _ => .inl rfl, fun _ => rfl, hs, id, .refl s⟩

theorem not_live_of_stage {e : Entry} (h : e.1 ≠ .rest) : ¬ Live e := fun hl => h hl.1

theorem not_live_of_unused {e : Entry} (h : e.2.used = false) : ¬ Live e := fun hl => by
  rw [hl.2] at h
  cases h

/-- Setting a bit map leaves the memories. -/
theorem setArena_memory (s : Mux) (t : Target) (m : BitVec blockCount) (a : ArenaIndex) :
    ((s.setArena t { s.arena t with freeBlocks := m }).arenas a).memory = (s.arenas a).memory := by
  unfold Mux.setArena
  dsimp only
  by_cases ha : a = arenaOf t
  · subst ha
    rw [Function.update_self]
    rfl
  · rw [Function.update_of_ne ha]

theorem work_of_submits {h : Holder} {payload : List UInt8} (hs : h.submits = some (k, payload)) :
    ∃ st, h.work = some (k, st) := by
  cases h <;> cases hs
  · exact ⟨.reserving, rfl⟩
  · exact ⟨.allocating, rfl⟩
  · exact ⟨.filling, rfl⟩

/-- One frame is worked on that is not in its queue. -/
structure Works (s s' : Mux) (t : Target) (k : FrameSlot) (q : Queue) : Prop where
  queues : s'.queues = Function.update s.queues t q
  old : (s.holder t).OnlyAt k
  new : q.holder.OnlyAt k
  frames : ∀ j, j ≠ k → q.frames j = s.frame t j
  dead : ¬ Live (s.entry (t, k))
  dead' : ¬ Live (q.entry k)
  after : q.holder.aftermath ++ s'.after t = s.pendingOf t
  others : ∀ t', t' ≠ t → s'.after t' = s.after t'
  worker : q.holder.isWorker = true → s'.after t = []
  offers : Offers s → ∀ j payload, q.holder.submits = some (j, payload) →
    Offered t (q.frames j) payload

theorem Works.quiet {q : Queue} (h : Works s s' t k q) (hs : Orderly s) (hr : SameRest s s') :
    Quiet s s' := by
  have hself : s'.queues t = q := by rw [h.queues, Function.update_self]
  have hother : ∀ t', t' ≠ t → s'.queues t' = s.queues t' := fun t' ht => by
    rw [h.queues, Function.update_of_ne ht]
  refine ⟨fun i => ?_, fun t' => ?_, fun t' ht' => ?_, fun ho t' j payload hj => ?_, hr⟩
  · rw [Mux.entry_update h.queues h.old h.new h.frames]
    by_cases hi : i = (t, k)
    · subst hi
      rw [Function.update_self]
      exact .inr ⟨h.dead, h.dead'⟩
    · rw [Function.update_of_ne hi]
      exact .inl rfl
  · by_cases ht : t' = t
    · subst ht
      rw [Mux.pendingOf, Mux.holder, hself, h.after]
    · rw [Mux.pendingOf, Mux.pendingOf, Mux.holder, Mux.holder, hother t' ht, h.others t' ht]
  · by_cases ht : t' = t
    · subst ht
      rw [Mux.holder, hself] at ht'
      exact h.worker ht'
    · rw [Mux.holder, hother t' ht] at ht'
      rw [h.others t' ht]
      exact hs t' ht'
  · by_cases ht : t' = t
    · subst ht
      rw [Mux.holder, hself] at hj
      rw [Mux.frame, hself]
      exact h.offers ho j payload hj
    · rw [Mux.holder, hother t' ht] at hj
      rw [Mux.frame, hother t' ht]
      exact ho t' j payload hj

/-- A frame that is not in its queue goes on to another stage, or is cleared. -/
theorem quiet_work {f : Frame} {h : Holder} (hs : Orderly s) (hold : (s.holder t).OnlyAt k)
    (hdead : ¬ Live (s.entry (t, k))) (hqueues : s'.queues = Function.update s.queues t
      { s.queues t with frames := Function.update (s.queues t).frames k f, holder := h })
    (hafter : s'.after = s.after)
    (hnew : (∃ st, h.work = some (k, st) ∧ st ≠ .rest) ∨ h.work = none ∧ f.used = false)
    (haftermath : h.aftermath = (s.holder t).aftermath)
    (hworker : h.isWorker = (s.holder t).isWorker)
    (hoffers : Offers s → ∀ payload, h.submits = some (k, payload) → Offered t f payload)
    (hr : SameRest s s') : Quiet s s' := by
  refine Works.quiet (q := { s.queues t with
    frames := Function.update (s.queues t).frames k f, holder := h }) ⟨hqueues, hold, ?_,
      fun j hj => Function.update_of_ne hj _ _, hdead, ?_, ?_, fun _ _ => by rw [hafter],
      fun hw => ?_, fun ho j payload hj => ?_⟩ hs hr
  · rcases hnew with ⟨st, hw, -⟩ | ⟨hw, -⟩
    · exact onlyAt_work hw
    · exact onlyAt_none hw k
  · rcases hnew with ⟨st, hw, hst⟩ | ⟨-, hu⟩
    · refine not_live_of_stage ?_
      rw [Queue.entry, stageAt_of_work hw]
      exact hst
    · refine not_live_of_unused ?_
      simpa [Queue.entry] using hu
  · rw [hafter]
    exact congrArg (· ++ s.after t) haftermath
  · rw [hafter]
    exact hs t (hworker ▸ hw)
  · obtain ⟨st, hw⟩ := work_of_submits hj
    obtain rfl : j = k := by
      rcases hnew with ⟨st', hw', -⟩ | ⟨hw', -⟩
      · exact (Prod.mk.inj (Option.some.inj (hw.symm.trans hw'))).1
      · rw [hw] at hw'
        cases hw'
    show Offered t (Function.update (s.queues t).frames j f j) payload
    rw [Function.update_self]
    exact hoffers ho payload hj

theorem not_live_of_work {st : Stage} (hw : (s.holder t).work = some (k, st)) (hst : st ≠ .rest) :
    ¬ Live (s.entry (t, k)) := not_live_of_stage (by rw [Mux.entry_work hw]; exact hst)

theorem Enqueued.quiet {o : SubmitOptions} {metadata payload : List UInt8} {ticket : Ticket}
    {r : Mux × Option EspErr} (h : Enqueued s o metadata payload ticket r) (hs : Orderly s) :
    Quiet s r.1 := by
  cases h with
  | refused e => exact .refl hs
  | failed t k order hfree hu =>
    refine quiet_work (k := k) (f := .zeroed) (h := .free) hs (by rw [hfree]; exact onlyAt_none rfl k)
      (not_live_of_unused hu) ?_ rfl (.inr ⟨rfl, rfl⟩)
      (by rw [hfree]) (by rw [hfree]) (fun _ _ h => by cases h) ⟨fun _ => rfl, rfl, rfl, rfl, rfl, rfl, rfl, rfl, rfl⟩
    rw [← hfree]
    rfl
  | prepared t k f timeout order hfree hu haddressed hp hroom =>
    refine quiet_work (k := k) hs (by rw [hfree]; exact onlyAt_none rfl k) (not_live_of_unused hu)
      Mux.work_queues rfl (.inl ⟨.reserving, rfl, by decide⟩)
      (by rw [hfree]; rfl) (by rw [hfree]; rfl) (fun _ p hp' => ?_)
      ⟨fun _ => rfl, rfl, rfl, rfl, rfl, rfl, rfl, rfl, rfl⟩
    cases hp'
    exact ⟨hp.link ▸ haddressed.target, hp.carries (haddressed.short.trans (by decide)), hp.txOffset⟩

theorem reserve_quiet {r : Option EspErr} (hs : Orderly s) (h : s.reserve t = some (s', r)) :
    Quiet s s' := by
  unfold Mux.reserve at h
  split at h
  · rename_i k payload timeout hh
    have hw : (s.holder t).work = some (k, .reserving) := by rw [hh]; rfl
    have hd := not_live_of_work hw (by decide)
    have ha : (s.holder t).aftermath = [] := by rw [hh]; rfl
    have hi : (s.holder t).isWorker = false := by rw [hh]; rfl
    have hsubmits : Offers s → ∀ p, (Holder.allocating k payload timeout).submits = some (k, p) →
        Offered t (s.frame t k) p := fun ho p hp => ho t k p (by rw [hh]; exact hp)
    split_ifs at h
    · split at h
      · obtain ⟨rfl, -⟩ := Prod.mk.inj (Option.some.inj h)
        exact quiet_work hs (onlyAt_work hw) hd Mux.work_queues rfl (.inr ⟨rfl, rfl⟩) ha.symm hi.symm
          (fun _ _ h => by cases h) ⟨fun _ => rfl, rfl, rfl, rfl, rfl, rfl, rfl, rfl, rfl⟩
      · rename_i quota f hf
        obtain ⟨rfl, -⟩ := tcpReserve_some hf
        obtain ⟨rfl, -⟩ := Prod.mk.inj (Option.some.inj h)
        exact quiet_work hs (onlyAt_work hw) hd Mux.work_queues rfl
          (.inl ⟨.allocating, rfl, by decide⟩) ha.symm hi.symm
          (fun ho p hp => (hsubmits ho p hp).reserved _ _ _) ⟨fun _ => rfl, rfl, rfl, rfl, rfl, rfl, rfl, rfl, rfl⟩
    · obtain ⟨rfl, -⟩ := Prod.mk.inj (Option.some.inj h)
      exact quiet_work hs (onlyAt_work hw) hd Mux.holder_queues rfl
        (.inl ⟨.allocating, rfl, by decide⟩) ha.symm hi.symm hsubmits ⟨fun _ => rfl, rfl, rfl, rfl, rfl, rfl, rfl, rfl, rfl⟩
  · cases h

theorem allocate_quiet (hs : Orderly s) (h : s.allocate t = some s') : Quiet s s' := by
  unfold Mux.allocate at h
  split at h
  · rename_i k payload timeout hh
    have hw : (s.holder t).work = some (k, .allocating) := by rw [hh]; rfl
    have hd := not_live_of_work hw (by decide)
    have ha : (s.holder t).aftermath = [] := by rw [hh]; rfl
    have hi : (s.holder t).isWorker = false := by rw [hh]; rfl
    split at h
    · obtain rfl := Option.some.inj h
      exact quiet_work hs (onlyAt_work hw) hd Mux.holder_queues rfl
        (.inl ⟨.refusing, rfl, by decide⟩) ha.symm hi.symm (fun _ _ h => by cases h)
        ⟨setArena_memory s t _, rfl, rfl, rfl, rfl, rfl, rfl, rfl, rfl⟩
    · rename_i m f hf
      obtain ⟨blocks, rfl, -⟩ := allocateBlocks_some hf
      obtain rfl := Option.some.inj h
      exact quiet_work hs (onlyAt_work hw) hd Mux.work_queues rfl
        (.inl ⟨.filling, rfl, by decide⟩) ha.symm hi.symm
        (fun ho p hp => (ho t k p (by rw [hh]; exact hp)).withBlocks blocks)
        ⟨setArena_memory s t _, rfl, rfl, rfl, rfl, rfl, rfl, rfl, rfl⟩
  · cases h

theorem refuse_quiet {e : EspErr} (hs : Orderly s) (h : s.refuse t = some (s', e)) : Quiet s s' := by
  unfold Mux.refuse at h
  split at h
  · rename_i k hh
    have hw : (s.holder t).work = some (k, .refusing) := by rw [hh]; rfl
    obtain ⟨rfl, -⟩ := Prod.mk.inj (Option.some.inj h)
    exact quiet_work hs (onlyAt_work hw) (not_live_of_work hw (by decide)) Mux.work_queues rfl
      (.inr ⟨rfl, rfl⟩) (by rw [hh]; rfl) (by rw [hh]; rfl) (fun _ _ h => by cases h)
      ⟨fun _ => rfl, rfl, rfl, rfl, rfl, rfl, rfl, rfl, rfl⟩
  · cases h

theorem release_quiet (hs : Orderly s) (h : s.release t = some s') : Quiet s s' := by
  unfold Mux.release at h
  split at h
  · rename_i k next hh
    have hw : (s.holder t).work = some (k, .releasing) := by rw [hh]; rfl
    obtain rfl := Option.some.inj h
    refine quiet_work hs (onlyAt_work hw) (not_live_of_work hw (by decide)) Mux.holder_queues rfl
      (.inl ⟨.unreserving, rfl, by decide⟩) (by rw [hh]; rfl) ?_ (fun _ _ h => by cases h)
      ⟨setArena_memory s t _, rfl, rfl, rfl, rfl, rfl, rfl, rfl, rfl⟩
    rw [hh]
    cases next <;> rfl
  · cases h

theorem unreserve_quiet (hs : Orderly s) (h : s.unreserve t = some s') : Quiet s s' := by
  unfold Mux.unreserve at h
  split at h
  · rename_i k next hh
    have hw : (s.holder t).work = some (k, .unreserving) := by rw [hh]; rfl
    obtain rfl := Option.some.inj h
    refine quiet_work hs (onlyAt_work hw) (not_live_of_work hw (by decide)) Mux.work_queues rfl
      (.inl ⟨.clearing, rfl, by decide⟩) (by rw [hh]; rfl) ?_ (fun _ _ h => by cases h)
      ⟨fun _ => rfl, rfl, rfl, rfl, rfl, rfl, rfl, rfl, rfl⟩
    rw [hh]
    cases next <;> rfl
  · cases h

theorem clear_quiet (hs : Orderly s) (h : s.clear t = some s') : Quiet s s' := by
  unfold Mux.clear at h
  split at h
  · rename_i k next hh
    have hw : (s.holder t).work = some (k, .clearing) := by rw [hh]; rfl
    have hd := not_live_of_work hw (by decide)
    dsimp only at h
    split at h
    · rename_i after
      have hafter : s.after t = [] := hs t (by rw [hh]; rfl)
      obtain rfl := Option.some.inj h
      refine Works.quiet ⟨rfl, onlyAt_work hw, onlyAt_none rfl k,
        fun j hj => Function.update_of_ne hj _ _, hd, ?_, ?_, fun t' ht => ?_, fun hf => (by cases hf),
        fun _ _ _ h => by cases h⟩
        hs ⟨fun _ => rfl, rfl, rfl, rfl, rfl, rfl, rfl, rfl, rfl⟩
      · refine not_live_of_unused ?_
        simp [Queue.entry, Frame.zeroed]
      · rw [Mux.pendingOf, hafter, hh]
        simp [Mux.setAfter, Holder.aftermath, Continue.aftermath]
      · simp [Mux.setAfter, ht, Mux.setQueue]
    · rename_i i which
      obtain rfl := Option.some.inj h
      refine Works.quiet ⟨rfl, onlyAt_work hw, onlyAt_none rfl k,
        fun j hj => Function.update_of_ne hj _ _, hd, ?_, ?_, fun _ _ => rfl, fun hf => (by cases hf),
        fun _ _ _ h => by cases h⟩
        hs ⟨fun _ => rfl, rfl, rfl, rfl, rfl, rfl, rfl, rfl, rfl⟩
      · refine not_live_of_unused ?_
        simp [Queue.entry, Frame.zeroed]
      · rw [Mux.pendingOf, hh]
        rfl
  · cases h

/-- Who works on no frame goes on to look at another frame, or lets the queue go. -/
theorem setHolder_quiet {h : Holder} (hs : Orderly s) (hw : (s.holder t).work = none)
    (hn : h.work = none) (haftermath : h.aftermath = (s.holder t).aftermath)
    (hworker : h.isWorker = (s.holder t).isWorker) : Quiet s (s.setHolder t h) := by
  refine ⟨fun i => .inl (congrFun (Mux.entry_same Mux.setHolder_queues hw hn rfl) i), fun t' => ?_,
    fun t' ht' => ?_, fun ho t' j payload hj => ?_,
    ⟨fun _ => rfl, rfl, rfl, rfl, rfl, rfl, rfl, rfl, rfl⟩⟩
  all_goals by_cases ht : t' = t
  · subst ht
    rw [Mux.pendingOf, Mux.holder, Mux.setHolder_queues, Function.update_self, haftermath]
    rfl
  · rw [Mux.pendingOf, Mux.holder, Mux.setHolder_queues, Function.update_of_ne ht]
    rfl
  · subst ht
    rw [Mux.holder, Mux.setHolder_queues, Function.update_self, hworker] at ht'
    exact hs t' ht'
  · rw [Mux.holder, Mux.setHolder_queues, Function.update_of_ne ht] at ht'
    exact hs t' ht'
  · subst ht
    rw [Mux.holder, Mux.setHolder_queues, Function.update_self] at hj
    obtain ⟨st, hst⟩ := work_of_submits hj
    rw [hn] at hst
    cases hst
  · rw [Mux.holder, Mux.setHolder_queues, Function.update_of_ne ht] at hj
    rw [Mux.frame, Mux.setHolder_queues, Function.update_of_ne ht]
    exact ho t' j payload hj

theorem cancel_quiet {which : Cancel} (hs : Orderly s) (h : s.cancel t which = some s') :
    Quiet s s' := by
  unfold Mux.cancel at h
  split_ifs at h with hfree
  obtain rfl := Option.some.inj h
  exact setHolder_quiet hs (by rw [hfree]; rfl) rfl (by rw [hfree]; rfl) (by rw [hfree]; rfl)

/-! ## Payloads -/

/-- A frame of a queue carries an accepted payload, which lies in the blocks of the frame. -/
structure Queued (s : Mux) (t : Target) (f : Frame) (payload : List UInt8) : Prop where
  target : targetIndex f.link = some t
  carries : Carries f payload
  accepted : s.accepted[f.id]? = some (f.submission payload .none)
  holds : Holds blockSize (s.arena t).memory f.blocks payload

def Contents (s : Mux) : Prop :=
  ∀ i : Place, Live (s.entry i) → ∃ payload, Queued s i.1 (s.entry i).2 payload

/-- Frames that stay as they are keep their payload. -/
theorem Contents.keep (hs : Contents s) (hmemory : ∀ a, (s'.arenas a).memory = (s.arenas a).memory)
    (haccepted : s.accepted <+: s'.accepted)
    (h : ∀ i, Live (s'.entry i) →
      s'.entry i = s.entry i ∨ ∃ payload, Queued s' i.1 (s'.entry i).2 payload) : Contents s' := by
  intro i hi
  rcases h i hi with he | hq
  · rw [he] at hi ⊢
    obtain ⟨payload, hq⟩ := hs i hi
    obtain ⟨b, hb⟩ := haccepted
    exact ⟨payload, hq.target, hq.carries, by rw [← hb]; exact accepted_of_append hq.accepted,
      by rw [Mux.arena, hmemory]; exact hq.holds⟩
  · exact hq

theorem Contents.quiet (hs : Contents s) (h : Quiet s s') : Contents s' :=
  hs.keep h.rest.memory (by rw [h.rest.accepted]) fun i hi =>
    (h.entries i).imp_right fun hd => absurd hi hd.2

/-- What a frame of a queue serves is its payload. -/
theorem Queued.serves {payload : List UInt8} (h : Queued s t (s.frame t k) payload) :
    Serves (s.normalPayload t k) payload := by
  intro i hi
  have hslice : s.normalPayload t k i = (payload.drop i).take (blockSize - i % blockSize) := by
    unfold Mux.normalPayload
    rw [h.carries.payloadLen]
    exact h.holds.slice
  have hmod : i % blockSize < blockSize := Nat.mod_lt i (by decide)
  rw [hslice]
  refine ⟨fun hnil => ?_, List.take_prefix _ _⟩
  have hlen := congrArg List.length hnil
  rw [List.length_take, List.length_drop, List.length_nil] at hlen
  omega

/-! ### Accepting a frame -/

theorem le_blocksFor (n : ℕ) : n ≤ blocksFor n * blockSize := by
  unfold blocksFor blockSize
  omega

/-- Frames of one arena have no block in common. -/
theorem Balanced.disjoint (hs : Balanced s) {i j : Place} (hne : j ≠ i)
    (harena : arenaOf i.1 = arenaOf j.1) (hi : (s.entry i).1 ≠ .unreserving ∧ (s.entry i).1 ≠ .clearing)
    (hj : (s.entry j).1 ≠ .unreserving ∧ (s.entry j).1 ≠ .clearing) :
    (s.entry i).2.blocks.Disjoint (s.entry j).2.blocks := by
  obtain ⟨rest, hrest⟩ := total_eq_add_add (w := heldIn (arenaOf i.1)) (f := s.entry) hne
  have hall := hs.blocks (arenaOf i.1)
  rw [hrest, heldIn, heldIn, if_pos rfl, if_pos harena.symm, held, held, if_pos hi, if_pos hj] at hall
  have hnodup := hall ▸ (Finset.univ : Finset (Fin blockCount)).nodup
  have hd := (Multiset.nodup_add.mp (Multiset.nodup_add.mp (Multiset.nodup_add.mp hnodup).1).1).2.2
  intro b hb hb'
  exact Multiset.disjoint_left.mp hd hb hb'

theorem Balanced.blocks_nodup (hs : Balanced s) (i : Place)
    (hi : (s.entry i).1 ≠ .unreserving ∧ (s.entry i).1 ≠ .clearing) :
    (s.entry i).2.blocks.Nodup := by
  have h := (Multiset.nodup_add.mp (hs.held_nodup i.1 i.2)).1
  rw [held, if_pos hi] at h
  exact Multiset.coe_nodup.mp h

/-- A live frame has as many blocks as its payload needs. -/
theorem Balanced.live_blocks (hs : Balanced s) {i : Place} (hi : Live (s.entry i)) :
    (s.entry i).2.blocks.length = blocksFor (s.entry i).2.payloadLen := by
  have hok := hs.frameOk i
  rw [hi.1] at hok
  rcases hok with hz | ⟨-, hsup⟩
  · have hu := hi.2
    rw [hz] at hu
    cases hu
  · exact hsup.blocks

theorem Contents.fill (hs : Contents s) (hb : Balanced s) (ho : Offers s)
    (h : s.fill t = some s') : Contents s' := by
  unfold Mux.fill at h
  split at h
  · rename_i k payload timeout hh
    have hw : (s.holder t).work = some (k, .filling) := by rw [hh]; rfl
    have hentry := Mux.entry_work hw
    obtain ⟨hu, hsup⟩ := hb.worked hw
    obtain ⟨htarget, hcarries, hzero⟩ := ho t k payload (by rw [hh]; rfl)
    obtain rfl := Option.some.inj h
    have hcopy : payload.length ≤ (s.frame t k).blocks.length * blockSize := by
      rw [hsup.blocks, hcarries.payloadLen]
      exact le_blocksFor _
    have hstage : (s.entry (t, k)).1 ≠ .unreserving ∧ (s.entry (t, k)).1 ≠ .clearing := by
      simp [hentry]
    have hnodup := hb.blocks_nodup (t, k) hstage
    rw [hentry] at hnodup
    intro i hi
    rw [Mux.entry_update (s := s) (t := t) (k := k) rfl (onlyAt_work hw) (onlyAt_none rfl k)
      fun j hj => Function.update_of_ne hj _ _] at hi ⊢
    by_cases hik : i = (t, k)
    · subst hik
      rw [Function.update_self]
      refine ⟨payload, ?_⟩
      simp only [Queue.entry, Function.update_self]
      refine ⟨htarget, ⟨hcarries.payloadLen, hcarries.totalLen, hcarries.header, hcarries.summed,
        hcarries.started, hcarries.within, hcarries.short⟩, List.getElem?_concat_length, ?_⟩
      simp only [Mux.arena, Mux.setArena, Mux.setQueue, Function.update_self]
      exact copyIn_holds hnodup (by decide) hcopy
    · rw [Function.update_of_ne hik] at hi ⊢
      obtain ⟨data, hq⟩ := hs i hi
      refine ⟨data, hq.target, hq.carries, accepted_of_append hq.accepted, ?_⟩
      by_cases ha : arenaOf i.1 = arenaOf t
      · have hmem : (s.arena i.1).memory = (s.arena t).memory := by rw [Mux.arena, ha]; rfl
        have hholds := hq.holds
        rw [hmem] at hholds
        have hdata : data.length ≤ (s.entry i).2.blocks.length * blockSize := by
          rw [hb.live_blocks hi, hq.carries.payloadLen]
          exact le_blocksFor _
        have hdisj := hb.disjoint (i := (t, k)) (j := i) hik ha.symm hstage (by simp [hi.1])
        rw [hentry] at hdisj
        simp only [Mux.arena, Mux.setArena, Mux.setQueue, ha, Function.update_self]
        exact hholds.copyIn hdisj (by decide) hcopy hdata
      · simp only [Mux.arena, Mux.setArena, Mux.setQueue, Function.update_of_ne ha]
        exact hq.holds
  · cases h

end

end EspVision.MuxTx
