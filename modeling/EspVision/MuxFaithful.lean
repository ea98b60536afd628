import EspVision.MuxOutbox

/-!
# Every step of the multiplexer is a sequence of steps of its outbox

A visit of the worker works on one site: the frame there stays, sends some of its bytes, or leaves.
The moves under the mutex of the special frames concern one site each. Together with the steps on
the queues they keep what is known of the multiplexer.
-/
namespace EspVision.MuxTx

open EvTransport EvMux EvSession Host TransitionSystem Ledger Outbox

/-! ## The site of a frame that the worker picks -/

def Pick.site (t : Target) : Pick → Site
  | .normal k => .inl (t, k)
  | .special r => .inr r

section

variable {s s' : Mux} {t : Target} {k : FrameSlot} {r : SpecialRef} {p : Pick} {f g : Frame}
  {look : WorkerLook}

theorem entry_free (hfree : s.holder t = .free) (k : FrameSlot) :
    s.entry (t, k) = (.rest, s.frame t k) :=
  Prod.ext (stageAt_none (by rw [show (s.queues t).holder = .free from hfree]; rfl) k) rfl

theorem specialFor_used (h : s.specialFor t r = true) : (s.special r).used = true := by
  unfold Mux.specialFor at h
  exact (Bool.and_eq_true _ _ |>.mp h).1

theorem specialFor_target (h : s.specialFor t r = true) :
    targetIndex (s.special r).frame.link = some t := by
  unfold Mux.specialFor at h
  simpa using (Bool.and_eq_true _ _ |>.mp h).2

theorem frameAt_pick (hfree : s.holder t = .free) (hp : s.CanPick t p) :
    s.frameAt (p.site t) = some (s.pickFrame t p) := by
  cases p with
  | normal k =>
    refine entryFrame_some.mpr ?_
    rw [entry_free hfree]
    exact ⟨⟨rfl, hp⟩, rfl⟩
  | special r => exact if_pos (specialFor_used hp)

theorem setPick_special (s : Mux) (r : SpecialRef) (g : Frame) (r' : SpecialRef) :
    (s.setPick t (.special r) g).special r' =
      if r' = r then { s.special r with frame := g } else s.special r' := special_setFrame _ _ _

/-- A frame that is set is what is at the site. -/
theorem frameAt_setPick (hfree : s.holder t = .free) (hp : s.CanPick t p)
    (hg : (s.pickFrame t p).used = true → g.used = true) :
    (s.setPick t p g).frameAt = Function.update s.frameAt (p.site t) (some g) := by
  cases p with
  | normal k =>
    have hg : g.used = true := hg hp
    have hentry : (s.setPick t (.normal k) g).entry =
        Function.update s.entry (t, k) (.rest, g) := by
      refine (Mux.entry_update (s := s) (t := t) (k := k) Mux.setFrame_queues
        (onlyAt_none (by rw [hfree]; rfl) k)
        (onlyAt_none (by rw [show (s.queues t).holder = .free from hfree]; rfl) k)
        fun j hj => Function.update_of_ne hj _ _).trans ?_
      simp only [Queue.entry, Function.update_self]
      rw [show (s.queues t).holder = .free from hfree]
      rfl
    rw [frameAt_entry hentry rfl, entryFrame_some.mpr ⟨⟨rfl, hg⟩, rfl⟩]
    rfl
  | special r =>
    have hspecial := setPick_special (t := t) s r g
    have hqueues : (s.setPick t (.special r) g).queues = s.queues := rfl
    refine (frameAt_special (r := r) hqueues fun r' hr => (hspecial r').trans (if_neg hr)).trans ?_
    rw [hspecial, if_pos rfl]
    exact congrArg (Function.update _ _) (if_pos (specialFor_used hp))

/-- A special frame that is released is at its site no more. -/
theorem frameAt_release (result : EspErr) (hused : (s.special r).used = true) :
    (s.releaseSpecial r result).frameAt = Function.update s.frameAt (.inr r) none := by
  have hspecial := fun x => releaseSpecial_special (r := x) s r result
  refine (frameAt_special (r := r) (s.releaseSpecial_aside r result).queues.queues
    fun r' hr => (hspecial r').trans (if_neg fun h => hr h.2)).trans ?_
  rw [hspecial, if_pos ⟨hused, rfl⟩]
  rfl

theorem pendingOf_release (s : Mux) (r : SpecialRef) (result : EspErr) :
    (s.releaseSpecial r result).pendingOf = s.pendingOf := by
  have haside := s.releaseSpecial_aside r result
  funext u
  rw [Mux.pendingOf, Mux.pendingOf, Mux.holder, haside.queues.queues, haside.wire.after]
  rfl

/-- A frame that is dropped is at its site no more. -/
theorem frameAt_dropFrame {result : EspErr} {after : List Aftermath} (hfree : s.holder t = .free)
    (hp : s.CanPick t p) :
    (s.dropFrame t p result after).frameAt = Function.update s.frameAt (p.site t) none := by
  cases p with
  | normal k =>
    have hqueues : (s.dropFrame t (.normal k) result after).queues = Function.update s.queues t
        { s.queues t with holder := .releasing k (.worker after) } := rfl
    have hstage : (Holder.releasing k (.worker after)).work = some (k, .releasing) := rfl
    rw [frameAt_entry (Mux.entry_update hqueues (onlyAt_none (by rw [hfree]; rfl) k)
      (onlyAt_work hstage) fun j hj => rfl) rfl, entryFrame_none (not_live_of_stage ?_)]
    · rfl
    · rw [Queue.entry, stageAt_of_work hstage]
      exact Stage.noConfusion
  | special r => exact frameAt_release result (specialFor_used hp)

theorem pendingOf_setPick : (s.setPick t p g).pendingOf = s.pendingOf := by
  cases p with
  | normal k => exact pendingOf_same Mux.setFrame_queues rfl rfl
  | special r => rfl

theorem pendingOf_dropFrame (result : EspErr) (after : List Aftermath) (hfree : s.holder t = .free)
    (hafter : s.after t = []) :
    (s.dropFrame t p result after).pendingOf = Function.update s.pendingOf t after := by
  cases p with
  | normal k =>
    refine (pendingOf_update (l := s.after t) Mux.setHolder_queues
      (Function.update_eq_self t s.after).symm).trans ?_
    rw [hafter, List.append_nil]
    rfl
  | special r =>
    have ha := s.releaseSpecial_aside r result
    have hqueues : (s.dropFrame t (.special r) result after).queues =
        Function.update s.queues t (s.queues t) := by
      rw [Function.update_eq_self]
      exact ha.queues.queues
    have hlist : (s.dropFrame t (.special r) result after).after =
        Function.update s.after t after := by
      rw [← ha.wire.after]
      rfl
    rw [pendingOf_update hqueues hlist, show (s.queues t).holder = .free from hfree]
    rfl

/-- What a release of a special frame does not concern. -/
theorem releaseSpecial_rest (s : Mux) (r : SpecialRef) (result : EspErr) :
    (s.releaseSpecial r result).due = s.due ∧ (s.releaseSpecial r result).accepted = s.accepted ∧
      (s.releaseSpecial r result).completed = s.completed := by
  unfold Mux.releaseSpecial
  split_ifs <;> exact ⟨rfl, rfl, rfl⟩

theorem releaseSpecial_left {result : EspErr} (h : (s.special r).used = true) :
    (s.releaseSpecial r result).left = s.left ++ [((s.special r).frame.id, result)] := by
  rw [Mux.releaseSpecial, if_neg (by simp [h])]

theorem dropFrame_act {result : EspErr} {after : List Aftermath} {m : Message LinkRef UInt8}
    (hfree : s.holder t = .free) (hafter : s.after t = []) (hp : s.CanPick t p)
    (hm : s.outbox.accepted[(s.pickFrame t p).id]? = some m)
    (hresult : result = espOk ↔ (s.pickFrame t p).txOffset = m.bytes.length)
    (hcompletion : after.filterMap Aftermath.completion =
      [(s.pickFrame t p).completionOf result]) :
    MuxAct s.outbox (s.dropFrame t p result after).outbox := by
  have hpending : s.pendingOf t = [] := by
    rw [Mux.pendingOf, hfree, hafter]
    rfl
  have howed : (s.dropFrame t p result after).due = s.due → (s.dropFrame t p result after).owed =
      s.owed + {((s.pickFrame t p).id, result)} := fun hdue => by
    rw [owed_update (pendingOf_dropFrame result after hfree hafter) hpending hdue, results_of hcompletion]
  refine leave_act (frameAt_pick hfree hp) hm hresult (frameAt_dropFrame hfree hp) ?_ (howed ?_) ?_ ?_
  all_goals cases p with
    | normal k => first | rfl | exact ⟨rfl, rfl, rfl⟩
    | special r =>
      have hr := releaseSpecial_rest s r result
      have ha := s.releaseSpecial_aside r result
      first
        | exact releaseSpecial_left (specialFor_used hp)
        | exact hr.1
        | exact hr.2.1
        | exact ⟨hr.2.2, ha.wire.wire, ha.wire.segments⟩

/-! ## Sending -/

/-- What is left of `Mux.transmit` when the frame stays where it is. -/
def Mux.taken (s : Mux) (t : Target) (p : Pick) (f : Frame) (payload : ℕ → List UInt8) (n : ℕ)
    (progressMs : UInt32) : Mux :=
  { s with
    pool := s.markProgress t p f
      { f with txOffset := f.txOffset + n, lastProgressMs := progressMs }
    wire := Function.update s.wire f.link (s.wire f.link ++ (f.offered payload).take n)
    segments := Function.update s.segments f.link
      (extendSegments (s.segments f.link) f n) }.setPick t p
    { f with txOffset := f.txOffset + n, lastProgressMs := progressMs }

theorem transmit_eq (f : Frame) (payload : ℕ → List UInt8) (n : ℕ) (progressMs : UInt32) :
    s.transmit t p f payload n progressMs =
      if f.totalLen ≤ f.txOffset + n then
        (s.taken t p f payload n progressMs).dropFrame t p espOk (Drop.after ⟨espOk, false, false, false⟩ f)
      else s.taken t p f payload n progressMs := rfl

/-- A begun frame for the target is seen by the worker. -/
theorem startedFrame_ne_none {x : Site} {locked : Bool} (hs : Faithful s)
    (hlocked : locked = true ∨ s.pool.partialFrame t = none) (hx : s.frameAt x = some f)
    (hlane : targetIndex f.link = some t) (hbegun : f.txOffset ≠ 0) :
    s.startedFrame t locked ≠ none := by
  intro hnone
  unfold Mux.startedFrame at hnone
  split at hnone
  · cases hnone
  · rename_i hqueue
    cases x with
    | inl i =>
      obtain ⟨hlive, rfl⟩ := entryFrame_some.mp hx
      obtain ⟨payload, hq⟩ := hs.contents i hlive
      obtain rfl : i.1 = t := Option.some.inj (hq.target.symm.trans hlane)
      have hnot := List.find?_eq_none.mp hqueue i.2 (List.mem_finRange _)
      simp only [Bool.and_eq_true, bne_iff_ne, not_and, not_not] at hnot
      exact hbegun (hnot hlive.2)
    | inr r =>
      obtain ⟨hused, rfl⟩ := specialFrame_some.mp hx
      have hfor : s.specialFor t r = true := by
        unfold Mux.specialFor
        simp [hused, hlane]
      have hmark := (hs.marks t r).mpr ⟨hfor, hbegun⟩
      have hlocked : locked = true := by
        rcases hlocked with h | h
        · exact h
        · rw [h] at hmark
          cases hmark
      rw [if_pos hlocked, Option.map_eq_none_iff] at hnone
      have hnot := List.find?_eq_none.mp hnone r r.mem_all
      simp [hfor, hbegun] at hnot

theorem pick_queued (hs : Faithful s) (hfree : s.holder t = .free) (hk : (s.frame t k).used = true) :
    ∃ payload, Queued s t (s.frame t k) payload := by
  have hq := hs.contents (t, k)
  rw [entry_free hfree] at hq
  exact hq ⟨rfl, hk⟩

theorem pick_target (hs : Faithful s) (hfree : s.holder t = .free) (hp : s.CanPick t p) :
    targetIndex (s.pickFrame t p).link = some t := by
  cases p with
  | normal k =>
    obtain ⟨payload, hq⟩ := pick_queued hs hfree hp
    exact hq.target
  | special r => exact specialFor_target hp

/-- What the worker reads of a frame is what was accepted. -/
theorem pick_shipment (hs : Faithful s) (hfree : s.holder t = .free) (hp : s.CanPick t p) :
    ∃ payload m, Shipment s (p.site t) (s.pickFrame t p) payload m ∧
      Serves (s.pickPayload t p) payload := by
  cases p with
  | normal k =>
    obtain ⟨payload, hq⟩ := pick_queued hs hfree hp
    exact ⟨payload, _, hq.shipment, hq.serves⟩
  | special r =>
    obtain ⟨payload, hst⟩ := hs.pool.stored r (specialFor_used hp)
    exact ⟨payload, _, hst.shipment, hst.serves⟩

/-- No other frame for the target is under way when the worker has chosen one. -/
theorem chosen_alone (hs : Faithful s) (hfree : s.holder t = .free)
    (hp : s.chooseFrame t look = some p) :
    s.outbox.Alone targetIndex (p.site t) (s.pickFrame t p).item := by
  intro y j hy hlane hbegun
  obtain ⟨h, hh, rfl⟩ := Option.map_eq_some_iff.mp hy
  have hpick := pick_target hs hfree (Mux.chooseFrame_canPick hp).1
  obtain ⟨hlocked, hstarted | ⟨hnone, -⟩⟩ := Mux.chooseFrame_some hp
  · obtain ⟨hcan, hne, -⟩ := Mux.startedFrame_some hstarted
    exact hs.sound.alone _ _ (live_some (frameAt_pick hfree hcan)) hne y _ hy hlane hbegun
  · exact absurd hnone (startedFrame_ne_none hs hlocked hh (hlane.trans hpick) hbegun)

theorem markProgress_frames (s : Mux) (t : Target) (p : Pick) (f g : Frame) :
    (s.markProgress t p f g).frames = s.pool.frames ∧
      (s.markProgress t p f g).storage = s.pool.storage := by
  unfold Mux.markProgress
  split <;> exact ⟨rfl, rfl⟩

section

variable {source : ℕ → List UInt8} {n : ℕ} {progressMs : UInt32}

/-- The frame as the worker leaves it. -/
abbrev Frame.after (g : Frame) (n : ℕ) (progressMs : UInt32) : Frame :=
  { g with txOffset := g.txOffset + n, lastProgressMs := progressMs }

theorem frameAt_taken (hfree : s.holder t = .free) (hp : s.CanPick t p)
    (hg : (s.pickFrame t p).Progressed g) :
    (s.taken t p g source n progressMs).frameAt =
      Function.update s.frameAt (p.site t) (some (g.after n progressMs)) := by
  have hframes := (markProgress_frames s t p g (g.after n progressMs)).1
  set u : Mux := { s with
    pool := s.markProgress t p g (g.after n progressMs)
    wire := Function.update s.wire g.link (s.wire g.link ++ (g.offered source).take n)
    segments := Function.update s.segments g.link (Mux.extendSegments (s.segments g.link) g n) } with hu
  have huse : u.frameAt = s.frameAt := by
    funext y
    cases y with
    | inl i => rfl
    | inr r => exact congrArg specialFrame (congrFun hframes r)
  have hpick : u.pickFrame t p = s.pickFrame t p := by
    cases p with
    | normal k => rfl
    | special r => exact congrArg Special.frame (congrFun hframes r)
  have hcan : u.CanPick t p := by
    cases p with
    | normal k => exact hp
    | special r =>
      have hspecial : u.special r = s.special r := congrFun hframes r
      show u.specialFor t r = true
      unfold Mux.specialFor
      rw [hspecial]
      exact hp
  rw [← huse]
  exact frameAt_setPick hfree hcan fun hused => hg.used.trans (hpick ▸ hused)

/-- What else there is when a link has taken some bytes. -/
structure Takes (s s' : Mux) (g : Frame) (data : List UInt8) : Prop where
  pending : s'.pendingOf = s.pendingOf
  registry : s'.registry = s.registry
  accepted : s'.accepted = s.accepted
  left : s'.left = s.left
  due : s'.due = s.due
  completed : s'.completed = s.completed
  wire : s'.wire = Function.update s.wire g.link (s.wire g.link ++ data)
  segments : s'.segments = Function.update s.segments g.link
    (extend (s.segments g.link) g.item data.length)

theorem taken_takes (s : Mux) (t : Target) (p : Pick) (progressMs : UInt32) (hle : n ≤ (g.offered source).length) :
    Takes s (s.taken t p g source n progressMs) g ((g.offered source).take n) := by
  have hsegments : Mux.extendSegments (s.segments g.link) g n =
      extend (s.segments g.link) g.item ((g.offered source).take n).length := by
    rw [List.length_take, min_eq_left hle]
    rfl
  refine ⟨pendingOf_setPick, ?_, ?_, ?_, ?_, ?_, ?_, ?_⟩
  all_goals unfold Mux.taken
  all_goals cases p
  all_goals first | rfl | exact congrArg (Function.update s.segments g.link) hsegments

/-- The link takes some of what is offered. -/
theorem taken_act (progressMs : UInt32) (hs : Faithful s) (hfree : s.holder t = .free) (hp : s.chooseFrame t look = some p)
    (hg : Writable (s.pickFrame t p) (s.pickPayload t p) look g) (hpos : 0 < n)
    (hle : n ≤ (g.offered (s.pickPayload t p)).length) :
    MuxAct s.outbox (s.taken t p g (s.pickPayload t p) n progressMs).outbox := by
  have hcan := (Mux.chooseFrame_canPick hp).1
  have hprogress := hg.progressed
  obtain ⟨payload, m, hship, hserves⟩ := pick_shipment hs hfree hcan
  have hitem : (s.pickFrame t p).item = g.item := by
    rw [Frame.item, Frame.item, hprogress.id, hprogress.link, hg.begun.2.2]
  have hcarries := hship.carries.writable hserves hg
  have hdata : ((g.offered (s.pickPayload t p)).take n).length = n := by
    rw [List.length_take, min_eq_left hle]
  have htakes := taken_takes s t p progressMs hle
  have heq : (s.taken t p g (s.pickPayload t p) n progressMs).outbox =
      s.outbox.send (p.site t) g.item ((g.offered (s.pickPayload t p)).take n) := by
    refine Outbox.State.ext ?_ ?_ htakes.left ?_ ?_ htakes.wire htakes.segments
    · refine (funext fun y => by rw [Mux.outbox, frameAt_taken hfree hcan hprogress]).trans
        ((map_update _).trans (congrArg (Function.update _ _) ?_))
      rw [hdata]
      rfl
    · simp [Mux.outbox, htakes.accepted, State.send]
    · simp [Mux.outbox, Mux.owed, htakes.pending, htakes.due, State.send]
    · simp [Mux.outbox, htakes.completed, State.send]
  rw [heq]
  refine .send _ _ m _ (hitem ▸ live_some (frameAt_pick hfree hcan))
    (hitem ▸ chosen_alone hs hfree hp) (by rw [Frame.item, hprogress.id]; exact hship.message)
    (List.length_pos_iff.mp (hpos.trans_eq hdata.symm)) ?_
  rw [hship.bytes, ← hprogress.metadata]
  exact (List.take_prefix _ _).trans (hcarries.offered hg.begun.1 hserves)

end

/-! ## What stays so -/

theorem Queued.progressed {payload : List UInt8} (h : Queued s t f payload) (hg : f.Progressed g)
    (hcarries : Carries g payload) (hmemory : (s'.arena t).memory = (s.arena t).memory)
    (haccepted : s'.accepted = s.accepted) : Queued s' t g payload where
  target := hg.link.symm ▸ h.target
  carries := hcarries
  accepted := by
    rw [haccepted, hg.id, hg.submission]
    exact h.accepted
  holds := by
    rw [hmemory, hg.blocks]
    exact h.holds

theorem Stored.progressed {payload : List UInt8} (h : Stored s r payload)
    (hg : (s.special r).frame.Progressed g) (hcarries : Carries g payload)
    (hframe : s'.special r = { s.special r with frame := g })
    (hstorage : s'.pool.storage = s.pool.storage) (haccepted : s'.accepted = s.accepted) :
    Stored s' r payload := by
  have howned : s'.pool.owned = s.pool.owned := congrArg Storage.owned hstorage
  refine ⟨?_, ?_, ?_, ?_, ?_, ?_⟩ <;> rw [hframe]
  · exact h.kind
  · exact h.index
  · exact hcarries
  · rw [haccepted, hg.id]
    exact h.accepted.trans (congrArg some (hg.submission payload r.kind).symm)
  · rw [hstorage]
    exact h.holds
  · rw [howned]
    exact h.slot

/-- One special frame changes. -/
theorem PoolOk.keep (hs : PoolOk s) (hstorage : s'.pool.storage = s.pool.storage)
    (haccepted : s'.accepted = s.accepted) (h : ∀ r, (s'.special r).used = true →
      s'.special r = s.special r ∨ ∃ payload, Stored s' r payload) : PoolOk s' := by
  refine ⟨hstorage.symm ▸ hs.storage, fun r hused => ?_⟩
  rcases h r hused with he | hst
  · obtain ⟨payload, hst⟩ := hs.stored r (he ▸ hused)
    exact ⟨payload, hst.congr he hstorage (by rw [haccepted])⟩
  · exact hst

/-- One special frame changes, and its mark. -/
theorem Marks.update (hs : Marks s) (hframes : ∀ r', r' ≠ r → s'.special r' = s.special r')
    (hmark : ∀ t, s'.pool.partialFrame t = some r ↔ s'.Started t r)
    (hothers : ∀ t r', r' ≠ r →
      (s'.pool.partialFrame t = some r' ↔ s.pool.partialFrame t = some r')) : Marks s' := by
  intro t r'
  by_cases hr : r' = r
  · subst hr
    exact hmark t
  · rw [hothers t r' hr, hs t r']
    unfold Mux.Started Mux.specialFor
    rw [hframes r' hr]

theorem not_started_of_unused (h : (s.special r).used = false) : ¬ s.Started t r := by
  unfold Mux.Started Mux.specialFor
  simp [h]

theorem not_started_of_zero (h : (s.special r).frame.txOffset = 0) : ¬ s.Started t r :=
  fun hs => hs.2 h

theorem releasedPool_marks (s : Mux) (r : SpecialRef) :
    (s.releasedPool r).partialFrame = s.pool.partialFrame ∧ ((s.special r).frame.txOffset = 0 ∨
      ∀ t, targetIndex (s.special r).frame.link = some t → s.pool.partialFrame t ≠ some r) ∨
    ∃ t, targetIndex (s.special r).frame.link = some t ∧ s.pool.partialFrame t = some r ∧
      (s.releasedPool r).partialFrame = Function.update s.pool.partialFrame t none := by
  have hkind : (s.releasedPool r).partialFrame =
      if (s.special r).frame.txOffset = 0 then s.pool.partialFrame
      else (targetIndex (s.special r).frame.link).elim s.pool.partialFrame fun t =>
        if s.pool.partialFrame t = some r then Function.update s.pool.partialFrame t none
        else s.pool.partialFrame := by
    unfold Mux.releasedPool
    dsimp only
    by_cases hk : (s.special r).kind = .preview
    · rw [if_pos hk]
      cases targetIndex (s.special r).frame.link <;> rfl
    · rw [if_neg hk]
      cases targetIndex (s.special r).frame.link <;> rfl
  rw [hkind]
  split_ifs with hzero
  · exact .inl ⟨rfl, .inl hzero⟩
  · cases ht : targetIndex (s.special r).frame.link with
    | none => exact .inl ⟨rfl, .inr fun t h => absurd h (Option.some_ne_none t).symm⟩
    | some t =>
      by_cases hown : s.pool.partialFrame t = some r
      · exact .inr ⟨t, rfl, hown, if_pos hown⟩
      · refine .inl ⟨if_neg hown, .inr fun u hu => ?_⟩
        obtain rfl := Option.some.inj hu
        exact hown

/-- The mark of a frame that is released. -/
theorem releaseSpecial_marks (result : EspErr) (hused : (s.special r).used = true)
    (hmark : ∀ t, s.pool.partialFrame t = some r →
      (s.special r).frame.txOffset ≠ 0 ∧ targetIndex (s.special r).frame.link = some t) :
    (∀ t, (s.releaseSpecial r result).pool.partialFrame t ≠ some r) ∧ ∀ t r', r' ≠ r →
      ((s.releaseSpecial r result).pool.partialFrame t = some r' ↔
        s.pool.partialFrame t = some r') := by
  have hpool : (s.releaseSpecial r result).pool = s.releasedPool r := by
    rw [Mux.releaseSpecial, if_neg (by simp [hused])]
  rw [hpool]
  rcases releasedPool_marks s r with ⟨hsame, hnot⟩ | ⟨u, hu, hown, hset⟩
  · rw [hsame]
    refine ⟨fun t ht => ?_, fun _ _ _ => Iff.rfl⟩
    obtain ⟨hne, htarget⟩ := hmark t ht
    exact hnot.elim hne fun h => h t htarget ht
  · rw [hset]
    refine ⟨fun t => ?_, fun t r' hr => ?_⟩ <;> by_cases ht : t = u
    · rw [ht, Function.update_self]
      exact (Option.some_ne_none r).symm
    · rw [Function.update_of_ne ht]
      exact fun hm => ht (Option.some.inj ((hmark t hm).2.symm.trans hu))
    · rw [ht, Function.update_self, hown]
      simp [hr.symm]
    · rw [Function.update_of_ne ht]

theorem Marks.release {result : EspErr} (hs : Marks s) (hused : (s.special r).used = true) :
    Marks (s.releaseSpecial r result) := by
  obtain ⟨hmark, hothers⟩ := releaseSpecial_marks result hused fun t ht =>
    ⟨((hs t r).mp ht).2, specialFor_target ((hs t r).mp ht).1⟩
  refine hs.update (r := r) (fun r' hr => ?_) (fun t => ?_) hothers
  · rw [releaseSpecial_special, if_neg fun h => hr h.2]
  · exact iff_of_false (hmark t) (not_started_of_unused (releaseSpecial_unused r result))

/-- A step that is not concerned with the queues. -/
theorem Faithful.poolStep (hs : Faithful s) (hq : SameQueues s s')
    (hafter : ∀ t, (s.holder t).isWorker = true → s'.after t = s.after t)
    (haccepted : s.accepted <+: s'.accepted) (hpool : PoolOk s') (hmarks : Marks s')
    (hact : MuxActs s.outbox s'.outbox) : Follows s s' := by
  refine ⟨⟨hs.balanced.sameQueues hq, fun t ht => ?_, fun t k payload ht => ?_, ?_, hpool, hmarks,
    hs.sound.acts hact⟩, hact⟩
  · rw [Mux.holder, hq.queues] at ht
    rw [hafter t ht]
    exact hs.orderly t ht
  · rw [Mux.holder, hq.queues] at ht
    rw [Mux.frame, hq.queues]
    exact hs.offers t k payload ht
  · exact hs.contents.keep (fun a => by rw [hq.arenas]) haccepted fun i hi =>
      .inl (by rw [Mux.entry, hq.queues]; rfl)

/-! ## Visits -/

/-- A frame of the visited queue stays there, with a payload, or begins to leave. -/
theorem Faithful.queueVisit {h : Holder} (hs : Faithful s) (hw : (s.holder t).work = none)
    (hqueues : s'.queues = Function.update s.queues t { s.queues t with
      frames := Function.update (s.queues t).frames k f, holder := h })
    (hh : h = .free ∧ (∃ payload, Queued s' t f payload) ∨ ∃ next, h = .releasing k next)
    (hafter : s'.after = s.after) (hworker : h.isWorker = true → s.after t = [])
    (harenas : s'.arenas = s.arenas) (hpool : s'.pool = s.pool) (haccepted : s'.accepted = s.accepted) (hb : Balanced s')
    (hact : MuxActs s.outbox s'.outbox) : Follows s s' := by
  have hself : s'.holder t = h := by rw [Mux.holder, hqueues, Function.update_self]
  have honly : h.OnlyAt k := by
    rcases hh with ⟨rfl, -⟩ | ⟨next, rfl⟩
    · exact onlyAt_none rfl k
    · exact onlyAt_work rfl
  refine hs.onQueue (t := t) ⟨fun t' ht => ⟨?_, by rw [hafter]⟩, ?_, fun hh => ?_⟩ hb
    (hs.contents.keep (fun a => by rw [harenas]) (by rw [haccepted]) fun i hi => ?_) hpool
    (by rw [haccepted]) hact
  · rw [hqueues, Function.update_of_ne ht]
  · rw [hself]
    rcases hh with ⟨rfl, -⟩ | ⟨next, rfl⟩ <;> rfl
  · rw [hafter]
    exact hworker (hself ▸ hh)
  · rw [Mux.entry_update hqueues (onlyAt_none hw k) honly
      fun j hj => Function.update_of_ne hj _ _] at hi ⊢
    by_cases hik : i = (t, k)
    · subst hik
      rw [Function.update_self] at hi ⊢
      rcases hh with ⟨-, hq⟩ | ⟨next, rfl⟩
      · right
        simpa [Queue.entry] using hq
      · exact absurd hi (not_live_of_stage (by
          rw [Queue.entry, stageAt_of_work (h := .releasing k next) rfl]
          exact Stage.noConfusion))
    · rw [Function.update_of_ne hik]
      exact .inl rfl

section

variable {source : ℕ → List UInt8} {n : ℕ} {progressMs : UInt32}

theorem holder_taken : (s.taken t p g source n progressMs).holder t = s.holder t := by
  cases p with
  | normal k => simp [Mux.taken, Mux.setPick, Mux.setFrame, Mux.setQueue, Mux.holder]
  | special r => rfl

theorem after_taken : (s.taken t p g source n progressMs).after = s.after := by
  cases p <;> rfl

theorem taken_special (s : Mux) (t : Target) (r : SpecialRef) (g : Frame)
    (source : ℕ → List UInt8) (n : ℕ) (progressMs : UInt32) (r' : SpecialRef) :
    (s.taken t (.special r) g source n progressMs).special r' =
      if r' = r then { s.special r with frame := g.after n progressMs } else s.special r' := by
  refine (setPick_special _ r _ r').trans ?_
  have hframes := fun x => congrFun
    (markProgress_frames s t (.special r) g (g.after n progressMs)).1 x
  split_ifs
  · exact congrArg (fun sp : Special => { sp with frame := g.after n progressMs }) (hframes r)
  · exact hframes r'

theorem pickFrame_taken : (s.taken t p g source n progressMs).pickFrame t p = g.after n progressMs := by
  cases p with
  | normal k => simp [Mux.pickFrame, Mux.taken, Mux.setPick, Mux.setFrame, Mux.setQueue, Mux.frame]
  | special r => exact congrArg Special.frame ((taken_special s t r g source n progressMs r).trans (if_pos rfl))

theorem canPick_taken (hp : s.CanPick t p) (hg : (s.pickFrame t p).Progressed g) :
    (s.taken t p g source n progressMs).CanPick t p := by
  cases p with
  | normal k =>
    refine (congrArg Frame.used (pickFrame_taken (p := .normal k))).trans ?_
    exact hg.used.trans hp
  | special r =>
    have hspecial := taken_special s t r g source n progressMs r
    rw [if_pos rfl] at hspecial
    have hlink : g.link = (s.special r).frame.link := hg.link
    show Mux.specialFor _ t r = true
    unfold Mux.specialFor
    rw [hspecial]
    show ((s.special r).used && targetIndex g.link == some t) = true
    rw [hlink]
    exact hp

/-- The bytes that a link has taken, and the end of the frame when these were its last. -/
theorem transmit_acts (progressMs : UInt32) (hs : Faithful s) (hfree : s.holder t = .free) (hafter : s.after t = [])
    (hp : s.chooseFrame t look = some p)
    (hg : Writable (s.pickFrame t p) (s.pickPayload t p) look g) (hpos : 0 < n)
    (hle : n ≤ (g.offered (s.pickPayload t p)).length) :
    MuxActs s.outbox (s.transmit t p g (s.pickPayload t p) n progressMs).outbox := by
  have hcan := (Mux.chooseFrame_canPick hp).1
  have hact := taken_act progressMs hs hfree hp hg hpos hle
  rw [transmit_eq]
  split_ifs with hall
  · refine (Relation.ReflTransGen.single hact).tail ?_
    obtain ⟨payload, m, hship, hserves⟩ := pick_shipment hs hfree hcan
    have hcarries := hship.carries.writable hserves hg
    have hprogress := hg.progressed
    have htakes := taken_takes s t p progressMs hle
    have hlen : m.bytes.length = g.totalLen := by
      rw [hship.bytes, wireBytes_length, ← hprogress.metadata, ← hcarries.totalLen]
    have hroom := (hcarries.offered hg.begun.1 hserves).length_le
    rw [List.length_drop, wireBytes_length, ← hcarries.totalLen] at hroom
    refine dropFrame_act (m := m) (holder_taken.trans hfree) (by rw [after_taken, hafter])
      (canPick_taken hcan hprogress) ?_ ?_ ?_
    · rw [pickFrame_taken, Mux.outbox, htakes.accepted]
      exact hprogress.id ▸ hship.message
    · rw [pickFrame_taken, hlen]
      refine iff_of_true rfl ?_
      have := hcarries.within
      show g.txOffset + n = g.totalLen
      omega
    · rw [pickFrame_taken]
      exact after_completion _ g
  · exact .single hact

end

theorem kept_outbox (hfree : s.holder t = .free) (hp : s.CanPick t p)
    (hk : Kept (s.pickFrame t p) (s.pickPayload t p) look g) :
    (s.setPick t p g).outbox = s.outbox := by
  have hprogress := hk.progressed
  have howed : (s.setPick t p g).due = s.due → (s.setPick t p g).owed = s.owed := fun hdue => by
    rw [Mux.owed, Mux.owed, pendingOf_setPick, hdue]
  refine Outbox.State.ext ?_ ?_ ?_ (howed ?_) ?_ ?_ ?_
  · refine (funext fun y => by rw [Mux.outbox, frameAt_setPick hfree hp hprogress.used.trans]).trans
      ((map_update _).trans (Function.update_eq_iff.mpr ⟨?_, fun _ _ => rfl⟩))
    refine Eq.trans ?_ (live_some (frameAt_pick hfree hp)).symm
    rw [Option.map_some, Frame.item, Frame.item, hprogress.id, hprogress.link, hk.txOffset]
  all_goals cases p <;> rfl

/-- The pool when a special frame is worked on. -/
theorem PoolOk.worked {payload : List UInt8} (hs : PoolOk s) (hst : Stored s r payload)
    (hg : (s.special r).frame.Progressed g) (hcarries : Carries g payload)
    (hspecial : ∀ r', s'.special r' =
      if r' = r then { s.special r with frame := g } else s.special r')
    (hstorage : s'.pool.storage = s.pool.storage) (haccepted : s'.accepted = s.accepted) :
    PoolOk s' := by
  refine hs.keep hstorage haccepted fun r' hused => ?_
  by_cases hr : r' = r
  · subst hr
    exact .inr ⟨payload, hst.progressed hg hcarries ((hspecial _).trans (if_pos rfl)) hstorage
      haccepted⟩
  · exact .inl ((hspecial _).trans (if_neg hr))

theorem Faithful.kept (hs : Faithful s) (hfree : s.holder t = .free) (hafter : s.after t = [])
    (hp : s.CanPick t p) (hk : Kept (s.pickFrame t p) (s.pickPayload t p) look g)
    (hb : Balanced (s.setPick t p g)) : Follows s (s.setPick t p g) := by
  have hact : MuxActs s.outbox (s.setPick t p g).outbox := by rw [kept_outbox hfree hp hk]
  have hprogress := hk.progressed
  have hwork : (s.holder t).work = none := by rw [hfree]; rfl
  cases p with
  | normal k =>
    obtain ⟨payload, hq⟩ := pick_queued hs hfree hp
    refine hs.queueVisit (k := k) (f := g) hwork ?_ (.inl ⟨rfl, payload, ?_⟩) rfl
      (fun _ => hafter) rfl rfl rfl hb hact
    · rw [← hfree]
      rfl
    · exact hq.progressed hprogress (hq.carries.kept hq.serves hk) rfl rfl
  | special r =>
    obtain ⟨payload, hst⟩ := hs.pool.stored r (specialFor_used hp)
    have hspecial := setPick_special (t := t) s r g
    refine hs.poolStep ⟨rfl, rfl, rfl⟩ (fun _ _ => rfl) List.prefix_rfl
      (hs.pool.worked hst hprogress (hst.carries.kept hst.serves hk) hspecial rfl rfl)
      (hs.marks.update (r := r) (fun r' hr => (hspecial r').trans (if_neg hr)) (fun u => ?_)
        fun _ _ _ => Iff.rfl) hact
    refine (hs.marks u r).trans ?_
    have hlink : g.link = (s.special r).frame.link := hprogress.link
    have hzero : g.txOffset = (s.special r).frame.txOffset := hk.txOffset
    unfold Mux.Started Mux.specialFor
    rw [hspecial, if_pos rfl]
    dsimp only
    rw [hlink, hzero]

theorem Faithful.dropped {result : EspErr} {after : List Aftermath} (hs : Faithful s)
    (hfree : s.holder t = .free) (hafter : s.after t = []) (hp : s.CanPick t p)
    (hup : GivenUp (s.pickFrame t p) result after) (hb : Balanced (s.dropFrame t p result after)) :
    Follows s (s.dropFrame t p result after) := by
  obtain ⟨payload, m, hship, -⟩ := pick_shipment hs hfree hp
  have hact : MuxActs s.outbox (s.dropFrame t p result after).outbox :=
    .single (dropFrame_act hfree hafter hp hship.message
      (iff_of_false hup.failed hship.lt.ne) hup.complete)
  have hwork : (s.holder t).work = none := by rw [hfree]; rfl
  cases p with
  | normal k =>
    exact hs.queueVisit (k := k) (f := s.frame t k) (h := .releasing k (.worker after)) hwork
      Mux.holder_queues (.inr ⟨_, rfl⟩) rfl (fun _ => hafter) rfl rfl rfl hb hact
  | special r =>
    have haside := s.releaseSpecial_aside r result
    refine hs.poolStep ⟨haside.queues.queues, haside.queues.arenas, haside.queues.quota⟩
      (fun u hu => ?_) ?_ ((hs.pool.release r result).samePool rfl List.prefix_rfl)
      ((hs.marks.release (specialFor_used hp)).samePool rfl) hact
    · have hne : u ≠ t := by
        rintro rfl
        rw [hfree] at hu
        cases hu
      exact (Function.update_of_ne hne _ _).trans (congrFun haside.wire.after u)
    · exact (releaseSpecial_accepted s r result).symm ▸ List.prefix_rfl

theorem started_iff {u : Target} (hused : (s.special r).used = true)
    (htarget : targetIndex (s.special r).frame.link = some t)
    (hbegun : (s.special r).frame.txOffset ≠ 0) : s.Started u r ↔ u = t := by
  refine ⟨fun h => Option.some.inj ((specialFor_target h.1).symm.trans htarget), ?_⟩
  rintro rfl
  refine ⟨?_, hbegun⟩
  unfold Mux.specialFor
  simp [hused, htarget]

/-- A started frame is the only one for its target. -/
theorem taken_marks {source : ℕ → List UInt8} {n : ℕ} {progressMs : UInt32} (hs : Faithful s)
    (hfree : s.holder t = .free) (hp : s.chooseFrame t look = some (.special r))
    (hg : (s.special r).frame.Progressed g) (hpos : 0 < n) (hmore : g.txOffset + n < g.totalLen) :
    Marks (s.taken t (.special r) g source n progressMs) := by
  have hfor : s.specialFor t r = true := (Mux.chooseFrame_canPick hp).1
  have hmarked : (s.taken t (.special r) g source n progressMs).pool.partialFrame =
      Function.update s.pool.partialFrame t (some r) := if_pos hmore
  have hlink : targetIndex g.link = some t := hg.link.symm ▸ specialFor_target hfor
  have hstarted : ∀ u, (s.taken t (.special r) g source n progressMs).Started u r ↔ u = t := by
    intro u
    have hspecial := taken_special s t r g source n progressMs r
    rw [if_pos rfl] at hspecial
    refine started_iff ?_ ?_ ?_ <;> rw [hspecial]
    · exact specialFor_used hfor
    · exact hlink
    · exact (Nat.add_pos_right _ hpos).ne'
  refine hs.marks.update (r := r) (fun r' hr => (taken_special ..).trans (if_neg hr)) (fun u => ?_)
    fun u r' hr => ?_
  · rw [hstarted, hmarked]
    by_cases hu : u = t
    · subst hu
      simp
    · rw [Function.update_of_ne hu, hs.marks u r]
      refine iff_of_false (fun h => hu ?_) hu
      exact Option.some.inj ((specialFor_target h.1).symm.trans (specialFor_target hfor))
  · rw [hmarked]
    by_cases hu : u = t
    · subst hu
      rw [Function.update_self]
      refine iff_of_false (fun h => hr (Option.some.inj h).symm) fun h => ?_
      obtain ⟨hfor', hbegun⟩ := (hs.marks u r').mp h
      have hsite := chosen_alone hs hfree hp (.inr r') _
        (live_some (if_pos (specialFor_used hfor'))) ?_ hbegun
      · exact hr (Sum.inr.inj hsite)
      · exact (specialFor_target hfor').trans (specialFor_target hfor).symm
    · rw [Function.update_of_ne hu]

/-- A special frame whose last bytes were taken leaves the pool. -/
theorem finished_pool (source : ℕ → List UInt8) {n : ℕ} (progressMs : UInt32) {s₁ : Mux}
    (hs : Faithful s) (hfor : s.specialFor t r = true) (hg : (s.special r).frame.Progressed g)
    (hpos : 0 < n) (hall : g.totalLen ≤ g.txOffset + n)
    (hs₁ : s₁ = (s.taken t (.special r) g source n progressMs).releaseSpecial r espOk) :
    PoolOk s₁ ∧ Marks s₁ := by
  have hspecial := taken_special s t r g source n progressMs
  have hstorage := (markProgress_frames s t (.special r) g (g.after n progressMs)).2
  have hmarked : (s.taken t (.special r) g source n progressMs).pool.partialFrame =
      s.pool.partialFrame := if_neg (Nat.not_lt_of_le hall)
  have haccepted : (s.taken t (.special r) g source n progressMs).accepted = s.accepted := rfl
  have htaken : (s.taken t (.special r) g source n progressMs).pool.storage = s.pool.storage :=
    hstorage
  set u := s.taken t (.special r) g source n progressMs
  have hself := hspecial r
  rw [if_pos rfl] at hself
  have hused : (u.special r).used = true := by
    rw [hself]
    exact specialFor_used hfor
  subst hs₁
  refine ⟨hs.pool.keep ((releaseSpecial_storage u r espOk).trans htaken)
    ((releaseSpecial_accepted u r espOk).trans haccepted) fun r' hr' => ?_, ?_⟩
  · obtain ⟨-, hne, hsame⟩ := releaseSpecial_used hr'
    exact .inl (hsame.trans ((hspecial r').trans (if_neg hne)))
  · obtain ⟨hmark, hothers⟩ := releaseSpecial_marks espOk hused fun v hv => by
      rw [hmarked] at hv
      rw [hself]
      refine ⟨(Nat.add_pos_right _ hpos).ne', ?_⟩
      rw [hg.link]
      exact specialFor_target ((hs.marks v r).mp hv).1
    refine hs.marks.update (r := r) (fun r' hr => ?_) (fun v => ?_) fun v r' hr => ?_
    · rw [releaseSpecial_special, if_neg fun h => hr h.2, hspecial, if_neg hr]
    · exact iff_of_false (hmark v) (not_started_of_unused (releaseSpecial_unused r espOk))
    · rw [hothers v r' hr, hmarked]

theorem Faithful.sent {n : ℕ} {progressMs : UInt32} (hs : Faithful s) (hfree : s.holder t = .free)
    (hafter : s.after t = []) (hp : s.chooseFrame t look = some p)
    (hg : Writable (s.pickFrame t p) (s.pickPayload t p) look g) (hpos : 0 < n)
    (hle : n ≤ (g.offered (s.pickPayload t p)).length)
    (hb : Balanced (s.transmit t p g (s.pickPayload t p) n progressMs)) :
    Follows s (s.transmit t p g (s.pickPayload t p) n progressMs) := by
  have hact := transmit_acts progressMs hs hfree hafter hp hg hpos hle
  have hcan := (Mux.chooseFrame_canPick hp).1
  have hprogress := hg.progressed
  have hsent : (s.pickFrame t p).Progressed (g.after n progressMs) := hprogress.trans rfl
  have hwork : (s.holder t).work = none := by rw [hfree]; rfl
  rw [transmit_eq] at hact hb ⊢
  cases p with
  | normal k =>
    obtain ⟨payload, hq⟩ := pick_queued hs hfree hcan
    have hcarries := hq.carries.writable hq.serves hg
    split_ifs at hact hb ⊢ with hall
    · exact hs.queueVisit (k := k) (f := g.after n progressMs)
        (h := .releasing k (.worker (Drop.after ⟨espOk, false, false, false⟩ g))) hwork
        Mux.work_queues (.inr ⟨_, rfl⟩) rfl (fun _ => hafter) rfl rfl rfl hb hact
    · refine hs.queueVisit (k := k) (f := g.after n progressMs) hwork ?_ (.inl ⟨rfl, payload, ?_⟩) rfl
        (fun _ => hafter) rfl rfl rfl hb hact
      · rw [← hfree]
        rfl
      · exact hq.progressed hsent (hcarries.sent ⟨hg.begun.1, hg.begun.2.1⟩
          (Nat.lt_of_not_le hall)) rfl rfl
  | special r =>
    obtain ⟨payload, hst⟩ := hs.pool.stored r (specialFor_used hcan)
    have hcarries := hst.carries.writable hst.serves hg
    have hstorage := (markProgress_frames s t (.special r) g (g.after n progressMs)).2
    split_ifs at hact hb ⊢ with hall
    · obtain ⟨hpool, hmarks⟩ := finished_pool (s.pickPayload t (.special r)) progressMs hs
        hcan hprogress hpos hall rfl
      have haside := (s.taken t (.special r) g (s.pickPayload t (.special r)) n
        progressMs).releaseSpecial_aside r espOk
      refine hs.poolStep ⟨haside.queues.queues, haside.queues.arenas, haside.queues.quota⟩
        (fun u hu => ?_) ?_ (hpool.samePool rfl List.prefix_rfl) (hmarks.samePool rfl) hact
      · have hne : u ≠ t := by
          rintro rfl
          rw [hfree] at hu
          cases hu
        exact (Function.update_of_ne hne _ _).trans (congrFun haside.wire.after u)
      · exact (releaseSpecial_accepted _ r espOk).symm ▸ List.prefix_rfl
    · exact hs.poolStep ⟨rfl, rfl, rfl⟩ (fun _ _ => rfl) List.prefix_rfl
        (hs.pool.worked hst hsent (hcarries.sent ⟨hg.begun.1, hg.begun.2.1⟩
          (Nat.lt_of_not_le hall)) (taken_special s t r g _ n progressMs) hstorage rfl)
        (taken_marks hs hfree hp hprogress hpos (Nat.lt_of_not_le hall)) hact

theorem Faithful.visit (hs : Faithful s) (h : s.processTarget t look = some s') : Follows s s' := by
  have hb := hs.balanced.visited (Mux.processTarget_visited h).2.2
  obtain ⟨hafter, hfree, hvisit⟩ := Mux.processTarget_visit h
  cases hvisit with
  | idle => exact ⟨hs, .refl⟩
  | dropped p result after hp hup => exact hs.dropped hfree hafter hp hup hb
  | kept p g hp hk => exact hs.kept hfree hafter hp hk hb
  | sent p g n progressMs hp hg hpos hle => exact hs.sent hfree hafter hp hg hpos hle hb

/-! ## Moves of the pool -/

/-- A frame that is replaced leaves without a word. -/
theorem replace_act (hs : Faithful s) (hused : (s.special r).used = true) (hkind : r.kind ≠ .large) :
    MuxAct s.outbox (s.releaseSpecial r espErrInvalidState).outbox := by
  have hsite : s.frameAt (.inr r) = some (s.special r).frame := if_pos hused
  obtain ⟨payload, m, hship⟩ := shipment hs.contents hs.pool hsite
  obtain ⟨hdue, haccepted, hcompleted⟩ := releaseSpecial_rest s r espErrInvalidState
  have haside := s.releaseSpecial_aside r espErrInvalidState
  have heq : (s.releaseSpecial r espErrInvalidState).outbox =
      s.outbox.forget (.inr r) (s.special r).frame.item espErrInvalidState := by
    refine Outbox.State.ext ?_ ?_ (releaseSpecial_left hused) ?_ ?_ haside.wire.wire
      haside.wire.segments
    · exact (funext fun y => by rw [Mux.outbox, frameAt_release _ hused]).trans (map_update _)
    · simp [Mux.outbox, haccepted, State.forget]
    · simp [Mux.outbox, Mux.owed, pendingOf_release, hdue, State.forget]
    · simp [Mux.outbox, hcompleted, State.forget]
  rw [heq]
  exact .forget _ _ m _ (live_some hsite) hship.message
    (iff_of_false espErrInvalidState_ne hship.lt.ne) (hship.silent.mpr ⟨r, rfl, hkind⟩)

theorem cancel_act (hs : Faithful s) (hused : (s.special r).used = true) :
    MuxAct s.outbox ({ s.releaseSpecial r espErrInvalidState with
      due := s.due ++ [(s.special r).frame.completionOf espErrInvalidState] } : Mux).outbox := by
  have hsite : s.frameAt (.inr r) = some (s.special r).frame := if_pos hused
  obtain ⟨payload, m, hship⟩ := shipment hs.contents hs.pool hsite
  obtain ⟨-, haccepted, hcompleted⟩ := releaseSpecial_rest s r espErrInvalidState
  have haside := s.releaseSpecial_aside r espErrInvalidState
  refine leave_act hsite hship.message (iff_of_false espErrInvalidState_ne hship.lt.ne)
    (frameAt_release espErrInvalidState hused) (releaseSpecial_left hused) ?_ haccepted
    ⟨hcompleted, haside.wire.wire, haside.wire.segments⟩
  have hpending := pendingOf_release s r espErrInvalidState
  unfold Mux.owed
  rw [show Mux.pendingOf { s.releaseSpecial r espErrInvalidState with
    due := s.due ++ [(s.special r).frame.completionOf espErrInvalidState] } = s.pendingOf from hpending]
  rw [List.map_append, ← Multiset.coe_add, add_assoc]
  rfl

theorem put_act {sp : Special} {payload : List UInt8} (hfree : (s.special r).used = false)
    (hp : Puts s r sp payload) : MuxAct s.outbox (s.putSpecial r sp payload).outbox := by
  have hspecial := fun x => putSpecial_special (r := x) s r sp payload
  have hself := hspecial r
  rw [if_pos rfl] at hself
  refine accept_act (x := .inr r) (f := (s.putSpecial r sp payload).special r |>.frame) ?_ ?_ ?_ ?_ ?_
    rfl rfl rfl rfl rfl rfl
  · exact if_neg (by simp [hfree])
  · have hqueues : (s.putSpecial r sp payload).queues = s.queues := rfl
    refine (frameAt_special (r := r) hqueues fun r' hr => (hspecial r').trans (if_neg hr)).trans ?_
    rw [specialFrame, hself, if_pos hp.used]
  · rw [hself]
  · rw [hself]
    rfl
  · rw [hself]
    exact hp.txOffset

theorem refill_outbox {q : Pool} (hframes : q.frames = s.pool.frames) :
    ({ s with pool := q } : Mux).outbox = s.outbox := by
  have hat : ({ s with pool := q } : Mux).frameAt = s.frameAt := by
    funext y
    cases y with
    | inl i => rfl
    | inr r => exact congrArg specialFrame (congrFun hframes r)
  refine Outbox.State.ext ?_ rfl rfl rfl rfl rfl rfl
  exact funext fun y => by rw [Mux.outbox, hat]; rfl

theorem Faithful.poolMove (hs : Faithful s) (h : PoolMove s s') : Follows s s' := by
  have hpool := hs.pool.move h
  cases h with
  | order n =>
    exact hs.poolStep ⟨rfl, rfl, rfl⟩ (fun _ _ => rfl) List.prefix_rfl hpool (hs.marks.samePool rfl)
      .refl
  | replace r hused hzero hkind =>
    have haside := s.releaseSpecial_aside r espErrInvalidState
    exact hs.poolStep haside.queues (fun u _ => congrFun haside.wire.after u)
      ((releaseSpecial_accepted s r _).symm ▸ List.prefix_rfl) hpool (hs.marks.release hused)
      (.single (replace_act hs hused hkind))
  | cancel r hused hzero =>
    have haside := s.releaseSpecial_aside r espErrInvalidState
    exact hs.poolStep ⟨haside.queues.queues, haside.queues.arenas, haside.queues.quota⟩
      (fun u _ => congrFun haside.wire.after u)
      ((releaseSpecial_accepted s r espErrInvalidState).symm ▸ List.prefix_rfl) hpool
      ((hs.marks.release hused).samePool rfl) (.single (cancel_act hs hused))
  | refill q slot payload hr hframes hmarks hunread =>
    refine hs.poolStep ⟨rfl, rfl, rfl⟩ (fun _ _ => rfl) List.prefix_rfl hpool (fun u r => ?_)
      (by rw [refill_outbox hframes])
    refine (congrArg (fun m : Target → Option SpecialRef => m u = some r) hmarks).to_iff.trans
      ((hs.marks u r).trans ?_)
    unfold Mux.Started Mux.specialFor Mux.special
    rw [hframes]
  | put r sp payload hfree hp =>
    have hspecial := fun x => putSpecial_special (r := x) s r sp payload
    refine hs.poolStep ⟨rfl, rfl, rfl⟩ (fun _ _ => rfl) (List.prefix_append _ _) hpool
      (hs.marks.update (r := r) (fun r' hr => (hspecial r').trans (if_neg hr)) (fun u => ?_)
        fun _ _ _ => Iff.rfl) (.single (put_act hfree hp))
    refine (hs.marks u r).trans (iff_of_false (not_started_of_unused hfree)
      (not_started_of_zero ?_))
    rw [hspecial, if_pos rfl]
    exact hp.txOffset

theorem Faithful.poolMoves (hs : Faithful s) (h : PoolMoves s s') : Follows s s' := by
  induction h with
  | refl => exact ⟨hs, .refl⟩
  | tail _ hmove ih =>
    obtain ⟨hf, hacts⟩ := ih.faithful.poolMove hmove
    exact ⟨hf, ih.acts.trans hacts⟩

/-! ## Cancellation and completions -/

/-- A cancellation drops a frame of which nothing was sent. -/
structure ScanDrops (s s' : Mux) (t : Target) (k : FrameSlot) (i : ℕ) (which : Cancel) : Prop where
  work : (s.holder t).work = none
  aftermath : (s.holder t).aftermath = []
  used : (s.frame t k).used = true
  unstarted : (s.frame t k).txOffset = 0
  result : s' = { s.beginRelease t k espErrInvalidState (.cancel i which) with
    due := s.due ++ [(s.frame t k).completionOf espErrInvalidState] }

theorem scan_cases (hs : Orderly s) (h : s.scan t = some s') :
    Quiet s s' ∨ ∃ k i which, ScanDrops s s' t k i which := by
  unfold Mux.scan at h
  split at h
  · rename_i i which hh
    have hw : (s.holder t).work = none := by rw [hh]; rfl
    have ha : (s.holder t).aftermath = [] := by rw [hh]; rfl
    split_ifs at h with hi
    · dsimp only at h
      split_ifs at h with hdrop
      · simp only [Bool.and_eq_true, beq_iff_eq] at hdrop
        exact .inr ⟨⟨i, hi⟩, i + 1, which, hw, ha, hdrop.1.1, hdrop.2, (Option.some.inj h).symm⟩
      · obtain rfl := Option.some.inj h
        exact .inl (setHolder_quiet hs hw rfl ha.symm (by rw [hh]; rfl))
    · obtain rfl := Option.some.inj h
      exact .inl (setHolder_quiet hs hw rfl ha.symm (by rw [hh]; rfl))
  · cases h

theorem ScanDrops.site {i : ℕ} {which : Cancel} (h : ScanDrops s s' t k i which) :
    s.frameAt (.inl (t, k)) = some (s.frame t k) := by
  refine entryFrame_some.mpr ?_
  rw [show s.entry (t, k) = (.rest, s.frame t k) from Prod.ext (stageAt_none h.work k) rfl]
  exact ⟨⟨rfl, h.used⟩, rfl⟩

theorem ScanDrops.pending {i : ℕ} {which : Cancel} (h : ScanDrops s s' t k i which) :
    s'.pendingOf = s.pendingOf := by
  rw [h.result]
  exact pendingOf_same Mux.setHolder_queues rfl h.aftermath.symm

theorem ScanDrops.act {i : ℕ} {which : Cancel} (hs : Faithful s) (h : ScanDrops s s' t k i which) :
    MuxAct s.outbox s'.outbox := by
  obtain ⟨payload, m, hship⟩ := shipment hs.contents hs.pool h.site
  have hpending := h.pending
  have hstage : (Holder.releasing k (.cancel i which)).work = some (k, .releasing) := rfl
  obtain rfl := h.result
  refine leave_act h.site hship.message (iff_of_false espErrInvalidState_ne hship.lt.ne) ?_ rfl
    ?_ rfl ⟨rfl, rfl, rfl⟩
  · refine (frameAt_entry (Mux.entry_update Mux.setHolder_queues (onlyAt_none h.work k)
      (onlyAt_work hstage) fun j hj => rfl) rfl).trans (congrArg (Function.update _ _)
        (entryFrame_none (not_live_of_stage ?_)))
    rw [Queue.entry, stageAt_of_work hstage]
    exact Stage.noConfusion
  · rw [Mux.owed, hpending, List.map_append, ← Multiset.coe_add, ← add_assoc]
    rfl

theorem Faithful.scan (hs : Faithful s) (h : s.scan t = some s') : Follows s s' := by
  have hb := hs.balanced.scan h
  rcases scan_cases hs.orderly h with hquiet | ⟨k, i, which, hdrop⟩
  · exact hs.quiet hquiet hb
  · have hact := hdrop.act hs
    obtain rfl := hdrop.result
    exact hs.queueVisit (k := k) (f := s.frame t k) (h := .releasing k (.cancel i which)) hdrop.work
      Mux.holder_queues (.inr ⟨_, rfl⟩) rfl (fun hf => Bool.noConfusion hf) rfl rfl rfl hb
      (.single hact)

theorem results_append (l l' : List Aftermath) : results (l ++ l') = results l + results l' := by
  unfold results
  rw [List.filterMap_append, List.map_append, Multiset.coe_add]

/-- A holder that is not the worker leaves nothing to the worker. -/
theorem aftermath_of_not_worker {h : Holder} (hw : h.isWorker = false) : h.aftermath = [] := by
  cases h with
  | releasing k next | unreserving k next | clearing k next =>
    cases next with
    | worker after => cases hw
    | cancel i which => rfl
  | _ => rfl

/-- The frames, the submissions and the wires are as before. -/
structure SameMessages (s s' : Mux) : Prop where
  frameAt : s'.frameAt = s.frameAt
  accepted : s'.accepted = s.accepted
  left : s'.left = s.left
  wire : s'.wire = s.wire
  segments : s'.segments = s.segments

/-- A completion that was due has run. -/
theorem tell_act {c : Completion} (h : SameMessages s s') (howed : s.owed = s'.owed + {c.outcome})
    (hcompleted : s'.completed = s.completed ++ [c]) : MuxAct s.outbox s'.outbox := by
  have heq : s'.outbox = { s.outbox with
      owed := s'.owed, told := s.outbox.told + {c.outcome} } := by
    refine Outbox.State.ext ?_ ?_ h.left rfl ?_ h.wire h.segments
    · exact funext fun y => by rw [Mux.outbox, h.frameAt]; rfl
    · simp [Mux.outbox, h.accepted]
    · rw [Mux.outbox, hcompleted, List.map_append, ← Multiset.coe_add]
      rfl
  rw [heq]
  exact .tell _ _ howed

/-- The worker has done one of the things that follow a visit. -/
theorem Faithful.popped {a : Aftermath} {rest : List Aftermath} (hs : Faithful s)
    (ha : s.after t = a :: rest) (hs' : s' = { s.setAfter t rest with
      registry := s'.registry, completed := s.completed ++ a.completion.toList }) :
    Follows s s' := by
  have hworker : ∀ u, (s.holder u).isWorker = true → u ≠ t := by
    rintro u hu rfl
    rw [hs.orderly u hu] at ha
    cases ha
  have hnil : (s.holder t).aftermath = [] :=
    aftermath_of_not_worker (Bool.eq_false_iff.mpr fun hw => hworker t hw rfl)
  have hpending : s'.pendingOf = Function.update s.pendingOf t rest := by
    have hqueues : s'.queues = Function.update s.queues t (s.queues t) := by
      rw [Function.update_eq_self, hs']
      rfl
    have hafter : s'.after = Function.update s.after t rest := by rw [hs']; rfl
    rw [pendingOf_update hqueues hafter, show (s.queues t).holder.aftermath = [] from hnil]
    rfl
  have howed : s.owed = s'.owed + results [a] := by
    have htotal := total_update (w := fun _ => results) (f := s.pendingOf) (i := t) (x := rest)
    have hold : s.pendingOf t = [a] ++ rest := by rw [Mux.pendingOf, hnil, ha]; rfl
    rw [hold, results_append, ← add_assoc] at htotal
    rw [Mux.owed, Mux.owed, hpending, ← add_right_cancel htotal, add_right_comm, hs']
    rfl
  have hsame : SameMessages s s' := by rw [hs']; exact ⟨rfl, rfl, rfl, rfl, rfl⟩
  have hact : MuxActs s.outbox s'.outbox := by
    cases hc : a.completion with
    | none =>
      have hequal : s'.outbox = s.outbox := by
        refine Outbox.State.ext ?_ ?_ hsame.left ?_ ?_ hsame.wire hsame.segments
        · exact funext fun y => by rw [Mux.outbox, hsame.frameAt]; rfl
        · simp [Mux.outbox, hsame.accepted]
        · have hsome : s.owed = s'.owed := by simpa [results, hc] using howed
          exact hsome.symm
        · have hcompleted : s'.completed = s.completed := by
            rw [hs', hc]
            exact List.append_nil _
          rw [Mux.outbox, hcompleted]
          rfl
      rw [hequal]
    | some c =>
      exact .single (tell_act (c := c) hsame (by simpa [results, hc] using howed)
        (by rw [hs', hc]; rfl))
  refine hs.poolStep ?_ (fun u hu => ?_) ?_ (hs.pool.samePool ?_ ?_) (hs.marks.samePool ?_) hact
  · rw [hs']
    exact ⟨rfl, rfl, rfl⟩
  · rw [hs']
    exact Function.update_of_ne (hworker u hu) _ _
  all_goals rw [hs']
  all_goals rfl

theorem Faithful.afterwards (hs : Faithful s) (h : s.afterwards t = some s') : Follows s s' := by
  unfold Mux.afterwards at h
  split at h
  · rename_i ha
    refine hs.popped ha ?_
    obtain rfl := Option.some.inj h
    simp [Aftermath.completion, Mux.setAfter]
  · rename_i ha
    refine hs.popped ha ?_
    obtain rfl := Option.some.inj h
    simp [Aftermath.completion, Mux.setAfter]
  · cases h

theorem Faithful.closeLink (hs : Faithful s) (h : s.closeLink t = some s') : Follows s s' := by
  unfold Mux.closeLink at h
  split at h
  · rename_i ha
    refine hs.popped ha ?_
    obtain rfl := Option.some.inj h
    simp [Aftermath.completion, Mux.setAfter]
  · cases h

theorem Faithful.runDue {i : ℕ} (hs : Faithful s) (h : s.runDue i = some s') : Follows s s' := by
  unfold Mux.runDue at h
  split_ifs at h with hi
  obtain rfl := Option.some.inj h
  refine hs.poolStep ⟨rfl, rfl, rfl⟩ (fun _ _ => rfl) List.prefix_rfl
    (hs.pool.samePool rfl List.prefix_rfl) (hs.marks.samePool rfl) (.single ?_)
  have hdue : ((s.due.map Completion.outcome : List _) : Multiset (ℕ × EspErr)) =
      ((s.due.eraseIdx i).map Completion.outcome : List _) + {s.due[i].outcome} := by
    have hperm := (List.getElem_cons_eraseIdx_perm hi).map Completion.outcome
    rw [← Multiset.coe_eq_coe.mpr hperm, List.map_cons, ← Multiset.cons_coe, add_comm,
      Multiset.singleton_add]
  refine tell_act (c := s.due[i]) ⟨rfl, rfl, rfl, rfl, rfl⟩ ?_ rfl
  rw [Mux.owed, hdue, ← add_assoc]
  rfl

/-! ## Runs -/

/-- The steps that can change which links are current. -/
def Step.changesLinks : Step → Bool
  | .link _ | .closeLink _ => true
  | _ => false

/-- What a step comes to. -/
inductive Happens (s s' : Mux) : Step → Prop
  | quiet (l : Step) (quiet : Quiet s s') (links : l.changesLinks = false) : Happens s s' l
  | fill (t : Target) (accepted : s.fill t = some s') : Happens s s' (.fill t)
  | scan (t : Target) (scanned : s.scan t = some s') : Happens s s' (.scan t)
  | pool (l : Step) (moves : PoolMoves s s') (links : l.changesLinks = false) : Happens s s' l
  | visit (t : Target) (look : WorkerLook) (visited : s.processTarget t look = some s') :
      Happens s s' (.processTarget t look)
  | afterwards (t : Target) (done : s.afterwards t = some s') : Happens s s' (.afterwards t)
  | closeLink (t : Target) (closed : s.closeLink t = some s') : Happens s s' (.closeLink t)
  | complete (i : ℕ) (ran : s.runDue i = some s') : Happens s s' (.complete i)
  | link (change : LinkChange) (changed : s' = { s with registry := change.apply s.registry }) :
      Happens s s' (.link change)

theorem map_pair {α ε : Type} {o : Option α} {a : α} {e e' : ε}
    (h : (o.map fun a => (a, e)) = some (a, e')) : o = some a := by
  obtain ⟨b, hb, he⟩ := Option.map_eq_some_iff.mp h
  obtain ⟨rfl, -⟩ := Prod.mk.inj he
  exact hb

theorem next_happens {l : Step} {r : Reply} (ho : Orderly s) (hp : PoolOk s)
    (h : s.next l = some (s', r)) : Happens s s' l := by
  cases l with
  | enqueue o metadata payload ticket look =>
    have he := s.enqueue_enqueued o metadata payload ticket look
    rw [Option.some.inj h] at he
    exact .quiet _ (he.quiet ho) rfl
  | reserve t => exact .quiet _ (reserve_quiet ho h) rfl
  | allocate t => exact .quiet _ (allocate_quiet ho (map_pair h)) rfl
  | refuse t =>
    obtain ⟨u, hu, he⟩ := Option.map_eq_some_iff.mp h
    obtain ⟨rfl, -⟩ := Prod.mk.inj he
    exact .quiet _ (refuse_quiet ho hu) rfl
  | fill t => exact .fill t (map_pair h)
  | release t => exact .quiet _ (release_quiet ho (map_pair h)) rfl
  | unreserve t => exact .quiet _ (unreserve_quiet ho (map_pair h)) rfl
  | clear t => exact .quiet _ (clear_quiet ho (map_pair h)) rfl
  | cancel t which => exact .quiet _ (cancel_quiet ho (map_pair h)) rfl
  | scan t => exact .scan t (map_pair h)
  | submitSpecial o metadata payload isLarge ticket look mutexTaken malloc =>
    have hm : PoolMoves s (s.submitSpecial o metadata payload isLarge ticket look mutexTaken
      malloc).1 := submitSpecial_moves hp
    rw [Option.some.inj h] at hm
    exact .pool _ hm rfl
  | publishObservers metadata payload looks malloc =>
    have hm : PoolMoves s (s.publishObservers metadata payload looks malloc).1 :=
      publishObservers_moves hp
    rw [Option.some.inj h] at hm
    exact .pool _ hm rfl
  | cancelSpecial which =>
    obtain ⟨rfl, -⟩ := Prod.mk.inj (Option.some.inj h)
    exact .pool _ (cancelSpecial_moves s which) rfl
  | processTarget t look => exact .visit t look (map_pair h)
  | afterwards t => exact .afterwards t (map_pair h)
  | closeLink t => exact .closeLink t (map_pair h)
  | complete i => exact .complete i (map_pair h)
  | link change => exact .link change (Prod.mk.inj (Option.some.inj h)).1.symm

/-- The outbox can follow every step. -/
theorem Faithful.next {l : Step} {r : Reply} (hs : Faithful s) (h : s.next l = some (s', r)) :
    Follows s s' := by
  have hb := hs.balanced.next h
  cases next_happens hs.orderly hs.pool h with
  | quiet l hquiet hl => exact hs.quiet hquiet hb
  | fill t hfill => exact hs.fill hfill
  | scan t hscan => exact hs.scan hscan
  | pool l hmoves hl => exact hs.poolMoves hmoves
  | visit t look hvisit => exact hs.visit hvisit
  | afterwards t hdone => exact hs.afterwards hdone
  | closeLink t hclosed => exact hs.closeLink hclosed
  | complete i hran => exact hs.runDue hran
  | link change hchanged =>
    subst hchanged
    exact hs.poolStep ⟨rfl, rfl, rfl⟩ (fun _ _ => rfl) List.prefix_rfl
      (hs.pool.samePool rfl List.prefix_rfl) (hs.marks.samePool rfl) .refl

theorem faithful_init (registry : Registry) : Faithful { registry := registry } where
  balanced := balanced_init registry
  orderly t ht := by cases ht
  offers t k payload ht := by cases ht
  contents i hi := absurd hi.2 Bool.false_ne_true
  pool := by
    refine ⟨⟨fun _ _ => rfl, ?_, ?_⟩, fun r hr => by cases hr⟩
    · intro slot ptr h
      cases slot <;> cases h
    · intro slot slot' ptr h
      cases slot <;> cases h
  marks t r := iff_of_false (by rintro ⟨⟩) (not_started_of_unused rfl)
  sound := by
    refine sound_empty _ (fun x => ?_) rfl rfl ?_ rfl (fun _ => rfl) fun _ => rfl
    · cases x <;> rfl
    · exact (congrArg (· + _) (total_zero fun _ => rfl)).trans rfl

theorem faithful_of_reaches {h : List (Step × Reply)} (hr : Reaches mux h s) : Faithful s := by
  refine hr.stateInvariant (I := Faithful) ?_ ?_
  · rintro s ⟨registry, rfl⟩
    exact faithful_init registry
  · rintro s ⟨l, r⟩ s' hs ⟨-, hnext⟩
    exact (hs.next hnext).faithful

/-- The outbox can follow every run. -/
theorem Faithful.path {h : List (Step × Reply)} (hs : Faithful s) (hp : Path mux s h s') :
    Follows s s' := by
  induction hp with
  | nil s => exact ⟨hs, .refl⟩
  | cons hstep _ ih =>
    obtain ⟨hf, hacts⟩ := hs.next hstep.2
    obtain ⟨hf', hacts'⟩ := ih hf
    exact ⟨hf', hacts.trans hacts'⟩

end

end EspVision.MuxTx
