import EspVision.MuxContents
import EspVision.Outbox

/-!
# The multiplexer as an outbox

The queues and the pool together are an outbox: an accepted submission is a message whose bytes are
its encoding, the frame that carries it is at a site, and the targets are the lanes. Every step of
the multiplexer is a sequence of steps of the outbox.
-/
namespace EspVision.MuxTx

open EvTransport EvMux EvSession Host TransitionSystem Ledger Outbox

/-! ## The outbox of a state -/

theorem SpecialRef.mem_all (r : SpecialRef) : r ∈ SpecialRef.all := by
  cases r with
  | preview i => exact List.mem_append.mpr (.inl (List.mem_map_of_mem (List.mem_finRange i)))
  | large => exact List.mem_append.mpr (.inr (List.mem_singleton.mpr rfl))

instance : Fintype SpecialRef where
  elems := SpecialRef.all.toFinset
  complete r := List.mem_toFinset.mpr r.mem_all

/-- Where a frame can be. -/
abbrev Site := Place ⊕ SpecialRef

def Frame.item (f : Frame) : Item LinkRef := ⟨f.id, f.link, f.txOffset⟩

/-- The frame at a site that was accepted and has not left. -/
def entryFrame (e : Entry) : Option Frame :=
  if e.1 = .rest ∧ e.2.used = true then some e.2 else none

def specialFrame (sp : Special) : Option Frame := if sp.used then some sp.frame else none

def Mux.frameAt (s : Mux) : Site → Option Frame
  | .inl i => entryFrame (s.entry i)
  | .inr r => specialFrame (s.special r)

/-- The bytes of a submission on the wire. -/
def Submission.bytes (sub : Submission) : List UInt8 := wireBytes sub.metadata sub.payload

/-- Nobody is told how the frames end that the next one may replace. -/
def Submission.message (sub : Submission) : Message LinkRef UInt8 where
  chan := sub.link
  bytes := wireBytes sub.metadata sub.payload
  silent := sub.kind == .preview || sub.kind == .observer

def Completion.outcome (c : Completion) : ℕ × EspErr := (c.id, c.result)

/-- The completions that the worker is going to run. -/
def results (l : List Aftermath) : Multiset (ℕ × EspErr) :=
  (l.filterMap Aftermath.completion).map Completion.outcome

namespace Mux

variable (s : Mux)

/-- The completions that are still to be run. -/
def owed : Multiset (ℕ × EspErr) :=
  total (fun _ => results) s.pendingOf + (s.due.map Completion.outcome : List _)

def outbox : State Site LinkRef UInt8 EspErr where
  live x := (s.frameAt x).map Frame.item
  accepted := s.accepted.map Submission.message
  left := s.left
  owed := s.owed
  told := (s.completed.map Completion.outcome : List _)
  wire := s.wire
  segments := s.segments

end Mux

/-- The links of a target are in one lane. -/
abbrev MuxAct : State Site LinkRef UInt8 EspErr → State Site LinkRef UInt8 EspErr → Prop :=
  Act targetIndex espOk

abbrev MuxActs : State Site LinkRef UInt8 EspErr → State Site LinkRef UInt8 EspErr → Prop :=
  Acts targetIndex espOk

/-- A special frame for the target of which something was sent. -/
def Mux.Started (s : Mux) (t : Target) (r : SpecialRef) : Prop :=
  s.specialFor t r = true ∧ (s.special r).frame.txOffset ≠ 0

/-- The marks are on the started special frames. -/
def Marks (s : Mux) : Prop := ∀ t r, s.pool.partialFrame t = some r ↔ s.Started t r

/-- What is so in every state that the multiplexer reaches. -/
structure Faithful (s : Mux) : Prop where
  balanced : Balanced s
  orderly : Orderly s
  offers : Offers s
  contents : Contents s
  pool : PoolOk s
  marks : Marks s
  sound : Sound targetIndex espOk s.outbox

/-- A step that keeps this and that the outbox can follow. -/
structure Follows (s s' : Mux) : Prop where
  faithful : Faithful s'
  acts : MuxActs s.outbox s'.outbox

section

variable {s s' : Mux} {t : Target} {k : FrameSlot} {r : SpecialRef} {x : Site} {f : Frame} {st : Stage}

/-! ## The frames at the sites -/

theorem entryFrame_some {e : Entry} : entryFrame e = some f ↔ Live e ∧ e.2 = f := by
  unfold entryFrame Live
  split_ifs with h <;> simp [h]

theorem entryFrame_none {e : Entry} (h : ¬ Live e) : entryFrame e = none := if_neg h

/-- A frame that was accepted carries what was accepted. -/
structure Shipment (s : Mux) (x : Site) (f : Frame) (payload : List UInt8)
    (m : Message LinkRef UInt8) : Prop where
  message : s.outbox.accepted[f.id]? = some m
  bytes : m.bytes = wireBytes f.metadata payload
  chan : m.chan = f.link
  silent : m.silent = true ↔ ∃ r, x = .inr r ∧ r.kind ≠ .large
  carries : Carries f payload

theorem Shipment.lt {payload : List UInt8} {m : Message LinkRef UInt8}
    (h : Shipment s x f payload m) : f.txOffset < m.bytes.length := by
  rw [h.bytes, wireBytes_length, ← h.carries.totalLen]
  exact h.carries.within

theorem message_accepted {n : ℕ} {sub : Submission} (h : s.accepted[n]? = some sub) :
    s.outbox.accepted[n]? = some sub.message :=
  (List.getElem?_map ..).trans (congrArg (Option.map Submission.message) h)

theorem message_submission {n : ℕ} {m : Message LinkRef UInt8} (hm : s.outbox.accepted[n]? = some m) :
    ∃ sub, s.accepted[n]? = some sub ∧ sub.message = m := by
  have hmap : (s.accepted[n]?).map Submission.message = some m := by
    rw [← List.getElem?_map]
    exact hm
  exact Option.map_eq_some_iff.mp hmap

theorem Queued.shipment {payload : List UInt8} {i : Place} (h : Queued s t f payload) :
    Shipment s (.inl i) f payload
      (f.submission payload .none).message :=
  ⟨message_accepted h.accepted, rfl, rfl, by simp [Submission.message], h.carries⟩

theorem Stored.shipment {payload : List UInt8} (h : Stored s r payload) :
    Shipment s (.inr r) (s.special r).frame payload
      ((s.special r).frame.submission payload r.kind).message := by
  refine ⟨message_accepted h.accepted, rfl, rfl, ?_, h.carries⟩
  cases r with
  | large => simp [Submission.message, SpecialRef.kind]
  | preview i =>
    simp only [Submission.message, SpecialRef.kind]
    split_ifs <;> simp [*]

theorem specialFrame_some {sp : Special} :
    specialFrame sp = some f ↔ sp.used = true ∧ sp.frame = f := by
  unfold specialFrame
  split_ifs with h <;> simp [h]

theorem shipment (hc : Contents s) (hp : PoolOk s) (h : s.frameAt x = some f) :
    ∃ payload m, Shipment s x f payload m := by
  cases x with
  | inl i =>
    obtain ⟨hlive, rfl⟩ := entryFrame_some.mp h
    obtain ⟨payload, hq⟩ := hc i hlive
    exact ⟨payload, _, hq.shipment⟩
  | inr r =>
    obtain ⟨hused, rfl⟩ := specialFrame_some.mp h
    obtain ⟨payload, hst⟩ := hp.stored r hused
    exact ⟨payload, _, hst.shipment⟩

/-! ## Steps and the outbox -/

theorem map_update {o : Option Frame} (g : Site → Option Frame) :
    (fun y => (Function.update g x o y).map Frame.item) =
      Function.update (fun y => (g y).map Frame.item) x (o.map Frame.item) := by
  funext y
  by_cases hy : y = x
  · subst hy
    rw [Function.update_self, Function.update_self]
  · rw [Function.update_of_ne hy, Function.update_of_ne hy]

theorem frameAt_entry {i : Place} {e : Entry} (h : s'.entry = Function.update s.entry i e)
    (hpool : s'.pool.frames = s.pool.frames) :
    s'.frameAt = Function.update s.frameAt (.inl i) (entryFrame e) := by
  funext y
  cases y with
  | inl j =>
    simp only [Mux.frameAt, h]
    by_cases hj : j = i
    · subst hj
      rw [Function.update_self, Function.update_self]
    · rw [Function.update_of_ne hj, Function.update_of_ne fun he => hj (Sum.inl.inj he)]
      rfl
  | inr r =>
    rw [Function.update_of_ne Sum.inr_ne_inl]
    simp only [Mux.frameAt, Mux.special, hpool]

theorem frameAt_special (hqueues : s'.queues = s.queues)
    (h : ∀ r', r' ≠ r → s'.special r' = s.special r') :
    s'.frameAt = Function.update s.frameAt (.inr r) (specialFrame (s'.special r)) := by
  funext y
  cases y with
  | inl j =>
    rw [Function.update_of_ne Sum.inl_ne_inr]
    simp only [Mux.frameAt, Mux.entry, hqueues]
  | inr r' =>
    by_cases hr : r' = r
    · subst hr
      rw [Function.update_self]
      rfl
    · rw [Function.update_of_ne fun he => hr (Sum.inr.inj he)]
      simp only [Mux.frameAt, h r' hr]

/-- A step that leaves the accepted frames alone leaves the outbox alone. -/
theorem Quiet.outbox (h : Quiet s s') : s'.outbox = s.outbox := by
  have hframes : s'.frameAt = s.frameAt := by
    funext y
    cases y with
    | inl i =>
      rcases h.entries i with he | ⟨hd, hd'⟩
      · simp only [Mux.frameAt, he]
      · exact (entryFrame_none hd').trans (entryFrame_none hd).symm
    | inr r => simp only [Mux.frameAt, Mux.special, h.rest.pool]
  have hpending : s'.pendingOf = s.pendingOf := funext h.pending
  unfold Mux.outbox Mux.owed
  rw [hframes, hpending, h.rest.due, h.rest.accepted, h.rest.left, h.rest.completed, h.rest.wire,
    h.rest.segments]

theorem PoolOk.samePool (hs : PoolOk s) (hpool : s'.pool = s.pool)
    (haccepted : s.accepted <+: s'.accepted) : PoolOk s' := by
  refine ⟨hpool ▸ hs.storage, fun r hused => ?_⟩
  have hframe : s'.special r = s.special r := by rw [Mux.special, hpool]; rfl
  obtain ⟨payload, hst⟩ := hs.stored r (hframe ▸ hused)
  exact ⟨payload, hst.congr hframe (by rw [hpool]) haccepted⟩

theorem Marks.samePool (hs : Marks s) (hpool : s'.pool = s.pool) : Marks s' := by
  intro t r
  have hmarks := hs t r
  unfold Mux.Started Mux.specialFor Mux.special at hmarks ⊢
  rw [hpool]
  exact hmarks

theorem Faithful.quiet (hs : Faithful s) (h : Quiet s s') (hb : Balanced s') : Follows s s' where
  faithful := ⟨hb, h.orderly, h.offers hs.offers, hs.contents.quiet h,
    hs.pool.samePool h.rest.pool (by rw [h.rest.accepted]), hs.marks.samePool h.rest.pool,
    h.outbox ▸ hs.sound⟩
  acts := by rw [h.outbox]

/-! ## Frames of the queues -/

theorem pendingOf_update {q : Queue} {l : List Aftermath}
    (hq : s'.queues = Function.update s.queues t q) (hafter : s'.after = Function.update s.after t l) :
    s'.pendingOf = Function.update s.pendingOf t (q.holder.aftermath ++ l) := by
  funext t'
  by_cases ht : t' = t
  · subst ht
    rw [Mux.pendingOf, Mux.holder, hq, hafter, Function.update_self, Function.update_self,
      Function.update_self]
  · rw [Function.update_of_ne ht, Mux.pendingOf, Mux.holder, hq, hafter, Function.update_of_ne ht,
      Function.update_of_ne ht]
    rfl

/-- A queue without a release has nothing to leave to the worker. -/
theorem pendingOf_same {q : Queue} (hq : s'.queues = Function.update s.queues t q)
    (hafter : s'.after = s.after) (h : q.holder.aftermath = (s.holder t).aftermath) :
    s'.pendingOf = s.pendingOf := by
  rw [pendingOf_update (l := s.after t) hq (by rw [hafter, Function.update_eq_self]), h]
  exact Function.update_eq_self _ _

theorem frameAt_work (hw : (s.holder t).work = some (k, st)) (hst : st ≠ .rest) :
    s.frameAt (.inl (t, k)) = none := entryFrame_none (not_live_of_work hw hst)

theorem live_none (h : s.frameAt x = none) : s.outbox.live x = none :=
  congrArg (Option.map Frame.item) h

theorem live_some (h : s.frameAt x = some f) : s.outbox.live x = some f.item :=
  congrArg (Option.map Frame.item) h

theorem wireBytes_ne (metadata payload : List UInt8) : wireBytes metadata payload ≠ [] := by
  intro h
  have hlen := congrArg List.length h
  rw [wireBytes_length] at hlen
  exact (encodedLength_pos _ _).ne' hlen

/-- An accepted submission is a message that waits. -/
theorem accept_act {sub : Submission} (hsite : s.frameAt x = none)
    (hframes : s'.frameAt = Function.update s.frameAt x (some f)) (hid : f.id = s.accepted.length)
    (hlink : f.link = sub.link) (hzero : f.txOffset = 0)
    (haccepted : s'.accepted = s.accepted ++ [sub]) (howed : s'.owed = s.owed)
    (hleft : s'.left = s.left) (htold : s'.completed = s.completed) (hwire : s'.wire = s.wire)
    (hsegments : s'.segments = s.segments) : MuxAct s.outbox s'.outbox := by
  have heq : s'.outbox = s.outbox.accept x sub.message := by
    refine Outbox.State.ext ?_ ?_ hleft howed ?_ hwire hsegments
    · refine (funext fun y => by rw [Mux.outbox, hframes]).trans ((map_update _).trans ?_)
      refine congrArg (Function.update _ x) ?_
      simp [Frame.item, hid, hlink, hzero, Mux.outbox, Submission.message]
    · simp [Mux.outbox, haccepted, State.accept]
    · simp [Mux.outbox, htold, State.accept]
  rw [heq]
  exact .accept x _ (live_none hsite) (wireBytes_ne _ _)

/-- What is the same when a submission is accepted or a frame begins to leave. -/
structure SameTrace (s s' : Mux) : Prop where
  completed : s'.completed = s.completed
  wire : s'.wire = s.wire
  segments : s'.segments = s.segments

/-- A frame is accepted. -/
structure Fills (s s' : Mux) (t : Target) (k : FrameSlot) (payload : List UInt8) (f : Frame) :
    Prop where
  work : (s.holder t).work = some (k, .filling)
  submits : (s.holder t).submits = some (k, payload)
  entry : s'.entry = Function.update s.entry (t, k) (.rest, f)
  form : f = { s.frame t k with
    frameTimeoutMs := f.frameTimeoutMs, used := true, id := s.accepted.length }
  pending : s'.pendingOf = s.pendingOf
  others : ∀ t', t' ≠ t → s'.queues t' = s.queues t'
  holder : s'.holder t = .free
  after : s'.after = s.after
  pool : s'.pool = s.pool
  registry : s'.registry = s.registry
  accepted : s'.accepted = s.accepted ++ [f.submission payload .none]
  left : s'.left = s.left
  due : s'.due = s.due
  trace : SameTrace s s'

theorem fill_fills (h : s.fill t = some s') : ∃ k payload f, Fills s s' t k payload f := by
  unfold Mux.fill at h
  split at h
  · rename_i k payload timeout hh
    have hw : (s.holder t).work = some (k, .filling) := by rw [hh]; rfl
    have ha : (s.holder t).aftermath = [] := by rw [hh]; rfl
    obtain rfl := Option.some.inj h
    refine ⟨k, payload, _, hw, by rw [hh]; rfl, ?_, rfl, ?_, fun t' ht' => ?_, ?_, rfl, rfl, rfl, rfl,
      rfl, rfl, rfl, rfl, rfl⟩
    · refine (Mux.entry_update (s := s) (t := t) (k := k) rfl (onlyAt_work hw) (onlyAt_none rfl k)
        fun j hj => Function.update_of_ne hj _ _).trans ?_
      simp only [Queue.entry, Function.update_self]
      rfl
    · exact pendingOf_same (t := t) rfl rfl ha.symm
    · exact Function.update_of_ne ht' _ _
    · simp [Mux.holder, Mux.setQueue]
  · cases h

theorem fill_act (h : s.fill t = some s') (ho : Offers s) : MuxAct s.outbox s'.outbox := by
  obtain ⟨k, payload, f, hf⟩ := fill_fills h
  obtain ⟨htarget, hcarries, hzero⟩ := ho t k payload hf.submits
  have hframe : entryFrame (.rest, f) = some f := entryFrame_some.mpr ⟨⟨rfl, by rw [hf.form]⟩, rfl⟩
  refine accept_act (x := .inl (t, k)) (frameAt_work hf.work (by decide))
    (hframe ▸ frameAt_entry hf.entry (by rw [hf.pool])) ?_ rfl ?_ hf.accepted ?_ hf.left
    hf.trace.completed hf.trace.wire hf.trace.segments
  · rw [hf.form]
  · rw [hf.form]
    exact hzero
  · rw [Mux.owed, Mux.owed, hf.pending, hf.due]

/-- A step of a task that holds the mutex of the queue. -/
structure OnQueue (s s' : Mux) (t : Target) : Prop where
  others : ∀ t', t' ≠ t → s'.queues t' = s.queues t' ∧ s'.after t' = s.after t'
  submits : (s'.holder t).submits = none
  worker : (s'.holder t).isWorker = true → s'.after t = []

theorem OnQueue.orderly (h : OnQueue s s' t) (hs : Orderly s) : Orderly s' := by
  intro t' ht'
  by_cases ht : t' = t
  · subst ht
    exact h.worker ht'
  · obtain ⟨hq, ha⟩ := h.others t' ht
    rw [Mux.holder, hq] at ht'
    rw [ha]
    exact hs t' ht'

theorem OnQueue.offers (h : OnQueue s s' t) (hs : Offers s) : Offers s' := by
  intro t' k payload ht'
  by_cases ht : t' = t
  · subst ht
    rw [h.submits] at ht'
    cases ht'
  · obtain ⟨hq, -⟩ := h.others t' ht
    rw [Mux.holder, hq] at ht'
    rw [Mux.frame, hq]
    exact hs t' k payload ht'

theorem Faithful.onQueue (hs : Faithful s) (ht : OnQueue s s' t) (hb : Balanced s')
    (hc : Contents s') (hpool : s'.pool = s.pool) (haccepted : s.accepted <+: s'.accepted)
    (hact : MuxActs s.outbox s'.outbox) : Follows s s' where
  faithful := {
    balanced := hb
    orderly := ht.orderly hs.orderly
    offers := ht.offers hs.offers
    contents := hc
    pool := hs.pool.samePool hpool haccepted
    marks := hs.marks.samePool hpool
    sound := hs.sound.acts hact }
  acts := hact

theorem Faithful.fill (hs : Faithful s) (h : s.fill t = some s') : Follows s s' := by
  obtain ⟨k, payload, f, hf⟩ := fill_fills h
  refine hs.onQueue (t := t) ⟨fun t' ht' => ⟨hf.others t' ht', by rw [hf.after]⟩,
    by rw [hf.holder]; rfl, fun hw => ?_⟩ (hs.balanced.fill h)
    (hs.contents.fill hs.balanced hs.offers h) hf.pool ⟨_, hf.accepted.symm⟩
    (.single (fill_act h hs.offers))
  rw [hf.holder] at hw
  cases hw

/-! ## A frame leaves -/

/-- A frame that was accepted is at the site no more. -/
theorem leave_act {m : Message LinkRef UInt8} {result : EspErr} (hsite : s.frameAt x = some f)
    (hm : s.outbox.accepted[f.id]? = some m) (hresult : result = espOk ↔ f.txOffset = m.bytes.length)
    (hframes : s'.frameAt = Function.update s.frameAt x none)
    (hleft : s'.left = s.left ++ [(f.id, result)]) (howed : s'.owed = s.owed + {(f.id, result)})
    (haccepted : s'.accepted = s.accepted) (htrace : SameTrace s s') :
    MuxAct s.outbox s'.outbox := by
  have heq : s'.outbox = s.outbox.leave x f.item result := by
    refine Outbox.State.ext ?_ ?_ hleft howed ?_ htrace.wire htrace.segments
    · exact (funext fun y => by rw [Mux.outbox, hframes]).trans (map_update _)
    · simp [Mux.outbox, haccepted, State.leave]
    · simp [Mux.outbox, htrace.completed, State.leave]
  rw [heq]
  exact .leave x f.item m result (live_some hsite) hm hresult

theorem owed_update {l : List Aftermath} (hpending : s'.pendingOf = Function.update s.pendingOf t l)
    (hnone : s.pendingOf t = []) (hdue : s'.due = s.due) : s'.owed = s.owed + results l := by
  rw [Mux.owed, Mux.owed, hpending, hdue, total_update_new (by rw [hnone]; rfl), add_right_comm]

theorem results_of {l : List Aftermath} {f : Frame} {result : EspErr}
    (h : l.filterMap Aftermath.completion = [f.completionOf result]) :
    results l = {(f.id, result)} := by
  rw [results, h]
  rfl

end

end EspVision.MuxTx
