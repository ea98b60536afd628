import EspVision.MuxBounds
import EspVision.MuxFaithful

/-!
# What becomes of a submission

Whatever the order in which tasks submit, publish and cancel, and in which the worker visits its
targets: every accepted submission is at one place, or has left once, with `ESP_OK` exactly when its
link has taken all of its bytes; and its completion runs once, or is still to be run.
-/
namespace EspVision.MuxTx

open EvTransport EvMux EvSession Host TransitionSystem Ledger Outbox

/-- Somebody is told how the submission ends. -/
def Submission.IsTold (sub : Submission) : Prop := sub.kind = .none ∨ sub.kind = .large

/-- The rest of it. -/
def usbRest : List (Step × Reply) :=
  [visit usbTarget 2, visit usbTarget 1, visit usbTarget 1, (.release usbTarget, none),
    (.unreserve usbTarget, none), (.clear usbTarget, none), (.afterwards usbTarget, none)]

section

variable {s s' : Mux} {h h' : List (Step × Reply)} {t : Target} {k : FrameSlot} {c : LinkRef}
  {p : ℕ × ℕ} {n : ℕ} {sub : Submission}

/-! ## The outbox -/

/-- From any state that the multiplexer reaches, the outbox can follow every further run: what the
tasks, the worker and the cancellations do comes to submissions, pieces sent, departures and
completions. -/
theorem outbox_follows (hr : Reaches mux h s) (hp : Path mux s h' s') :
    MuxActs s.outbox s'.outbox := ((faithful_of_reaches hr).path hp).acts

theorem outbox_follows_usb : MuxActs (ranTo usbBegun).outbox ((ranTo usbBegun).behind usbRest).outbox :=
  outbox_follows (ranTo_reaches (by decide +kernel)) (Mux.CanFollow.path (by decide +kernel))

/-- A frame that is still in the multiplexer has not been sent completely. -/
theorem Faithful.unfinished {m : Message LinkRef UInt8} (hs : Faithful s)
    (hm : s.outbox.accepted[n]? = some m) {x : Site} {i : Item LinkRef}
    (hx : s.outbox.live x = some i) (hid : i.id = n) : i.sent < m.bytes.length := by
  obtain ⟨f, hf, rfl⟩ := Option.map_eq_some_iff.mp hx
  obtain ⟨payload, m', hship⟩ := shipment hs.contents hs.pool hf
  subst hid
  obtain rfl : m' = m := Option.some.inj (hship.message.symm.trans hm)
  exact hship.lt

/-! ## Bytes -/

/-- The link has taken the first `p.2` bytes of the submission with the number `p.1`: all of them
exactly when it has left with `ESP_OK`; it has left, or is the last of which anything was sent. -/
structure Took (s : Mux) (c : LinkRef) (p : ℕ × ℕ) (sub : Submission) : Prop where
  accepted : s.accepted[p.1]? = some sub
  link : sub.link = c
  pos : 0 < p.2
  le : p.2 ≤ sub.bytes.length
  whole : p.2 = sub.bytes.length ↔ (p.1, espOk) ∈ s.left
  fate : (∃ r, (p.1, r) ∈ s.left) ∨ (s.segments c).getLast? = some p

theorem took_of_mem (hs : Faithful s) (hp : p ∈ s.segments c) : ∃ sub, Took s c p sub := by
  obtain ⟨m, hm⟩ := hs.sound.segment c p hp
  obtain ⟨sub, hsub, rfl⟩ := message_submission hm.message
  refine ⟨sub, hsub, hm.chan, hm.pos, hm.le, ?_, ?_⟩
  · exact hs.sound.whole_iff hp hm.message fun x i hx hid => hs.unfinished hm.message hx hid
  · rcases hm.fate with ⟨x, i, hx, hid, hsent⟩ | ⟨r, hleft, -⟩
    · right
      obtain ⟨m', hm'⟩ := hs.sound.known x i hx
      have hmm : m' = sub.message :=
        Option.some.inj (hm'.message.symm.trans (hid ▸ hm.message))
      have hchan : i.chan = c := by rw [← hm'.chan, hmm, hm.chan]
      have hlast := hs.sound.cursor x i hx (by rw [hsent]; exact hm.pos.ne')
      rw [hchan, hid, hsent] at hlast
      exact hlast
    · exact .inl ⟨r, hleft⟩

/-- What the link has taken of a submission. -/
def Mux.piece (s : Mux) (p : ℕ × ℕ) : List UInt8 :=
  ((s.accepted[p.1]?.map Submission.bytes).getD []).take p.2

theorem wire_pieces (hs : Faithful s) (c : LinkRef) : s.wire c = (s.segments c).flatMap s.piece := by
  refine (hs.sound.wire c).trans (List.flatMap_congr fun p hp => ?_)
  obtain ⟨m, hm⟩ := hs.sound.segment c p hp
  obtain ⟨sub, hsub, rfl⟩ := message_submission hm.message
  rw [Outbox.piece, hm.message, Mux.piece, hsub]
  rfl

/-- What a link has taken is put together from the beginnings of the encodings of submissions for
the link that were accepted, each of them at most once. -/
theorem wire_segments (hr : Reaches mux h s) (c : LinkRef) :
    s.wire c = (s.segments c).flatMap s.piece ∧ ((s.segments c).map Prod.fst).Nodup ∧
      ∀ p ∈ s.segments c, ∃ sub, Took s c p sub := by
  have hs := faithful_of_reaches hr
  exact ⟨wire_pieces hs c, hs.sound.once c, fun p hp => took_of_mem hs hp⟩

theorem wire_segments_usb :
    (ranTo usbBegun).segments usbLink = [(0, 29)] ∧
      ∃ sub, Took (ranTo usbBegun) usbLink (0, 29) sub := by
  have hlast : (ranTo usbBegun).segments usbLink = [(0, 29)] := by decide +kernel
  refine ⟨hlast, (wire_segments (ranTo_reaches (by decide +kernel)) usbLink).2.2 _ ?_⟩
  rw [hlast]
  exact List.mem_singleton.mpr rfl

/-! ## Payloads -/

/-- Where the frame at a site has its payload. -/
def Mux.source (s : Mux) : Site → ℕ → List UInt8
  | .inl i => s.normalPayload i.1 i.2
  | .inr r => s.specialPayload r

/-- The frame has what was accepted under its number, byte for byte. -/
structure Keeps (s : Mux) (x : Site) (f : Frame) (sub : Submission) : Prop where
  accepted : s.accepted[f.id]? = some sub
  link : f.link = sub.link
  metadata : f.metadata = sub.metadata
  payloadLen : f.payloadLen = sub.payload.length
  serves : Serves (s.source x) sub.payload
  segment : f.headerReady = true → ∀ offset < f.totalLen, f.segment (s.source x) offset ≠ [] ∧
    f.segment (s.source x) offset <+: sub.bytes.drop offset

theorem Carries.keeps {x : Site} {f : Frame} {payload : List UInt8} {kind : SpecialKind}
    (h : Carries f payload) (hserves : Serves (s.source x) payload)
    (haccepted : s.accepted[f.id]? = some (f.submission payload kind)) :
    Keeps s x f (f.submission payload kind) :=
  ⟨haccepted, rfl, rfl, h.payloadLen, hserves, fun hready _ hlt => h.segment hready hserves hlt⟩

/-- While a frame waits, in a queue whose blocks other frames take and give back, or in the pool
whose buffers are filled again, freed and replaced, it reads nothing but its own payload. -/
theorem waiting_keeps {x : Site} {f : Frame} (hr : Reaches mux h s) (hx : s.frameAt x = some f) :
    ∃ sub, Keeps s x f sub := by
  have hs := faithful_of_reaches hr
  cases x with
  | inl i =>
    obtain ⟨hlive, rfl⟩ := entryFrame_some.mp hx
    obtain ⟨payload, hq⟩ := hs.contents i hlive
    exact ⟨_, hq.carries.keeps (x := .inl i) (Queued.serves (t := i.1) (k := i.2) hq) hq.accepted⟩
  | inr r =>
    obtain ⟨hused, rfl⟩ := specialFrame_some.mp hx
    obtain ⟨payload, hst⟩ := hs.pool.stored r hused
    exact ⟨_, hst.carries.keeps (x := .inr r) hst.serves hst.accepted⟩

theorem waiting_keeps_usb :
    ∃ sub, Keeps (ranTo usbBegun) (.inl (usbTarget, firstSlot))
      ((ranTo usbBegun).frame usbTarget firstSlot) sub :=
  waiting_keeps (ranTo_reaches (by decide +kernel)) (by decide +kernel)

/-! ## Departures -/

/-- The frame at the site carries the submission with the number. -/
def Waits (s : Mux) (n : ℕ) (x : Site) : Prop := ∃ f, s.frameAt x = some f ∧ f.id = n

theorem Waits.live {x : Site} (h : Waits s n x) : ∃ i, s.outbox.live x = some i ∧ i.id = n := by
  obtain ⟨f, hf, hid⟩ := h
  exact ⟨f.item, live_some hf, hid⟩

/-- An accepted submission waits at one place, or else has left with one result, which is `ESP_OK`
exactly when its link has taken all of its bytes. -/
theorem submission_fate (hr : Reaches mux h s) (hn : s.accepted[n]? = some sub) :
    Xor (∃! x, Waits s n x) (∃! r, (n, r) ∈ s.left) ∧
      ((n, espOk) ∈ s.left ↔ (n, sub.bytes.length) ∈ s.segments sub.link) := by
  have hs := faithful_of_reaches hr
  have hm := message_accepted hn
  refine ⟨?_, fun hleft => ?_, fun hmem => ?_⟩
  · rcases hs.sound.live_or_left (List.getElem?_eq_some_iff.mp hm).1 with ⟨x, i, hx, hid⟩ | ⟨r, hr⟩
    · obtain ⟨f, hf, rfl⟩ := Option.map_eq_some_iff.mp hx
      refine .inl ⟨⟨x, ⟨f, hf, hid⟩, fun y hy => ?_⟩, ?_⟩
      · obtain ⟨j, hj, hjd⟩ := hy.live
        exact hs.sound.live_inj hj hx (hjd.trans hid.symm)
      · rintro ⟨r, hr, -⟩
        exact hs.sound.live_not_left hx (hid ▸ hr)
    · refine .inr ⟨⟨r, hr, fun r' hr' => hs.sound.left_inj hr' hr⟩, ?_⟩
      rintro ⟨x, hx, -⟩
      obtain ⟨i, hi, hid⟩ := hx.live
      exact hs.sound.live_not_left hi (hid ▸ hr)
  · obtain ⟨m, hm', hdone⟩ := hs.sound.done n hleft
    obtain rfl := Option.some.inj (hm'.symm.trans hm)
    exact hdone
  · exact (hs.sound.whole_iff (p := (n, sub.bytes.length)) hmem hm fun x i hx hid =>
      hs.unfinished hm hx hid).mp rfl

theorem submission_fate_usb :
    (ranTo (usbBegun ++ usbRest)).left = [(0, espOk)] ∧
      ((0, espOk) ∈ (ranTo (usbBegun ++ usbRest)).left ↔
        (0, 33) ∈ (ranTo (usbBegun ++ usbRest)).segments usbLink) :=
  ⟨by decide +kernel,
    (submission_fate (ranTo_reaches (by decide +kernel))
      (show _ = some usbSubmission by decide +kernel)).2⟩

/-! ## Completions -/

theorem owed_nodup (hs : Faithful s) :
    ((s.owed + (s.completed.map Completion.outcome : List _)).map Prod.fst).Nodup := by
  refine Multiset.nodup_of_le (Multiset.map_le_map hs.sound.told) ?_
  exact Multiset.coe_nodup.mpr hs.sound.left_nodup

/-- No completion runs twice, or is still to be run after it has run, and each tells the result with
which its submission has left. -/
theorem completion_once (hr : Reaches mux h s) :
    ((s.owed + (s.completed.map Completion.outcome : List _)).map Prod.fst).Nodup ∧
      ∀ o ∈ s.owed + (s.completed.map Completion.outcome : List _), o ∈ s.left := by
  have hs := faithful_of_reaches hr
  exact ⟨owed_nodup hs, fun o ho => Multiset.mem_coe.mp (Multiset.mem_of_le hs.sound.told ho)⟩

theorem completion_once_usb :
    (ranTo (usbBegun ++ usbRest)).completed.map Completion.outcome = [(0, espOk)] ∧
      (((ranTo (usbBegun ++ usbRest)).owed +
        ((ranTo (usbBegun ++ usbRest)).completed.map Completion.outcome : List _)).map
          Prod.fst).Nodup :=
  ⟨by decide +kernel, (completion_once (ranTo_reaches (by decide +kernel))).1⟩

theorem IsTold.loud (h : sub.IsTold) : sub.message.silent = false := by
  rcases h with h | h <;> simp [Submission.message, h]

theorem told_completed {o : ℕ × EspErr}
    (ho : o ∈ ((s.completed.map Completion.outcome : List _) : Multiset (ℕ × EspErr))) :
    ∃ e ∈ s.completed, e.id = o.1 ∧ e.result = o.2 := by
  obtain ⟨e, he, rfl⟩ := List.mem_map.mp (Multiset.mem_coe.mp ho)
  exact ⟨e, he, rfl, rfl⟩

/-! ### Nothing is left undone -/

/-- The steps with which the worker and the cancelling tasks finish what they have begun. -/
def Step.finishes : Step → Bool
  | .release _ | .unreserve _ | .clear _ | .afterwards _ | .closeLink _ | .complete _ => true
  | _ => false

/-- The steps that the worker still needs for the frame that it releases, and for what follows. -/
def Holder.rank : Holder → ℕ
  | .releasing _ (.worker after) => after.length + 3
  | .unreserving _ (.worker after) => after.length + 2
  | .clearing _ (.worker after) => after.length + 1
  | _ => 0

def Mux.duty (s : Mux) (t : Target) : ℕ := (s.holder t).rank + (s.after t).length

def Mux.debt (s : Mux) : ℕ := ∑ t, s.duty t + s.due.length

/-- A step of the worker for one target. -/
structure Eases (s s' : Mux) (t : Target) : Prop where
  less : s'.duty t < s.duty t
  others : ∀ u, u ≠ t → s'.holder u = s.holder u ∧ s'.after u = s.after u
  due : s'.due = s.due

theorem Eases.debt (h : Eases s s' t) : s'.debt < s.debt := by
  have hlt : ∑ u, s'.duty u < ∑ u, s.duty u := by
    refine Finset.sum_lt_sum (fun u _ => ?_) ⟨t, Finset.mem_univ t, h.less⟩
    by_cases hu : u = t
    · rw [hu]
      exact h.less.le
    · rw [Mux.duty, Mux.duty, (h.others u hu).1, (h.others u hu).2]
  rw [Mux.debt, Mux.debt, h.due]
  omega

theorem update_eases {q : Queue} {l : List Aftermath}
    (hqueues : s'.queues = Function.update s.queues t q)
    (hafter : s'.after = Function.update s.after t l) (hdue : s'.due = s.due)
    (hless : q.holder.rank + l.length < s.duty t) : Eases s s' t := by
  refine ⟨?_, fun u hu => ⟨?_, ?_⟩, hdue⟩
  · rw [Mux.duty, Mux.holder, hqueues, hafter, Function.update_self, Function.update_self]
    exact hless
  · rw [Mux.holder, hqueues, Function.update_of_ne hu]
    rfl
  · rw [hafter, Function.update_of_ne hu]

/-- The worker can go on with the frame that it releases. -/
theorem worker_eases (hw : (s.holder t).isWorker = true) :
    ∃ l s', s.next l = some (s', none) ∧ l.finishes = true ∧ Eases s s' t := by
  have hsame : s.after = Function.update s.after t (s.after t) := (Function.update_eq_self ..).symm
  obtain ⟨k, after, hh⟩ : ∃ k after, s.holder t = .releasing k (.worker after) ∨
      s.holder t = .unreserving k (.worker after) ∨ s.holder t = .clearing k (.worker after) := by
    unfold Holder.isWorker at hw
    split at hw
    · exact ⟨_, _, .inl ‹_›⟩
    · exact ⟨_, _, .inr (.inl ‹_›)⟩
    · exact ⟨_, _, .inr (.inr ‹_›)⟩
    · cases hw
  rcases hh with hh | hh | hh
  · have hnext : s.release t = some ((s.setArena t { s.arena t with
        freeBlocks := BlockArena.release (s.arena t).freeBlocks (s.frame t k).blocks }).setHolder t
          (.unreserving k (.worker after))) := by rw [Mux.release, hh]
    refine ⟨.release t, _, congrArg (Option.map fun s' => (s', none)) hnext, rfl, ?_⟩
    refine update_eases Mux.setHolder_queues hsame rfl ?_
    rw [Mux.duty, hh]
    exact Nat.add_lt_add_right (Nat.lt_succ_self _) _
  · have hnext : s.unreserve t = some { (s.setFrame t k (tcpRelease s.quota (s.frame t k)).2).setHolder
        t (.clearing k (.worker after)) with quota := (tcpRelease s.quota (s.frame t k)).1 } := by
      rw [Mux.unreserve, hh]
    refine ⟨.unreserve t, _, congrArg (Option.map fun s' => (s', none)) hnext, rfl, ?_⟩
    refine update_eases Mux.work_queues hsame rfl ?_
    rw [Mux.duty, hh]
    exact Nat.add_lt_add_right (Nat.lt_succ_self _) _
  · have hnext : s.clear t = some ((s.setQueue t {
        bytesUsed := bytesDown (s.queues t).bytesUsed (s.frame t k).totalLen
        framesUsed := countDown (s.queues t).framesUsed
        frames := Function.update (s.queues t).frames k .zeroed
        holder := .free }).setAfter t after) := by rw [Mux.clear, hh]
    refine ⟨.clear t, _, congrArg (Option.map fun s' => (s', none)) hnext, rfl, ?_⟩
    refine update_eases (l := after) Mux.setQueue_queues rfl rfl ?_
    rw [Mux.duty, hh]
    simp only [Holder.rank]
    omega

/-- The worker can go on with what follows a visit. -/
theorem after_eases (ha : s.after t ≠ []) :
    ∃ l s', s.next l = some (s', none) ∧ l.finishes = true ∧ Eases s s' t := by
  have hsame : s.queues = Function.update s.queues t (s.queues t) :=
    (Function.update_eq_self ..).symm
  obtain ⟨a, rest, hrest⟩ := List.exists_cons_of_ne_nil ha
  have hless : (s.queues t).holder.rank + rest.length < s.duty t := by
    rw [Mux.duty, hrest, List.length_cons]
    exact Nat.lt_succ_self _
  cases a with
  | complete e =>
    have hnext : s.afterwards t = some { s.setAfter t rest with
        completed := s.completed ++ [e] } := by rw [Mux.afterwards, hrest]
    refine ⟨.afterwards t, _, congrArg (Option.map fun s' => (s', none)) hnext, rfl, ?_⟩
    exact update_eases hsame rfl rfl hless
  | failSession link sessionId =>
    have hnext : s.afterwards t = some (s.setAfter t rest) := by rw [Mux.afterwards, hrest]
    refine ⟨.afterwards t, _, congrArg (Option.map fun s' => (s', none)) hnext, rfl, ?_⟩
    exact update_eases hsame rfl rfl hless
  | close link =>
    have hnext : s.closeLink t = some { s.setAfter t rest with
        registry := s.registry.linkClose link } := by rw [Mux.closeLink, hrest]
    refine ⟨.closeLink t, _, congrArg (Option.map fun s' => (s', none)) hnext, rfl, ?_⟩
    exact update_eases hsame rfl rfl hless

theorem rank_of_not_worker {x : Holder} (hx : x.isWorker = false) : x.rank = 0 := by
  cases x with
  | releasing k next | unreserving k next | clearing k next =>
    cases next with
    | worker after => cases hx
    | cancel i which => rfl
  | _ => rfl

theorem isWorker_of_rank {x : Holder} (hx : x.rank = 0) : x.isWorker = false := by
  cases x with
  | releasing k next | unreserving k next | clearing k next =>
    cases next with
    | worker after => cases hx
    | cancel i which => rfl
  | _ => rfl

/-- While something is left to be finished, a step can be taken that leaves less. -/
theorem finish_step (hs : s.debt ≠ 0) :
    ∃ l s', mux.step s (l, none) s' ∧ l.finishes = true ∧ s'.debt < s.debt := by
  have hpromised : ∀ l : Step, l.finishes = true → s.Promised l := by
    intro l hl
    cases l <;> trivial
  by_cases hdue : s.due = []
  · obtain ⟨t, ht⟩ : ∃ t, s.duty t ≠ 0 := by
      by_contra hnone
      refine hs ?_
      rw [Mux.debt, hdue, Finset.sum_eq_zero fun t _ => not_not.mp fun ht => hnone ⟨t, ht⟩]
      rfl
    obtain ⟨l, s', hl, hfinishes, heases⟩ :
        ∃ l s', s.next l = some (s', none) ∧ l.finishes = true ∧ Eases s s' t := by
      by_cases ha : s.after t = []
      · cases hw : (s.holder t).isWorker with
        | true => exact worker_eases hw
        | false => exact absurd (by rw [Mux.duty, rank_of_not_worker hw, ha]; rfl) ht
      · exact after_eases ha
    exact ⟨l, s', ⟨hpromised l hfinishes, hl⟩, hfinishes, heases.debt⟩
  · have hpos : 0 < s.due.length := List.length_pos_iff.mpr hdue
    have hnext : s.runDue 0 = some { s with
        due := s.due.eraseIdx 0, completed := s.completed ++ [s.due[0]] } := dif_pos hpos
    refine ⟨.complete 0, _, ⟨hpromised (.complete 0) rfl,
      congrArg (Option.map fun s' => (s', none)) hnext⟩, rfl, ?_⟩
    refine Nat.add_lt_add_left (m := s.due.length) ?_ _
    rw [List.length_eraseIdx_of_lt hpos]
    omega

/-- The worker and the cancelling tasks can always finish what they have begun. -/
theorem finish_path (s : Mux) :
    ∃ ls s', Path mux s ls s' ∧ (∀ l ∈ ls, l.1.finishes = true) ∧ s'.debt = 0 := by
  induction hd : s.debt using Nat.strong_induction_on generalizing s with
  | _ d ih =>
    subst hd
    by_cases h0 : s.debt = 0
    · exact ⟨[], s, .nil s, by simp, h0⟩
    · obtain ⟨l, s₁, hstep, hl, hlt⟩ := finish_step h0
      obtain ⟨ls, s₂, hpath, hls, hzero⟩ := ih _ hlt s₁ rfl
      refine ⟨(l, none) :: ls, s₂, .cons hstep hpath, fun q hq => ?_, hzero⟩
      rcases List.mem_cons.mp hq with rfl | hq
      · exact hl
      · exact hls q hq

theorem owed_of_debt (h0 : s.debt = 0) : s.owed = 0 := by
  obtain ⟨hsum, hdue⟩ := Nat.add_eq_zero_iff.mp h0
  have hdue : s.due = [] := List.length_eq_zero_iff.mp hdue
  have hpending : ∀ t, s.pendingOf t = [] := by
    intro t
    obtain ⟨hrank, hafter⟩ :=
      Nat.add_eq_zero_iff.mp (Finset.sum_eq_zero_iff.mp hsum t (Finset.mem_univ t))
    rw [Mux.pendingOf, aftermath_of_not_worker (isWorker_of_rank hrank),
      List.length_eq_zero_iff.mp hafter]
    rfl
  rw [Mux.owed, hdue, total_zero fun t => by rw [hpending]; rfl]
  rfl

/-- From every state the worker and the cancelling tasks can, without anybody's help, come to a
state where the completion of each submission that has left has run with its result. -/
theorem completion_runs (hr : Reaches mux h s) :
    ∃ ls s', Path mux s ls s' ∧ (∀ l ∈ ls, l.1.finishes = true) ∧
      ∀ n r sub, (n, r) ∈ s.left → s.accepted[n]? = some sub → sub.IsTold →
        ∃ e ∈ s'.completed, e.id = n ∧ e.result = r := by
  obtain ⟨ls, s', hpath, hfinishes, hzero⟩ := finish_path s
  refine ⟨ls, s', hpath, hfinishes, fun n r sub hleft hn htold => ?_⟩
  obtain ⟨hf, hacts⟩ := (faithful_of_reaches hr).path hpath
  have hleft' : (n, r) ∈ s'.left := (Acts.left hacts).subset hleft
  have hm : s'.outbox.accepted[n]? = some sub.message := by
    obtain ⟨b, hb⟩ := Acts.accepted hacts
    have hn' := message_accepted hn
    rw [← hb, List.getElem?_append_left (List.getElem?_eq_some_iff.mp hn').1, hn']
  have htold := hf.sound.heard (n, r) hleft' sub.message hm (IsTold.loud htold)
  have hnone : s'.outbox.owed = 0 := owed_of_debt hzero
  rw [hnone, zero_add] at htold
  exact told_completed htold

/-- A frame that has waited too long. -/
def usbLate : List (Step × Reply) :=
  submission { link := usbLink, txClass := .control, completion := some 7 } usbTarget ++
    [(.processTarget usbTarget { expireMs := 2000, chooseMs := 2000, io := ⟨.progress, 0, 0⟩ }, none)]

theorem completion_runs_usb :
    ∃ ls s', Path mux (ranTo usbLate) ls s' ∧
      ∃ e ∈ s'.completed, e.id = 0 ∧ e.result = espErrTimeout := by
  obtain ⟨ls, s', hpath, -, hruns⟩ :=
    completion_runs (ranTo_reaches (h := usbLate) (by decide +kernel))
  exact ⟨ls, s', hpath, hruns 0 _ usbSubmission (by decide +kernel) (by decide +kernel) (.inl rfl)⟩

/-! ## Submissions that are refused -/

theorem submitLarge_refused {f : Frame} {payload : List UInt8} {malloc : Bool} {e : EspErr}
    (h : s.submitLarge f payload malloc = (s', some e)) : s' = s := by
  unfold Mux.submitLarge at h
  split_ifs at h
  · exact (congrArg Prod.fst h).symm
  · split at h
    · exact (congrArg Prod.fst h).symm
    · cases (Prod.mk.inj h).2

theorem submitPreview_refused {f : Frame} {payload : List UInt8} {malloc : Bool} {e : EspErr}
    (h : s.submitPreview f payload malloc = (s', some e)) : s' = s := by
  unfold Mux.submitPreview at h
  split at h
  · exact (congrArg Prod.fst h).symm
  · dsimp only at h
    split_ifs at h
    · exact (congrArg Prod.fst h).symm
    · split at h
      · exact (congrArg Prod.fst h).symm
      · cases (Prod.mk.inj h).2

theorem submitSpecial_refused {o : SubmitOptions} {metadata payload : List UInt8} {isLarge : Bool}
    {ticket : Ticket} {look : PrepareLook} {mutexTaken malloc : Bool} {e : EspErr}
    (h : s.submitSpecial o metadata payload isLarge ticket look mutexTaken malloc = (s', some e)) :
    ∃ order, s' = { s with enqueueOrder := order } := by
  unfold Mux.submitSpecial at h
  dsimp only at h
  split at h
  · exact ⟨s.enqueueOrder, (congrArg Prod.fst h).symm⟩
  · split at h
    · exact ⟨s.enqueueOrder, (congrArg Prod.fst h).symm⟩
    · split at h
      · exact ⟨s.enqueueOrder, (congrArg Prod.fst h).symm⟩
      · split at h
        · exact ⟨s.enqueueOrder, (congrArg Prod.fst h).symm⟩
        · split at h
          · exact ⟨s.enqueueOrder, (congrArg Prod.fst h).symm⟩
          · split at h
            · rename_i order _
              exact ⟨order, (congrArg Prod.fst h).symm⟩
            · rename_i f order _
              split_ifs at h
              · exact ⟨order, (congrArg Prod.fst h).symm⟩
              · exact ⟨order, submitLarge_refused h⟩
              · exact ⟨order, submitPreview_refused h⟩

theorem publishObservers_refused {metadata payload : List UInt8}
    {looks : Fin tcpLinks → ObserverLook} {malloc : Bool} {e : EspErr}
    (h : s.publishObservers metadata payload looks malloc = (s', some e)) : s' = s := by
  unfold Mux.publishObservers at h
  split_ifs at h
  · exact (congrArg Prod.fst h).symm
  · split at h
    · exact (congrArg Prod.fst h).symm
    · dsimp only at h
      split at h
      · exact (congrArg Prod.fst h).symm
      · cases (Prod.mk.inj h).2

/-- What a refused submission leaves alone: everything but the frames that were not accepted, the
bit maps, the counters and the order. -/
structure Untouched (s s' : Mux) : Prop where
  outbox : s'.outbox = s.outbox
  pool : s'.pool = s.pool
  memory : ∀ a, (s'.arenas a).memory = (s.arenas a).memory
  waiting : ∀ x f, s'.frameAt x = some f ↔ s.frameAt x = some f
  registry : s'.registry = s.registry

theorem Quiet.untouched (h : Quiet s s') : Untouched s s' := by
  refine ⟨h.outbox, h.rest.pool, h.rest.memory, fun x f => ?_, h.rest.registry⟩
  cases x with
  | inl i =>
    rcases h.entries i with he | ⟨hd, hd'⟩
    · simp only [Mux.frameAt, he]
    · simp only [Mux.frameAt, entryFrame_none hd, entryFrame_none hd']
  | inr r => simp only [Mux.frameAt, Mux.special, h.rest.pool]

theorem untouched_order (s : Mux) (order : UInt32) : Untouched s { s with enqueueOrder := order } :=
  ⟨rfl, rfl, fun _ => rfl, fun _ _ => Iff.rfl, rfl⟩

/-- A submission that is answered with an error, whichever of its parts answers, has changed nothing
of what waits, was accepted or was sent, and no buffer. -/
theorem refused_untouched {l : Step} {e : EspErr} (hr : Reaches mux h s)
    (hl : s.next l = some (s', some e)) (he : e ≠ espOk) : Untouched s s' := by
  have hs := faithful_of_reaches hr
  cases l with
  | enqueue o metadata payload ticket look =>
    have henqueued := s.enqueue_enqueued o metadata payload ticket look
    rw [Option.some.inj hl] at henqueued
    exact (henqueued.quiet hs.orderly).untouched
  | reserve t => exact (reserve_quiet hs.orderly hl).untouched
  | refuse t =>
    obtain ⟨u, hu, hpair⟩ := Option.map_eq_some_iff.mp hl
    obtain ⟨rfl, -⟩ := Prod.mk.inj hpair
    exact (refuse_quiet hs.orderly hu).untouched
  | fill t =>
    obtain ⟨u, hu, hpair⟩ := Option.map_eq_some_iff.mp hl
    exact absurd (Option.some.inj (Prod.mk.inj hpair).2).symm he
  | submitSpecial o metadata payload isLarge ticket look mutexTaken malloc =>
    obtain ⟨order, rfl⟩ := submitSpecial_refused (Option.some.inj hl)
    exact untouched_order s order
  | publishObservers metadata payload looks malloc =>
    obtain rfl := publishObservers_refused (Option.some.inj hl)
    exact untouched_order s' s'.enqueueOrder
  | _ => exact absurd hl (by simp [Mux.next])

/-- A large frame for the USB link. -/
def usbLarge : Step :=
  .submitSpecial { link := usbLink, txClass := .control } [0x7b, 0x7d] [0x41] true 1 {} true true

/-- There is one large frame at a time. -/
theorem refused_untouched_usbLarge :
    ∃ s', (ranTo [(usbLarge, none)]).next usbLarge = some (s', some espErrTimeout) ∧
      Untouched (ranTo [(usbLarge, none)]) s' := by
  have hanswer : ((ranTo [(usbLarge, none)]).next usbLarge).map Prod.snd =
      some (some espErrTimeout) := by decide +kernel
  obtain ⟨⟨s', r⟩, hnext, rfl⟩ := Option.map_eq_some_iff.mp hanswer
  exact ⟨s', hnext, refused_untouched (ranTo_reaches (by decide +kernel)) hnext (by decide)⟩

end

end EspVision.MuxTx
