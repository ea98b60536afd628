import EspVision.MuxChoice
import EspVision.MuxDelivery
import EspVision.MuxNumbers

/-!
# The order of the frames of one class

The worker passes a frame over for a later one of its class only when the frame has waited too long,
and such a frame is never sent.
-/
namespace EspVision.MuxTx

open EvTransport EvMux EvSession Host TransitionSystem Outbox

section

variable {s s' : Mux} {h : List (Step × Reply)} {t : Target} {k : FrameSlot} {look : WorkerLook}
  {p : Pick} {g : Frame}

/-! ## Frames that begin -/

/-- The submissions of which a link has taken anything, in this order. -/
def Mux.begunOn (s : Mux) (c : LinkRef) : List ℕ := (s.segments c).map Prod.fst

theorem begun_accepted {n : ℕ} {c : LinkRef} (hf : Faithful s) (hn : n ∈ s.begunOn c) :
    ∃ sub, s.accepted[n]? = some sub ∧ sub.link = c := by
  obtain ⟨q, hq, rfl⟩ := List.mem_map.mp hn
  obtain ⟨sub, hsub⟩ := took_of_mem hf hq
  exact ⟨sub, hsub.accepted, hsub.link⟩

/-- A visit that takes the first bytes of a frame. -/
structure BeginsWork (s s' : Mux) (t : Target) (look : WorkerLook) (p : Pick) : Prop where
  free : s.holder t = .free
  chosen : s.chooseFrame t look = some p
  zero : (s.pickFrame t p).txOffset = 0
  begun : s'.begunOn = Function.update s.begunOn (s.pickFrame t p).link
    (s.begunOn (s.pickFrame t p).link ++ [(s.pickFrame t p).id])

theorem sends_begun {data : List UInt8} (hf : Faithful s) (hfree : s.holder t = .free)
    (hp : s.chooseFrame t look = some p) (hg : (s.pickFrame t p).Progressed g)
    (hoffset : g.txOffset = (s.pickFrame t p).txOffset) (h : Sends s s' t g data) :
    s'.begunOn = s.begunOn ∨ BeginsWork s s' t look p := by
  have hlive := live_some (frameAt_pick hfree (Mux.chooseFrame_canPick hp).1)
  have hitem : g.item = (s.pickFrame t p).item := by
    rw [Frame.item, hg.id, hg.link, hoffset]
    rfl
  have hids := hf.sound.extend_ids hlive data.length
  rw [← hitem] at hids
  have hbegun : s'.begunOn = Function.update s.begunOn g.link
      (s.begunOn g.link ++ if g.txOffset = 0 then [g.id] else []) := by
    funext c
    unfold Mux.begunOn
    rw [h.segments]
    by_cases hc : c = g.link
    · subst hc
      rw [Function.update_self, Function.update_self]
      exact hids
    · rw [Function.update_of_ne hc, Function.update_of_ne hc]
  rw [hoffset, hg.id, hg.link] at hbegun
  by_cases hzero : (s.pickFrame t p).txOffset = 0
  · rw [if_pos hzero] at hbegun
    exact .inr ⟨hfree, hp, hzero, hbegun⟩
  · rw [if_neg hzero, List.append_nil, Function.update_eq_self] at hbegun
    exact .inl hbegun

/-- A step begins nothing, or it is a visit that begins the frame it has chosen. -/
theorem next_begun {l : Step} {r : Reply} (hf : Faithful s) (h : s.next l = some (s', r)) :
    s'.begunOn = s.begunOn ∨
      ∃ t look p, l = .processTarget t look ∧ BeginsWork s s' t look p := by
  rcases (next_linkStep hf h).sent with hsame | ⟨t, look, rfl, hvisit⟩
  · exact .inl (by unfold Mux.begunOn; rw [hsame])
  · obtain ⟨-, hfree, -⟩ := Mux.processTarget_visit hvisit
    rcases (visit_sends hvisit).2.2 with hsame | ⟨p, g, n, hp, hg, hsends⟩
    · exact .inl (by unfold Mux.begunOn; rw [hsame])
    · exact (sends_begun hf hfree hp hg.progressed hg.begun.2.2 hsends).imp_right fun hb =>
        ⟨t, look, p, rfl, hb⟩

/-- The submission that a picked frame carries. -/
theorem pick_submission (hf : Faithful s) (hfree : s.holder t = .free) (hp : s.CanPick t p) :
    ∃ payload kind, s.accepted[(s.pickFrame t p).id]? =
      some ((s.pickFrame t p).submission payload kind) := by
  cases p with
  | normal k =>
    obtain ⟨payload, hq⟩ := pick_queued hf hfree hp
    exact ⟨payload, _, hq.accepted⟩
  | special r =>
    obtain ⟨payload, hst⟩ := hf.pool.stored r (specialFor_used hp)
    exact ⟨payload, _, hst.accepted⟩

/-- A submission for a queue has left, or waits in a frame of the queue. -/
theorem waits_queued {n : ℕ} {a : Submission} (hf : Faithful s) (hn : s.accepted[n]? = some a)
    (hkind : a.kind = .none) (ht : targetIndex a.link = some t) :
    (∃ r, (n, r) ∈ s.left) ∨ ∃ k payload, (s.frame t k).used = true ∧
      a = (s.frame t k).submission payload .none := by
  have hm := message_accepted hn
  rcases hf.sound.live_or_left (List.getElem?_eq_some_iff.mp hm).1 with ⟨x, i, hx, hid⟩ | hleft
  · obtain ⟨f, hframe, rfl⟩ := Option.map_eq_some_iff.mp hx
    have hid : f.id = n := hid
    subst hid
    cases x with
    | inl i =>
      obtain ⟨u, k⟩ := i
      obtain ⟨hlive, rfl⟩ := entryFrame_some.mp hframe
      obtain ⟨payload, hq⟩ := hf.contents (u, k) hlive
      have ha := Option.some.inj (hn.symm.trans hq.accepted)
      obtain rfl : u = t := Option.some.inj (hq.target.symm.trans (by rw [← ht, ha]; rfl))
      exact .inr ⟨k, payload, hlive.2, ha⟩
    | inr r =>
      obtain ⟨hused, rfl⟩ := specialFrame_some.mp hframe
      obtain ⟨payload, hst⟩ := hf.pool.stored r hused
      have ha := Option.some.inj (hn.symm.trans hst.accepted)
      rw [ha] at hkind
      exact absurd hkind r.kind_ne
  · exact .inl hleft

/-! ## Frames of one class begin in their order -/

/-- The submission had waited too long at a time that was read. -/
def Late (h : List (Step × Reply)) (sub : Submission) : Prop :=
  ∃ now ∈ readings h, sub.enqueueMs ≤ now ∧ queueTimeoutMs ≤ now - sub.enqueueMs

/-- The submission has left, or waits in vain. -/
def Over (h : List (Step × Reply)) (s : Mux) (n : ℕ) (sub : Submission) : Prop :=
  (∃ r, (n, r) ∈ s.left) ∨ Late h sub

theorem Over.mono {n : ℕ} {sub : Submission} {h' : List (Step × Reply)} (ho : Over h s n sub)
    (hread : readings h ⊆ readings h') (hleft : s.left <+: s'.left) : Over h' s' n sub := by
  rcases ho with ⟨e, he⟩ | ⟨now, hnow, hlate⟩
  · exact .inl ⟨e, hleft.subset he⟩
  · exact .inr ⟨now, hread hnow, hlate⟩

/-- Two alike submissions, the first accepted before the second. -/
structure Rivals (s : Mux) (i j : ℕ) (a b : Submission) : Prop where
  lt : i < j
  first : s.accepted[i]? = some a
  second : s.accepted[j]? = some b
  alike : Alike a b

/-- Of two such submissions the first begins first; where the second alone has begun, the first is
over. -/
structure InOrder (h : List (Step × Reply)) (s : Mux) : Prop where
  kept : ∀ i j a b, Rivals s i j a b → i ∈ s.begunOn a.link → j ∈ s.begunOn a.link →
    List.Sublist [i, j] (s.begunOn a.link)
  passed : ∀ i j a b, Rivals s i j a b → i ∉ s.begunOn a.link → j ∈ s.begunOn a.link →
    Over h s i a

/-- Time goes on, so what has waited too long has waited too long for ever. -/
theorem waited_mono {m now now' d : UInt32} (hm : m ≤ now) (hle : now ≤ now') (hd : d ≤ now - m) :
    d ≤ now' - m := by
  rw [UInt32.le_iff_toNat_le] at hd ⊢
  rw [UInt32.toNat_sub_of_le _ _ hm] at hd
  rw [UInt32.toNat_sub_of_le _ _ (UInt32.le_trans hm hle)]
  rw [UInt32.le_iff_toNat_le] at hle
  omega

theorem Forward.le_last {l : Step} {r : Reply} {now now' : UInt32}
    (hf : Forward (h ++ [(l, r)])) (hl : l.clock = some now') (hnow : now ∈ readings h) :
    now ≤ now' := by
  unfold Forward at hf
  rw [readings_snoc, hl, List.pairwise_append] at hf
  exact hf.2.2 now hnow now' (List.mem_singleton.mpr rfl)

theorem Forward.front {h' : List (Step × Reply)} (hf : Forward (h ++ h')) : Forward h := by
  unfold Forward at hf ⊢
  unfold readings at hf ⊢
  rw [List.filterMap_append, List.pairwise_append] at hf
  exact hf.1

/-- A frame of a queue that has not waited too long is a candidate. -/
theorem mem_candidates_normal (hused : (s.frame t k).used = true)
    (hpaused : (s.frame t k).uartPaused look.pausedAtChoice = false)
    (htimely : (s.frame t k).expired look.chooseMs = false) :
    .normal k ∈ s.candidates t look := by
  unfold Mux.candidates
  refine List.mem_append_left _
    (List.mem_map_of_mem (List.mem_filter.mpr ⟨List.mem_finRange k, ?_⟩))
  simp [hused, hpaused, htimely]

/-- What the worker knows of the frame that it begins. -/
structure Picked (s : Mux) (t : Target) (look : WorkerLook) (p : Pick) (b : Submission) : Prop where
  none : s.startedFrame t look.specialLocked = none
  target : targetIndex b.link = some t
  priority : (s.pickFrame t p).priority = b.priority
  order : (s.pickFrame t p).enqueueOrder = b.enqueueOrder
  paused : (b.link.transportId == .uart && !b.uartBaudControl && look.pausedAtChoice) = false
  timely : ¬ queueTimeoutMs ≤ look.chooseMs - b.enqueueMs

theorem BeginsWork.picked {b : Submission} (hf : Faithful s) (hb : BeginsWork s s' t look p)
    (hacc : s.accepted[(s.pickFrame t p).id]? = some b) : Picked s t look p b := by
  obtain ⟨hlocked, hstarted | ⟨hnone, hmem⟩⟩ := Mux.chooseFrame_some hb.chosen
  · exact absurd hb.zero (Mux.startedFrame_some hstarted).2.1
  · obtain ⟨hcan, hpaused, htimely, -⟩ := Mux.mem_candidates hmem
    obtain ⟨payload, kind, hsub⟩ := pick_submission hf hb.free hcan
    obtain rfl := Option.some.inj (hsub.symm.trans hacc)
    exact ⟨hnone, pick_target hf hb.free hcan, rfl, rfl, hpaused, of_decide_eq_false htimely⟩

/-- What is begun has not waited too long before. -/
theorem Picked.not_late {b : Submission} {r : Reply} (hp : Picked s t look p b)
    (hforward : Forward (h ++ [(.processTarget t look, r)])) : ¬ Late h b := by
  rintro ⟨now, hnow, hle, hlate⟩
  exact hp.timely (waited_mono hle (hforward.le_last rfl hnow) hlate)

/-- What is passed over has left, or waits too long. -/
theorem BeginsWork.over {i : ℕ} {a b : Submission} {r : Reply} (hb : BeginsWork s s' t look p)
    (hi : InNumbers h s) (hf : Faithful s) (hforward : Forward (h ++ [(.processTarget t look, r)]))
    (hrivals : Rivals s i (s.pickFrame t p).id a b) :
    Over (h ++ [(.processTarget t look, r)]) s i a := by
  obtain ⟨hlt, ha, hsecond, halike⟩ := hrivals
  have hp := hb.picked hf hsecond
  rcases waits_queued hf ha halike.left (halike.link ▸ hp.target) with
    hleft | ⟨k, payload, hused, rfl⟩
  · exact .inl hleft
  · refine .inr ⟨look.chooseMs, mem_readings_last rfl, hforward.le_last rfl
      (hi.accepted i _ ha halike.left).clock, ?_⟩
    by_contra htimely
    have hpaused := hp.paused
    rw [← halike.link, ← halike.uartBaudControl] at hpaused
    have hmem : .normal k ∈ s.candidates t look :=
      mem_candidates_normal hused hpaused (decide_eq_false htimely)
    have hless := hi.increasing i _ _ _ hlt ha hsecond halike
    rcases chosen_before hb.chosen hp.none _ hmem with hbest | ⟨-, hbest⟩
    · rw [hp.priority, ← halike.priority] at hbest
      exact absurd hbest (Nat.lt_irrefl _)
    · rw [hp.order] at hbest
      exact UInt32.not_lt.mpr hbest hless

theorem next_accepted {l : Step} {r : Reply} (hf : Faithful s) (h : s.next l = some (s', r)) :
    s.accepted <+: s'.accepted := by
  cases next_happens hf.orderly hf.pool h with
  | quiet l hquiet hl => exact hquiet.calm.accepted
  | fill t hfill => exact (fill_calm hfill).accepted
  | scan t hscan => exact (scan_calm hf hscan).accepted
  | pool l hmoves hl => exact (hmoves.calm hf).accepted
  | visit t look hvisit => rw [(visit_sends hvisit).2.1]
  | afterwards t hdone => exact (afterwards_calm hdone).accepted
  | closeLink t hclosed => rw [(closeLink_same hclosed).accepted]
  | complete i hran => exact (runDue_calm hran).accepted
  | link change hchanged =>
    subst hchanged
    exact List.prefix_rfl

theorem Rivals.before {l : Step} {r : Reply} {i j : ℕ} {a b : Submission}
    (hrivals : Rivals s' i j a b) (hf : Faithful s) (hnext : s.next l = some (s', r))
    (hj : j < s.accepted.length) : Rivals s i j a b := by
  obtain ⟨hlt, ha, hb, halike⟩ := hrivals
  obtain ⟨new, hnew⟩ := next_accepted hf hnext
  rw [← hnew, List.getElem?_append_left (hlt.trans hj)] at ha
  rw [← hnew, List.getElem?_append_left hj] at hb
  exact ⟨hlt, ha, hb, halike⟩

theorem begun_lt {n : ℕ} {c : LinkRef} (hf : Faithful s) (hn : n ∈ s.begunOn c) :
    n < s.accepted.length := by
  obtain ⟨sub, hsub, -⟩ := begun_accepted hf hn
  exact (List.getElem?_eq_some_iff.mp hsub).1

theorem InOrder.same {l : Step} {r : Reply} (hi : InOrder h s) (hf : Faithful s)
    (hnext : s.next l = some (s', r)) (hsame : s'.begunOn = s.begunOn) :
    InOrder (h ++ [(l, r)]) s' := by
  have hleft : s.left <+: s'.left := Acts.left (hf.next hnext).acts
  refine ⟨fun i j a b hrivals hbi hbj => ?_, fun i j a b hrivals hbi hbj => ?_⟩ <;>
    rw [hsame] at hbi hbj
  · rw [hsame]
    exact hi.kept i j a b (hrivals.before hf hnext (begun_lt hf hbj)) hbi hbj
  · exact (hi.passed i j a b (hrivals.before hf hnext (begun_lt hf hbj)) hbi hbj).mono
      (fun _ => mem_readings_of_mem) hleft

theorem BeginsWork.mem {n : ℕ} {c : LinkRef} (hb : BeginsWork s s' t look p)
    (hn : n ∈ s'.begunOn c) :
    n ∈ s.begunOn c ∨ n = (s.pickFrame t p).id ∧ c = (s.pickFrame t p).link := by
  rw [hb.begun] at hn
  by_cases hc : c = (s.pickFrame t p).link
  · rw [hc, Function.update_self] at hn
    rw [hc]
    exact (List.mem_append.mp hn).imp_right fun h => ⟨List.mem_singleton.mp h, rfl⟩
  · rw [Function.update_of_ne hc] at hn
    exact .inl hn

theorem BeginsWork.sublist (hb : BeginsWork s s' t look p) (c : LinkRef) :
    List.Sublist (s.begunOn c) (s'.begunOn c) := by
  rw [hb.begun]
  by_cases hc : c = (s.pickFrame t p).link
  · rw [hc, Function.update_self]
    exact List.sublist_append_left _ _
  · rw [Function.update_of_ne hc]

theorem BeginsWork.lt (hb : BeginsWork s s' t look p) (hf : Faithful s) :
    (s.pickFrame t p).id < s.accepted.length := by
  obtain ⟨payload, kind, hsub⟩ :=
    pick_submission hf hb.free (Mux.chooseFrame_canPick hb.chosen).1
  exact (List.getElem?_eq_some_iff.mp hsub).1

/-- A frame that is about to begin is not over. -/
theorem BeginsWork.not_over {a : Submission} {r : Reply} (hb : BeginsWork s s' t look p)
    (hf : Faithful s) (hforward : Forward (h ++ [(.processTarget t look, r)]))
    (ha : s.accepted[(s.pickFrame t p).id]? = some a) : ¬ Over h s (s.pickFrame t p).id a := by
  rintro (⟨e, hleft⟩ | hlate)
  · have hlive := live_some (frameAt_pick hb.free (Mux.chooseFrame_canPick hb.chosen).1)
    exact hf.sound.live_not_left hlive hleft
  · exact (hb.picked hf ha).not_late hforward hlate

theorem InOrder.begins {r : Reply} (hi : InOrder h s) (hin : InNumbers h s) (hf : Faithful s)
    (hnext : s.next (.processTarget t look) = some (s', r)) (hb : BeginsWork s s' t look p)
    (hforward : Forward (h ++ [(.processTarget t look, r)])) :
    InOrder (h ++ [(.processTarget t look, r)]) s' := by
  have hleft : s.left <+: s'.left := Acts.left (hf.next hnext).acts
  have hbefore : ∀ {i j a b}, Rivals s' i j a b → j ∈ s'.begunOn a.link → Rivals s i j a b := by
    intro i j a b hrivals hbj
    refine hrivals.before hf hnext ?_
    rcases hb.mem hbj with hold | ⟨rfl, -⟩
    · exact begun_lt hf hold
    · exact hb.lt hf
  refine ⟨fun i j a b hrivals hbi hbj => ?_, fun i j a b hrivals hbi hbj => ?_⟩
  · have hr := hbefore hrivals hbj
    by_cases holdi : i ∈ s.begunOn a.link
    · rcases hb.mem hbj with holdj | ⟨rfl, hc⟩
      · exact (hi.kept i j a b hr holdi holdj).trans (hb.sublist _)
      · rw [hc] at holdi ⊢
        rw [hb.begun, Function.update_self]
        exact (List.singleton_sublist.mpr holdi).append (List.Sublist.refl [_])
    · -- what begins now has been passed over by nothing that is alike
      obtain ⟨rfl, hc⟩ := (hb.mem hbi).resolve_left holdi
      rcases hb.mem hbj with holdj | ⟨rfl, -⟩
      · exact absurd (hi.passed _ j a b hr holdi holdj) (hb.not_over hf hforward hr.first)
      · exact absurd hr.lt (Nat.lt_irrefl _)
  · have hr := hbefore hrivals hbj
    have holdi : i ∉ s.begunOn a.link := fun hmem => hbi ((hb.sublist _).subset hmem)
    rcases hb.mem hbj with holdj | ⟨rfl, -⟩
    · exact (hi.passed i j a b hr holdi holdj).mono (fun _ => mem_readings_of_mem) hleft
    · exact (hb.over hin hf hforward hr).mono (List.Subset.refl _) hleft

theorem inOrder_init (registry : Registry) : InOrder [] { registry := registry } where
  kept i j a b hrivals := by cases hrivals.first
  passed i j a b hrivals := by cases hrivals.first

theorem order_of_reaches (hr : Reaches mux h s) (hforward : Forward h) (hn : numbers h < 2 ^ 32) :
    InNumbers h s ∧ InOrder h s := by
  revert hforward hn
  refine hr.invariant
    (I := fun h s => Forward h → numbers h < 2 ^ 32 → InNumbers h s ∧ InOrder h s) ?_ ?_
  · rintro s ⟨registry, rfl⟩ - -
    exact ⟨inNumbers_init registry, inOrder_init registry⟩
  · rintro h s ⟨l, r⟩ s' hr ih ⟨-, hnext⟩ hforward hn
    have hn' : numbers h < 2 ^ 32 := by
      rw [numbers_snoc] at hn
      omega
    obtain ⟨hin, hi⟩ := ih hforward.front hn'
    have hf := faithful_of_reaches hr
    refine ⟨hin.step hf hnext hn, ?_⟩
    rcases next_begun hf hnext with hsame | ⟨t, look, p, rfl, hb⟩
    · exact hi.same hf hnext hsame
    · exact hi.begins hin hf hnext hb hforward

/-- What is over before it begins never begins. -/
theorem Over.never {h' : List (Step × Reply)} {n : ℕ} {a : Submission} (hp : Path mux s h' s')
    (hf : Faithful s) (ha : s.accepted[n]? = some a) (ho : Over h s n a)
    (hnot : n ∉ s.begunOn a.link) (hforward : Forward (h ++ h')) : n ∉ s'.begunOn a.link := by
  induction hp generalizing h with
  | nil s => exact hnot
  | @cons s u s' l ls hstep hrest ih =>
    obtain ⟨l, r⟩ := l
    rw [List.append_cons] at hforward
    have hleft : s.left <+: u.left := Acts.left (hf.next hstep.2).acts
    obtain ⟨new, hnew⟩ := next_accepted hf hstep.2
    refine ih (hf.next hstep.2).faithful (hnew ▸ accepted_of_append ha)
      (ho.mono (fun _ => mem_readings_of_mem) hleft) ?_ hforward
    rcases next_begun hf hstep.2 with hsame | ⟨t, look, p, rfl, hb⟩
    · rwa [hsame]
    · intro hmem
      obtain ⟨rfl, -⟩ := (hb.mem hmem).resolve_left hnot
      exact hb.not_over hf hforward.front ha ho

/-- Two frames of one class are queued for the USB link; the first is sent, and the second begins. -/
def usbInOrder : List (Step × Reply) :=
  submission { link := usbLink, txClass := .control, completion := some 7 } usbTarget ++ usbBegun ++
    usbRest ++ [visit usbTarget 29]

end

end EspVision.MuxTx
