import EspVision.InputIsolation

/-!
# One outcome for every accepted VM frame

An accepted frame is in the queue, with the handler that expires it, or with the
poll; the record `place` says where. Leaving these places is its outcome, so it
has at most one, and the frames of the current generation have the outcomes
that their session would expect.
-/
namespace EspVision.EvInput
open EvTransport EvSession TransitionSystem

/-- The frames that leave the input path for good. -/
def Outcome.ended : Outcome → List VmFrame
  | .dispatched f => [f]
  | .internalError f => [f]
  | .timedOut f => [f]
  | .droppedStale f => [f]
  | .cleared fs => fs
  | _ => []

/-- The frame that enters the VM queue. -/
def Outcome.admitted : Outcome → List VmFrame
  | .accepted f => [f]
  | _ => []

def endedFrames (h : List Event) : List VmFrame := h.flatMap fun e => e.outcome.ended

def acceptedFrames (h : List Event) : List VmFrame := h.flatMap fun e => e.outcome.admitted

@[simp] theorem endedFrames_snoc (h : List Event) (e : Event) :
    endedFrames (h ++ [e]) = endedFrames h ++ e.outcome.ended := by
  simp [endedFrames]

@[simp] theorem acceptedFrames_snoc (h : List Event) (e : Event) :
    acceptedFrames (h ++ [e]) = acceptedFrames h ++ e.outcome.admitted := by
  simp [acceptedFrames]

/-- Where a frame is. -/
inductive At (s : State) (f : VmFrame) : Place → Prop
  | queued (hf : f ∈ s.vm.contents) : At s f .queued
  | expiring (h : ℕ) (o : Origin) (r : VmRequest) (hp : s.handler h = .vmExpiring o r f) :
      At s f (.expiring h)
  | polled (hp : s.vmTask = .polled f ∨ s.vmTask = .matched f) : At s f .polled

lemma At.ne_ended {s : State} {f : VmFrame} {p : Place} (h : At s f p) : p ≠ .ended := by
  cases h <;> simp

structure Placed (h : List Event) (s : State) : Prop where
  vm : s.vm.WellFormed
  place : ∀ f p, At s f p → s.place f.uid = p ∧ f ∈ acceptedFrames h
  nodup : (s.vm.contents.map (·.uid)).Nodup
  ended : ∀ f ∈ endedFrames h, s.place f.uid = .ended ∧ f ∈ acceptedFrames h
  endedNodup : ((endedFrames h).map (·.uid)).Nodup
  numbers : (acceptedFrames h).map (·.uid) = List.range s.accepted

lemma Placed.uid_lt {h : List Event} {s : State} (hi : Placed h s) {f : VmFrame}
    (hf : f ∈ acceptedFrames h) : f.uid < s.accepted := by
  have hm : f.uid ∈ (acceptedFrames h).map (·.uid) := List.mem_map_of_mem hf
  rw [hi.numbers] at hm
  exact List.mem_range.mp hm

/-- The frames `fs`, all in the same place, end; nothing else moves. -/
lemma placed_end {h : List Event} {s t : State} {e : Event} {fs : List VmFrame} {q : Place}
    (hi : Placed h s) (hv : t.vm.WellFormed) (hout : e.outcome.ended = fs)
    (hadm : e.outcome.admitted = []) (hacc : t.accepted = s.accepted)
    (hplace : ∀ uid, t.place uid = if uid ∈ fs.map (·.uid) then .ended else s.place uid)
    (hfs : ∀ f ∈ fs, At s f q) (hnd : (fs.map (·.uid)).Nodup)
    (hsub : (t.vm.contents).Sublist s.vm.contents)
    (hat : ∀ g p, At t g p → At s g p ∧ (fs = [] ∨ p ≠ q)) : Placed (h ++ [e]) t := by
  have apart : ∀ g p, At s g p → (fs = [] ∨ p ≠ q) → g.uid ∉ fs.map (·.uid) := by
    rintro g p hg (rfl | hpq) hm
    · simp at hm
    · obtain ⟨f, hf, hu⟩ := List.mem_map.mp hm
      refine hpq ?_
      rw [← (hi.place g p hg).1, ← (hi.place f q (hfs f hf)).1, hu]
  refine ⟨hv, ?_, (hsub.map _).nodup hi.nodup, ?_, ?_, ?_⟩
  · intro g p hg
    obtain ⟨hg', hne⟩ := hat g p hg
    obtain ⟨hp, ha⟩ := hi.place g p hg'
    rw [hplace, if_neg (apart g p hg' hne), acceptedFrames_snoc, hadm, List.append_nil]
    exact ⟨hp, ha⟩
  · intro f hf
    rw [endedFrames_snoc, hout, List.mem_append] at hf
    rw [hplace, acceptedFrames_snoc, hadm, List.append_nil]
    rcases hf with hf | hf
    · obtain ⟨hp, ha⟩ := hi.ended f hf
      refine ⟨?_, ha⟩
      split_ifs
      · rfl
      · exact hp
    · rw [if_pos (List.mem_map_of_mem hf)]
      exact ⟨rfl, (hi.place f q (hfs f hf)).2⟩
  · rw [endedFrames_snoc, hout, List.map_append]
    refine List.nodup_append.mpr ⟨hi.endedNodup, hnd, ?_⟩
    rintro a ha b hb rfl
    obtain ⟨f, hf, hfa⟩ := List.mem_map.mp ha
    obtain ⟨g, hg, hga⟩ := List.mem_map.mp hb
    have hat' := hfs g hg
    refine hat'.ne_ended ?_
    rw [← (hi.place g q hat').1, hga, ← hfa]
    exact (hi.ended f hf).1
  · rw [acceptedFrames_snoc, hadm, List.append_nil, hacc]
    exact hi.numbers

/-- Nothing that concerns a frame happens. -/
lemma placed_kept {h : List Event} {s t : State} {e : Event} (hi : Placed h s)
    (hv : t.vm.WellFormed) (hout : e.outcome.ended = []) (hadm : e.outcome.admitted = [])
    (hacc : t.accepted = s.accepted) (hplace : t.place = s.place)
    (hsub : (t.vm.contents).Sublist s.vm.contents) (hat : ∀ g p, At t g p → At s g p) :
    Placed (h ++ [e]) t :=
  placed_end (q := .ended) hi hv hout hadm hacc (fun uid => by simp [hplace]) (by simp) (by simp)
    hsub fun g p hg => ⟨hat g p hg, .inl rfl⟩

/-- One frame ends. -/
lemma placed_end_one {h : List Event} {s t : State} {e : Event} {f : VmFrame} {q : Place}
    (hi : Placed h s) (hv : t.vm.WellFormed) (hout : e.outcome.ended = [f])
    (hadm : e.outcome.admitted = []) (hacc : t.accepted = s.accepted)
    (hplace : t.place = Function.update s.place f.uid .ended) (hf : At s f q)
    (hsub : (t.vm.contents).Sublist s.vm.contents)
    (hat : ∀ g p, At t g p → At s g p ∧ p ≠ q) : Placed (h ++ [e]) t := by
  refine placed_end (q := q) hi hv hout hadm hacc (fun uid => ?_) (by simpa using hf) (by simp)
    hsub fun g p hg => ⟨(hat g p hg).1, .inr (hat g p hg).2⟩
  simp [hplace, Function.update_apply]

/-- The frame at the head of the queue moves to another place. -/
lemma placed_take {h : List Event} {s t : State} {e : Event} {q : Place} (hi : Placed h s)
    (hne : s.vm.head ≠ s.vm.tail) (hvm : t.vm = s.vm.take) (hout : e.outcome.ended = [])
    (hadm : e.outcome.admitted = []) (hacc : t.accepted = s.accepted)
    (hplace : t.place = Function.update s.place (s.vm.cells s.vm.head).uid q)
    (hat : ∀ g p, At t g p →
      (g = s.vm.cells s.vm.head ∧ p = q) ∨ (At s g p ∧ p ≠ .queued) ∨ g ∈ t.vm.contents ∧
        p = .queued) : Placed (h ++ [e]) t := by
  have hc := VmQueue.contents_take hi.vm hne
  have hhead : At s (s.vm.cells s.vm.head) .queued :=
    .queued (by rw [hc]; exact List.mem_cons_self)
  have hnd := hi.nodup
  rw [hc, List.map_cons, List.nodup_cons] at hnd
  refine ⟨hvm ▸ hi.vm.take, ?_, hvm ▸ hnd.2, ?_, ?_, ?_⟩
  · intro g p hg
    rw [acceptedFrames_snoc, hadm, List.append_nil, hplace]
    rcases hat g p hg with ⟨rfl, rfl⟩ | ⟨hs, hpq⟩ | ⟨hmem, rfl⟩
    · exact ⟨Function.update_self .., (hi.place _ _ hhead).2⟩
    · obtain ⟨hp, ha⟩ := hi.place g p hs
      refine ⟨?_, ha⟩
      rw [Function.update_of_ne, hp]
      intro hu
      rw [hu, (hi.place _ _ hhead).1] at hp
      exact hpq hp.symm
    · rw [hvm] at hmem
      have hs : At s g .queued := .queued (by rw [hc]; exact List.mem_cons_of_mem _ hmem)
      obtain ⟨hp, ha⟩ := hi.place g _ hs
      refine ⟨?_, ha⟩
      rw [Function.update_of_ne, hp]
      intro hu
      exact hnd.1 (hu ▸ List.mem_map_of_mem hmem)
  · intro f hf
    rw [endedFrames_snoc, hout, List.append_nil] at hf
    rw [acceptedFrames_snoc, hadm, List.append_nil, hplace]
    obtain ⟨hp, ha⟩ := hi.ended f hf
    refine ⟨?_, ha⟩
    rw [Function.update_of_ne, hp]
    intro hu
    rw [hu, (hi.place _ _ hhead).1] at hp
    cases hp
  · rw [endedFrames_snoc, hout, List.append_nil]
    exact hi.endedNodup
  · rw [acceptedFrames_snoc, hadm, List.append_nil, hacc]
    exact hi.numbers

/-- An accepted frame gets the next number. -/
lemma placed_push {h : List Event} {s t : State} {e : Event} {f : VmFrame} (hi : Placed h s)
    (hv : t.vm.WellFormed) (hc : t.vm.contents = s.vm.contents ++ [f])
    (hu : f.uid = s.accepted) (hout : e.outcome.ended = []) (hadm : e.outcome.admitted = [f])
    (hacc : t.accepted = s.accepted + 1)
    (hplace : t.place = Function.update s.place s.accepted .queued)
    (hat : ∀ g p, At t g p → p ≠ .queued → At s g p) : Placed (h ++ [e]) t := by
  have fresh : ∀ g ∈ acceptedFrames h, g.uid ≠ s.accepted := fun g hg =>
    (hi.uid_lt hg).ne
  have old : ∀ g p, At s g p → t.place g.uid = p ∧ g ∈ acceptedFrames h := by
    intro g p hg
    obtain ⟨hp, ha⟩ := hi.place g p hg
    rw [hplace, Function.update_of_ne (fresh g ha), hp]
    exact ⟨rfl, ha⟩
  refine ⟨hv, ?_, ?_, ?_, ?_, ?_⟩
  · intro g p hg
    rw [acceptedFrames_snoc, hadm, List.mem_append, List.mem_singleton]
    by_cases hp : p = .queued
    · subst hp
      cases hg with
      | queued hg =>
        rw [hc, List.mem_append, List.mem_singleton] at hg
        rcases hg with hg | rfl
        · obtain ⟨hq, ha⟩ := old g _ (.queued hg)
          exact ⟨hq, .inl ha⟩
        · rw [hplace, hu, Function.update_self]
          exact ⟨rfl, .inr rfl⟩
    · obtain ⟨hq, ha⟩ := old g p (hat g p hg hp)
      exact ⟨hq, .inl ha⟩
  · rw [hc, List.map_append, List.map_singleton, hu]
    refine List.nodup_append.mpr ⟨hi.nodup, by simp, ?_⟩
    intro a ha b hb
    obtain ⟨g, hg, rfl⟩ := List.mem_map.mp ha
    rw [List.mem_singleton.mp hb]
    exact fresh g (hi.place g _ (.queued hg)).2
  · intro g hg
    rw [endedFrames_snoc, hout, List.append_nil] at hg
    obtain ⟨hp, ha⟩ := hi.ended g hg
    rw [acceptedFrames_snoc, hadm, hplace, Function.update_of_ne (fresh g ha)]
    exact ⟨hp, List.mem_append_left _ ha⟩
  · rw [endedFrames_snoc, hout, List.append_nil]
    exact hi.endedNodup
  · rw [acceptedFrames_snoc, hadm, List.map_append, hi.numbers, hacc, List.range_succ,
      List.map_singleton, hu]

/-- A handler that does not hold an expired frame moves to a state that holds none either. -/
lemma at_setHandler {s : State} {k : ℕ} {p : Handler} (hp : ∀ o r f, p ≠ .vmExpiring o r f)
    {g : VmFrame} {q : Place} (h : At (s.setHandler k p) g q) : At s g q ∧ q ≠ .expiring k := by
  cases h with
  | queued hf => exact ⟨.queued hf, by simp⟩
  | expiring j o r hj =>
    by_cases hjk : j = k
    · subst hjk
      simp only [State.setHandler, Function.update_self] at hj
      exact absurd hj (hp o r g)
    · simp only [State.setHandler, Function.update_of_ne hjk] at hj
      exact ⟨.expiring j o r hj, by simpa using hjk⟩
  | polled hq => exact ⟨.polled hq, by simp⟩

lemma At.congr {s t : State} {f : VmFrame} {p : Place} (h : At t f p)
    (hv : t.vm.contents = s.vm.contents) (hh : t.handler = s.handler)
    (hm : t.vmTask = s.vmTask) : At s f p := by
  cases h with
  | queued hf => exact .queued (hv ▸ hf)
  | expiring j o r hj => exact .expiring j o r (hh ▸ hj)
  | polled hq => exact .polled (hm ▸ hq)

/-- When the VM task is neither polling nor checking, it holds no queued frame. -/
lemma at_vmTask {s t : State} {g : VmFrame} {q : Place} (h : At t g q)
    (hv : t.vm.contents = s.vm.contents) (hh : t.handler = s.handler)
    (hm : ∀ f, t.vmTask ≠ .polled f ∧ t.vmTask ≠ .matched f) : At s g q ∧ q ≠ .polled := by
  cases h with
  | queued hf => exact ⟨.queued (hv ▸ hf), by simp⟩
  | expiring j o r hj => exact ⟨.expiring j o r (hh ▸ hj), by simp⟩
  | polled hq => exact absurd hq (not_or.mpr (hm g))

theorem placed_step {cfg : Config} {h : List Event} {s t : State} {a : Action} {out : Outcome}
    (hs : Step cfg s a out t) (hi : Placed h s) : Placed (h ++ [⟨a, out⟩]) t := by
  have hv := step_vm hs hi.vm
  cases hs with
  | same => exact placed_kept hi hv rfl rfl rfl rfl (.refl _) fun g p hg => hg
  | called op hop =>
    exact placed_kept hi hv rfl rfl rfl rfl (.refl _) fun g p hg => hg.congr rfl rfl rfl
  | received h link id vm epoch now cur hidle hok =>
    exact placed_kept hi hv rfl rfl rfl rfl (.refl _) fun g p hg =>
      (at_setHandler (by simp) hg).1.congr rfl rfl rfl
  | moved h p q hp hm =>
    refine placed_kept hi hv rfl rfl rfl rfl (.refl _) fun g p hg => (at_setHandler ?_ hg).1
    cases hm <;> simp
  | replChecked h o data now cur hp hpass =>
    exact placed_kept hi hv rfl rfl rfl rfl (.refl _) fun g p hg =>
      (at_setHandler (by simp) hg).1.congr rfl rfl rfl
  | vmChecked h o r now cur hp hpass =>
    exact placed_kept hi hv rfl rfl rfl rfl (.refl _) fun g p hg =>
      (at_setHandler (by simp) hg).1.congr rfl rfl rfl
  | replPushed h o data hp =>
    exact placed_kept hi hv rfl rfl rfl rfl (.refl _) fun g p hg =>
      (at_setHandler (by simp) hg).1.congr rfl rfl rfl
  | expireTaken h o r hp hne =>
    refine placed_take hi hne rfl rfl rfl rfl rfl fun g p hg => ?_
    cases hg with
    | queued hf => exact .inr (.inr ⟨hf, rfl⟩)
    | expiring j o' r' hj =>
      by_cases hjk : j = h
      · subst hjk
        simp only [State.setPlace, State.setHandler, Function.update_self,
          Handler.vmExpiring.injEq] at hj
        exact .inl ⟨hj.2.2.symm, rfl⟩
      · simp only [State.setPlace, State.setHandler, Function.update_of_ne hjk] at hj
        exact .inr (.inl ⟨.expiring j o' r' hj, by simp⟩)
    | polled hq => exact .inr (.inl ⟨.polled hq, by simp⟩)
  | expireChecked h o r f now cur hp =>
    refine placed_end_one (f := f) (q := .expiring h) hi hv ?_ ?_ rfl rfl (.expiring h o r hp)
      (.refl _) fun g p hg => ?_
    · split <;> rfl
    · split <;> rfl
    · have hg' : At (s.setHandler h (.vmChecked o r)) g p := hg.congr rfl rfl rfl
      exact at_setHandler (by simp) hg'
  | vmPushed h o r now vm hp hq =>
    obtain ⟨-, hc, -⟩ := VmQueue.push_spec hi.vm hq
    refine placed_push hi hv hc rfl rfl rfl rfl rfl fun g p hg hpq => ?_
    have hg' : At ({ s with vm := vm }.setHandler h (.handling o)) g p := hg.congr rfl rfl rfl
    cases (at_setHandler (by simp) hg').1 with
    | queued hf => exact absurd rfl hpq
    | expiring j o' r' hj => exact .expiring j o' r' hj
    | polled hq => exact .polled hq
  | looked r p hp =>
    exact placed_kept hi hv rfl rfl rfl rfl (.refl _) fun g p hg => hg.congr rfl rfl rfl
  | popped r generation ready hp =>
    refine placed_kept hi hv ?_ ?_ rfl rfl (.refl _) fun g p hg => hg.congr rfl rfl rfl
    · simp only [readPop]
      split <;> rfl
    · simp only [readPop]
      split <;> rfl
  | peeked r generation ready hp =>
    exact placed_kept hi hv rfl rfl rfl rfl (.refl _) fun g p hg => hg.congr rfl rfl rfl
  | pollEmpty hp he =>
    exact placed_kept hi hv rfl rfl rfl rfl (.refl _) fun g p hg => hg.congr rfl rfl rfl
  | pollTaken hp hne =>
    refine placed_take hi hne rfl rfl rfl rfl rfl fun g p hg => ?_
    cases hg with
    | queued hf => exact .inr (.inr ⟨hf, rfl⟩)
    | expiring j o r hj => exact .inr (.inl ⟨.expiring j o r hj, by simp⟩)
    | polled hq =>
      simp only [State.setPlace, VmTask.polled.injEq, reduceCtorEq, or_false] at hq
      exact .inl ⟨hq.symm, rfl⟩
  | pollMismatch f hp hg =>
    exact placed_end_one (q := .polled) hi hv rfl rfl rfl rfl (.polled (.inl hp)) (.refl _)
      fun g p hg => at_vmTask hg rfl rfl (by simp [State.setPlace])
  | pollMatched f hp =>
    refine placed_kept hi hv rfl rfl rfl rfl (.refl _) fun g p hg => ?_
    cases hg with
    | queued hf => exact .queued hf
    | expiring j o r hj => exact .expiring j o r hj
    | polled hq =>
      simp only [reduceCtorEq, VmTask.matched.injEq, false_or] at hq
      exact .polled (.inl (hq ▸ hp))
  | pollRefused f now cur scope hp hfail =>
    exact placed_end_one (q := .polled) hi hv rfl rfl rfl rfl (.polled (.inr hp)) (.refl _)
      fun g p hg => at_vmTask hg rfl rfl (by simp [State.setPlace])
  | pollAnswered f now cur hp hpass =>
    exact placed_end_one (q := .polled) hi hv rfl rfl rfl rfl (.polled (.inr hp)) (.refl _)
      fun g p hg => at_vmTask hg rfl rfl (by simp [State.setPlace])
  | pollDispatched f now cur hp hpass =>
    exact placed_end_one (q := .polled) hi hv rfl rfl rfl rfl (.polled (.inr hp)) (.refl _)
      fun g p hg => at_vmTask hg rfl rfl (by simp [State.setPlace])
  | pollHandled h f hp hidle =>
    exact placed_kept hi hv rfl rfl rfl rfl (.refl _) fun g p hg =>
      (at_setHandler (by simp) hg).1
  | pollDone f hp =>
    exact placed_kept hi hv rfl rfl rfl rfl (.refl _) fun g p hg =>
      (at_vmTask (s := s) hg rfl rfl (by simp)).1
  | unready hp =>
    exact placed_kept hi hv rfl rfl rfl rfl (.refl _) fun g p hg =>
      (at_vmTask (s := s) hg rfl rfl (by simp)).1
  | advanced hp =>
    exact placed_kept hi hv rfl rfl rfl rfl (.refl _) fun g p hg =>
      (at_vmTask (s := s) hg rfl rfl (by simp)).1
  | clearedVm hp =>
    refine placed_end (q := .queued) hi hv rfl rfl rfl (fun uid => rfl)
      (fun f hf => .queued hf) hi.nodup ?_ fun g p hg => ?_
    · simp [State.endAll]
    · cases hg with
      | queued hf => simp [State.endAll] at hf
      | expiring j o r hj => exact ⟨.expiring j o r hj, .inr (by simp)⟩
      | polled hq => simp [State.endAll] at hq
  | clearedRepl hp =>
    exact placed_kept hi hv rfl rfl rfl rfl (.refl _) fun g p hg =>
      (at_vmTask (s := s) hg rfl rfl (by simp)).1
  | ready hp =>
    exact placed_kept hi hv rfl rfl rfl rfl (.refl _) fun g p hg => hg.congr rfl rfl rfl
  | clearedStale generation =>
    refine placed_end (q := .queued) hi hv rfl rfl rfl (fun uid => rfl)
      (fun f hf => .queued (List.mem_of_mem_filter hf))
      ((List.filter_sublist.map _).nodup hi.nodup) ?_ fun g p hg => ?_
    · obtain ⟨-, heq | ⟨hnil, -⟩⟩ := VmQueue.clearStale_spec hi.vm generation s.generation
      · simp only [State.endAll, heq]
        exact .refl _
      · simp only [State.endAll, hnil]
        exact List.nil_sublist _
    · cases hg with
      | queued hf =>
        simp only [State.endAll] at hf
        obtain ⟨-, heq | ⟨hnil, -⟩⟩ := VmQueue.clearStale_spec hi.vm generation s.generation
        · rw [heq] at hf
          exact ⟨.queued hf, .inl (by simp [heq, Outcome.ended])⟩
        · simp [hnil] at hf
      | expiring j o r hj => exact ⟨.expiring j o r hj, .inr (by simp)⟩
      | polled hq => exact ⟨.polled hq, .inr (by simp)⟩
  | clearedGeneration generation =>
    exact placed_kept hi hv rfl rfl rfl rfl (.refl _) fun g p hg => hg.congr rfl rfl rfl

theorem placed_of_reaches {cfg : Config} {h : List Event} {s : State}
    (hr : Reaches (inputs cfg) h s) : Placed h s := by
  refine hr.invariant (I := fun h s => Placed h s) ?_ ?_
  · rintro s ⟨epoch, rfl⟩
    refine ⟨VmQueue.wellFormed_empty, ?_, by simp, by simp [endedFrames], by simp [endedFrames],
      by simp [acceptedFrames]⟩
    intro f p hf
    cases hf with
    | queued hf => simp at hf
    | expiring j o r hj => cases hj
    | polled hq => rcases hq with hq | hq <;> cases hq
  · rintro h s ⟨a, out⟩ t - hi hstep
    exact placed_step (step_cases hstep) hi

end EspVision.EvInput
