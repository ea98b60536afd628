import EspVision.InputHolders

/-!
# Isolation of queued input from later sessions

Every origin that is held anywhere was authorised when its frame arrived and is
still the current context unless the input generation has moved on. The
consumers compare the generation, so what they take is current. Every accepted
frame is in one place at a time and leaves it for good at most once.
-/
namespace EspVision.EvInput
open EvTransport EvSession TransitionSystem

/-! ## The session side of an action -/

lemma moved_refl (s : Counted) : Moved s s := .kept rfl rfl rfl id

theorem step_moved {cfg : Config} {s t : State} {a : Action} {out : Outcome}
    (hs : Step cfg s a out t) : Moved s.counted t.counted := by
  cases hs
  case called op _ => exact call_moved cfg s.counted op
  case received => exact call_moved cfg s.counted _
  case replChecked => exact reauthorize_moved cfg s.counted _ _ _
  case vmChecked => exact reauthorize_moved cfg s.counted _ _ _
  case expireChecked => exact reauthorize_moved cfg s.counted _ _ _
  case pollRefused => exact reauthorize_moved cfg s.counted _ _ _
  case pollAnswered => exact reauthorize_moved cfg s.counted _ _ _
  case pollDispatched => exact reauthorize_moved cfg s.counted _ _ _
  case unready => exact call_moved cfg s.counted _
  case advanced => exact call_moved cfg s.counted _
  case ready => exact call_moved cfg s.counted _
  all_goals exact moved_refl _

lemma moved_mono {s t : Counted} (h : Moved s t) : s.changes ≤ t.changes := by
  rcases h with ⟨hc, -⟩ | ⟨hc, -⟩ <;> omega

/-- Only the VM task changes the readiness. -/
lemma apply_vmReady (cfg : Config) (s : EvSession.State) (op : Op) (h : vmOnly op = false) :
    (op.apply cfg s).1.vmReady = s.vmReady := by
  have hclear : ∀ link rel id, (clearOwner cfg s link rel id).1.vmReady = s.vmReady := by
    intro link rel id
    rcases clearOwner_cases cfg s link rel id with ⟨-, hc⟩ | hc <;> rw [hc]
    rfl
  cases op with
  | acquire link nonce now random cur =>
    rcases acquire_cases s link nonce now random cur with
      ⟨-, -, ha⟩ | ⟨-, -, -, -, ha⟩ | ⟨r, ha⟩ <;> simp only [Op.apply, ha]
    rfl
  | acquireReturn link cur =>
    cases cur with
    | true => rfl
    | false => exact hclear link false none
  | keepalive link id now cur =>
    rcases keepalive_cases s link id now cur with ⟨hk, -⟩ | ⟨hk, -⟩ <;>
      simp only [Op.apply, hk]
  | authorize link id vm epoch now cur =>
    exact (authorize_keeps s link id vm epoch now cur).2.2.2
  | helloComplete link id tx =>
    rcases helloComplete_cases cfg s link id tx with
      ⟨rfl, -, rfl, rfl, hc⟩ | ⟨rfl, -, -, -, hc⟩ | hc <;> simp only [Op.apply, hc]
    rfl
  | releasePrepare link id cur =>
    rcases releasePrepare_cases s link id cur with ⟨-, -, -, hk⟩ | ⟨hk, -⟩ <;>
      simp only [Op.apply, hk]
    rfl
  | releaseFinish link id => exact hclear link true id
  | linkLost link => exact hclear link false none
  | tick now =>
    rcases tick_cases cfg s now with ⟨-, -, hk⟩ | hk <;> simp only [Op.apply, hk]
    rfl
  | vmEpochAdvance => cases h
  | setVmReady ready => cases h

/-- The interpreter is being reset and does not take input. -/
def Resetting (s : State) : Prop :=
  s.vmTask = .unready ∨ s.vmTask = .advanced ∨ s.vmTask = .cleared

/-- How an action changes the readiness and the reset phase. -/
theorem step_ready {cfg : Config} {s t : State} {a : Action} {out : Outcome}
    (hs : Step cfg s a out t) :
    (t.session.vmReady = s.session.vmReady ∧ (Resetting t → Resetting s) ∧
        (s.vmTask = .unready → t.vmTask = .unready)) ∨
      (s.vmTask = .idle ∧ t.session.vmReady = false ∧ t.vmTask = .unready) ∨
      (t.session.vmReady = s.session.vmReady ∧ s.vmTask = .unready ∧
        t.counted.changes = s.counted.changes + 1) ∨
      (t.session.vmReady = true ∧ t.vmTask = .idle) := by
  have keep : ∀ c now cur, (s.reauthorize cfg c now cur).1.session.vmReady =
      s.session.vmReady := fun c now cur => (reauthorize_keeps cfg s.counted c now cur).2
  cases hs
  case called op hv => exact .inl ⟨apply_vmReady cfg s.session op hv, id, id⟩
  case received => exact .inl ⟨apply_vmReady cfg s.session _ rfl, id, id⟩
  case replChecked => exact .inl ⟨keep _ _ _, id, id⟩
  case vmChecked => exact .inl ⟨keep _ _ _, id, id⟩
  case expireChecked => exact .inl ⟨keep _ _ _, id, id⟩
  case pollTaken hp _ => exact .inl ⟨rfl, by simp [Resetting, State.setPlace], by simp [hp]⟩
  case pollMismatch f hp _ =>
    exact .inl ⟨rfl, by simp [Resetting, State.setPlace], by simp [hp]⟩
  case pollMatched f hp => exact .inl ⟨rfl, by simp [Resetting], by simp [hp]⟩
  case pollRefused f now cur scope hp _ =>
    exact .inl ⟨keep _ _ _, by simp [Resetting, State.setPlace], by simp [hp]⟩
  case pollAnswered f now cur hp _ =>
    exact .inl ⟨keep _ _ _, by simp [Resetting, State.setPlace], by simp [hp]⟩
  case pollDispatched f now cur hp _ =>
    exact .inl ⟨keep _ _ _, by simp [Resetting, State.setPlace], by simp [hp]⟩
  case pollDone f hp => exact .inl ⟨rfl, by simp [Resetting], by simp [hp]⟩
  case unready hp => exact .inr (.inl ⟨hp, rfl, rfl⟩)
  case advanced hp =>
    refine .inr (.inr (.inl ⟨rfl, hp, ?_⟩))
    exact if_neg (nextCounter_ne _)
  case clearedVm hp =>
    exact .inl ⟨rfl, fun _ => .inr (.inl hp), by simp [hp]⟩
  case clearedRepl hp => exact .inl ⟨rfl, by simp [Resetting], by simp [hp]⟩
  case ready hp => exact .inr (.inr (.inr ⟨rfl, hp⟩))
  all_goals exact .inl ⟨rfl, id, id⟩

/-! ## The queues stay well formed -/

/-- What is in the ring was there before or carries the generation of its own origin. -/
theorem step_repl {cfg : Config} {s t : State} {a : Action} {out : Outcome}
    (hs : Step cfg s a out t) (hr : EvReplQueue.WellFormed s.repl) :
    EvReplQueue.WellFormed t.repl ∧ ∀ e ∈ t.repl.contents,
      e ∈ s.repl.contents ∨ e.generation = e.value.2.context.inputGeneration := by
  cases hs
  case replPushed h o data hp =>
    refine ⟨(EvReplQueue.push_contents hr _ _ _).1, fun e he => ?_⟩
    rcases EvReplQueue.mem_push hr he with he | ⟨hg, hd, -⟩
    · exact .inl he
    · obtain ⟨byte, -, hbyte⟩ := List.mem_map.mp hd
      exact .inr (by rw [hg, ← hbyte])
  case popped r generation ready hp =>
    obtain ⟨hwf, hsub, -⟩ := EvReplQueue.pop_spec hr generation s.generation ready
    exact ⟨hwf, fun e he => .inl (hsub e he)⟩
  case peeked r generation ready hp =>
    obtain ⟨hwf, hsub⟩ := EvReplQueue.pending_spec hr generation s.generation ready
    exact ⟨hwf, fun e he => .inl (hsub e he)⟩
  case clearedRepl hp =>
    exact ⟨EvReplQueue.wellFormed_forceClear _ _, fun e he => by simp at he⟩
  case clearedGeneration generation =>
    unfold EvReplQueue.clearGeneration
    split
    · exact ⟨hr, fun e he => .inl he⟩
    · refine ⟨EvReplQueue.wellFormed_renew hr generation, fun e he => ?_⟩
      rcases EvReplQueue.renew_contents s.repl generation with hc | hc
      · simp [hc] at he
      · exact .inl (hc ▸ he)
  all_goals exact ⟨hr, fun e he => .inl he⟩

theorem step_vm {cfg : Config} {s t : State} {a : Action} {out : Outcome}
    (hs : Step cfg s a out t) (hv : s.vm.WellFormed) : t.vm.WellFormed := by
  cases hs
  case expireTaken => exact hv.take
  case vmPushed hp hq => exact (VmQueue.push_spec hv hq).1
  case pollEmpty hp he => exact ⟨hv.head, hv.tail, by simp [he]⟩
  case pollTaken => exact hv.take
  case clearedVm => exact VmQueue.wellFormed_empty
  case clearedStale generation => exact (VmQueue.clearStale_spec hv _ _).1
  all_goals exact hv

/-! ## What every run keeps -/

/-- A frame with this origin arrived and was authorised. -/
def Received (h : List Event) (o : Origin) : Prop := ∃ e ∈ h, e.outcome = .received o

structure Isolated (h : List Event) (s : State) : Prop where
  numbered : s.counted.Numbered
  ring : EvReplQueue.WellFormed s.repl
  tagged : ∀ e ∈ s.repl.contents, e.generation = e.value.2.context.inputGeneration
  vm : s.vm.WellFormed
  origins : ∀ o b, Holds s o b → Received h o ∧ s.counted.Remembers o.context
  armed : ∀ o, Holds s o true → o.context.inputGeneration = s.generation →
    s.session.vmReady = true ∨ s.vmTask = .unready
  resetting : Resetting s → s.session.vmReady = false

lemma Received.snoc {h : List Event} {o : Origin} (hr : Received h o) (e : Event) :
    Received (h ++ [e]) o := by
  obtain ⟨x, hx, ho⟩ := hr
  exact ⟨x, List.mem_append_left _ hx, ho⟩

lemma step_numbered {cfg : Config} {s t : State} {a : Action} {out : Outcome}
    (hs : Step cfg s a out t) (hn : s.counted.Numbered) : t.counted.Numbered := by
  obtain ⟨hg, hf⟩ := hn
  rcases step_moved hs with ⟨hc, hg'⟩ | ⟨hc, hx, hp, -⟩
  · refine ⟨?_, fun _ => by omega⟩
    rw [hg', hg, hc, nextCounter_generationAfter]
  · have hgen : t.counted.state.inputGeneration = s.counted.state.inputGeneration :=
      congrArg Context.inputGeneration hx
    refine ⟨by rw [hgen, hg, hc], fun h => ?_⟩
    rw [hc]
    exact hf (hp ▸ h)

/-- Only a successful authorization of an owner starts a handler. -/
lemma received_context {cfg : Config} {s t : State} {a : Action} {o : Origin}
    (hs : Step cfg s a (.received o) t) :
    o.context = s.session.context ∧ s.session.phase = .owned ∧
      s.session.handshakeComplete = true := by
  generalize hout : Outcome.received o = out at hs
  cases hs <;> first | cases hout | skip
  case received h link id vm epoch now cur hi hok =>
    obtain ⟨-, hp, -, -, hh, -⟩ := authorize_ok hok
    exact ⟨rfl, hp, hh⟩
  case expireChecked => split at hout <;> cases hout
  case popped r generation ready hp =>
    simp only [readPop] at hout
    split at hout <;> cases hout

lemma step_origins {cfg : Config} {h : List Event} {s t : State} {a : Action} {out : Outcome}
    (hs : Step cfg s a out t) (hi : Isolated h s) {o : Origin} {b : Bool} (hh : Holds t o b) :
    Received (h ++ [⟨a, out⟩]) o ∧ t.counted.Remembers o.context := by
  have old : ∀ b', Holds s o b' →
      Received (h ++ [⟨a, out⟩]) o ∧ t.counted.Remembers o.context := by
    intro b' hb
    obtain ⟨hr, hm⟩ := hi.origins o b' hb
    exact ⟨hr.snoc _, hm.moved (step_moved hs)⟩
  rcases holds_step hs hi.ring hi.vm hh with hb | hb | ⟨-, rfl⟩ | ⟨hb, -⟩
  · exact old _ hb
  · exact old _ hb
  · obtain ⟨hc, hp, hdone⟩ := received_context hs
    refine ⟨⟨⟨a, .received o⟩, by simp, rfl⟩, ?_⟩
    rw [hc]
    exact (hi.numbered.remembers hp hdone).moved (step_moved hs)
  · exact old _ hb

/-- A context remembered before the generation moved on is not current after it. -/
lemma not_current_of_changed {s t : Counted} {c : Context} (h : s.Remembers c)
    (ht : t.Numbered) (hc : t.changes = s.changes + 1) (hfew : t.changes < 2 ^ 32) :
    c.inputGeneration ≠ t.state.inputGeneration := by
  obtain ⟨n, h1, hn, hg, -⟩ := h
  intro heq
  have hnt := generationAfter_inj h1 (by omega) hfew (by rw [← hg, heq, ht.1])
  omega

lemma step_armed {cfg : Config} {h : List Event} {s t : State} {a : Action} {out : Outcome}
    (hs : Step cfg s a out t) (hi : Isolated h s) (hfew : t.counted.changes < 2 ^ 32)
    {o : Origin} (hh : Holds t o true) (hg : o.context.inputGeneration = t.generation) :
    t.session.vmReady = true ∨ t.vmTask = .unready := by
  have hnum := step_numbered hs hi.numbered
  have held : (∃ b, Holds s o b) → t.counted.changes ≠ s.counted.changes + 1 := by
    rintro ⟨b, hb⟩ hc
    exact not_current_of_changed (hi.origins o b hb).2 hnum hc hfew hg
  have armed : Holds s o true → t.session.vmReady = true ∨ t.vmTask = .unready := by
    intro hb
    have hgs : o.context.inputGeneration = s.generation := by
      rcases step_moved hs with ⟨hc, -⟩ | ⟨-, hx, -⟩
      · exact absurd hc (held ⟨true, hb⟩)
      · exact hg.trans (congrArg Context.inputGeneration hx)
    rcases step_ready hs with ⟨hr, -, hu⟩ | ⟨-, -, hu⟩ | ⟨-, -, hc⟩ | ⟨hr, -⟩
    · rcases hi.armed o hb hgs with hready | hun
      · exact .inl (hr.trans hready)
      · exact .inr (hu hun)
    · exact .inr hu
    · exact absurd hc (held ⟨true, hb⟩)
    · exact .inl hr
  rcases holds_step hs hi.ring hi.vm hh with hb | hb | ⟨hb, -⟩ | ⟨-, -, hready⟩
  · exact armed hb
  · exact armed hb
  · cases hb
  · exact .inl hready

theorem isolated_step {cfg : Config} {h : List Event} {s t : State} {a : Action} {out : Outcome}
    (hs : Step cfg s a out t) (hi : Isolated h s) (hfew : t.counted.changes < 2 ^ 32) :
    Isolated (h ++ [⟨a, out⟩]) t where
  numbered := step_numbered hs hi.numbered
  ring := (step_repl hs hi.ring).1
  tagged e he := by
    rcases (step_repl hs hi.ring).2 e he with he | hg
    · exact hi.tagged e he
    · exact hg
  vm := step_vm hs hi.vm
  origins o b hh := step_origins hs hi hh
  armed o hh hg := step_armed hs hi hfew hh hg
  resetting hr := by
    rcases step_ready hs with ⟨hready, hres, -⟩ | ⟨-, hready, -⟩ | ⟨hready, hun, -⟩ | ⟨-, hidle⟩
    · exact hready.trans (hi.resetting (hres hr))
    · exact hready
    · exact hready.trans (hi.resetting (.inl hun))
    · simp [Resetting, hidle] at hr

theorem isolated_of_reaches {cfg : Config} {h : List Event} {s : State}
    (hr : Reaches (inputs cfg) h s) : s.counted.changes < 2 ^ 32 → Isolated h s := by
  refine hr.invariant (I := fun h s => s.counted.changes < 2 ^ 32 → Isolated h s) ?_ ?_
  · rintro s ⟨epoch, rfl⟩ -
    have none : ∀ o b, ¬ Holds { counted := ⟨{ state := init0 cfg epoch }, 0⟩ } o b := by
      intro o b hh
      cases hh with
      | ring e he =>
        simp [EvReplQueue.Queue.contents, RingBuffer.contents_self EvReplQueue.capacity_pos] at he
      | queued f hf => simp at hf
      | handler k b hk => exact hk.elim
      | vmTask b hk => exact hk.elim
    refine ⟨numbered_init cfg epoch, ⟨EvReplQueue.capacity_pos, EvReplQueue.capacity_pos⟩, ?_,
      VmQueue.wellFormed_empty, fun o b hh => absurd hh (none o b),
      fun o hh => absurd hh (none o true), ?_⟩
    · intro e he
      simp [EvReplQueue.Queue.contents, RingBuffer.contents_self EvReplQueue.capacity_pos] at he
    · intro hres
      simp [Resetting] at hres
  · rintro h s ⟨a, out⟩ t - hi hstep hfew
    have hs := step_cases hstep
    exact isolated_step hs (hi (lt_of_le_of_lt (moved_mono (step_moved hs)) hfew)) hfew

end EspVision.EvInput
