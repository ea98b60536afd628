import EspVision.InputOutcomes

/-!
# Stale input never reaches the interpreter

The results about whole runs of the input queues, a run that shows them at work,
and the two windows in which a frame of the current generation is dropped
without an answer.
-/
namespace EspVision.EvInput
open EvTransport EvSession TransitionSystem

/-- The registry answered that the frame's link is no longer current. -/
def Action.linkRetired : Action → Bool
  | .vmExpireCheck _ _ cur => !cur
  | .pollCheck _ cur _ => !cur
  | _ => false

/-- The section that decides what becomes of a frame taken from the queue. -/
inductive Examines (s : State) : Action → VmFrame → Prop
  | poll {f : VmFrame} (now : UInt32) (cur scope : Bool) (hp : s.vmTask = .matched f) :
      Examines s (.pollCheck now cur scope) f
  | expire (h : ℕ) (o : Origin) (r : VmRequest) {f : VmFrame} (now : UInt32) (cur : Bool)
      (hp : s.handler h = .vmExpiring o r f) : Examines s (.vmExpireCheck h now cur) f

/-- What an action may do with an input, in the state `s` that the run `h` has reached. -/
structure Guarded (h : List Event) (s : State) (e : Event) : Prop where
  /-- A frame starts a handler under the context of the owner. -/
  received : ∀ o, e.outcome = .received o → o.context = s.session.context ∧
    s.session.phase = .owned ∧ s.session.handshakeComplete = true
  /-- A popped byte came in a frame of the current context. -/
  popped : ∀ b o, e.outcome = .popped b o → Received h o ∧ o.context = s.session.context
  /-- So did a dispatched frame. -/
  dispatched : ∀ f, e.outcome = .dispatched f →
    Received h f.origin ∧ f.origin.context = s.session.context
  /-- A frame of the current generation is dispatched or answered, unless its link is retired
  or the interpreter is being reset. -/
  examined : ∀ f, Examines s e.action f → f.origin.context.inputGeneration = s.generation →
    e.action.linkRetired = false → s.vmTask ≠ .unready →
    e.outcome = .timedOut f ∨ e.outcome = .dispatched f ∨
      (e.outcome = .internalError f ∧ ∃ now, e.action = .pollCheck now true false)
  /-- Any other drop is of another generation. -/
  dropped : ∀ f, e.outcome = .droppedStale f → e.action.linkRetired = false →
    s.vmTask ≠ .unready → f.origin.context.inputGeneration ≠ s.generation
  /-- The clears never reach a frame of the current generation. -/
  cleared : ∀ fs, e.outcome = .cleared fs →
    ∀ f ∈ fs, f.origin.context.inputGeneration ≠ s.generation

/-- Accepted frames are numbered, and each leaves the input path at most once. -/
structure OneOutcome (h : List Event) : Prop where
  numbered : ∃ n, (acceptedFrames h).map (·.uid) = List.range n
  accepted : ∀ f ∈ endedFrames h, f ∈ acceptedFrames h
  once : ((endedFrames h).map (·.uid)).Nodup

/-- A held origin of the current generation passes the check, but for the link and the
interpreter. -/
lemma reauthorize_held {cfg : Config} {h : List Event} {s : State} (hi : Isolated h s)
    (hfew : s.counted.changes < 2 ^ 32) {o : Origin} {b : Bool} (hh : Holds s o b)
    (hg : o.context.inputGeneration = s.generation) (now : UInt32) (cur : Bool) :
    (s.reauthorize cfg o.context now cur).2 = true ↔ cur = true ∧ s.session.vmReady = true := by
  obtain ⟨-, hm⟩ := hi.origins o b hh
  obtain ⟨hc, hp, hdone⟩ := hm.current hi.numbered hfew hg
  rw [show (s.reauthorize cfg o.context now cur).2 =
    (s.counted.reauthorize cfg o.context now cur).2.2 from rfl, reauthorize_iff]
  constructor
  · rintro ⟨hcur, -, -, -, hr⟩
    exact ⟨hcur, hr⟩
  · rintro ⟨hcur, hr⟩
    exact ⟨hcur, hc, hp, hdone, hr⟩

/-- A frame of the current generation under examination passes the check when its link is
current and no reset has begun. -/
lemma examined_passes {cfg : Config} {h : List Event} {s : State} (hi : Isolated h s)
    (hfew : s.counted.changes < 2 ^ 32) {o : Origin} (hh : Holds s o true)
    (hg : o.context.inputGeneration = s.generation) (hun : s.vmTask ≠ .unready) (now : UInt32) :
    (s.reauthorize cfg o.context now true).2 = true := by
  rcases hi.armed o hh hg with hready | hreset
  · exact (reauthorize_held hi hfew hh hg now true).mpr ⟨rfl, hready⟩
  · exact absurd hreset hun

lemma Examines.holds {s : State} {a : Action} {f : VmFrame} (h : Examines s a f) :
    Holds s f.origin true := by
  cases h with
  | poll now cur scope hp => exact .vmTask _ (by simp [hp, VmTask.Holds])
  | expire k o r now cur hp => exact .handler k _ (by simp [hp, Handler.Holds])

/-- What the deciding section answers to a frame of the current generation. -/
lemma examined_outcome {cfg : Config} {h : List Event} {s t : State} {a : Action}
    {out : Outcome} (hi : Isolated h s) (hfew : s.counted.changes < 2 ^ 32)
    (hact : act cfg s a = some (t, out)) {f : VmFrame} (hex : Examines s a f)
    (hg : f.origin.context.inputGeneration = s.generation) (hlink : a.linkRetired = false)
    (hun : s.vmTask ≠ .unready) :
    out = .timedOut f ∨ out = .dispatched f ∨
      (out = .internalError f ∧ ∃ now, a = .pollCheck now true false) := by
  have hpass := fun now => (examined_passes hi hfew hex.holds hg hun now : (s.reauthorize cfg f.origin.context now true).2 = true)
  cases hex with
  | poll now cur scope hp =>
    obtain rfl : cur = true := by simpa [Action.linkRetired] using hlink
    simp only [act, hp, pollCheck, hpass now, Bool.not_true, Bool.false_eq_true, if_false,
      Option.some.injEq] at hact
    cases scope with
    | false =>
      obtain ⟨-, rfl⟩ := Prod.mk.inj hact
      exact .inr (.inr ⟨rfl, now, rfl⟩)
    | true =>
      obtain ⟨-, rfl⟩ := Prod.mk.inj hact
      exact .inr (.inl rfl)
  | expire k o r now cur hp =>
    obtain rfl : cur = true := by simpa [Action.linkRetired] using hlink
    simp only [act, hp, vmExpireCheck, hpass now, if_true, Option.some.injEq] at hact
    obtain ⟨-, rfl⟩ := Prod.mk.inj hact
    exact .inl rfl

/-- A stale drop is decided by one of the two examinations, or by the first look of the poll
at the generation. -/
lemma dropped_examined {cfg : Config} {s t : State} {a : Action} {f : VmFrame}
    (hs : Step cfg s a (.droppedStale f) t) :
    Examines s a f ∨ s.generation ≠ f.origin.context.inputGeneration := by
  generalize hout : Outcome.droppedStale f = out at hs
  cases hs <;> first | cases hout | skip
  case expireChecked k o r g now cur hp =>
    split at hout
    · cases hout
    · obtain rfl := Outcome.droppedStale.inj hout
      exact .inl (.expire k o r now cur hp)
  case popped r generation ready hp =>
    simp only [readPop] at hout
    split at hout <;> cases hout
  case pollMismatch hp hg => exact .inr hg
  case pollRefused now cur scope hp hfail => exact .inl (.poll now cur scope hp)

/-- A byte comes from the ring, under the generation that is current. -/
lemma popped_held {cfg : Config} {h : List Event} {s t : State} {a : Action} {byte : UInt8}
    {o : Origin} (hi : Isolated h s) (hs : Step cfg s a (.popped byte o) t) :
    Holds s o false ∧ o.context.inputGeneration = s.generation := by
  generalize hout : Outcome.popped byte o = out at hs
  cases hs <;> first | cases hout | skip
  case expireChecked => split at hout <;> cases hout
  case popped r generation ready hp =>
    obtain ⟨-, -, hpop⟩ := EvReplQueue.pop_spec hi.ring generation s.generation ready
    simp only [readPop] at hout
    split at hout
    · next v hv =>
      obtain ⟨rfl, rfl⟩ := Outcome.popped.inj hout
      obtain ⟨-, hg, hmem⟩ := hpop v hv
      exact ⟨.ring _ hmem rfl, (hi.tagged _ hmem).symm.trans hg⟩
    · cases hout

lemma dispatched_held {cfg : Config} {s t : State} {a : Action} {f : VmFrame}
    (hs : Step cfg s a (.dispatched f) t) :
    Holds s f.origin true ∧ f.origin.context = s.session.context := by
  generalize hout : Outcome.dispatched f = out at hs
  cases hs <;> first | cases hout | skip
  case expireChecked => split at hout <;> cases hout
  case popped =>
    simp only [readPop] at hout
    split at hout <;> cases hout
  case pollDispatched now cur hp hpass =>
    exact ⟨.vmTask _ (by simp [hp, VmTask.Holds]), (reauthorize_pass hpass).1⟩

/-- The clear of a reset runs while the interpreter is not ready, and the other clear compares
the generation. -/
lemma cleared_stale {cfg : Config} {h : List Event} {s t : State} {a : Action}
    {fs : List VmFrame} (hi : Isolated h s) (hs : Step cfg s a (.cleared fs) t) :
    ∀ f ∈ fs, f.origin.context.inputGeneration ≠ s.generation := by
  generalize hout : Outcome.cleared fs = out at hs
  cases hs <;> first | cases hout | skip
  case expireChecked => split at hout <;> cases hout
  case popped =>
    simp only [readPop] at hout
    split at hout <;> cases hout
  case clearedVm hp =>
    intro f hf hg
    have hready := hi.resetting (.inr (.inl hp))
    rcases hi.armed f.origin (.queued f hf rfl) hg with hr | hu
    · rw [hready] at hr
      cases hr
    · rw [hp] at hu
      cases hu
  case clearedStale generation =>
    obtain ⟨-, heq | ⟨-, hold⟩⟩ := VmQueue.clearStale_spec hi.vm generation s.generation
    · intro f hf
      simp [heq] at hf
    · exact fun f hf => hold f (List.mem_of_mem_filter hf)

theorem guarded_step {cfg : Config} {h : List Event} {s t : State} {e : Event}
    (hi : Isolated h s) (hfew : s.counted.changes < 2 ^ 32)
    (hact : act cfg s e.action = some (t, e.outcome)) : Guarded h s e := by
  have hs := step_cases hact
  obtain ⟨a, out⟩ := e
  refine ⟨?_, ?_, ?_, ?_, ?_, ?_⟩
  · rintro o rfl
    exact received_context hs
  · rintro b o rfl
    obtain ⟨hh, hg⟩ := popped_held hi hs
    obtain ⟨hr, hm⟩ := hi.origins o _ hh
    exact ⟨hr, (hm.current hi.numbered hfew hg).1⟩
  · rintro f rfl
    obtain ⟨hh, hc⟩ := dispatched_held hs
    exact ⟨(hi.origins _ _ hh).1, hc⟩
  · intro f hex hg hlink hun
    exact examined_outcome hi hfew hact hex hg hlink hun
  · rintro f rfl hlink hun hg
    rcases dropped_examined hs with hex | hne
    · have hout := examined_outcome hi hfew hact hex hg hlink hun
      simp at hout
    · exact hne hg.symm
  · rintro fs rfl
    exact cleared_stale hi hs

/-- Stale input isolation. In every run with fewer than `2 ^ 32` generation changes, what the
interpreter takes was received under the context that is current when it is taken, and every
accepted frame has at most one outcome. -/
theorem stale_input_isolated (cfg : Config) {h : List Event} {s : State}
    (hr : Reaches (inputs cfg) h s) (hfew : s.counted.changes < 2 ^ 32) :
    (∀ e t, (inputs cfg).step s e t → Guarded h s e) ∧ OneOutcome h := by
  have hp := placed_of_reaches hr
  refine ⟨fun e t hstep => guarded_step (isolated_of_reaches hr hfew) hfew hstep, ?_⟩
  exact ⟨⟨s.accepted, hp.numbers⟩, fun f hf => (hp.ended f hf).2, hp.endedNodup⟩

/-! ## Runs -/

/-- Perform the actions one after the other, as far as they can run. -/
def run (cfg : Config) (s : State) : List Action → List Event × State
  | [] => ([], s)
  | a :: as =>
    match act cfg s a with
    | none => ([], s)
    | some (t, out) => (⟨a, out⟩ :: (run cfg t as).1, (run cfg t as).2)

theorem run_path (cfg : Config) (s : State) (as : List Action) :
    Path (inputs cfg) s (run cfg s as).1 (run cfg s as).2 := by
  induction as generalizing s with
  | nil => exact .nil s
  | cons a as ih =>
    unfold run
    cases ha : act cfg s a with
    | none => exact .nil s
    | some r => exact .cons ha (ih r.1)

/-- The run of a list of actions from power-on. -/
def powerOn (cfg : Config) (epoch : UInt32) (as : List Action) : List Event × State :=
  run cfg { counted := ⟨{ state := init0 cfg epoch }, 0⟩ } as

theorem reaches_powerOn (cfg : Config) (epoch : UInt32) (as : List Action) :
    Reaches (inputs cfg) (powerOn cfg epoch as).1 (powerOn cfg epoch as).2 := by
  simpa [powerOn] using (Reaches.init ⟨epoch, rfl⟩ : Reaches (inputs cfg) [] _).append
    (run_path cfg _ as)

/-- A session with a ready interpreter; a frame of it has been accepted and taken by the poll. -/
def polling : List Action :=
  [.session (.acquire usbLink someNonce 0 someWords true), .session (.acquireReturn usbLink true),
    .session (.helloComplete usbLink (makeId someWords) true), .vmReady,
    .receive 0 usbLink (some (makeId someWords)) true (some 7) 10 true,
    .vmCheck 0 {} 10 true, .vmExpireTake 0 10, .vmPush 0 10, .pollTake, .pollMatch]

/-- The poll of that frame dispatches it, and the frame's own context is the current one. -/
theorem stale_input_isolated_polling :
    ∃ e t, (inputs noSinks).step (powerOn noSinks 7 polling).2 e t ∧
      e.outcome = .dispatched ⟨{}, ⟨0, (powerOn noSinks 7 polling).2.session.context⟩, 10, 0⟩ ∧
      Guarded (powerOn noSinks 7 polling).1 (powerOn noSinks 7 polling).2 e := by
  have h := stale_input_isolated noSinks (reaches_powerOn noSinks 7 polling)
    (show (powerOn noSinks 7 polling).2.counted.changes < 2 ^ 32 by decide)
  have hact : (inputs noSinks).step (powerOn noSinks 7 polling).2
      ⟨.pollCheck 20 true true,
        .dispatched ⟨{}, ⟨0, (powerOn noSinks 7 polling).2.session.context⟩, 10, 0⟩⟩ _ := rfl
  exact ⟨_, _, hact, rfl, h.1 _ _ hact⟩

/-- A frame waits for more than five seconds; a second frame takes it out of the queue to answer
it, and just then the interpreter begins a reset. -/
def expiring : List Action :=
  polling.take 8 ++
    [Action.receive 1 usbLink (some (makeId someWords)) true (some 7) 6000 true,
      .vmCheck 1 {} 6000 true, .vmExpireTake 1 6000, .resetUnready]

/-- The frame's generation is still current, its link too, and it is dropped without an answer. -/
theorem beginning_reset_drops_vm_frame :
    ¬ ∀ (cfg : Config) (h : List Event) (s t : State) (e : Event) (f : VmFrame),
      Reaches (inputs cfg) h s → s.counted.changes < 2 ^ 32 → (inputs cfg).step s e t →
        Examines s e.action f → f.origin.context.inputGeneration = s.generation →
          e.outcome = .dispatched f ∨ e.outcome = .timedOut f := by
  intro hall
  have hact : (inputs noSinks).step (powerOn noSinks 7 expiring).2
      ⟨.vmExpireCheck 1 6000 true,
        .droppedStale ⟨{}, ⟨0, (powerOn noSinks 7 expiring).2.session.context⟩, 10, 0⟩⟩ _ := rfl
  have h := hall noSinks _ _ _ _ _ (reaches_powerOn noSinks 7 expiring) (by decide) hact
    (.expire 1 ⟨1, (powerOn noSinks 7 expiring).2.session.context⟩ {} 6000 true rfl) rfl
  simp at h

end EspVision.EvInput
