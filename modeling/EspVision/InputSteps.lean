import EspVision.InputQueues

/-!
# What one action on the input queues can do

`Step` lists the effects of an action with everything that was checked before
them; every invariant of the input queues is proved by cases on it.
-/
namespace EspVision.EvInput
open EvTransport EvSession TransitionSystem

/-- A handler moves on without touching a queue. -/
inductive HandlerMove : Handler → Handler → Prop
  | finish (o : Origin) : HandlerMove (.handling o) .idle
  | expired (o : Origin) (r : VmRequest) : HandlerMove (.vmChecked o r) (.vmPushing o r)
  | refused (o : Origin) (r : VmRequest) : HandlerMove (.vmPushing o r) (.handling o)

inductive Step (cfg : Config) (s : State) : Action → Outcome → State → Prop
  | same {a : Action} : Step cfg s a .silent s
  | called {a : Action} (op : Op) (hv : vmOnly op = false) : Step cfg s a .silent (s.call cfg op)
  | received {a : Action} (h : ℕ) (link : LinkRef) (id : Option (List UInt8)) (vm : Bool)
      (epoch : Option UInt32) (now : UInt32) (cur : Bool) (hi : s.handler h = .idle)
      (hok : (authorize s.session link id vm epoch now cur).2 = .ok) :
      Step cfg s a (.received ⟨s.frames, s.session.context⟩)
        ({ s.call cfg (.authorize link id vm epoch now cur) with
            frames := s.frames + 1 }.setHandler h (.handling ⟨s.frames, s.session.context⟩))
  | moved {a : Action} (h : ℕ) (p q : Handler) (hp : s.handler h = p) (hm : HandlerMove p q) :
      Step cfg s a .silent (s.setHandler h q)
  | replChecked {a : Action} (h : ℕ) (o : Origin) (data : List UInt8) (now : UInt32) (cur : Bool)
      (hp : s.handler h = .handling o)
      (hpass : (s.reauthorize cfg o.context now cur).2 = true) :
      Step cfg s a .silent
        ((s.reauthorize cfg o.context now cur).1.setHandler h (.replChecked o data))
  | vmChecked {a : Action} (h : ℕ) (o : Origin) (r : VmRequest) (now : UInt32) (cur : Bool)
      (hp : s.handler h = .handling o)
      (hpass : (s.reauthorize cfg o.context now cur).2 = true) :
      Step cfg s a .silent ((s.reauthorize cfg o.context now cur).1.setHandler h (.vmChecked o r))
  | replPushed {a : Action} (h : ℕ) (o : Origin) (data : List UInt8)
      (hp : s.handler h = .replChecked o data) :
      Step cfg s a .silent
        ({ s with
            repl := (EvReplQueue.push s.repl (data.map fun b => (b, o)) o.context.inputGeneration
              s.generation).1 }.setHandler h (.handling o))
  | expireTaken {a : Action} (h : ℕ) (o : Origin) (r : VmRequest)
      (hp : s.handler h = .vmChecked o r) (hne : s.vm.head ≠ s.vm.tail) :
      Step cfg s a .silent
        (({ s with vm := s.vm.take }.setHandler h
          (.vmExpiring o r (s.vm.cells s.vm.head))).setPlace (s.vm.cells s.vm.head).uid
            (.expiring h))
  | expireChecked (h : ℕ) (o : Origin) (r : VmRequest) (f : VmFrame) (now : UInt32) (cur : Bool)
      (hp : s.handler h = .vmExpiring o r f) :
      Step cfg s (.vmExpireCheck h now cur)
        (if (s.reauthorize cfg f.origin.context now cur).2 then .timedOut f else .droppedStale f)
        (((s.reauthorize cfg f.origin.context now cur).1.setHandler h
          (.vmChecked o r)).setPlace f.uid .ended)
  | vmPushed {a : Action} (h : ℕ) (o : Origin) (r : VmRequest) (now : UInt32) (vm : VmQueue)
      (hp : s.handler h = .vmPushing o r)
      (hq : s.vm.push ⟨r, o, now, s.accepted⟩ s.generation = some vm) :
      Step cfg s a (.accepted ⟨r, o, now, s.accepted⟩)
        (({ s with vm := vm, accepted := s.accepted + 1 }.setHandler h
          (.handling o)).setPlace s.accepted .queued)
  | looked {a : Action} (r : ℕ) (p : Reader) (hp : s.reader r = .idle) :
      Step cfg s a .silent (s.setReader r p)
  | popped {a : Action} (r : ℕ) (generation : UInt32) (ready : Bool)
      (hp : s.reader r = .popping generation ready) :
      Step cfg s a (readPop s r generation ready).2 (readPop s r generation ready).1
  | peeked {a : Action} (r : ℕ) (generation : UInt32) (ready : Bool)
      (hp : s.reader r = .peeking generation ready) :
      Step cfg s a .silent
        ({ s with repl := (EvReplQueue.pending s.repl generation s.generation ready).1 }.setReader
          r .idle)
  | pollEmpty {a : Action} (hp : s.vmTask = .idle) (he : s.vm.head = s.vm.tail) :
      Step cfg s a .silent { s with vm := { s.vm with pending := false } }
  | pollTaken {a : Action} (hp : s.vmTask = .idle) (hne : s.vm.head ≠ s.vm.tail) :
      Step cfg s a .silent
        ({ s with vm := s.vm.take, vmTask := .polled (s.vm.cells s.vm.head) }.setPlace
          (s.vm.cells s.vm.head).uid .polled)
  | pollMismatch {a : Action} (f : VmFrame) (hp : s.vmTask = .polled f)
      (hg : s.generation ≠ f.origin.context.inputGeneration) :
      Step cfg s a (.droppedStale f) ({ s with vmTask := .idle }.setPlace f.uid .ended)
  | pollMatched {a : Action} (f : VmFrame) (hp : s.vmTask = .polled f) :
      Step cfg s a .silent { s with vmTask := .matched f }
  | pollRefused (f : VmFrame) (now : UInt32) (cur scope : Bool) (hp : s.vmTask = .matched f)
      (hfail : (s.reauthorize cfg f.origin.context now cur).2 = false) :
      Step cfg s (.pollCheck now cur scope) (.droppedStale f)
        ({ (s.reauthorize cfg f.origin.context now cur).1 with vmTask := .idle }.setPlace f.uid
          .ended)
  | pollAnswered (f : VmFrame) (now : UInt32) (cur : Bool) (hp : s.vmTask = .matched f)
      (hpass : (s.reauthorize cfg f.origin.context now cur).2 = true) :
      Step cfg s (.pollCheck now cur false) (.internalError f)
        ({ (s.reauthorize cfg f.origin.context now cur).1 with vmTask := .idle }.setPlace f.uid
          .ended)
  | pollDispatched (f : VmFrame) (now : UInt32) (cur : Bool) (hp : s.vmTask = .matched f)
      (hpass : (s.reauthorize cfg f.origin.context now cur).2 = true) :
      Step cfg s (.pollCheck now cur true) (.dispatched f)
        ({ (s.reauthorize cfg f.origin.context now cur).1 with vmTask := .running f }.setPlace
          f.uid .ended)
  | pollHandled {a : Action} (h : ℕ) (f : VmFrame) (hp : s.vmTask = .running f)
      (hi : s.handler h = .idle) : Step cfg s a .silent (s.setHandler h (.handling f.origin))
  | pollDone {a : Action} (f : VmFrame) (hp : s.vmTask = .running f) :
      Step cfg s a .silent { s with vmTask := .idle }
  | unready {a : Action} (hp : s.vmTask = .idle) :
      Step cfg s a .silent { s.call cfg (.setVmReady false) with vmTask := .unready }
  | advanced {a : Action} (hp : s.vmTask = .unready) :
      Step cfg s a .silent { s.call cfg .vmEpochAdvance with vmTask := .advanced }
  | clearedVm {a : Action} (hp : s.vmTask = .advanced) :
      Step cfg s a (.cleared s.vm.contents)
        ({ s with vm := {}, vmTask := .cleared }.endAll s.vm.contents)
  | clearedRepl {a : Action} (hp : s.vmTask = .cleared) :
      Step cfg s a .silent
        { s with repl := EvReplQueue.forceClear s.repl s.generation, vmTask := .idle }
  | ready {a : Action} (hp : s.vmTask = .idle) :
      Step cfg s a .silent (s.call cfg (.setVmReady true))
  | clearedStale {a : Action} (generation : UInt32) :
      Step cfg s a
        (.cleared (s.vm.contents.filter fun f =>
          f ∉ (s.vm.clearStale generation s.generation).contents))
        ({ s with vm := s.vm.clearStale generation s.generation }.endAll
          (s.vm.contents.filter fun f =>
            f ∉ (s.vm.clearStale generation s.generation).contents))
  | clearedGeneration {a : Action} (generation : UInt32) :
      Step cfg s a .silent
        { s with repl := (EvReplQueue.clearGeneration s.repl generation s.generation).1 }

/-- A failed check of a handler is an authorization that changed nothing else. -/
lemma step_check {cfg : Config} {s : State} {a : Action} {h : ℕ} {o : Origin} {now : UInt32}
    {cur : Bool} {p : Handler}
    (hpass : (s.reauthorize cfg o.context now cur).2 = true →
      Step cfg s a .silent ((s.reauthorize cfg o.context now cur).1.setHandler h p)) :
    Step cfg s a .silent
      (if (s.reauthorize cfg o.context now cur).2 then
        (s.reauthorize cfg o.context now cur).1.setHandler h p
      else (s.reauthorize cfg o.context now cur).1) := by
  by_cases hr : (s.reauthorize cfg o.context now cur).2 = true
  · rw [if_pos hr]
    exact hpass hr
  · rw [if_neg hr]
    exact .called _ rfl

lemma step_receive {cfg : Config} {s : State} (a : Action) {h : ℕ} (link : LinkRef)
    (id : Option (List UInt8)) (vm : Bool) (epoch : Option UInt32) (now : UInt32) (cur : Bool)
    (hi : s.handler h = .idle) :
    Step cfg s a (receive cfg s h link (.authorize link id vm epoch now cur) now).2
      (receive cfg s h link (.authorize link id vm epoch now cur) now).1 := by
  by_cases hok : (authorize s.session link id vm epoch now cur).2 = .ok
  · obtain ⟨-, hp, hl, -⟩ := authorize_ok hok
    obtain ⟨hctx, hphase, -, -⟩ := authorize_keeps s.session link id vm epoch now cur
    have hc : ((s.counted.call cfg (.authorize link id vm epoch now cur)).1.state.snapshot
        now).contextOn link = s.session.context := by
      rw [← hctx]
      refine snapshot_context (hphase.trans hp) ?_ now
      exact hl.trans (congrArg Context.link hctx).symm
    have hrec : Step cfg s a _ _ := .received h link id vm epoch now cur hi hok
    have hreply : (s.counted.call cfg (.authorize link id vm epoch now cur)).2.reply =
        .result .ok := congrArg Reply.result hok
    simp only [receive, hreply, if_true, hc]
    exact hrec
  · have hreply : (s.counted.call cfg (.authorize link id vm epoch now cur)).2.reply ≠
        .result .ok := fun h => hok (Reply.result.inj h)
    simp only [receive, hreply, if_false]
    exact .called _ rfl

lemma step_expireTake {cfg : Config} {s : State} (a : Action) {h : ℕ} {o : Origin}
    {r : VmRequest} (now : UInt32) (hp : s.handler h = .vmChecked o r) :
    Step cfg s a .silent (vmExpireTake s h o r now) := by
  unfold vmExpireTake
  by_cases he : s.vm.head = s.vm.tail
  · rw [if_pos he]
    exact .moved h _ _ hp (.expired o r)
  · rw [if_neg he]
    by_cases hold : now - (s.vm.cells s.vm.head).queuedMs ≤ vmExpireMs
    · simp only [hold, if_true]
      exact .moved h _ _ hp (.expired o r)
    · simp only [hold, if_false]
      exact .expireTaken h o r hp he

lemma step_vmPush {cfg : Config} {s : State} (a : Action) {h : ℕ} {o : Origin} {r : VmRequest}
    (now : UInt32) (hp : s.handler h = .vmPushing o r) :
    Step cfg s a (vmPush s h o r now).2 (vmPush s h o r now).1 := by
  unfold vmPush
  cases hq : s.vm.push ⟨r, o, now, s.accepted⟩ s.generation with
  | none =>
    simp only [hq]
    exact .moved h _ _ hp (.refused o r)
  | some vm =>
    simp only [hq]
    exact .vmPushed h o r now vm hp hq

lemma step_readSnapshot {cfg : Config} {s : State} (a : Action) {r : ℕ} (peek ok : Bool)
    (now : UInt32) (hp : s.reader r = .idle) :
    Step cfg s a .silent (readSnapshot s r peek ok now) := by
  unfold readSnapshot
  cases peek with
  | true => exact .looked r _ hp
  | false =>
    by_cases hc : (replReady (s.session.snapshot now) && !ok) = true
    · simp only [hc, if_true, Bool.false_eq_true, if_false]
      exact .same
    · simp only [hc, if_false, Bool.false_eq_true]
      exact .looked r _ hp

lemma step_pollTake {cfg : Config} {s : State} (a : Action) (hp : s.vmTask = .idle) :
    Step cfg s a .silent (pollTake s) := by
  unfold pollTake
  cases s.vm.pending with
  | false => exact .same
  | true =>
    simp only [Bool.not_true, Bool.false_eq_true, if_false]
    by_cases he : s.vm.head = s.vm.tail
    · rw [if_pos he]
      exact .pollEmpty hp he
    · rw [if_neg he]
      exact .pollTaken hp he

lemma step_pollMatch {cfg : Config} {s : State} (a : Action) {f : VmFrame}
    (hp : s.vmTask = .polled f) : Step cfg s a (pollMatch s f).2 (pollMatch s f).1 := by
  unfold pollMatch
  by_cases hg : s.generation ≠ f.origin.context.inputGeneration
  · rw [if_pos hg]
    exact .pollMismatch f hp hg
  · rw [if_neg hg]
    exact .pollMatched f hp

lemma step_pollCheck {cfg : Config} {s : State} {f : VmFrame} (now : UInt32) (cur scope : Bool)
    (hp : s.vmTask = .matched f) :
    Step cfg s (.pollCheck now cur scope) (pollCheck cfg s f now cur scope).2
      (pollCheck cfg s f now cur scope).1 := by
  unfold pollCheck
  cases hr : (s.reauthorize cfg f.origin.context now cur).2 with
  | false =>
    simp only [hr, Bool.not_false, if_true]
    exact .pollRefused f now cur scope hp hr
  | true =>
    simp only [hr, Bool.not_true, Bool.false_eq_true, if_false]
    cases scope with
    | false => exact .pollAnswered f now cur hp hr
    | true => exact .pollDispatched f now cur hp hr

/-- Every action has one of the listed effects. -/
theorem step_cases {cfg : Config} {s t : State} {a : Action} {out : Outcome}
    (h : act cfg s a = some (t, out)) : Step cfg s a out t := by
  cases a with
  | session op =>
    simp only [act] at h
    split at h
    · next hc =>
      obtain ⟨rfl, rfl⟩ := Prod.mk.inj (Option.some.inj h)
      exact .called op hc.2
    · cases h
  | receive k link id vm epoch now cur =>
    simp only [act] at h
    split at h
    · next hi =>
      obtain ⟨rfl, rfl⟩ := Prod.mk.inj (Option.some.inj h)
      exact step_receive _ link id vm epoch now cur hi
    · cases h
  | finish k =>
    simp only [act] at h
    split at h
    · next o hp =>
      obtain ⟨rfl, rfl⟩ := Prod.mk.inj (Option.some.inj h)
      exact .moved k _ _ hp (.finish o)
    · cases h
  | replCheck k data now cur =>
    simp only [act] at h
    split at h
    · next o hp =>
      split at h
      · obtain ⟨rfl, rfl⟩ := Prod.mk.inj (Option.some.inj h)
        exact .same
      · obtain ⟨rfl, rfl⟩ := Prod.mk.inj (Option.some.inj h)
        exact step_check fun hpass => .replChecked k o data now cur hp hpass
    · cases h
  | replPush k =>
    simp only [act] at h
    split at h
    · next o data hp =>
      obtain ⟨rfl, rfl⟩ := Prod.mk.inj (Option.some.inj h)
      exact .replPushed k o data hp
    · cases h
  | vmCheck k r now cur =>
    simp only [act] at h
    split at h
    · next o hp =>
      split at h
      · obtain ⟨rfl, rfl⟩ := Prod.mk.inj (Option.some.inj h)
        exact .same
      · obtain ⟨rfl, rfl⟩ := Prod.mk.inj (Option.some.inj h)
        exact step_check fun hpass => .vmChecked k o r now cur hp hpass
    · cases h
  | vmExpireTake k now =>
    simp only [act] at h
    split at h
    · next o r hp =>
      obtain ⟨rfl, rfl⟩ := Prod.mk.inj (Option.some.inj h)
      exact step_expireTake _ now hp
    · cases h
  | vmExpireCheck k now cur =>
    simp only [act] at h
    split at h
    · next o r f hp =>
      obtain ⟨rfl, rfl⟩ := Prod.mk.inj (Option.some.inj h)
      exact .expireChecked k o r f now cur hp
    · cases h
  | vmPush k now =>
    simp only [act] at h
    split at h
    · next o r hp =>
      obtain ⟨rfl, rfl⟩ := Prod.mk.inj (Option.some.inj h)
      exact step_vmPush _ now hp
    · cases h
  | readSnapshot r peek ok now =>
    simp only [act] at h
    split at h
    · next hp =>
      obtain ⟨rfl, rfl⟩ := Prod.mk.inj (Option.some.inj h)
      exact step_readSnapshot _ peek ok now hp
    · cases h
  | readRing r =>
    simp only [act] at h
    split at h
    · next g ready hp =>
      obtain ⟨rfl, rfl⟩ := Prod.mk.inj (Option.some.inj h)
      exact .popped r g ready hp
    · next g ready hp =>
      obtain ⟨rfl, rfl⟩ := Prod.mk.inj (Option.some.inj h)
      exact .peeked r g ready hp
    · cases h
  | pollTake =>
    simp only [act] at h
    split at h
    · next hp =>
      obtain ⟨rfl, rfl⟩ := Prod.mk.inj (Option.some.inj h)
      exact step_pollTake _ hp
    · cases h
  | pollMatch =>
    simp only [act] at h
    split at h
    · next f hp =>
      obtain ⟨rfl, rfl⟩ := Prod.mk.inj (Option.some.inj h)
      exact step_pollMatch _ hp
    · cases h
  | pollCheck now cur scope =>
    simp only [act] at h
    split at h
    · next f hp =>
      obtain ⟨rfl, rfl⟩ := Prod.mk.inj (Option.some.inj h)
      exact step_pollCheck now cur scope hp
    · cases h
  | pollHandle k =>
    simp only [act] at h
    split at h
    · next f hp hi =>
      obtain ⟨rfl, rfl⟩ := Prod.mk.inj (Option.some.inj h)
      exact .pollHandled k f hp hi
    · cases h
  | pollDone =>
    simp only [act] at h
    split at h
    · next f hp =>
      obtain ⟨rfl, rfl⟩ := Prod.mk.inj (Option.some.inj h)
      exact .pollDone f hp
    · cases h
  | resetUnready =>
    simp only [act] at h
    split at h
    · next hp =>
      obtain ⟨rfl, rfl⟩ := Prod.mk.inj (Option.some.inj h)
      exact .unready hp
    · cases h
  | resetAdvance =>
    simp only [act] at h
    split at h
    · next hp =>
      obtain ⟨rfl, rfl⟩ := Prod.mk.inj (Option.some.inj h)
      exact .advanced hp
    · cases h
  | resetClearVm =>
    simp only [act] at h
    split at h
    · next hp =>
      obtain ⟨rfl, rfl⟩ := Prod.mk.inj (Option.some.inj h)
      exact .clearedVm hp
    · cases h
  | resetClearRepl =>
    simp only [act] at h
    split at h
    · next hp =>
      obtain ⟨rfl, rfl⟩ := Prod.mk.inj (Option.some.inj h)
      exact .clearedRepl hp
    · cases h
  | vmReady =>
    simp only [act] at h
    split at h
    · next hp =>
      obtain ⟨rfl, rfl⟩ := Prod.mk.inj (Option.some.inj h)
      exact .ready hp
    · cases h
  | clearStale generation =>
    obtain ⟨rfl, rfl⟩ := Prod.mk.inj (Option.some.inj h)
    exact .clearedStale generation
  | clearReplGeneration generation =>
    obtain ⟨rfl, rfl⟩ := Prod.mk.inj (Option.some.inj h)
    exact .clearedGeneration generation

end EspVision.EvInput
