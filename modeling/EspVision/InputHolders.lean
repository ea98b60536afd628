import EspVision.InputSteps

/-!
# Who holds queued input

The two queues as lists, and the origins that are held anywhere: in a queue, by
a handler, or by the VM task. No action makes an origin appear out of nothing.
-/
namespace EspVision.EvInput
open EvTransport EvSession TransitionSystem

/-! ## The VM queue as a list -/

/-- The indices stay inside the queue, and `pending` tells whether it is empty. -/
structure VmQueue.WellFormed (q : VmQueue) : Prop where
  head : q.head < vmQueueLen
  tail : q.tail < vmQueueLen
  pending : q.pending = true ↔ q.head ≠ q.tail

lemma vmQueueLen_pos : 0 < vmQueueLen := by decide

theorem VmQueue.wellFormed_empty : VmQueue.WellFormed {} :=
  ⟨vmQueueLen_pos, vmQueueLen_pos, by simp⟩

@[simp] theorem VmQueue.contents_empty : VmQueue.contents {} = [] :=
  RingBuffer.contents_self vmQueueLen_pos _

theorem VmQueue.WellFormed.take {q : VmQueue} (h : q.WellFormed) : q.take.WellFormed :=
  ⟨RingBuffer.next_lt vmQueueLen_pos _, h.tail, by simp [VmQueue.take]⟩

theorem VmQueue.contents_take {q : VmQueue} (h : q.WellFormed) (hne : q.head ≠ q.tail) :
    q.contents = q.cells q.head :: q.take.contents :=
  RingBuffer.contents_pop h.head h.tail hne _

theorem VmQueue.push_spec {q q' : VmQueue} {f : VmFrame} {current : UInt32} (h : q.WellFormed)
    (hp : q.push f current = some q') :
    q'.WellFormed ∧ q'.contents = q.contents ++ [f] ∧
      f.origin.context.inputGeneration = current := by
  unfold VmQueue.push at hp
  split at hp
  · cases hp
  · next hg =>
    simp only at hp
    split at hp
    · cases hp
    · next hfull =>
      obtain rfl := Option.some.inj hp
      refine ⟨⟨h.head, RingBuffer.next_lt vmQueueLen_pos _, ?_⟩,
        RingBuffer.contents_push h.head h.tail hfull _ _, (not_not.mp hg).symm⟩
      simpa using fun he => hfull he.symm

/-- The stale clear keeps the queue, or empties it of frames of other generations. -/
theorem VmQueue.clearStale_spec {q : VmQueue} (h : q.WellFormed) (generation current : UInt32) :
    (q.clearStale generation current).WellFormed ∧
      (q.clearStale generation current = q ∨
        ((q.clearStale generation current).contents = [] ∧
          ∀ f ∈ q.contents, f.origin.context.inputGeneration ≠ current)) := by
  unfold VmQueue.clearStale
  split_ifs with hg hs
  · exact ⟨h, .inl rfl⟩
  · push Not at hg
    refine ⟨⟨h.tail, h.tail, by simp⟩, .inr ⟨RingBuffer.contents_self vmQueueLen_pos _, ?_⟩⟩
    have hlen : q.contents.length < vmQueueLen := by
      rw [VmQueue.contents, RingBuffer.length_contents]
      exact RingBuffer.used_lt h.head h.tail
    have hone := VmQueue.contents_take h hs.1
    have hrest : q.take.contents = [] := by
      rw [hone, List.length_cons] at hlen
      exact List.length_eq_zero_iff.mp (by simp only [vmQueueLen] at hlen; omega)
    intro f hf
    rw [hone, hrest, List.mem_singleton] at hf
    rw [hf, hg.2]
    exact hs.2
  · exact ⟨h, .inl rfl⟩

/-! ## Who holds an origin -/

/-- The flag tells whether the holder passed a check as VM input. -/
def Handler.Holds (o : Origin) (checked : Bool) : Handler → Prop
  | .idle => False
  | .handling p => checked = false ∧ p = o
  | .replChecked p _ => checked = false ∧ p = o
  | .vmChecked p _ => checked = true ∧ p = o
  | .vmExpiring p _ f => checked = true ∧ (p = o ∨ f.origin = o)
  | .vmPushing p _ => checked = true ∧ p = o

def VmTask.Holds (o : Origin) (checked : Bool) : VmTask → Prop
  | .polled f => checked = true ∧ f.origin = o
  | .matched f => checked = true ∧ f.origin = o
  | .running f => checked = false ∧ f.origin = o
  | _ => False

inductive Holds (s : State) (o : Origin) : Bool → Prop
  | ring (e : EvReplQueue.Entry (UInt8 × Origin)) (he : e ∈ s.repl.contents)
      (ho : e.value.2 = o) : Holds s o false
  | queued (f : VmFrame) (hf : f ∈ s.vm.contents) (ho : f.origin = o) : Holds s o true
  | handler (h : ℕ) (b : Bool) (hh : (s.handler h).Holds o b) : Holds s o b
  | vmTask (b : Bool) (hh : s.vmTask.Holds o b) : Holds s o b

/-- Only the queues, the handlers and the VM task hold origins. -/
lemma Holds.of_parts {s t : State} {o : Origin} {b : Bool} (h : Holds t o b)
    (hr : ∀ e ∈ t.repl.contents, e ∈ s.repl.contents)
    (hv : ∀ f ∈ t.vm.contents, f ∈ s.vm.contents)
    (hh : ∀ k, (t.handler k).Holds o b → Holds s o b)
    (hm : t.vmTask.Holds o b → Holds s o b) : Holds s o b := by
  cases h with
  | ring e he ho => exact .ring e (hr e he) ho
  | queued f hf ho => exact .queued f (hv f hf) ho
  | handler k b hk => exact hh k hk
  | vmTask b hk => exact hm hk

lemma Holds.setHandler {s : State} {k : ℕ} {p : Handler} {o : Origin} {b : Bool}
    (h : Holds (s.setHandler k p) o b) : Holds s o b ∨ p.Holds o b := by
  by_cases hp : p.Holds o b
  · exact .inr hp
  · refine .inl (h.of_parts (fun e he => he) (fun f hf => hf) ?_ fun hm => .vmTask b hm)
    intro j hj
    by_cases hjk : j = k
    · subst hjk
      simp only [State.setHandler, Function.update_self] at hj
      exact absurd hj hp
    · simp only [State.setHandler, Function.update_of_ne hjk] at hj
      exact .handler j b hj

lemma Holds.congr {s t : State} {o : Origin} {b : Bool} (h : Holds t o b)
    (hr : t.repl = s.repl) (hv : t.vm = s.vm) (hh : t.handler = s.handler)
    (hm : t.vmTask = s.vmTask) : Holds s o b :=
  h.of_parts (fun _ he => hr ▸ he) (fun _ hf => hv ▸ hf) (fun k hk => .handler k b (hh ▸ hk))
    fun hk => .vmTask b (hm ▸ hk)

/-- The check of a handler passed. -/
lemma reauthorize_pass {cfg : Config} {s : State} {c : Context} {now : UInt32} {cur : Bool}
    (h : (s.reauthorize cfg c now cur).2 = true) :
    c = s.session.context ∧ (s.reauthorize cfg c now cur).1.session.vmReady = true := by
  obtain ⟨-, hc, -, -, hready⟩ := (reauthorize_iff cfg s.counted c now cur).mp h
  exact ⟨hc, (reauthorize_keeps cfg s.counted c now cur).2.trans hready⟩

/-- After an action an origin is held by whoever held it before, by a handler whose frame has
just arrived, or by a handler whose check has just passed. -/
theorem holds_step {cfg : Config} {s t : State} {a : Action} {out : Outcome}
    (hs : Step cfg s a out t) (hr : EvReplQueue.WellFormed s.repl) (hv : s.vm.WellFormed)
    {o : Origin} {b : Bool} (hh : Holds t o b) :
    Holds s o b ∨ Holds s o true ∨ (b = false ∧ out = .received o) ∨
      (Holds s o false ∧ o.context = s.session.context ∧ t.session.vmReady = true) := by
  cases hs with
  | same => exact .inl hh
  | called op hop => exact .inl (hh.congr rfl rfl rfl rfl)
  | received h link id vm epoch now cur hi hok =>
    rcases hh.setHandler with hh | ⟨hb, rfl⟩
    · exact .inl (hh.congr rfl rfl rfl rfl)
    · exact .inr (.inr (.inl ⟨hb, rfl⟩))
  | moved h p q hp hm =>
    rcases hh.setHandler with hh | hq
    · exact .inl hh
    · cases hm with
      | finish p => exact hq.elim
      | expired p r =>
        obtain ⟨rfl, rfl⟩ := hq
        exact .inl (.handler h _ (by simp [hp, Handler.Holds]))
      | refused p r =>
        obtain ⟨rfl, rfl⟩ := hq
        exact .inr (.inl (.handler h _ (by simp [hp, Handler.Holds])))
  | replChecked h p data now cur hp hpass =>
    rcases hh.setHandler with hh | ⟨rfl, rfl⟩
    · exact .inl (hh.congr rfl rfl rfl rfl)
    · exact .inl (.handler h _ (by simp [hp, Handler.Holds]))
  | vmChecked h p r now cur hp hpass =>
    rcases hh.setHandler with hh | ⟨rfl, rfl⟩
    · exact .inl (hh.congr rfl rfl rfl rfl)
    · obtain ⟨hc, hready⟩ := reauthorize_pass hpass
      exact .inr (.inr (.inr ⟨.handler h _ (by simp [hp, Handler.Holds]), hc, hready⟩))
  | replPushed h p data hp =>
    have hold : Holds s p false := .handler h _ (by simp [hp, Handler.Holds])
    rcases hh.setHandler with hh | ⟨rfl, rfl⟩
    · cases hh with
      | ring e he ho =>
        rcases EvReplQueue.mem_push hr he with he | ⟨-, hd, -⟩
        · exact .inl (.ring e he ho)
        · obtain ⟨byte, -, hbyte⟩ := List.mem_map.mp hd
          have hpo : p = o := by rw [← ho, ← hbyte]
          exact .inl (hpo ▸ hold)
      | queued f hf ho => exact .inl (.queued f hf ho)
      | handler k b hk => exact .inl (.handler k b hk)
      | vmTask b hk => exact .inl (.vmTask b hk)
    · exact .inl hold
  | expireTaken h p r hp hne =>
    have hc := VmQueue.contents_take hv hne
    have hh' : Holds ({ s with vm := s.vm.take }.setHandler h
        (.vmExpiring p r (s.vm.cells s.vm.head))) o b := hh.congr rfl rfl rfl rfl
    rcases hh'.setHandler with hh | ⟨rfl, rfl | ho⟩
    · refine .inl (hh.of_parts (fun e he => he) (fun f hf => ?_) (fun k hk => .handler k b hk)
        fun hk => .vmTask b hk)
      rw [hc]
      exact List.mem_cons_of_mem _ hf
    · exact .inl (.handler h _ (by simp [hp, Handler.Holds]))
    · exact .inl (.queued _ (by rw [hc]; exact List.mem_cons_self) ho)
  | expireChecked h p r f now cur hp =>
    have hh' : Holds (s.setHandler h (.vmChecked p r)) o b := hh.congr rfl rfl rfl rfl
    rcases hh'.setHandler with hh | ⟨rfl, rfl⟩
    · exact .inl hh
    · exact .inl (.handler h _ (by simp [hp, Handler.Holds]))
  | vmPushed h p r now vm hp hq =>
    obtain ⟨-, hc, -⟩ := VmQueue.push_spec hv hq
    have hold : Holds s p true := .handler h _ (by simp [hp, Handler.Holds])
    have hh' : Holds ({ s with vm := vm }.setHandler h (.handling p)) o b :=
      hh.congr rfl rfl rfl rfl
    rcases hh'.setHandler with hh | ⟨rfl, rfl⟩
    · cases hh with
      | ring e he ho => exact .inl (.ring e he ho)
      | queued f hf ho =>
        simp only [hc, List.mem_append, List.mem_singleton] at hf
        rcases hf with hf | rfl
        · exact .inl (.queued f hf ho)
        · exact .inl (ho ▸ hold)
      | handler k b hk => exact .inl (.handler k b hk)
      | vmTask b hk => exact .inl (.vmTask b hk)
    · exact .inr (.inl hold)
  | looked r p hp => exact .inl (hh.congr rfl rfl rfl rfl)
  | popped r generation ready hp =>
    obtain ⟨-, hsub, -⟩ := EvReplQueue.pop_spec hr generation s.generation ready
    exact .inl (hh.of_parts hsub (fun f hf => hf) (fun k hk => .handler k b hk)
      fun hk => .vmTask b hk)
  | peeked r generation ready hp =>
    obtain ⟨-, hsub⟩ := EvReplQueue.pending_spec hr generation s.generation ready
    exact .inl (hh.of_parts hsub (fun f hf => hf) (fun k hk => .handler k b hk)
      fun hk => .vmTask b hk)
  | pollEmpty hp he =>
    exact .inl (hh.of_parts (fun e he => he) (fun f hf => hf) (fun k hk => .handler k b hk)
      fun hk => .vmTask b hk)
  | pollTaken hp hne =>
    have hc := VmQueue.contents_take hv hne
    refine .inl (hh.of_parts (fun e he => he) (fun f hf => ?_) (fun k hk => .handler k b hk)
      fun hk => ?_)
    · rw [hc]
      exact List.mem_cons_of_mem _ hf
    · obtain ⟨rfl, ho⟩ := hk
      exact .queued _ (by rw [hc]; exact List.mem_cons_self) ho
  | pollMismatch f hp hg =>
    exact .inl (hh.of_parts (fun e he => he) (fun f hf => hf) (fun k hk => .handler k b hk)
      fun hk => hk.elim)
  | pollMatched f hp =>
    exact .inl (hh.of_parts (fun e he => he) (fun f hf => hf) (fun k hk => .handler k b hk)
      fun hk => .vmTask b (by rw [hp]; exact hk))
  | pollRefused f now cur scope hp hfail =>
    exact .inl (hh.of_parts (fun e he => he) (fun f hf => hf) (fun k hk => .handler k b hk)
      fun hk => hk.elim)
  | pollAnswered f now cur hp hpass =>
    exact .inl (hh.of_parts (fun e he => he) (fun f hf => hf) (fun k hk => .handler k b hk)
      fun hk => hk.elim)
  | pollDispatched f now cur hp hpass =>
    have hold : ∀ {o}, f.origin = o → Holds s o true := fun ho =>
      .vmTask _ (by simp [hp, VmTask.Holds, ho])
    cases hh with
    | ring e he ho => exact .inl (.ring e he ho)
    | queued f hf ho => exact .inl (.queued f hf ho)
    | handler k b hk => exact .inl (.handler k b hk)
    | vmTask b hk => exact .inr (.inl (hold hk.2))
  | pollHandled h f hp hi =>
    rcases hh.setHandler with hh | ⟨rfl, rfl⟩
    · exact .inl hh
    · exact .inl (.vmTask _ (by simp [hp, VmTask.Holds]))
  | pollDone f hp =>
    exact .inl (hh.of_parts (fun e he => he) (fun f hf => hf) (fun k hk => .handler k b hk)
      fun hk => hk.elim)
  | unready hp =>
    exact .inl (hh.of_parts (fun e he => he) (fun f hf => hf) (fun k hk => .handler k b hk)
      fun hk => hk.elim)
  | advanced hp =>
    exact .inl (hh.of_parts (fun e he => he) (fun f hf => hf) (fun k hk => .handler k b hk)
      fun hk => hk.elim)
  | clearedVm hp =>
    exact .inl (hh.of_parts (fun e he => he) (fun f hf => by simp [State.endAll] at hf)
      (fun k hk => .handler k b hk) fun hk => hk.elim)
  | clearedRepl hp =>
    exact .inl (hh.of_parts (fun e he => by simp at he) (fun f hf => hf)
      (fun k hk => .handler k b hk) fun hk => hk.elim)
  | ready hp => exact .inl (hh.congr rfl rfl rfl rfl)
  | clearedStale generation =>
    refine .inl (hh.of_parts (fun e he => he) (fun f hf => ?_) (fun k hk => .handler k b hk)
      fun hk => .vmTask b hk)
    obtain ⟨-, heq | ⟨hnil, -⟩⟩ := VmQueue.clearStale_spec hv generation s.generation
    · exact heq ▸ hf
    · simp only [State.endAll, hnil, List.not_mem_nil] at hf
  | clearedGeneration generation =>
    refine .inl (hh.of_parts (fun e he => ?_) (fun f hf => hf) (fun k hk => .handler k b hk)
      fun hk => .vmTask b hk)
    unfold EvReplQueue.clearGeneration at he
    split at he
    · exact he
    · rcases EvReplQueue.renew_contents s.repl generation with hc | hc
      · simp [hc] at he
      · exact hc ▸ he

end EspVision.EvInput
