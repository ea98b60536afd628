import EspVision.OperationCoordinator

/-!
# Operations are serialized

Calls are numbered in their order. Every call is either settled or waits in the coordinator, and
the operations that were started are those that have returned and the one that runs.
-/
namespace EspVision.OperationCoordinator
open EventLog TransitionSystem

variable {c c' : Coordinator}

/-! ## Draining the queue -/

/-- What rejecting the head of the queue and marking it keep, draining keeps. -/
theorem Coordinator.drain_keeps {I : Coordinator → Prop}
    (hreject : ∀ c item rest, c.queue = item :: rest → c.active = none → c.closed = false →
      item.call ∈ c.aborted → I c → I (c.reject item rest))
    (hmark : ∀ c item rest, c.queue = item :: rest → c.active = none → c.closed = false →
      item.call ∉ c.aborted → I c → I (c.mark item rest))
    {c : Coordinator} (h : I c) : I c.drain := by
  unfold drain
  split_ifs with hbusy
  · exact h
  · rw [not_or] at hbusy
    have hactive : c.active = none := Option.not_isSome_iff_eq_none.mp hbusy.1
    have hclosed : c.closed = false := by simpa using hbusy.2
    clear hbusy
    generalize hq : c.queue = queue
    induction queue generalizing c with
    | nil => exact h
    | cons item rest ih =>
      rw [drainFrom]
      split_ifs with haborted
      · exact ih (hreject c item rest hq hactive hclosed haborted h) hactive hclosed rfl
      · exact hmark c item rest hq hactive hclosed haborted h

/-- What a step does before the queue is drained. -/
def Coordinator.act (c : Coordinator) : Step → Option Coordinator
  | .run request =>
    if !deviceActors.contains request.actor then none
    else if c.closed = true ∨ request.signal.any (c.signals.contains ·) then some c.refuse
    else some (c.push request)
  | .finish =>
    match c.active with
    | some ⟨item, .delivered⟩ => some (c.release item)
    | _ => none
  | e => c.next e

theorem Coordinator.next_cases {e : Step} (h : c.next e = some c') :
    ∃ d, c.act e = some d ∧ (c' = d ∨ c' = d.drain) := by
  cases e with
  | run request =>
    unfold next run at h
    unfold act
    dsimp only at h ⊢
    split_ifs at h ⊢
    · exact ⟨_, rfl, Or.inl (Option.some.inj h).symm⟩
    · exact ⟨_, rfl, Or.inr (Option.some.inj h).symm⟩
  | finish =>
    unfold next at h
    unfold act
    dsimp only at h ⊢
    split at h
    · rename_i item ha
      exact ⟨c.release item, by simp [ha], Or.inr (Option.some.inj h).symm⟩
    · cases h
  | abort signal => exact ⟨c', h, Or.inl rfl⟩
  | close => exact ⟨c', h, Or.inl rfl⟩
  | start => exact ⟨c', h, Or.inl rfl⟩
  | settle ok => exact ⟨c', h, Or.inl rfl⟩
  | deliver => exact ⟨c', h, Or.inl rfl⟩

/-- What an action does, by its kind. -/
inductive Acted (c : Coordinator) : Step → Coordinator → Prop
  | refused (request : Request) : Acted c (.run request) c.refuse
  | pushed {request : Request} (hclosed : c.closed = false)
      (hsignal : ∀ s, request.signal = some s → s ∉ c.signals) :
      Acted c (.run request) (c.push request)
  | aborted {s : ℕ} (hs : s ∉ c.signals) : Acted c (.abort s) (c.abort s)
  | closed : Acted c .close c.close
  | started {item : Item} (ha : c.active = some ⟨item, .marked⟩) :
      Acted c .start (c.moveTo item .started (.started item))
  | returned {item : Item} {ok : Bool} (ha : c.active = some ⟨item, .started⟩) :
      Acted c (.settle ok) (c.moveTo item (.returned ok) (.returned item.call))
  | delivered {item : Item} {ok : Bool} (ha : c.active = some ⟨item, .returned ok⟩) :
      Acted c .deliver (c.moveTo item .delivered (.settled item.call ok))
  | released {item : Item} (ha : c.active = some ⟨item, .delivered⟩) :
      Acted c .finish (c.release item)

theorem Coordinator.act_cases {e : Step} (h : c.act e = some c') : Acted c e c' := by
  cases e with
  | run request =>
    unfold act at h
    dsimp only at h
    split_ifs at h with _ hbusy
    · obtain rfl := Option.some.inj h
      exact .refused request
    · obtain rfl := Option.some.inj h
      rw [not_or] at hbusy
      refine .pushed (by simpa using hbusy.1) fun s hs hmem => hbusy.2 ?_
      rw [hs]
      simpa using hmem
  | abort signal =>
    unfold act next at h
    dsimp only at h
    split_ifs at h with hs
    obtain rfl := Option.some.inj h
    exact .aborted hs
  | close =>
    obtain rfl := Option.some.inj h
    exact .closed
  | start =>
    unfold act next at h
    dsimp only at h
    split at h
    · obtain rfl := Option.some.inj h
      exact .started ‹_›
    · cases h
  | settle ok =>
    unfold act next at h
    dsimp only at h
    split at h
    · obtain rfl := Option.some.inj h
      exact .returned ‹_›
    · cases h
  | deliver =>
    unfold act next at h
    dsimp only at h
    split at h
    · obtain rfl := Option.some.inj h
      exact .delivered ‹_›
    · cases h
  | finish =>
    unfold act at h
    dsimp only at h
    split at h
    · obtain rfl := Option.some.inj h
      exact .released ‹_›
    · cases h

/-! ## The ledger of calls -/

section Log

variable (log log' : List Event)

@[simp] theorem startedCalls_append :
    startedCalls (log ++ log') = startedCalls log ++ startedCalls log' := List.filterMap_append

@[simp] theorem returnedCalls_append :
    returnedCalls (log ++ log') = returnedCalls log ++ returnedCalls log' := List.filterMap_append

@[simp] theorem settledCalls_append :
    settledCalls (log ++ log') = settledCalls log ++ settledCalls log' := List.filterMap_append

/-- The events of a queue that is rejected. -/
theorem rejected_queue (queue : List Item) :
    startedCalls (queue.map fun item => .settled item.call false) = [] ∧
    returnedCalls (queue.map fun item => .settled item.call false) = [] ∧
    settledCalls (queue.map fun item => .settled item.call false) = queue.map Item.call := by
  induction queue with
  | nil => exact ⟨rfl, rfl, rfl⟩
  | cons item queue ih => exact ⟨ih.1, ih.2.1, congrArg (item.call :: ·) ih.2.2⟩

end Log

section Log

variable (item : Item) (n : ℕ) (ok : Bool)

@[simp] theorem startedCalls_started : startedCalls [.started item] = [item.call] := rfl
@[simp] theorem startedCalls_settled : startedCalls [.settled n ok] = [] := rfl
@[simp] theorem startedCalls_refused : startedCalls [.refused n] = [] := rfl
@[simp] theorem startedCalls_returned : startedCalls [.returned n] = [] := rfl
@[simp] theorem startedCalls_aborted : startedCalls [.signalAborted n] = [] := rfl
@[simp] theorem returnedCalls_started : returnedCalls [.started item] = [] := rfl
@[simp] theorem returnedCalls_settled : returnedCalls [.settled n ok] = [] := rfl
@[simp] theorem returnedCalls_refused : returnedCalls [.refused n] = [] := rfl
@[simp] theorem returnedCalls_returned : returnedCalls [.returned n] = [n] := rfl
@[simp] theorem returnedCalls_aborted : returnedCalls [.signalAborted n] = [] := rfl
@[simp] theorem settledCalls_started : settledCalls [.started item] = [] := rfl
@[simp] theorem settledCalls_settled : settledCalls [.settled n ok] = [n] := rfl
@[simp] theorem settledCalls_refused : settledCalls [.refused n] = [n] := rfl
@[simp] theorem settledCalls_returned : settledCalls [.returned n] = [] := rfl
@[simp] theorem settledCalls_aborted : settledCalls [.signalAborted n] = [] := rfl

end Log

/-- The active call. -/
def held (active : Option Active) : List ℕ := (active.map fun a => a.item.call).toList

/-- The bookkeeping of calls, for an active item, a queue, a number of calls and a log. -/
structure Ledger (active : Option Active) (queue : List Item) (calls : ℕ) (log : List Event) :
    Prop where
  accounted : (settledCalls log ++ (waiting active ++ queue.map Item.call)).Perm (List.range calls)
  order : (startedCalls log ++ (marked active ++ queue.map Item.call)).Pairwise (· < ·)
  below : ∀ n ∈ startedCalls log ++ (marked active ++ queue.map Item.call), n < calls
  alternate : startedCalls log = returnedCalls log ++ called active
  returned : ∀ n ∈ returnedCalls log, n ∈ settledCalls log ∨
    ∃ item ok, active = some ⟨item, .returned ok⟩ ∧ item.call = n
  distinct : (held active ++ queue.map Item.call).Pairwise (· < ·)
  bound : ∀ n ∈ held active ++ queue.map Item.call, n < calls

section Ledger

variable {active : Option Active} {queue rest : List Item} {item : Item} {calls : ℕ}
  {log : List Event} {ok : Bool}

theorem Ledger.reject (h : Ledger none (item :: rest) calls log) :
    Ledger none rest calls (log ++ [.settled item.call false]) := by
  refine ⟨?_, ?_, ?_, ?_, ?_, h.distinct.of_cons, fun n hn => h.bound n (.tail _ hn)⟩
  · simpa [waiting] using h.accounted
  · refine h.order.sublist ?_
    simp [marked]
  · refine fun n hn => h.below n (List.Sublist.subset ?_ hn)
    simp [marked]
  · simpa using h.alternate
  · intro n hn
    obtain hs | ⟨_, _, ha, -⟩ := h.returned n (by simpa using hn)
    · exact Or.inl (by simp [hs])
    · cases ha

theorem Ledger.mark (h : Ledger none (item :: rest) calls log) :
    Ledger (some ⟨item, .marked⟩) rest calls log := by
  refine ⟨h.accounted, h.order, h.below, h.alternate, fun n hn => ?_, h.distinct, h.bound⟩
  obtain hs | ⟨_, _, ha, -⟩ := h.returned n hn
  · exact Or.inl hs
  · cases ha

theorem Ledger.refuse (h : Ledger active queue calls log) :
    Ledger active queue (calls + 1) (log ++ [.refused calls]) := by
  refine ⟨?_, ?_, ?_, ?_, ?_, h.distinct, fun n hn => Nat.lt_succ_of_lt (h.bound n hn)⟩
  · have hperm : (settledCalls log ++ [calls] ++ (waiting active ++ queue.map Item.call)).Perm
        (settledCalls log ++ (waiting active ++ queue.map Item.call) ++ [calls]) := by
      rw [List.append_assoc, List.append_assoc]
      exact List.perm_append_comm.append_left _
    rw [List.range_succ, settledCalls_append, settledCalls_refused]
    exact hperm.trans (h.accounted.append_right _)
  · simpa using h.order
  · intro n hn
    exact Nat.lt_succ_of_lt (h.below n (by simpa using hn))
  · simpa using h.alternate
  · intro n hn
    obtain hs | hs := h.returned n (by simpa using hn)
    · exact Or.inl (by simp [hs])
    · exact Or.inr hs

theorem Ledger.push (h : Ledger active queue calls log) (request : Request) :
    Ledger active (queue ++ [⟨calls, request⟩]) (calls + 1) log := by
  have hlist : ∀ xs : List ℕ, xs ++ (queue ++ [(⟨calls, request⟩ : Item)]).map Item.call =
      xs ++ queue.map Item.call ++ [calls] := fun xs => by simp
  have hpairs : ∀ xs : List ℕ, xs.Pairwise (· < ·) → (∀ n ∈ xs, n < calls) →
      (xs ++ [calls]).Pairwise (· < ·) := fun xs hxs hbelow =>
    List.pairwise_append.mpr ⟨hxs, List.pairwise_singleton _ _, fun n hn m hm =>
      List.mem_singleton.mp hm ▸ hbelow n hn⟩
  have hbelow : ∀ xs : List ℕ, (∀ n ∈ xs, n < calls) → ∀ n ∈ xs ++ [calls], n < calls + 1 :=
    fun xs hxs n hn => by
      rcases List.mem_append.mp hn with hn | hn
      · exact Nat.lt_succ_of_lt (hxs n hn)
      · exact List.mem_singleton.mp hn ▸ Nat.lt_succ_self _
  have horder := h.order
  have hlow := h.below
  rw [← List.append_assoc] at horder hlow
  refine ⟨?_, ?_, ?_, h.alternate, h.returned, ?_, ?_⟩
  · rw [← List.append_assoc, hlist, List.append_assoc (settledCalls log), List.range_succ]
    exact h.accounted.append_right _
  · rw [← List.append_assoc, hlist]
    exact hpairs _ horder hlow
  · rw [← List.append_assoc, hlist]
    exact hbelow _ hlow
  · rw [hlist]
    exact hpairs _ h.distinct h.bound
  · rw [hlist]
    exact hbelow _ h.bound

theorem Ledger.note (h : Ledger active queue calls log) {e : Event} (hstart : startedCalls [e] = [])
    (hreturn : returnedCalls [e] = []) (hsettle : settledCalls [e] = []) :
    Ledger active queue calls (log ++ [e]) := by
  refine ⟨?_, ?_, ?_, ?_, ?_, h.distinct, h.bound⟩
  · simpa [hsettle] using h.accounted
  · simpa [hstart] using h.order
  · simpa [hstart] using h.below
  · simpa [hstart, hreturn] using h.alternate
  · simpa [hreturn, hsettle] using h.returned

theorem Ledger.clear (h : Ledger active queue calls log) :
    Ledger active [] calls (log ++ queue.map fun item => .settled item.call false) := by
  obtain ⟨hstart, hreturn, hsettle⟩ := rejected_queue queue
  have hheld : (held active ++ ([] : List Item).map Item.call).Sublist
      (held active ++ queue.map Item.call) := by simp
  refine ⟨?_, ?_, ?_, ?_, ?_, h.distinct.sublist hheld, fun n hn => h.bound n (hheld.subset hn)⟩
  · refine List.Perm.trans ?_ h.accounted
    rw [settledCalls_append, hsettle, List.append_assoc]
    refine List.Perm.append_left _ ?_
    simpa using List.perm_append_comm
  · refine h.order.sublist ?_
    simp [hstart]
  · refine fun n hn => h.below n (List.Sublist.subset ?_ hn)
    simp [hstart]
  · simpa [hstart, hreturn] using h.alternate
  · intro n hn
    obtain hs | hs := h.returned n (by simpa [hreturn] using hn)
    · exact Or.inl (by simp [hs])
    · exact Or.inr hs

theorem Ledger.start (h : Ledger (some ⟨item, .marked⟩) queue calls log) :
    Ledger (some ⟨item, .started⟩) queue calls (log ++ [.started item]) := by
  refine ⟨?_, ?_, ?_, ?_, ?_, h.distinct, h.bound⟩
  · simpa [waiting] using h.accounted
  · simpa [marked] using h.order
  · simpa [marked] using h.below
  · simpa [called] using h.alternate
  · intro n hn
    obtain hs | ⟨_, _, ha, -⟩ := h.returned n (by simpa using hn)
    · exact Or.inl (by simp [hs])
    · cases ha

theorem Ledger.settle (h : Ledger (some ⟨item, .started⟩) queue calls log) :
    Ledger (some ⟨item, .returned ok⟩) queue calls (log ++ [.returned item.call]) := by
  refine ⟨?_, ?_, ?_, ?_, ?_, h.distinct, h.bound⟩
  · simpa [waiting] using h.accounted
  · simpa [marked] using h.order
  · simpa [marked] using h.below
  · simpa [called] using h.alternate
  · intro n hn
    rw [returnedCalls_append, returnedCalls_returned, List.mem_append, List.mem_singleton] at hn
    rcases hn with hn | rfl
    · obtain hs | ⟨_, _, ha, -⟩ := h.returned n hn
      · exact Or.inl (by simp [hs])
      · cases ha
    · exact Or.inr ⟨item, ok, rfl, rfl⟩

theorem Ledger.deliver (h : Ledger (some ⟨item, .returned ok⟩) queue calls log) :
    Ledger (some ⟨item, .delivered⟩) queue calls (log ++ [.settled item.call ok]) := by
  refine ⟨?_, ?_, ?_, ?_, ?_, h.distinct, h.bound⟩
  · simpa [waiting] using h.accounted
  · simpa [marked] using h.order
  · simpa [marked] using h.below
  · simpa [called] using h.alternate
  · intro n hn
    obtain hs | ⟨item', ok', ha, rfl⟩ := h.returned n (by simpa using hn)
    · exact Or.inl (by simp [hs])
    · obtain ⟨rfl, -⟩ := Active.mk.inj (Option.some.inj ha)
      exact Or.inl (by simp)

theorem Ledger.release (h : Ledger (some ⟨item, .delivered⟩) queue calls log) :
    Ledger none queue calls log := by
  refine ⟨h.accounted, h.order, h.below, h.alternate, fun n hn => ?_, h.distinct.of_cons,
    fun n hn => h.bound n (.tail _ hn)⟩
  obtain hs | ⟨_, _, ha, -⟩ := h.returned n hn
  · exact Or.inl hs
  · cases ha

end Ledger

/-- The ledger of a coordinator. -/
def Coordinator.Kept (c : Coordinator) : Prop := Ledger c.active c.queue c.calls c.log

theorem Coordinator.Kept.acted (h : c.Kept) {e : Step} (hact : Acted c e c') : c'.Kept := by
  unfold Coordinator.Kept at h
  cases hact with
  | refused request => exact h.refuse
  | pushed hclosed hsignal => exact h.push _
  | aborted hs => exact h.note rfl rfl rfl
  | closed =>
    have hclear := (h.note (e := .closed) rfl rfl rfl).clear
    rwa [List.append_assoc] at hclear
  | started ha =>
    rw [ha] at h
    exact h.start
  | returned ha =>
    rw [ha] at h
    exact h.settle
  | delivered ha =>
    rw [ha] at h
    exact h.deliver
  | released ha =>
    rw [ha] at h
    exact h.release

theorem Coordinator.Kept.reject (h : c.Kept) {item : Item} {rest : List Item}
    (hq : c.queue = item :: rest) (ha : c.active = none) : (c.reject item rest).Kept := by
  unfold Coordinator.Kept at h
  rw [hq, ha] at h
  have hreject := h.reject
  rwa [← ha] at hreject

theorem Coordinator.Kept.mark (h : c.Kept) {item : Item} {rest : List Item}
    (hq : c.queue = item :: rest) (ha : c.active = none) : (c.mark item rest).Kept := by
  unfold Coordinator.Kept at h
  rw [hq, ha] at h
  exact h.mark

theorem Coordinator.Kept.drain (h : c.Kept) : c.drain.Kept :=
  Coordinator.drain_keeps (fun _ _ _ hq ha _ _ h => h.reject hq ha)
    (fun _ _ _ hq ha _ _ h => h.mark hq ha) h

theorem kept_of_reaches {h : List Step} (hr : Reaches coordinator h c) : c.Kept := by
  refine hr.stateInvariant ?_ fun c e c' hkept hnext => ?_
  · rintro _ rfl
    exact ⟨List.Perm.refl _, List.Pairwise.nil, by simp [startedCalls, marked], rfl,
      by simp [returnedCalls], List.Pairwise.nil, by simp [held]⟩
  · obtain ⟨d, hact, rfl | rfl⟩ := Coordinator.next_cases hnext
    · exact hkept.acted (Coordinator.act_cases hact)
    · exact (hkept.acted (Coordinator.act_cases hact)).drain

theorem Coordinator.Kept.nodup (h : c.Kept) : (c.pending.map Item.call).Nodup := by
  have hcalls : c.pending.map Item.call = held c.active ++ c.queue.map Item.call := by
    unfold Coordinator.pending held
    cases c.active <;> simp
  rw [hcalls]
  exact h.distinct.imp Nat.ne_of_lt

theorem Coordinator.Kept.call_inj (h : c.Kept) {item item' : Item} (hitem : item ∈ c.pending)
    (hitem' : item' ∈ c.pending) (heq : item.call = item'.call) : item = item' :=
  List.inj_on_of_nodup_map h.nodup hitem hitem' heq

/-! ## Signals and the closed coordinator -/

/-- Every pending item listens to its signal until that is aborted, nothing else listens, and a
closed coordinator has no queue and has aborted its active item. -/
structure Coordinator.Heard (c : Coordinator) : Prop where
  listening : ∀ l ∈ c.listeners, ∃ item ∈ c.pending,
    item.call = l.2 ∧ item.request.signal = some l.1
  listens : ∀ item ∈ c.pending, ∀ s, item.request.signal = some s → s ∉ c.signals →
    (s, item.call) ∈ c.listeners
  told : ∀ item ∈ c.pending, ∀ s, item.request.signal = some s → s ∈ c.signals →
    item.call ∈ c.aborted
  shut : c.closed = true → c.queue = [] ∧ ∀ a, c.active = some a → a.item.call ∈ c.aborted
  closedLog : Event.closed ∈ c.log ↔ c.closed = true
  signalLog : ∀ s, Event.signalAborted s ∈ c.log ↔ s ∈ c.signals

namespace Coordinator

/-- One item less is pending, and its listener is removed. -/
theorem Heard.without {item : Item} {rest : List Item} (h : c.Heard) (hkept : c.Kept)
    (hpending : c.pending = item :: rest) :
    (∀ l ∈ c.removeListener item.call, ∃ item' ∈ rest,
      item'.call = l.2 ∧ item'.request.signal = some l.1) ∧
    ∀ item' ∈ rest, ∀ s, item'.request.signal = some s → s ∉ c.signals →
      (s, item'.call) ∈ c.removeListener item.call := by
  have hcalls := hkept.nodup
  rw [hpending, List.map_cons, List.nodup_cons] at hcalls
  refine ⟨fun l hl => ?_, fun item' hitem' s hs hnot => ?_⟩
  · obtain ⟨hl, hne⟩ := List.mem_filter.mp hl
    obtain ⟨item', hitem', hcall, hsignal⟩ := h.listening l hl
    rw [hpending] at hitem'
    rcases List.mem_cons.mp hitem' with rfl | hitem'
    · simp [hcall] at hne
    · exact ⟨item', hitem', hcall, hsignal⟩
  · refine List.mem_filter.mpr ⟨h.listens item' ?_ s hs hnot, ?_⟩
    · rw [hpending]
      exact .tail _ hitem'
    · refine decide_eq_true fun heq => hcalls.1 ?_
      exact heq ▸ List.mem_map_of_mem hitem'

theorem Heard.reject {item : Item} {rest : List Item} (h : c.Heard) (hkept : c.Kept)
    (hq : c.queue = item :: rest) (ha : c.active = none) (hclosed : c.closed = false) :
    (c.reject item rest).Heard := by
  have hpending : c.pending = item :: rest := by simp [pending, ha, hq]
  have hrest : (c.reject item rest).pending = rest := by simp [pending, Coordinator.reject, ha]
  obtain ⟨hlistening, hlistens⟩ := h.without hkept hpending
  refine ⟨?_, ?_, ?_, ?_, ?_, ?_⟩
  · rwa [hrest]
  · rwa [hrest]
  · rw [hrest]
    exact fun item' hitem' => h.told item' (hpending ▸ .tail _ hitem')
  · intro hc
    rw [show (c.reject item rest).closed = c.closed from rfl, hclosed] at hc
    cases hc
  · simpa [Coordinator.reject] using h.closedLog
  · simpa [Coordinator.reject] using h.signalLog

theorem Heard.mark {item : Item} {rest : List Item} (h : c.Heard)
    (hq : c.queue = item :: rest) (ha : c.active = none) (hclosed : c.closed = false) :
    (c.mark item rest).Heard := by
  have hpending : (c.mark item rest).pending = c.pending := by
    simp [pending, Coordinator.mark, ha, hq]
  refine ⟨?_, ?_, ?_, ?_, h.closedLog, h.signalLog⟩
  · rw [hpending]
    exact h.listening
  · rw [hpending]
    exact h.listens
  · rw [hpending]
    exact h.told
  · intro hc
    rw [show (c.mark item rest).closed = c.closed from rfl, hclosed] at hc
    cases hc

theorem Heard.push (h : c.Heard) (hclosed : c.closed = false) {request : Request}
    (hsignal : ∀ s, request.signal = some s → s ∉ c.signals) : (c.push request).Heard := by
  have hpending : (c.push request).pending = c.pending ++ [⟨c.calls, request⟩] := by
    simp [pending, Coordinator.push]
  refine ⟨?_, ?_, ?_, ?_, h.closedLog, h.signalLog⟩
  · rw [hpending]
    intro l hl
    rcases List.mem_append.mp hl with hl | hl
    · obtain ⟨item, hitem, hhas⟩ := h.listening l hl
      exact ⟨item, List.mem_append_left _ hitem, hhas⟩
    · obtain ⟨s, hs, rfl⟩ := Option.map_eq_some_iff.mp (Option.mem_toList.mp hl)
      exact ⟨_, List.mem_append_right _ (List.mem_singleton_self _), rfl, hs⟩
  · rw [hpending]
    intro item hitem s hs hnot
    rcases List.mem_append.mp hitem with hitem | hitem
    · exact List.mem_append_left _ (h.listens item hitem s hs hnot)
    · obtain rfl := List.mem_singleton.mp hitem
      refine List.mem_append_right _ ?_
      simp only at hs
      simp [hs]
  · rw [hpending]
    intro item hitem s hs hmem
    rcases List.mem_append.mp hitem with hitem | hitem
    · exact h.told item hitem s hs hmem
    · obtain rfl := List.mem_singleton.mp hitem
      exact absurd hmem (hsignal s hs)
  · intro hc
    rw [show (c.push request).closed = c.closed from rfl, hclosed] at hc
    cases hc

theorem Heard.abort (h : c.Heard) {s : ℕ} : (c.abort s).Heard := by
  refine ⟨?_, ?_, ?_, ?_, ?_, ?_⟩
  · exact fun l hl => h.listening l (List.mem_filter.mp hl).1
  · intro item hitem s' hs' hnot
    obtain ⟨hne, hnot⟩ := not_or.mp (mt List.mem_cons.mpr hnot)
    exact List.mem_filter.mpr ⟨h.listens item hitem s' hs' hnot, decide_eq_true hne⟩
  · intro item hitem s' hs' hmem
    refine List.mem_append.mpr ?_
    by_cases hold : s' ∈ c.signals
    · exact Or.inr (h.told item hitem s' hs' hold)
    · have hl := h.listens item hitem s' hs' hold
      obtain rfl | hmem := List.mem_cons.mp hmem
      · exact Or.inl (List.mem_map.mpr ⟨_, List.mem_filter.mpr ⟨hl, decide_eq_true rfl⟩, rfl⟩)
      · exact absurd hmem hold
  · intro hc
    obtain ⟨hq, ha⟩ := h.shut hc
    exact ⟨hq, fun a hactive => List.mem_append_right _ (ha a hactive)⟩
  · simpa [Coordinator.abort] using h.closedLog
  · intro s'
    have hlog := h.signalLog s'
    simp only [Coordinator.abort, List.mem_append, List.mem_cons, List.not_mem_nil, or_false, hlog,
      Event.signalAborted.injEq]
    exact or_comm

theorem Heard.close (h : c.Heard) (hkept : c.Kept) : c.close.Heard := by
  have hpending : c.close.pending = (c.active.map Active.item).toList := by
    simp [pending, Coordinator.close]
  have hsplit : c.pending = (c.active.map Active.item).toList ++ c.queue := rfl
  have hnodup := hkept.nodup
  rw [hsplit, List.map_append] at hnodup
  refine ⟨?_, ?_, ?_, ?_, ?_, ?_⟩
  · rw [hpending]
    intro l hl
    obtain ⟨hl, hnot⟩ := List.mem_filter.mp hl
    obtain ⟨item, hitem, hcall, hsignal⟩ := h.listening l hl
    rcases List.mem_append.mp hitem with hitem | hitem
    · exact ⟨item, hitem, hcall, hsignal⟩
    · exact absurd (hcall ▸ List.mem_map_of_mem hitem) (of_decide_eq_true hnot)
  · rw [hpending]
    intro item hitem s hs hnot
    refine List.mem_filter.mpr ⟨h.listens item (List.mem_append_left _ hitem) s hs hnot, ?_⟩
    refine decide_eq_true fun hmem => ?_
    exact (List.nodup_append'.mp hnodup).2.2 (List.mem_map_of_mem hitem) hmem
  · rw [hpending]
    intro item hitem s hs hmem
    exact List.mem_append_right _ (h.told item (List.mem_append_left _ hitem) s hs hmem)
  · refine fun _ => ⟨rfl, fun a ha => ?_⟩
    rw [show c.close.active = c.active from rfl] at ha
    simp [Coordinator.close, ha]
  · simp [Coordinator.close]
  · simpa [Coordinator.close] using h.signalLog

theorem Heard.moveTo (h : c.Heard) {item : Item} {phase phase' : Phase} {e : Event}
    (ha : c.active = some ⟨item, phase⟩) (hc : e ≠ .closed) (hs : ∀ s, e ≠ .signalAborted s) :
    (c.moveTo item phase' e).Heard := by
  have hpending : (c.moveTo item phase' e).pending = c.pending := by
    simp [pending, Coordinator.moveTo, ha]
  refine ⟨?_, ?_, ?_, ?_, ?_, ?_⟩
  · rw [hpending]
    exact h.listening
  · rw [hpending]
    exact h.listens
  · rw [hpending]
    exact h.told
  · intro hclosed
    obtain ⟨hq, hall⟩ := h.shut hclosed
    refine ⟨hq, fun a hactive => ?_⟩
    obtain rfl := Option.some.inj hactive
    exact hall ⟨item, phase⟩ ha
  · have hlog := h.closedLog
    simp only [Coordinator.moveTo, List.mem_append, List.mem_singleton, hc.symm, or_false, hlog]
  · intro s
    have hlog := h.signalLog s
    simp only [Coordinator.moveTo, List.mem_append, List.mem_singleton, (hs s).symm, or_false, hlog]

theorem Heard.refuse (h : c.Heard) : c.refuse.Heard :=
  ⟨h.listening, h.listens, h.told, h.shut, by simpa [Coordinator.refuse] using h.closedLog,
    by simpa [Coordinator.refuse] using h.signalLog⟩

theorem Heard.release {item : Item} (h : c.Heard) (hkept : c.Kept)
    (ha : c.active = some ⟨item, .delivered⟩) : (c.release item).Heard := by
  have hpending : c.pending = item :: c.queue := by simp [pending, ha]
  obtain ⟨hlistening, hlistens⟩ := h.without hkept hpending
  refine ⟨hlistening, hlistens, fun item' hitem' => ?_, fun hc => ?_, h.closedLog, h.signalLog⟩
  · exact h.told item' (hpending ▸ .tail _ hitem')
  · refine ⟨(h.shut hc).1, fun a hactive => ?_⟩
    cases hactive

theorem Heard.acted (h : c.Heard) (hkept : c.Kept) {e : Step} (hact : Acted c e c') :
    c'.Heard := by
  cases hact with
  | refused request => exact h.refuse
  | pushed hclosed hsignal => exact h.push hclosed hsignal
  | aborted hs => exact h.abort
  | closed => exact h.close hkept
  | started ha => exact h.moveTo ha (by simp) (by simp)
  | returned ha => exact h.moveTo ha (by simp) (by simp)
  | delivered ha => exact h.moveTo ha (by simp) (by simp)
  | released ha => exact h.release hkept ha

theorem Heard.drain (h : c.Heard) (hkept : c.Kept) : c.drain.Heard := by
  have hboth : c.drain.Kept ∧ c.drain.Heard := by
    refine drain_keeps (I := fun c => c.Kept ∧ c.Heard) (fun c item rest hq ha hc hmem hi => ?_)
      (fun c item rest hq ha hc hmem hi => ?_) ⟨hkept, h⟩
    · exact ⟨hi.1.reject hq ha, hi.2.reject hi.1 hq ha hc⟩
    · exact ⟨hi.1.mark hq ha, hi.2.mark hq ha hc⟩
  exact hboth.2

end Coordinator

theorem heard_of_reaches {h : List Step} (hr : Reaches coordinator h c) : c.Heard := by
  refine hr.invariant (I := fun _ c => c.Heard) ?_ fun h c e c' hr hheard hnext => ?_
  · rintro _ rfl
    exact ⟨by simp, by simp [Coordinator.pending], by simp [Coordinator.pending],
      by simp, by simp, by simp⟩
  · obtain ⟨d, hact, hd⟩ := Coordinator.next_cases hnext
    have hkept := kept_of_reaches hr
    have hacted := Coordinator.act_cases hact
    rcases hd with rfl | rfl
    · exact hheard.acted hkept hacted
    · exact (hheard.acted hkept hacted).drain (hkept.acted hacted)

/-- A promise that is fulfilled is one whose operation has returned. -/
structure Coordinator.Honest (c : Coordinator) : Prop where
  returned : ∀ item ok, c.active = some ⟨item, .returned ok⟩ → Event.returned item.call ∈ c.log
  fulfilled : ∀ n, Event.settled n true ∈ c.log → Event.returned n ∈ c.log

theorem Coordinator.Honest.acted (h : c.Honest) {e : Step} (hact : Acted c e c') : c'.Honest := by
  cases hact with
  | refused request =>
    exact ⟨by simpa [refuse] using h.returned, by simpa [refuse] using h.fulfilled⟩
  | pushed hclosed hsignal => exact ⟨h.returned, h.fulfilled⟩
  | aborted hs => exact ⟨by simpa [abort] using h.returned, by simpa [abort] using h.fulfilled⟩
  | closed => exact ⟨by simpa [close] using h.returned, by simpa [close] using h.fulfilled⟩
  | started ha => exact ⟨by simp [moveTo], by simpa [moveTo] using h.fulfilled⟩
  | returned ha =>
    refine ⟨by simp [moveTo], fun n hn => ?_⟩
    exact List.mem_append_left _ (h.fulfilled n (by simpa [moveTo] using hn))
  | @delivered item ok ha =>
    refine ⟨by simp [moveTo], fun n hn => List.mem_append_left _ ?_⟩
    rcases List.mem_append.mp hn with hn | hn
    · exact h.fulfilled n hn
    · obtain ⟨rfl, -⟩ := Event.settled.inj (List.mem_singleton.mp hn)
      exact h.returned item ok ha
  | released ha => exact ⟨by simp [release], h.fulfilled⟩

theorem honest_of_reaches {h : List Step} (hr : Reaches coordinator h c) : c.Honest := by
  refine hr.stateInvariant ?_ fun c e c' hhonest hnext => ?_
  · rintro _ rfl
    exact ⟨by simp, by simp⟩
  · obtain ⟨d, hact, hd⟩ := Coordinator.next_cases hnext
    have hacted := hhonest.acted (Coordinator.act_cases hact)
    rcases hd with rfl | rfl
    · exact hacted
    · refine Coordinator.drain_keeps (fun c item rest _ _ _ _ hi => ?_)
        (fun c item rest _ _ _ _ hi => ⟨by simp [Coordinator.mark], hi.fulfilled⟩) hacted
      exact ⟨by simpa [Coordinator.reject] using hi.returned,
        by simpa [Coordinator.reject] using hi.fulfilled⟩

/-! ## Operations that are called in time -/

/-- An operation may start while the coordinator is open and its signal is not aborted. -/
def StartAllowed (before : List Event) (e : Event) : Prop :=
  ∀ item, e = .started item → Event.closed ∉ before ∧
    ∀ s, item.request.signal = some s → Event.signalAborted s ∉ before

/-- While the operation of the active item is to be called, its signal is not aborted and the
coordinator is not closed. -/
def Careful (c : Coordinator) (e : Step) : Prop :=
  ∀ item, c.active = some ⟨item, .marked⟩ →
    e ≠ .close ∧ ∀ s, item.request.signal = some s → e ≠ .abort s

/-- The item whose operation is to be called was not aborted. -/
def Coordinator.Eager (c : Coordinator) : Prop :=
  ∀ item, c.active = some ⟨item, .marked⟩ → item.call ∉ c.aborted ∧ c.closed = false

/-- What holds along runs of careful steps. -/
structure Coordinator.Timely (c : Coordinator) : Prop where
  kept : c.Kept
  heard : c.Heard
  eager : c.Eager
  justified : Justified StartAllowed c.log

namespace Coordinator

theorem startAllowed_of_ne {before : List Event} {e : Event} (he : ∀ item, e ≠ .started item) :
    StartAllowed before e := fun item heq => absurd heq (he item)

/-- An operation that is called now is called in time. -/
theorem Timely.start (h : c.Timely) {item : Item} (ha : c.active = some ⟨item, .marked⟩) :
    StartAllowed c.log (.started item) := by
  intro _ heq
  obtain rfl := Event.started.inj heq
  obtain ⟨hnot, hopen⟩ := h.eager item ha
  refine ⟨fun hmem => ?_, fun s hs hmem => hnot ?_⟩
  · rw [h.heard.closedLog, hopen] at hmem
    cases hmem
  · exact h.heard.told item (by simp [pending, ha]) s hs ((h.heard.signalLog s).mp hmem)

/-- Another item's signal is aborted. -/
theorem Timely.eager_abort (h : c.Timely) {s : ℕ} (hcareful : Careful c (.abort s)) :
    (c.abort s).Eager := by
  intro item ha
  rw [show (c.abort s).active = c.active from rfl] at ha
  obtain ⟨hnot, hopen⟩ := h.eager item ha
  refine ⟨fun hmem => ?_, hopen⟩
  rcases List.mem_append.mp hmem with hmem | hmem
  · obtain ⟨l, hl, hcall⟩ := List.mem_map.mp hmem
    obtain ⟨hl, hs⟩ := List.mem_filter.mp hl
    obtain ⟨item', hitem', hcall', hsignal⟩ := h.heard.listening l hl
    obtain rfl := Kept.call_inj h.kept hitem' (by simp [pending, ha]) (hcall'.trans hcall)
    rw [of_decide_eq_true hs] at hsignal
    exact (hcareful _ ha).2 s hsignal rfl
  · exact hnot hmem

theorem Timely.acted (h : c.Timely) {e : Step} (hact : Acted c e c') (hcareful : Careful c e) :
    c'.Timely := by
  refine ⟨h.kept.acted hact, h.heard.acted h.kept hact, ?_, ?_⟩
  · cases hact with
    | refused request => exact h.eager
    | pushed hclosed hsignal => exact h.eager
    | aborted hs => exact h.eager_abort hcareful
    | closed => exact fun item ha => absurd rfl (hcareful item ha).1
    | started ha => exact fun _ ha' => by cases ha'
    | returned ha => exact fun _ ha' => by cases ha'
    | delivered ha => exact fun _ ha' => by cases ha'
    | released ha => exact fun _ ha' => by cases ha'
  · cases hact with
    | refused request => exact h.justified.snoc (startAllowed_of_ne (by simp))
    | pushed hclosed hsignal => exact h.justified
    | aborted hs => exact h.justified.snoc (startAllowed_of_ne (by simp))
    | closed =>
      refine h.justified.append fun e he before => startAllowed_of_ne fun item heq => ?_
      subst heq
      simp at he
    | started ha => exact h.justified.snoc (h.start ha)
    | returned ha => exact h.justified.snoc (startAllowed_of_ne (by simp))
    | delivered ha => exact h.justified.snoc (startAllowed_of_ne (by simp))
    | released ha => exact h.justified

theorem Timely.drain (h : c.Timely) : c.drain.Timely := by
  refine drain_keeps (fun c item rest hq ha hc hmem hi => ?_)
    (fun c item rest hq ha hc hmem hi => ?_) h
  · refine ⟨hi.kept.reject hq ha, hi.heard.reject hi.kept hq ha hc, fun _ ha' => ?_, ?_⟩
    · rw [show (c.reject item rest).active = c.active from rfl, ha] at ha'
      cases ha'
    · exact hi.justified.snoc (startAllowed_of_ne (by simp))
  · refine ⟨hi.kept.mark hq ha, hi.heard.mark hq ha hc, fun _ ha' => ?_, hi.justified⟩
    obtain rfl := (Active.mk.inj (Option.some.inj ha')).1
    exact ⟨hmem, hc⟩

end Coordinator

theorem timely_of_reaches {h : List Step} (hr : Reaches (coordinator.restrict Careful) h c) :
    c.Timely := by
  refine hr.stateInvariant ?_ fun c e c' htimely hstep => ?_
  · rintro _ rfl
    have h0 : Reaches coordinator [] {} := .init rfl
    exact ⟨kept_of_reaches h0, heard_of_reaches h0, (fun _ ha => by cases ha), justified_nil⟩
  · obtain ⟨hcareful, hnext⟩ := hstep
    obtain ⟨d, hact, rfl | rfl⟩ := Coordinator.next_cases hnext
    · exact htimely.acted (Coordinator.act_cases hact) hcareful
    · exact (htimely.acted (Coordinator.act_cases hact) hcareful).drain

/-! ## The coordinator -/

/-- One operation runs at a time, in the order of the calls; every call settles once, when its
operation has, or in the queue, or at entry; only what returned is fulfilled; a closed coordinator
has rejected its queue and aborted its active item; and a settled item has no listener behind its
cleanup. -/
structure Coordinator.Serial (c : Coordinator) : Prop where
  single : startedCalls c.log = returnedCalls c.log ∨
    ∃ item, c.active = some ⟨item, .started⟩ ∧
      startedCalls c.log = returnedCalls c.log ++ [item.call]
  order : (startedCalls c.log).Pairwise (· < ·)
  once : (settledCalls c.log).Nodup
  accounted : ∀ n, n < c.calls ↔ n ∈ settledCalls c.log ∨ n ∈ waiting c.active ∨
    n ∈ c.queue.map Item.call
  settles : ∀ n ∈ returnedCalls c.log, n ∈ settledCalls c.log ∨
    ∃ d, c.next .deliver = some d ∧ n ∈ settledCalls d.log
  fulfilled : ∀ n, Event.settled n true ∈ c.log → Event.returned n ∈ c.log
  closed : c.closed = true → c.queue = [] ∧ ∀ a, c.active = some a → a.item.call ∈ c.aborted
  unheard : ∀ l ∈ c.listeners, l.2 ∈ settledCalls c.log →
    ∃ d, c.next .finish = some d ∧ ∀ l' ∈ d.listeners, l'.2 ≠ l.2

theorem Coordinator.Kept.serial (h : c.Kept) (hheard : c.Heard) (hhonest : c.Honest) :
    c.Serial := by
  have hnodup := h.accounted.nodup_iff.mpr List.nodup_range
  obtain ⟨hsettled, -, hdisjoint⟩ := List.nodup_append'.mp hnodup
  refine ⟨?_, (List.pairwise_append.mp h.order).1, hsettled, fun n => ?_, fun n hn => ?_,
    hhonest.fulfilled, hheard.shut, fun l hl hmem => ?_⟩
  · have halternate := h.alternate
    match ha : c.active with
    | none => exact Or.inl (by simpa [called, ha] using halternate)
    | some ⟨item, .started⟩ => exact Or.inr ⟨item, rfl, by simpa [called, ha] using halternate⟩
    | some ⟨item, .marked⟩ => exact Or.inl (by simpa [called, ha] using halternate)
    | some ⟨item, .returned ok⟩ => exact Or.inl (by simpa [called, ha] using halternate)
    | some ⟨item, .delivered⟩ => exact Or.inl (by simpa [called, ha] using halternate)
  · rw [← List.mem_range, ← h.accounted.mem_iff, List.mem_append, List.mem_append]
  · obtain hs | ⟨item, ok, ha, rfl⟩ := h.returned n hn
    · exact Or.inl hs
    · refine Or.inr ⟨c.moveTo item .delivered (.settled item.call ok), ?_, ?_⟩
      · simp only [Coordinator.next, ha]
      · simp [Coordinator.moveTo]
  · obtain ⟨item, hitem, hcall, -⟩ := hheard.listening l hl
    have hout : ¬ l.2 ∈ waiting c.active ++ c.queue.map Item.call := fun hw => hdisjoint hmem hw
    rw [List.mem_append, not_or] at hout
    have hactive : c.active = some ⟨item, .delivered⟩ := by
      rcases List.mem_append.mp hitem with hitem | hitem
      · obtain ⟨⟨_, phase⟩, ha, rfl⟩ := Option.map_eq_some_iff.mp (Option.mem_toList.mp hitem)
        rw [ha] at hout
        cases phase with
        | delivered => exact ha
        | marked => exact absurd (List.mem_singleton.mpr hcall.symm) hout.1
        | started => exact absurd (List.mem_singleton.mpr hcall.symm) hout.1
        | returned ok => exact absurd (List.mem_singleton.mpr hcall.symm) hout.1
      · exact absurd (hcall ▸ List.mem_map_of_mem hitem) hout.2
    refine ⟨(c.release item).drain, by simp only [Coordinator.next, hactive], ?_⟩
    refine Coordinator.drain_keeps (I := fun c => ∀ l' ∈ c.listeners, l'.2 ≠ l.2)
      (fun c item rest _ _ _ _ hi l' hl' => hi l' (List.mem_filter.mp hl').1)
      (fun c item rest _ _ _ _ hi => hi) fun l' hl' => ?_
    rw [← hcall]
    exact of_decide_eq_true (List.mem_filter.mp hl').2

/-- Every run is serial, and where no abort and no close comes between an item's turn and the call
of its operation, no operation starts behind the abort of its signal or behind `close`. -/
theorem serialized (h : List Step) (c : Coordinator) :
    (Reaches coordinator h c → c.Serial) ∧
      (Reaches (coordinator.restrict Careful) h c → Justified StartAllowed c.log) := by
  refine ⟨fun hr => ?_, fun hr => (timely_of_reaches hr).justified⟩
  exact Coordinator.Kept.serial (kept_of_reaches hr) (heard_of_reaches hr) (honest_of_reaches hr)

/-- The call whose signal is aborted behind it. -/
def abortedRequest : Request := ⟨PlainObject.units "agent", [], [], some 0⟩

/-- The signal is aborted while the operation is to be called, and the operation is called. -/
theorem starts_aborted : ∃ c,
    Reaches coordinator [.run abortedRequest, .abort 0, .start] c ∧
      ¬ Justified StartAllowed c.log := by
  have hrun : ([.run abortedRequest, .abort 0, .start] : List Step).foldlM Coordinator.next
      ({} : Coordinator) = some
        { active := some ⟨⟨0, abortedRequest⟩, .started⟩
          calls := 1
          aborted := [0]
          signals := [0]
          log := [.signalAborted 0, .started ⟨0, abortedRequest⟩] } := by decide
  have hr := (Reaches.init (S := coordinator) rfl).append
    (Path.of_foldlM (S := coordinator) (fun _ _ _ hs => hs) hrun)
  refine ⟨_, hr, fun hj => ?_⟩
  obtain ⟨-, hsignal⟩ := hj [.signalAborted 0] _ [] rfl _ rfl
  exact hsignal 0 rfl (by simp)

end EspVision.OperationCoordinator
