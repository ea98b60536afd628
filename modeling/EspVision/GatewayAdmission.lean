import EspVision.ActionGateway
import EspVision.OperationSerial

/-!
# What a handler is called with

Every invocation is numbered; it waits for its authorization, is given to the coordinator or is
rejected. What the checks at entry have found stays true of an invocation that waits, as long as
nothing takes the lease or the ready session away from it.
-/
namespace EspVision.DeviceActions
open EventLog TransitionSystem OperationCoordinator
open PlainObject (Text units)

/-! ## Steps of the coordinator -/

section Coordinator

variable {c c' : Coordinator}

/-- The calls whose operation was not called and may still be. -/
def unstarted (c : Coordinator) : List ℕ := marked c.active ++ c.queue.map Item.call

/-- A later state of the coordinator, behind these new calls and these new operations. -/
structure Follows (c : Coordinator) (new begun : List ℕ) (c' : Coordinator) : Prop where
  calls : c'.calls = c.calls + new.length
  waiting : ∀ n ∈ unstarted c', n ∈ unstarted c ∨ n ∈ new
  started : startedCalls c'.log = startedCalls c.log ++ begun

theorem Follows.drain {new begun : List ℕ} (h : Follows c new begun c') :
    Follows c new begun c'.drain := by
  refine Coordinator.drain_keeps (I := Follows c new begun) (fun d item rest hq ha _ _ hd => ?_)
    (fun d item rest hq ha _ _ hd => ?_) h
  · refine ⟨hd.calls, fun n hn => hd.waiting n ?_, ?_⟩
    · simp only [unstarted, Coordinator.reject, ha, marked, hq] at hn ⊢
      exact List.mem_cons_of_mem _ hn
    · simp only [Coordinator.reject, startedCalls_append, startedCalls_settled, hd.started,
        List.append_nil]
  · refine ⟨hd.calls, fun n hn => hd.waiting n ?_, hd.started⟩
    simp only [unstarted, Coordinator.mark, ha, marked, hq] at hn ⊢
    exact hn

theorem follows_run {r : Request} (h : c.run r = some c') : Follows c [c.calls] [] c' := by
  obtain ⟨d, hact, hd⟩ := Coordinator.next_cases (e := .run r) h
  have hfollows : Follows c [c.calls] [] d := by
    cases Coordinator.act_cases hact with
    | refused => exact ⟨rfl, fun n hn => Or.inl hn, by simp [Coordinator.refuse]⟩
    | pushed hclosed hsignal =>
      refine ⟨rfl, fun n hn => ?_, by simp [Coordinator.push]⟩
      simpa [unstarted, Coordinator.push, or_assoc] using hn
  rcases hd with rfl | rfl
  · exact hfollows
  · exact hfollows.drain

theorem follows_start (h : c.next .start = some c') :
    ∃ item, c.active = some ⟨item, .marked⟩ ∧ Follows c [] [item.call] c' := by
  cases Coordinator.act_cases (e := .start) h with
  | @started item ha =>
    refine ⟨item, ha, rfl, fun n hn => Or.inl ?_, by simp [Coordinator.moveTo]⟩
    simp only [unstarted, Coordinator.moveTo, marked, List.nil_append] at hn
    exact List.mem_append_right _ hn

theorem follows_next {e : Step} (h : c.next e = some c') (hrun : ∀ r, e ≠ .run r)
    (hstart : e ≠ .start) : Follows c [] [] c' := by
  obtain ⟨d, hact, hd⟩ := Coordinator.next_cases h
  have hfollows : Follows c [] [] d := by
    cases Coordinator.act_cases hact with
    | refused r => exact absurd rfl (hrun r)
    | pushed hclosed hsignal => exact absurd rfl (hrun _)
    | started ha => exact absurd rfl hstart
    | aborted hs => exact ⟨rfl, fun n hn => Or.inl hn, by simp [Coordinator.abort]⟩
    | closed =>
      refine ⟨rfl, fun n hn => Or.inl ?_, ?_⟩
      · simp only [unstarted, Coordinator.close, List.map_nil, List.append_nil] at hn
        exact List.mem_append_left _ hn
      · have hrejected := (rejected_queue c.queue).1
        have hclosed : startedCalls [Event.closed] = [] := rfl
        simp only [Coordinator.close, startedCalls_append, List.append_nil]
        rw [← List.singleton_append, startedCalls_append, hrejected, hclosed]
        simp
    | returned ha =>
      exact ⟨rfl, fun n hn => Or.inl (by simpa [unstarted, Coordinator.moveTo, marked, ha] using hn),
        by simp [Coordinator.moveTo]⟩
    | delivered ha =>
      exact ⟨rfl, fun n hn => Or.inl (by simpa [unstarted, Coordinator.moveTo, marked, ha] using hn),
        by simp [Coordinator.moveTo]⟩
    | released ha =>
      exact ⟨rfl, fun n hn => Or.inl (by simpa [unstarted, Coordinator.release, marked, ha] using hn),
        by simp [Coordinator.release]⟩
  rcases hd with rfl | rfl
  · exact hfollows
  · exact hfollows.drain

theorem reaches_next {h : List Step} {e : Step} (hr : Reaches coordinator h c)
    (hn : c.next e = some c') : Reaches coordinator (h ++ [e]) c' := hr.snoc hn

/-- A call that is fulfilled is one whose operation was called. -/
theorem started_of_fulfilled {h : List Step} (hr : Reaches coordinator h c) {n : ℕ}
    (hn : Event.settled n true ∈ c.log) : n ∈ startedCalls c.log := by
  rw [(kept_of_reaches hr).alternate]
  refine List.mem_append_left _ (List.mem_filterMap.mpr ⟨.returned n, ?_, rfl⟩)
  exact (honest_of_reaches hr).fulfilled n hn

end Coordinator

/-! ## The checks at entry -/

section Checks

variable {registry : Registry} {g g' : Gateway} {inv : Invocation}

theorem assertAccess_ok_iff {l : Lease} {actor : Text} :
    l.assertAccess actor = .ok () ↔
      actor ∈ deviceActors ∧ l.primary.isSome = true ∧ actor ∈ l.holders.map Prod.snd := by
  unfold Lease.assertAccess assertActor
  rw [seq_ok_iff, throwIf_ok_iff, Bool.not_eq_false', List.contains_iff_mem]
  refine and_congr_right fun _ => ?_
  cases l.primary with
  | none => simp [throw, throwThe, MonadExceptOf.throw]
  | some owner => simp only [throwIf_ok_iff, Bool.not_eq_false', List.contains_iff_mem,
      Option.isSome_some, true_and]

/-- The actor holds the lease, and the session is ready. -/
structure Ready (g : Gateway) (actor : Text) : Prop where
  lease : actor ∈ g.lease.holders.map Prod.snd
  session : ∃ s, g.session = some s ∧ s.state = units "ready"

theorem assertReady_ok_iff {actor : Text} : g.assertReady actor = .ok () ↔
    g.lease.assertAccess actor = .ok () ∧ g.session.any Session.ready = true := by
  rw [Gateway.assertReady, seq_ok_iff, throwIf_ok_iff, Bool.not_eq_false']

theorem ready_of_assertReady {actor : Text} (h : g.assertReady actor = .ok ()) :
    Ready g actor := by
  obtain ⟨haccess, hsession⟩ := assertReady_ok_iff.mp h
  refine ⟨(assertAccess_ok_iff.mp haccess).2.2, ?_⟩
  cases hs : g.session with
  | none =>
    rw [hs] at hsession
    cases hsession
  | some s =>
    rw [hs] at hsession
    exact ⟨s, rfl, eq_of_beq hsession⟩

/-- What `invoke` has found out when it calls `authorize`. -/
theorem precheck_ok {name : Text} {input : Value} {context : Context}
    (h : g.precheck registry name input context = .ok inv) :
    inv.id = g.calls ∧
    applyDefaultsAndValidate input inv.descriptor.inputSchema = .ok inv.input ∧
    (inv.descriptor.requiresReadyDevice = true → g.assertReady inv.context.actor = .ok ()) := by
  unfold Gateway.precheck at h
  obtain ⟨_, -, h⟩ := bind_ok h
  obtain ⟨_, -, h⟩ := bind_ok h
  cases hd : registry.descriptor name with
  | none =>
    rw [hd] at h
    cases h
  | some descriptor =>
    rw [hd] at h
    obtain ⟨o, hvalid, h⟩ := bind_ok h
    obtain ⟨_, -, h⟩ := bind_ok h
    obtain ⟨_, hready, h⟩ := bind_ok h
    obtain rfl := Except.ok.inj h
    rw [Registry.validate, hd] at hvalid
    refine ⟨rfl, hvalid, fun hrequires => ?_⟩
    rwa [if_pos hrequires] at hready

/-- Another lease takes nothing away. -/
theorem assertAccess_acquire {l l' : Lease} {actor other : Text} {id : ℕ}
    (h : l.assertAccess actor = .ok ()) (ha : l.acquire other = .ok (id, l')) :
    l'.assertAccess actor = .ok () := by
  unfold Lease.acquire at ha
  obtain ⟨_, -, ha⟩ := bind_ok ha
  obtain ⟨_, -, ha⟩ := bind_ok ha
  obtain ⟨-, rfl⟩ := Prod.mk.inj (Except.ok.inj ha)
  obtain ⟨hactor, -, hmem⟩ := assertAccess_ok_iff.mp h
  refine assertAccess_ok_iff.mpr ⟨hactor, rfl, ?_⟩
  rw [List.map_append]
  exact List.mem_append_left _ hmem

end Checks

/-! ## Steps of the gateway -/

def rejectedIds (log : List GatewayEvent) : List ℕ := log.filterMap fun
  | .rejected id _ => some id
  | _ => none

@[simp] theorem rejectedIds_append (log log' : List GatewayEvent) :
    rejectedIds (log ++ log') = rejectedIds log ++ rejectedIds log' := List.filterMap_append

/-- The calls that wait for `authorize`, without this one. -/
def Gateway.others (g : Gateway) (inv : Invocation) : List Invocation :=
  g.authorizing.filter fun i => i.id ≠ inv.id

section Steps

variable {registry : Registry} {g g' : Gateway} {inv : Invocation}

/-- What a step does, by its kind. -/
inductive Moved (registry : Registry) (g : Gateway) : GatewayStep → Gateway → Prop
  | refused {name : Text} {input : Value} {context : Context} (e : ActionError) :
      Moved registry g (.invoke name input context)
        { g with calls := g.calls + 1, log := g.log ++ [.rejected g.calls (some e)] }
  | asked {name : Text} {input : Value} {context : Context} {inv : Invocation}
      (h : g.precheck registry name input context = .ok inv) :
      Moved registry g (.invoke name input context)
        { g with
          calls := g.calls + 1
          authorizing := g.authorizing ++ [inv]
          log := g.log ++ [.asked inv] }
  | dropped {inv : Invocation} {verdict : Verdict} (before : List GatewayEvent)
      {error : Option ActionError} (hinv : inv ∈ g.authorizing)
      (hbefore : ∀ e ∈ before, e = .authorized inv) :
      Moved registry g (.resume inv.id verdict)
        { g with
          authorizing := g.others inv
          log := g.log ++ (before ++ [.rejected inv.id error]) }
  | queued {inv : Invocation} {c : Coordinator} (hinv : inv ∈ g.authorizing)
      (hrun : g.coordinator.run (Gateway.request inv) = some c) :
      Moved registry g (.resume inv.id .allowed)
        { g with
          coordinator := c
          authorizing := g.others inv
          operations := g.operations ++ [inv]
          log := g.log ++ [.authorized inv] }
  | acquired {actor : Text} {id : ℕ} {l : Lease} (h : g.lease.acquire actor = .ok (id, l)) :
      Moved registry g (.acquire actor) { g with lease := l }
  | released (id : ℕ) : Moved registry g (.release id) { g with lease := g.lease.release id }
  | changed (session : Option Session) :
      Moved registry g (.setSession session) { g with session := session }
  | started {item : Item} {c : Coordinator} (ha : g.coordinator.active = some ⟨item, .marked⟩)
      (hc : g.coordinator.next .start = some c) :
      Moved registry g (.operation .start)
        { g with
          coordinator := c
          log := g.log ++ g.operations[item.call]?.toList.map fun inv => .handled inv g.session }
  | moved {e : Step} {c : Coordinator} (hc : g.coordinator.next e = some c)
      (hrun : ∀ r, e ≠ .run r) (hstart : e ≠ .start) :
      Moved registry g (.operation e) { g with coordinator := c }

theorem moved_resume {verdict : Verdict} (hinv : inv ∈ g.authorizing) :
    Moved registry g (.resume inv.id verdict) (g.resume inv verdict) := by
  cases verdict with
  | failed => exact .dropped [] hinv (by simp)
  | denied => exact .dropped [] hinv (by simp)
  | allowed =>
    unfold Gateway.resume
    dsimp only
    cases hrun : g.coordinator.run (Gateway.request inv) with
    | none => exact .dropped [.authorized inv] hinv (by simp)
    | some c => exact .queued hinv hrun

theorem next_operation {e : Step} (hrun : ∀ r, e ≠ .run r) (hstart : e ≠ .start) :
    g.next registry (.operation e) =
      (g.coordinator.next e).map fun c => { g with coordinator := c } := by
  cases e with
  | run r => exact absurd rfl (hrun r)
  | start => exact absurd rfl hstart
  | abort s => rfl
  | close => rfl
  | settle ok => rfl
  | deliver => rfl
  | finish => rfl

theorem moved_of_next {e : GatewayStep} (h : g.next registry e = some g') :
    Moved registry g e g' := by
  cases e with
  | invoke name input context =>
    obtain rfl := Option.some.inj h
    unfold Gateway.invoke
    cases hcheck : g.precheck registry name input context with
    | error e => exact .refused e
    | ok inv => exact .asked hcheck
  | resume id verdict =>
    obtain ⟨inv, hfind, rfl⟩ := Option.map_eq_some_iff.mp h
    obtain rfl : inv.id = id := by simpa using List.find?_some hfind
    exact moved_resume (List.mem_of_find?_eq_some hfind)
  | acquire actor =>
    unfold Gateway.next at h
    dsimp only at h
    split at h
    · cases h
    · rename_i hacquire
      obtain rfl := Option.some.inj h
      exact .acquired hacquire
  | release id =>
    obtain rfl := Option.some.inj h
    exact .released id
  | setSession session =>
    obtain rfl := Option.some.inj h
    exact .changed session
  | operation e =>
    by_cases hrun : ∃ r, e = .run r
    · obtain ⟨r, rfl⟩ := hrun
      cases h
    by_cases hstart : e = .start
    · subst hstart
      obtain ⟨c, hc, rfl⟩ := Option.map_eq_some_iff.mp h
      obtain ⟨item, ha, -⟩ := follows_start hc
      have hstarting : g.starting = g.operations[item.call]? := by
        rw [Gateway.starting, ha]
      rw [hstarting]
      exact .started ha hc
    · rw [next_operation (not_exists.mp hrun) hstart] at h
      obtain ⟨c, hc, rfl⟩ := Option.map_eq_some_iff.mp h
      exact .moved hc (not_exists.mp hrun) hstart

end Steps

/-! ## The bookkeeping of invocations -/

/-- Every call of `invoke` waits for its authorization, is an operation of the coordinator or was
rejected; what waits or is an operation passed its schema and was shown to `authorize`; every
operation was authorized; and the handlers that were called are those of the operations that the
coordinator has called. -/
structure Gateway.Booked (g : Gateway) : Prop where
  coordinator : ∃ h, Reaches OperationCoordinator.coordinator h g.coordinator
  operations : g.operations.length = g.coordinator.calls
  accounted : ((g.authorizing ++ g.operations).map Invocation.id ++ rejectedIds g.log).Perm
    (List.range g.calls)
  asked : ∀ inv ∈ g.authorizing ++ g.operations, GatewayEvent.asked inv ∈ g.log
  valid : ∀ inv ∈ g.authorizing ++ g.operations,
    ∃ raw, applyDefaultsAndValidate raw inv.descriptor.inputSchema = .ok inv.input
  authorized : ∀ inv ∈ g.operations, GatewayEvent.authorized inv ∈ g.log
  handled : ∀ inv s, GatewayEvent.handled inv s ∈ g.log → inv ∈ g.operations
  begun : ∀ n ∈ startedCalls g.coordinator.log, ∀ inv, g.operations[n]? = some inv →
    ∃ s, GatewayEvent.handled inv s ∈ g.log

section Booked

variable {registry : Registry} {g g' : Gateway} {inv : Invocation}

theorem Gateway.Booked.nodup (h : g.Booked) :
    (g.authorizing.map Invocation.id).Nodup := by
  have hnodup := h.accounted.nodup_iff.mpr List.nodup_range
  rw [List.map_append, List.append_assoc] at hnodup
  exact (List.nodup_append'.mp hnodup).1

/-- The ids that wait are the id of one of them and those of the others. -/
theorem Gateway.Booked.others_perm (h : g.Booked) (hinv : inv ∈ g.authorizing) :
    (g.authorizing.map Invocation.id).Perm (inv.id :: (g.others inv).map Invocation.id) := by
  have hfilter : (g.others inv).map Invocation.id =
      (g.authorizing.map Invocation.id).erase inv.id := by
    rw [h.nodup.erase_eq_filter, List.filter_map]
    refine congrArg _ (List.filter_congr fun i _ => ?_)
    by_cases hi : i.id = inv.id <;> simp [hi]
  rw [hfilter]
  exact List.perm_cons_erase (List.mem_map_of_mem hinv)

theorem others_subset {i : Invocation} (h : i ∈ g.others inv) : i ∈ g.authorizing :=
  (List.mem_filter.mp h).1

theorem rejectedIds_authorized {before : List GatewayEvent}
    (h : ∀ e ∈ before, e = .authorized inv) : rejectedIds before = [] := by
  refine List.filterMap_eq_nil_iff.mpr fun e he => ?_
  rw [h e he]

theorem Gateway.Booked.refused (h : g.Booked) (e : ActionError) :
    Gateway.Booked { g with calls := g.calls + 1, log := g.log ++ [.rejected g.calls (some e)] } := by
  refine ⟨h.coordinator, h.operations, ?_, fun i hi => List.mem_append_left _ (h.asked i hi),
    h.valid, fun i hi => List.mem_append_left _ (h.authorized i hi), fun i s hi => ?_,
    fun n hn i hi => ?_⟩
  · rw [rejectedIds_append, ← List.append_assoc, List.range_succ]
    exact h.accounted.append_right _
  · exact h.handled i s (by simpa using hi)
  · obtain ⟨s, hs⟩ := h.begun n hn i hi
    exact ⟨s, List.mem_append_left _ hs⟩

theorem Gateway.Booked.ask (h : g.Booked) {name : Text} {input : Value} {context : Context}
    (hcheck : g.precheck registry name input context = .ok inv) :
    Gateway.Booked
      { g with
        calls := g.calls + 1
        authorizing := g.authorizing ++ [inv]
        log := g.log ++ [.asked inv] } := by
  obtain ⟨hid, hvalid, -⟩ := precheck_ok hcheck
  have hsplit : ∀ i ∈ g.authorizing ++ [inv] ++ g.operations,
      i ∈ g.authorizing ++ g.operations ∨ i = inv := fun i hi => by
    simp only [List.mem_append, List.mem_singleton] at hi ⊢
    tauto
  refine ⟨h.coordinator, h.operations, ?_, fun i hi => ?_, fun i hi => ?_,
    fun i hi => List.mem_append_left _ (h.authorized i hi), fun i s hi => ?_, fun n hn i hi => ?_⟩
  · have hold := h.accounted
    rw [List.perm_iff_count] at hold ⊢
    intro n
    have hn := hold n
    have hnone : rejectedIds [.asked inv] = [] := rfl
    rw [List.range_succ]
    simp only [rejectedIds_append, hnone, List.map_append, List.map_cons, List.map_nil, hid,
      List.count_append, List.count_nil] at hn ⊢
    omega
  · rcases hsplit i hi with hi | rfl
    · exact List.mem_append_left _ (h.asked i hi)
    · exact List.mem_append_right _ (List.mem_singleton_self _)
  · rcases hsplit i hi with hi | rfl
    · exact h.valid i hi
    · exact ⟨input, hvalid⟩
  · exact h.handled i s (by simpa using hi)
  · obtain ⟨s, hs⟩ := h.begun n hn i hi
    exact ⟨s, List.mem_append_left _ hs⟩

theorem Gateway.Booked.drop (h : g.Booked) (hinv : inv ∈ g.authorizing)
    {before : List GatewayEvent} (hbefore : ∀ e ∈ before, e = .authorized inv)
    (error : Option ActionError) :
    Gateway.Booked
      { g with
        authorizing := g.others inv
        log := g.log ++ (before ++ [.rejected inv.id error]) } := by
  have hsubset : ∀ i ∈ g.others inv ++ g.operations, i ∈ g.authorizing ++ g.operations :=
    fun i hi => (List.mem_append.mp hi).elim
      (fun hi => List.mem_append_left _ (others_subset hi)) (List.mem_append_right _)
  refine ⟨h.coordinator, h.operations, ?_,
    fun i hi => List.mem_append_left _ (h.asked i (hsubset i hi)),
    fun i hi => h.valid i (hsubset i hi),
    fun i hi => List.mem_append_left _ (h.authorized i hi), fun i s hi => ?_, fun n hn i hi => ?_⟩
  · have hold := h.accounted
    have hothers := h.others_perm hinv
    rw [List.perm_iff_count] at hold hothers ⊢
    intro n
    have hn := hold n
    have hm := hothers n
    have hlast : rejectedIds [.rejected inv.id error] = [inv.id] := rfl
    rw [← List.singleton_append, List.count_append] at hm
    simp only [rejectedIds_append, rejectedIds_authorized hbefore, hlast, List.map_append,
      List.count_append, List.count_nil] at hn ⊢
    omega
  · rcases List.mem_append.mp hi with hi | hi
    · exact h.handled i s hi
    · rcases List.mem_append.mp hi with hi | hi
      · cases hbefore _ hi
      · cases List.mem_singleton.mp hi
  · obtain ⟨s, hs⟩ := h.begun n hn i hi
    exact ⟨s, List.mem_append_left _ hs⟩

theorem Gateway.Booked.queue (h : g.Booked) (hinv : inv ∈ g.authorizing) {c : Coordinator}
    (hrun : g.coordinator.run (Gateway.request inv) = some c) :
    Gateway.Booked
      { g with
        coordinator := c
        authorizing := g.others inv
        operations := g.operations ++ [inv]
        log := g.log ++ [.authorized inv] } := by
  obtain ⟨steps, hr⟩ := h.coordinator
  have hfollows := follows_run hrun
  have hsubset : ∀ i ∈ g.others inv ++ (g.operations ++ [inv]),
      i ∈ g.authorizing ++ g.operations := fun i hi => by
    rcases List.mem_append.mp hi with hi | hi
    · exact List.mem_append_left _ (others_subset hi)
    · rcases List.mem_append.mp hi with hi | hi
      · exact List.mem_append_right _ hi
      · exact List.mem_append_left _ (List.mem_singleton.mp hi ▸ hinv)
  refine ⟨⟨_, reaches_next (e := .run (Gateway.request inv)) hr hrun⟩, ?_, ?_,
    fun i hi => List.mem_append_left _ (h.asked i (hsubset i hi)),
    fun i hi => h.valid i (hsubset i hi), fun i hi => ?_, fun i s hi => ?_, fun n hn i hi => ?_⟩
  · simp only [List.length_append, h.operations, hfollows.calls, List.length_singleton]
  · have hold := h.accounted
    have hothers := h.others_perm hinv
    rw [List.perm_iff_count] at hold hothers ⊢
    intro n
    have hn := hold n
    have hm := hothers n
    have hlast : rejectedIds [.authorized inv] = [] := rfl
    rw [← List.singleton_append, List.count_append] at hm
    simp only [rejectedIds_append, hlast, List.map_append, List.map_cons, List.map_nil,
      List.count_append, List.count_nil] at hn ⊢
    omega
  · rcases List.mem_append.mp hi with hi | hi
    · exact List.mem_append_left _ (h.authorized i hi)
    · rw [List.mem_singleton.mp hi]
      exact List.mem_append_right _ (List.mem_singleton_self _)
  · exact List.mem_append_left _ (h.handled i s (by simpa using hi))
  · rw [hfollows.started, List.append_nil] at hn
    have hlt : n < g.operations.length := by
      rw [h.operations]
      exact (kept_of_reaches hr).below n (List.mem_append_left _ hn)
    rw [List.getElem?_append_left hlt] at hi
    obtain ⟨s, hs⟩ := h.begun n hn i hi
    exact ⟨s, List.mem_append_left _ hs⟩

theorem Gateway.Booked.start (h : g.Booked) {item : Item} {c : Coordinator}
    (ha : g.coordinator.active = some ⟨item, .marked⟩)
    (hc : g.coordinator.next .start = some c) :
    Gateway.Booked
      { g with
        coordinator := c
        log := g.log ++ g.operations[item.call]?.toList.map fun inv => .handled inv g.session } := by
  obtain ⟨steps, hr⟩ := h.coordinator
  obtain ⟨item', ha', hfollows⟩ := follows_start hc
  obtain rfl : item = item' := by
    rw [ha] at ha'
    exact (Active.mk.inj (Option.some.inj ha')).1
  have hnone : rejectedIds (g.operations[item.call]?.toList.map fun inv =>
      .handled inv g.session) = [] := by
    cases g.operations[item.call]? <;> rfl
  refine ⟨⟨_, reaches_next hr hc⟩, ?_, ?_, fun i hi => List.mem_append_left _ (h.asked i hi),
    h.valid, fun i hi => List.mem_append_left _ (h.authorized i hi), fun i s hi => ?_,
    fun n hn i hi => ?_⟩
  · rw [hfollows.calls]
    exact h.operations
  · rw [rejectedIds_append, hnone, List.append_nil]
    exact h.accounted
  · rcases List.mem_append.mp hi with hi | hi
    · exact h.handled i s hi
    · obtain ⟨i', hi', heq⟩ := List.mem_map.mp hi
      obtain ⟨rfl, -⟩ := GatewayEvent.handled.inj heq
      exact List.mem_of_getElem? (Option.mem_toList.mp hi')
  · rw [hfollows.started] at hn
    rcases List.mem_append.mp hn with hn | hn
    · obtain ⟨s, hs⟩ := h.begun n hn i hi
      exact ⟨s, List.mem_append_left _ hs⟩
    · rw [List.mem_singleton.mp hn] at hi
      rw [hi]
      exact ⟨g.session, List.mem_append_right _ (List.mem_singleton_self _)⟩

theorem Gateway.Booked.moved (h : g.Booked) {e : GatewayStep} (hmoved : Moved registry g e g') :
    g'.Booked := by
  cases hmoved with
  | refused e => exact h.refused e
  | asked hcheck => exact h.ask hcheck
  | dropped before hinv hbefore => exact h.drop hinv hbefore _
  | queued hinv hrun => exact h.queue hinv hrun
  | acquired hl => exact ⟨h.coordinator, h.operations, h.accounted, h.asked, h.valid,
      h.authorized, h.handled, h.begun⟩
  | released id => exact ⟨h.coordinator, h.operations, h.accounted, h.asked, h.valid,
      h.authorized, h.handled, h.begun⟩
  | changed session => exact ⟨h.coordinator, h.operations, h.accounted, h.asked, h.valid,
      h.authorized, h.handled, h.begun⟩
  | started ha hc => exact h.start ha hc
  | moved hc hrun hstart =>
    obtain ⟨steps, hr⟩ := h.coordinator
    have hfollows := follows_next hc hrun hstart
    refine ⟨⟨_, hr.snoc hc⟩, ?_, h.accounted, h.asked, h.valid, h.authorized, h.handled, ?_⟩
    · rw [hfollows.calls]
      exact h.operations
    · rw [hfollows.started, List.append_nil]
      exact h.begun

theorem booked_of_reaches {h : List GatewayStep} (hr : Reaches (gateway registry) h g) :
    g.Booked := by
  refine hr.stateInvariant ?_ fun g e g' hbooked hnext => hbooked.moved (moved_of_next hnext)
  rintro _ rfl
  exact ⟨⟨[], .init rfl⟩, rfl, List.Perm.refl _, by simp, by simp, by simp, by simp,
    by simp [startedCalls]⟩

end Booked

/-! ## Handlers that start -/

/-- An invocation whose handler may start: its input has passed the schema of the action, and
`authorize` was asked about this input and has allowed it. -/
structure Admitted (g : Gateway) (inv : Invocation) : Prop where
  valid : ∃ raw, applyDefaultsAndValidate raw inv.descriptor.inputSchema = .ok inv.input
  conforms : Conforms inv.input inv.descriptor.inputSchema
  asked : GatewayEvent.asked inv ∈ g.log
  authorized : GatewayEvent.authorized inv ∈ g.log

/-- What `invoke` does about handlers that do not start. -/
structure Gateway.Settles (g : Gateway) : Prop where
  accounted : ∀ n, n < g.calls ↔ (∃ e, GatewayEvent.rejected n e ∈ g.log) ∨
    ∃ inv ∈ g.authorizing ++ g.operations, inv.id = n
  rejected : ∀ n e, GatewayEvent.rejected n e ∈ g.log →
    ∀ inv s, GatewayEvent.handled inv s ∈ g.log → inv.id ≠ n
  fulfilled : ∀ n inv, g.operations[n]? = some inv →
    Event.settled n true ∈ g.coordinator.log → ∃ s, GatewayEvent.handled inv s ∈ g.log

section Admission

variable {registry : Registry} {g g' : Gateway} {inv : Invocation}

theorem mem_rejectedIds {log : List GatewayEvent} {n : ℕ} :
    n ∈ rejectedIds log ↔ ∃ e, GatewayEvent.rejected n e ∈ log := by
  unfold rejectedIds
  rw [List.mem_filterMap]
  constructor
  · rintro ⟨e, he, hid⟩
    cases e with
    | rejected id error =>
      obtain rfl := Option.some.inj hid
      exact ⟨error, he⟩
    | asked inv => cases hid
    | authorized inv => cases hid
    | handled inv s => cases hid
  · rintro ⟨e, he⟩
    exact ⟨_, he, rfl⟩

theorem Gateway.Booked.settles (h : g.Booked) : g.Settles := by
  refine ⟨fun n => ?_, fun n e hrejected i s hhandled heq => ?_, fun n i hi hsettled => ?_⟩
  · rw [← List.mem_range, ← h.accounted.mem_iff, List.mem_append, mem_rejectedIds, List.mem_map]
    exact or_comm
  · have hnodup := h.accounted.nodup_iff.mpr List.nodup_range
    refine List.disjoint_left.mp (List.nodup_append'.mp hnodup).2.2 ?_
      (mem_rejectedIds.mpr ⟨e, hrejected⟩)
    exact heq ▸ List.mem_map_of_mem (List.mem_append_right _ (h.handled i s hhandled))
  · obtain ⟨steps, hr⟩ := h.coordinator
    exact h.begun n (started_of_fulfilled hr hsettled) i hi

theorem Gateway.Booked.admitted (h : g.Booked) (hinv : inv ∈ g.operations) : Admitted g inv := by
  obtain ⟨raw, hraw⟩ := h.valid inv (List.mem_append_right _ hinv)
  exact ⟨⟨raw, hraw⟩, applyDefaultsAndValidate_ok hraw, h.asked inv (List.mem_append_right _ hinv),
    h.authorized inv hinv⟩

/-- The step calls the handler of the invocation. -/
def Starts (g g' : Gateway) (inv : Invocation) (s : Option Session) : Prop :=
  ∃ new, g'.log = g.log ++ new ∧ GatewayEvent.handled inv s ∈ new

/-- A handler is called with the present session, when its item's operation is called. -/
theorem starts_cases {e : GatewayStep} {s : Option Session} (hmoved : Moved registry g e g')
    (h : Starts g g' inv s) : s = g.session ∧ inv ∈ g.operations ∧
      ∃ item, g.coordinator.active = some ⟨item, .marked⟩ ∧
        g.operations[item.call]? = some inv := by
  obtain ⟨new, hlog, hmem⟩ := h
  have hquiet : g'.log = g.log → False := fun heq => by
    rw [hlog] at heq
    rw [List.append_right_eq_self.mp heq] at hmem
    cases hmem
  cases hmoved with
  | refused e =>
    rw [← List.append_cancel_left hlog] at hmem
    simp at hmem
  | asked hcheck =>
    rw [← List.append_cancel_left hlog] at hmem
    simp at hmem
  | dropped before hinv hbefore =>
    rw [← List.append_cancel_left hlog] at hmem
    rcases List.mem_append.mp hmem with hmem | hmem
    · cases hbefore _ hmem
    · cases List.mem_singleton.mp hmem
  | queued hinv hrun =>
    rw [← List.append_cancel_left hlog] at hmem
    simp at hmem
  | acquired hl => exact (hquiet rfl).elim
  | released id => exact (hquiet rfl).elim
  | changed session => exact (hquiet rfl).elim
  | moved hc hrun hstart => exact (hquiet rfl).elim
  | @started item c ha hc =>
    rw [← List.append_cancel_left hlog] at hmem
    obtain ⟨i, hi, heq⟩ := List.mem_map.mp hmem
    obtain ⟨rfl, rfl⟩ := GatewayEvent.handled.inj heq
    have hget := Option.mem_toList.mp hi
    exact ⟨rfl, List.mem_of_getElem? hget, item, ha, hget⟩

end Admission

/-! ## The lease and the session of an invocation that waits -/

/-- An invocation whose handler may still be called. -/
def Waits (g : Gateway) (inv : Invocation) : Prop :=
  inv ∈ g.authorizing ∨ ∃ n ∈ unstarted g.coordinator, g.operations[n]? = some inv

/-- While an invocation of an action that requires a ready device waits, its actor's last lease is
not released and the session stays a ready one. -/
def Steady (g : Gateway) (e : GatewayStep) : Prop :=
  ∀ inv, Waits g inv → inv.descriptor.requiresReadyDevice = true →
    (∀ id, e = .release id → (g.lease.release id).assertAccess inv.context.actor = .ok ()) ∧
    ∀ s, e = .setSession s → s.any Session.ready = true

/-- What was checked at entry is true of every invocation that waits. -/
def Gateway.Upheld (g : Gateway) : Prop :=
  ∀ inv, Waits g inv → inv.descriptor.requiresReadyDevice = true →
    g.assertReady inv.context.actor = .ok ()

section Upheld

variable {registry : Registry} {g g' : Gateway} {inv : Invocation}

/-- An invocation that waits behind a step of the coordinator was waiting before. -/
theorem waits_of_follows {begun : List ℕ} {c : Coordinator} {log : List GatewayEvent}
    (hfollows : Follows g.coordinator [] begun c)
    (h : Waits { g with coordinator := c, log := log } inv) : Waits g inv := by
  rcases h with h | ⟨n, hn, hget⟩
  · exact Or.inl h
  · rcases hfollows.waiting n hn with hn | hn
    · exact Or.inr ⟨n, hn, hget⟩
    · cases hn

theorem Gateway.Upheld.moved (h : g.Upheld) (hbooked : g.Booked) {e : GatewayStep}
    (hsteady : Steady g e) (hmoved : Moved registry g e g') : g'.Upheld := by
  intro inv hwaits hrequires
  cases hmoved with
  | refused e => exact h inv hwaits hrequires
  | @asked name input context inv' hcheck =>
    rcases hwaits with hmem | hwaits
    · rcases List.mem_append.mp hmem with hmem | hmem
      · exact h inv (Or.inl hmem) hrequires
      · obtain rfl := List.mem_singleton.mp hmem
        exact (precheck_ok hcheck).2.2 hrequires
    · exact h inv (Or.inr hwaits) hrequires
  | dropped before hinv hbefore =>
    rcases hwaits with hmem | hwaits
    · exact h inv (Or.inl (others_subset hmem)) hrequires
    · exact h inv (Or.inr hwaits) hrequires
  | @queued inv' c hinv hrun =>
    rcases hwaits with hmem | ⟨n, hn, hget⟩
    · exact h inv (Or.inl (others_subset hmem)) hrequires
    obtain ⟨steps, hr⟩ := hbooked.coordinator
    rcases (follows_run hrun).waiting n hn with hn | hn
    · have hlt : n < g.operations.length := by
        rw [hbooked.operations]
        exact (kept_of_reaches hr).below n (List.mem_append_right _ hn)
      rw [List.getElem?_append_left hlt] at hget
      exact h inv (Or.inr ⟨n, hn, hget⟩) hrequires
    · rw [List.mem_singleton.mp hn, ← hbooked.operations, List.getElem?_concat_length] at hget
      obtain rfl := Option.some.inj hget
      exact h inv' (Or.inl hinv) hrequires
  | acquired hl =>
    obtain ⟨haccess, hsession⟩ := assertReady_ok_iff.mp (h inv hwaits hrequires)
    exact assertReady_ok_iff.mpr ⟨assertAccess_acquire haccess hl, hsession⟩
  | released id =>
    have hold := assertReady_ok_iff.mp (h inv hwaits hrequires)
    exact assertReady_ok_iff.mpr ⟨(hsteady inv hwaits hrequires).1 id rfl, hold.2⟩
  | changed session =>
    have hold := assertReady_ok_iff.mp (h inv hwaits hrequires)
    exact assertReady_ok_iff.mpr ⟨hold.1, (hsteady inv hwaits hrequires).2 session rfl⟩
  | started ha hc =>
    obtain ⟨_, -, hfollows⟩ := follows_start hc
    exact h inv (waits_of_follows hfollows hwaits) hrequires
  | moved hc hrun hstart =>
    exact h inv (waits_of_follows (follows_next hc hrun hstart) hwaits) hrequires

theorem upheld_of_reaches {h : List GatewayStep}
    (hr : Reaches ((gateway registry).restrict Steady) h g) : g.Upheld := by
  refine hr.invariant (I := fun _ g => g.Upheld) ?_ fun h g e g' hr hupheld hstep => ?_
  · rintro _ rfl inv (hmem | ⟨n, hn, -⟩) -
    · cases hmem
    · cases hn
  · exact hupheld.moved (booked_of_reaches hr.of_restrict) hstep.1 (moved_of_next hstep.2)

end Upheld

/-- A handler that starts was admitted, and every other invocation is rejected or waits. While
nothing takes the lease or the ready session away from an invocation that waits, the handler of an
action that requires a ready device starts when its actor holds the lease, with a session that is
ready. -/
theorem admission_holds (registry : Registry) :
    (∀ h g, Reaches (gateway registry) h g → g.Settles ∧
      ∀ e g' inv s, g.next registry e = some g' → Starts g g' inv s → Admitted g inv) ∧
    ∀ h g, Reaches ((gateway registry).restrict Steady) h g →
      ∀ e g' inv s, g.next registry e = some g' → Starts g g' inv s →
        inv.descriptor.requiresReadyDevice = true → s = g.session ∧ Ready g inv.context.actor := by
  refine ⟨fun h g hr => ?_, fun h g hr e g' inv s hnext hstarts hrequires => ?_⟩
  · have hbooked := booked_of_reaches hr
    refine ⟨hbooked.settles, fun e g' inv s hnext hstarts => ?_⟩
    exact hbooked.admitted (starts_cases (moved_of_next hnext) hstarts).2.1
  · obtain ⟨hs, -, item, ha, hget⟩ := starts_cases (moved_of_next hnext) hstarts
    refine ⟨hs, ready_of_assertReady (upheld_of_reaches hr inv (Or.inr ⟨item.call, ?_, hget⟩)
      hrequires)⟩
    simp [unstarted, marked, ha]

/-- A registry with one handler. -/
def inspectOnly : Registry := { handlers := [units "device.inspect"] }

/-- A call is checked, its actor's lease is released, and the call is authorized. -/
def releasedRun : List GatewayStep :=
  [.acquire (units "agent"), .setSession (some ⟨0, units "ready"⟩),
    .invoke (units "device.inspect") (.object []) ⟨units "agent", units "1", none⟩, .release 1,
    .resume 0 .allowed]

/-- The handler starts although nobody holds the lease. -/
theorem starts_without_lease : ∃ g g' inv,
    Reaches (gateway inspectOnly) releasedRun g ∧
    g.next inspectOnly (.operation .start) = some g' ∧ Starts g g' inv g.session ∧
    inv.descriptor.requiresReadyDevice = true ∧ ¬ Ready g inv.context.actor := by
  have hrun : (releasedRun.foldlM (Gateway.next inspectOnly) {}).map (fun g =>
      (g.lease.holders, g.starting.map fun inv => inv.descriptor.requiresReadyDevice,
        (g.coordinator.next .start).isSome)) = some ([], some true, true) := by
    decide +kernel
  obtain ⟨g, hg, hfacts⟩ := Option.map_eq_some_iff.mp hrun
  obtain ⟨hholders, hfacts⟩ := Prod.mk.inj hfacts
  obtain ⟨hstarting, hnext⟩ := Prod.mk.inj hfacts
  obtain ⟨inv, hinv, hrequires⟩ := Option.map_eq_some_iff.mp hstarting
  obtain ⟨c, hc⟩ := Option.isSome_iff_exists.mp hnext
  have hr := (Reaches.init (S := gateway inspectOnly) rfl).append
    (Path.of_foldlM (S := gateway inspectOnly) (fun _ _ _ hs => hs) hg)
  refine ⟨g, _, inv, hr, Option.map_eq_some_iff.mpr ⟨c, hc, rfl⟩, ⟨_, rfl, ?_⟩, hrequires, ?_⟩
  · rw [hinv]
    exact List.mem_singleton_self _
  · intro hready
    have hlease := hready.lease
    rw [hholders] at hlease
    cases hlease

end EspVision.DeviceActions
