import EspVision.NetworkSlot

/-!
# Runs of the worker

The round of the worker is the same for every question about its runs: a question brings what holds
of the records between operations and during one, and what the operations do with that. Here are
the rules that take it from there to every state of every run.
-/
namespace EspVision.NetworkService

open TaskProgram TransitionSystem

variable {sha256 : List UInt8 → List UInt8} {ok : Place → Other → Service → Prop}
  {A : Place → Service → Prop} {f : Phase → Prop} {X : Records → Prop}
  {Y : NetworkRequest → Records → Prop} {r : NetworkRequest} {s t : Service}

/-! ## Phases -/

/-- The phases outside an execution. -/
def outside (phase : Phase) : Prop := ∀ r, phase ≠ .running r

/-- The phases in which the request waits for its response. -/
def waiting (r : NetworkRequest) (d : ℕ) (phase : Phase) : Prop :=
  ∃ released, phase = .queued r d released

lemma calm_outside : Calm outside := ⟨fun _ r d q => by simp, fun r d rel _ q => by simp⟩

lemma calm_waiting (r : NetworkRequest) (d : ℕ) : Calm (waiting r d) := by
  refine ⟨?_, ?_⟩
  · rintro ⟨rel, h⟩
    cases h
  · rintro r' d' rel ⟨rel', h⟩
    obtain ⟨rfl, rfl, rfl⟩ := Phase.queued.inj h
    exact ⟨true, rfl⟩

lemma calm_running (r : NetworkRequest) : Calm (· = .running r) :=
  ⟨fun h => (by cases h), fun _ _ _ h => (by cases h)⟩

/-- What the rest may do. -/
abbrev Rest (sha256 : List UInt8 → List UInt8) (ok : Place → Other → Service → Prop) :
    Place → Service → Service → Prop :=
  Interferes (Service.other sha256) ok

/-- The slot stands in a phase with `f`, and the records have `X`. -/
structure During (sha256 : List UInt8 → List UInt8) (f : Phase → Prop) (X : Records → Prop)
    (s : Service) : Prop where
  follows : Follows sha256 f s.core
  records : X s.core.records

lemma During.stable (hf : Calm f) (l : Place) (s t : Service) (h : During sha256 f X s)
    (hst : Rest sha256 ok l s t) : During sha256 f X t := by
  obtain ⟨e, -, he⟩ := hst
  exact ⟨other_follows hf h.follows he, other_records he ▸ h.records⟩

lemma During.of_framed (h : During sha256 f X s) (hst : Framed s t) : During sha256 f X t :=
  ⟨h.follows.of_eq hst, congrArg Core.records hst ▸ h.records⟩

/-- A program that leaves the core alone. -/
lemma framed_triple {α : Type} {p : Task α} (hf : Calm f)
    (hA : ∀ l s, During sha256 f X s → A l s) (hp : Every Framed p) :
    Triple (Rest sha256 ok) A (During sha256 f X) p fun _ => During sha256 f X :=
  (hp.keeps hA fun _ _ h hst => h.of_framed hst).triple (During.stable hf)

/-! ## Operations -/

/-- A step of an operation: what it commits is recorded, and the slot stays. -/
def Working (s t : Service) : Prop :=
  ∃ persisted stored log verdict, t.core =
      { s.core with persisted := persisted, stored := stored, log := log, verdict := verdict } ∧
    (log = s.core.log ∨
      ∃ record v, log = s.core.log ++ [.committed s.core.activeRequest record v])

lemma Framed.working (h : Framed s t) : Working s t :=
  ⟨s.persisted, s.stored, s.trace.log, s.trace.verdict, h, .inl rfl⟩

/-- The operation that runs is the present one. -/
lemma activeRequest_of_running (h : Follows sha256 (· = .running r) s.core) :
    s.activeRequest = r := by
  obtain ⟨p, -, ha, hp⟩ := h.run
  have hpres := ha.present
  rw [hp] at hpres
  exact hpres.2.1

lemma hasOperation_of_running (h : Follows sha256 (· = .running r) s.core) :
    s.hasOperation = true := by
  obtain ⟨p, -, ha, hp⟩ := h.run
  have hpres := ha.present
  rw [hp] at hpres
  exact hpres.1

lemma Follows.working (h : Follows sha256 (· = .running r) s.core) (hw : Working s t) :
    Follows sha256 (· = .running r) t.core := by
  have hreq : s.core.activeRequest = r := activeRequest_of_running h
  obtain ⟨persisted, stored, log, verdict, heq, hlog⟩ := hw
  obtain ⟨p, hr, ha, hp⟩ := h.run
  have hmade : ∀ q d, .accepted q d ∈ log →
      s.core.started = true ∧ q.WellFormed sha256 := by
    rcases hlog with rfl | ⟨record, v, rfl⟩
    · exact h.made
    · exact fun q d hm => h.made q d (by simpa using hm)
  rw [heq]
  refine ⟨⟨p, ?_, ⟨ha.present, ha.last⟩, hp⟩, h.apart, hmade, h.keyed⟩
  rcases hlog with rfl | ⟨record, v, rfl⟩
  · exact hr
  · exact hr.snoc (.committed _ record v (hreq ▸ hp))

/-- What the steps of an operation keep. -/
lemma working_triple {α : Type} {p : Task α}
    (hA : ∀ l s, During sha256 (· = .running r) X s → A l s)
    (hX : ∀ s t, During sha256 (· = .running r) X s → Working s t → X t.core.records)
    (hp : Every Working p) :
    Triple (Rest sha256 ok) A (During sha256 (· = .running r) X) p
      fun _ => During sha256 (· = .running r) X :=
  (hp.keeps hA fun s t h hst => ⟨h.follows.working hst, hX s t h hst⟩).triple
    (During.stable (calm_running r))

lemma persist_working (r : Record) : Every Working (persist r) := by
  refine .atomic fun o s => ?_
  cases hp : persistRecord s.stored r o.persist with
  | mk done stored =>
    cases done with
    | true => exact ⟨s.persisted, stored, _, s.trace.verdict, rfl, .inr ⟨r, _, rfl⟩⟩
    | false => exact ⟨s.persisted, stored, _, s.trace.verdict, rfl, .inl rfl⟩

lemma persistAndPublish_working (r : Record) : Every Working (persistAndPublish r) := by
  refine .bind (persist_working r) fun done => ?_
  split_ifs
  · exact .bind (.update fun s => ⟨r, s.stored, s.trace.log, s.trace.verdict, rfl, .inl rfl⟩)
      fun _ => .pure _
  · exact .pure _

lemma Every.working {α : Type} {p : Task α} (hp : Every Framed p) : Every Working p :=
  hp.mono fun _ _ h => Framed.working h

lemma forgotten_working (s : Service) (empty : Record) (cleared : Bool) :
    Working s (s.forgotten empty cleared) := by
  refine ⟨empty, s.stored, s.trace.log, s.trace.verdict, ?_, .inl rfl⟩
  unfold Service.forgotten
  dsimp only
  split_ifs <;> rfl

/-- What `completeOperation` reports. -/
def Service.report (s : Service) (succeeded : Bool) (error : Error) : Report where
  request := s.activeRequest
  succeeded := succeeded
  error := if succeeded then .none else error
  verdict := s.trace.verdict
  before := s.trace.before
  after := (s.persisted, s.stored)
  profile := s.profile
  driverOk := s.trace.driverOk

/-- Completion takes the running operation to its end. -/
lemma completeOperation_follows (h : Follows sha256 (· = .running r) s.core)
    (succeeded : Bool) (error : Error) :
    Follows sha256 outside (s.completeOperation succeeded error).core := by
  obtain ⟨p, hr, ha, hp⟩ := h.run
  have hpres := ha.present
  rw [hp] at hpres
  obtain ⟨hop, hreq, hoper⟩ := hpres
  have hop' : s.hasOperation = true := hop
  have hoper' : s.operation = { id := r.id, action := r.action, state := .running } := hoper
  unfold Service.completeOperation
  rw [if_pos hop']
  refine {
    run := ⟨_, hr.snoc (.completed _ (hp.trans (by rw [← hreq]; rfl))), ⟨⟨rfl, rfl⟩,
      ⟨rfl, rfl, ?_, ?_, ?_⟩⟩, fun q => by simp⟩
    apart := fun hf => by cases hf
    made := fun q d hm => ?_
    keyed := rfl }
  rotate_left 3
  · rcases List.mem_append.mp hm with hm | hm
    · exact h.made q d hm
    · simp at hm
  · change s.operation.id = s.activeRequest.id
    rw [hoper']
    exact (congrArg NetworkRequest.id hreq).symm
  · change s.operation.action = s.activeRequest.action
    rw [hoper']
    exact (congrArg NetworkRequest.action hreq).symm
  · cases succeeded
    · exact .inr rfl
    · exact .inl rfl

/-- Completion adds its report to the records. -/
lemma completeOperation_records (hop : s.hasOperation = true) (succeeded : Bool) (error : Error) :
    (s.completeOperation succeeded error).core.records =
      { s.core.records with
        done := s.core.records.done ++ [.completed (s.report succeeded error)] } := by
  unfold Service.completeOperation
  rw [if_pos hop]
  simp [Core.records, Service.core, Service.record, Entry.ofWorker, Service.report]

lemma completeOperation_triple {P : Service → Prop} {Z : Records → Prop} (succeeded : Bool)
    (error : Error) (hP : ∀ s, P s → During sha256 (· = .running r) Z s)
    (hs : ∀ s t, P s → Rest sha256 ok {} s t → P t) (hA : ∀ s, P s → A {} s)
    (hX : ∀ s, P s → X { s.core.records with
      done := s.core.records.done ++ [.completed (s.report succeeded error)] }) :
    Triple (Rest sha256 ok) A P (completeOperation succeeded error)
      fun _ => During sha256 outside X := by
  refine .update hs fun s h => ⟨hA s h, completeOperation_follows (hP s h).follows _ _, ?_⟩
  rw [completeOperation_records (hasOperation_of_running (hP s h).follows)]
  exact hX s h

/-! ### The driver during an operation -/

/-- An operation keeps others from being accepted. -/
lemma submit_of_hasOperation (hop : s.hasOperation = true) : (s.submit r).2 = s :=
  (submit_cases s r).resolve_right fun h => absurd (hop.symm.trans h.2.2.2.1) (by decide)

/-- What the driver has, and what is known of the present attempt. -/
structure Driver where
  profile : Profile
  associations : List Profile
  own : Option ℕ
  cause : Cause
  driverOk : Bool
  deriving DecidableEq

def Service.driver (s : Service) : Driver where
  profile := s.profile
  associations := s.associations
  own := s.trace.own
  cause := s.trace.cause
  driverOk := s.trace.driverOk

lemma handleEvent_driver (s : Service) (p : Posted) : (s.handleEvent p).driver = s.driver := by
  obtain ⟨event, association⟩ := p
  unfold Service.handleEvent
  cases event with
  | staDisconnected reason jitter =>
    dsimp only
    split_ifs <;> rfl
  | _ => rfl

/-- An operation claims the driver. -/
lemma claimed_of_running (h : Follows sha256 (· = .running r) s.core) : Claimed s :=
  have hop := hasOperation_of_running h
  ⟨h.apart hop, .inl hop⟩

/-- During an operation the rest leaves the driver alone. -/
lemma other_driver (h : Follows sha256 (· = .running r) s.core) {e : Other}
    (hstep : s.other sha256 e = some t) : t.driver = s.driver := by
  cases e with
  | elapse us =>
    obtain rfl := Option.some.inj hstep
    rfl
  | post p =>
    simp only [Service.other] at hstep
    split_ifs at hstep
    obtain rfl := Option.some.inj hstep
    rfl
  | deliver =>
    simp only [Service.other] at hstep
    cases hp : s.posted with
    | nil =>
      rw [hp] at hstep
      cases hstep
    | cons p rest =>
      rw [hp] at hstep
      obtain rfl := Option.some.inj hstep
      exact (handleEvent_driver _ p).trans rfl
  | start =>
    obtain rfl := Option.some.inj hstep
    rfl
  | rpc text capacity hashed =>
    obtain rfl := Option.some.inj hstep
    unfold Service.rpcHandle
    cases requestOf sha256 text capacity hashed with
    | error response => rfl
    | ok q =>
      dsimp only
      rw [submit_of_hasOperation (hasOperation_of_running h)]
  | responseSent id =>
    obtain rfl := Option.some.inj hstep
    unfold Service.rpcResponseSent
    split_ifs <;> rfl
  | python call =>
    change s.python call = some t at hstep
    rw [(claimed_of_running h).python] at hstep
    split_ifs at hstep
    obtain rfl := Option.some.inj hstep
    rfl

/-- The operation `r` runs, the records have `X`, and the driver has `D`. -/
structure At (sha256 : List UInt8 → List UInt8) (r : NetworkRequest) (X : Records → Prop)
    (D : Driver → Prop) (s : Service) : Prop where
  during : During sha256 (· = .running r) X s
  driver : D s.driver

lemma At.stable {D : Driver → Prop} (l : Place) (s t : Service) (h : At sha256 r X D s)
    (hst : Rest sha256 ok l s t) : At sha256 r X D t := by
  obtain ⟨e, he, hstep⟩ := hst
  exact ⟨h.during.stable (calm_running r) l s t ⟨e, he, hstep⟩,
    other_driver h.during.follows hstep ▸ h.driver⟩

/-- The last call of the driver has failed. -/
def Driver.Failed (d : Driver) : Prop := d.driverOk = false ∧ d.cause = .driver

/-- A call of the driver is only refused if it fails. -/
lemma call_triple (hA : ∀ l s, During sha256 (· = .running r) X s → A l s) (tolerated : List Err) :
    Triple (Rest sha256 ok) A (During sha256 (· = .running r) X) (driverCall tolerated id false)
      fun done => At sha256 r X fun d => done = false → d.Failed := by
  refine .atomic (During.stable (calm_running r) _) fun s h => ⟨hA _ s h, fun o => ?_⟩
  split_ifs
  · exact ⟨h, fun hd => (by cases hd)⟩
  · exact ⟨h, fun hd => (by cases hd)⟩
  · exact ⟨h.of_framed rfl, fun _ => ⟨rfl, rfl⟩⟩

lemma ensureStaMode_triple (hA : ∀ l s, During sha256 (· = .running r) X s → A l s) :
    Triple (Rest sha256 ok) A (During sha256 (· = .running r) X) ensureStaMode
      fun ready => At sha256 r X fun d => ready = false → d.Failed := by
  refine .bind (M := fun answer => At sha256 r X fun d =>
    answer.1 ≠ .ok ∧ answer.1 ≠ .notStarted → d.Failed) (.atomic (During.stable (calm_running r) _)
      fun s h => ⟨hA _ s h, fun o => ?_⟩) fun answer => ?_
  · split_ifs
    · exact ⟨h, fun he => absurd rfl he.1⟩
    · exact ⟨h, fun he => absurd rfl he.2⟩
    · exact ⟨h.of_framed rfl, fun _ => ⟨rfl, rfl⟩⟩
  dsimp only
  split_ifs with hc
  · exact .pure fun s h => ⟨h.during, fun _ => h.driver hc⟩
  all_goals
    refine .bind (M := fun set => At sha256 r X fun d => set = false → d.Failed) ?_ fun set => ?_
  · exact .pure fun s h => ⟨h.during, fun hd => (by cases hd)⟩
  · cases set with
    | false => exact .pure fun s h => h
    | true => exact .pre (fun s h => h.during) (call_triple hA _)
  · exact .pre (fun s h => h.during) (call_triple hA _)
  · cases set with
    | false => exact .pure fun s h => h
    | true => exact .pre (fun s h => h.during) (call_triple hA _)

lemma wifiSetConfig_triple (hA : ∀ l s, During sha256 (· = .running r) X s → A l s) (p : Profile) :
    Triple (Rest sha256 ok) A (During sha256 (· = .running r) X) (wifiSetConfig p)
      fun set => At sha256 r X fun d => if set then d.profile = p else d.Failed := by
  refine .atomic (During.stable (calm_running r) _) fun s h => ⟨hA _ s h, fun o => ?_⟩
  by_cases he : o.err = .ok
  · rw [if_pos he]
    exact ⟨h.of_framed rfl, rfl⟩
  · rw [if_neg he, if_neg (by simp)]
    exact ⟨h.of_framed rfl, rfl, rfl⟩

/-! ### Operations of which only the slot matters -/

/-- Whatever an operation commits and reports, the records keep `X`. -/
structure Careless (sha256 : List UInt8 → List UInt8) (A : Place → Service → Prop)
    (X : Records → Prop) (r : NetworkRequest) : Prop where
  place : ∀ l s, During sha256 (· = .running r) X s → A l s
  working : ∀ s t, During sha256 (· = .running r) X s → Working s t → X t.core.records
  completed : ∀ s succeeded error, During sha256 (· = .running r) X s →
    X { s.core.records with
      done := s.core.records.done ++ [.completed (s.report succeeded error)] }

namespace Careless

lemma working_triple {α : Type} {p : Task α} (h : Careless sha256 A X r) (hp : Every Working p) :
    Triple (Rest sha256 ok) A (During sha256 (· = .running r) X) p
      fun _ => During sha256 (· = .running r) X :=
  NetworkService.working_triple h.place h.working hp

lemma framed_triple {α : Type} {p : Task α} (h : Careless sha256 A X r) (hp : Every Framed p) :
    Triple (Rest sha256 ok) A (During sha256 (· = .running r) X) p
      fun _ => During sha256 (· = .running r) X :=
  h.working_triple (Every.working hp)

lemma complete_triple (h : Careless sha256 A X r) (succeeded : Bool) (error : Error) :
    Triple (Rest sha256 ok) A (During sha256 (· = .running r) X)
      (completeOperation succeeded error) fun _ => During sha256 outside X :=
  completeOperation_triple succeeded error (fun _ h => h) (During.stable (calm_running r) _)
    (h.place _) fun s hs => h.completed s _ _ hs

lemma runConfigure_triple (h : Careless sha256 A X r) :
    Triple (Rest sha256 ok) A (During sha256 (· = .running r) X) (runConfigure r)
      fun _ => During sha256 outside X := by
  refine .bind (h.framed_triple (.atomic fun _ _ => rfl)) fun previous =>
    .bind (h.framed_triple (framed_of_modest disconnectSta_modest)) fun _ =>
    .bind (h.framed_triple (connectRecord_framed _ _ _ _)) fun failure =>
    .bind (h.working_triple (.update fun s =>
      ⟨s.persisted, s.stored, s.trace.log, s.judge.trace.verdict, rfl, .inl rfl⟩)) fun _ => ?_
  split_ifs
  · exact .bind (h.framed_triple (rollbackRuntime_framed previous)) fun _ =>
      h.complete_triple _ _
  refine .bind (h.working_triple (persistAndPublish_working _)) fun published => ?_
  split_ifs
  · exact .bind (h.framed_triple (rollbackRuntime_framed previous)) fun _ =>
      h.complete_triple _ _
  · exact .bind (h.framed_triple (.update fun s => rfl)) fun _ => h.complete_triple _ _

lemma runEnable_triple (h : Careless sha256 A X r) :
    Triple (Rest sha256 ok) A (During sha256 (· = .running r) X) (runEnable r)
      fun _ => During sha256 outside X := by
  refine .bind (h.framed_triple (.atomic fun _ _ => rfl)) fun current => ?_
  split_ifs
  · exact h.complete_triple _ _
  refine .bind (h.working_triple (persistAndPublish_working _)) fun published => ?_
  split_ifs
  · exact h.complete_triple _ _
  refine .bind (h.framed_triple ?_) fun ready =>
    .bind (h.framed_triple (.update fun s => enabled_core s _ _ _)) fun _ =>
    .bind (h.framed_triple ?_) fun done => ?_
  · split_ifs
    · exact restoreProfile_framed _
    · exact .pure _
  · split_ifs
    · exact disableSta_framed
    · exact .pure _
  · split_ifs
    · exact h.complete_triple _ _
    · exact h.complete_triple _ _

lemma runForget_triple (h : Careless sha256 A X r) :
    Triple (Rest sha256 ok) A (During sha256 (· = .running r) X) runForget
      fun _ => During sha256 outside X := by
  refine .bind (h.framed_triple (.atomic fun _ _ => rfl)) fun empty =>
    .bind (h.working_triple (persist_working _)) fun persisted => ?_
  split_ifs
  · exact h.complete_triple _ _
  · exact .bind (h.framed_triple (framed_of_modest disconnectSta_modest)) fun _ =>
      .bind (h.framed_triple clearStaCredentials_framed) fun _ =>
      .bind (h.framed_triple stopStaInterface_framed) fun _ =>
      .bind (h.working_triple (.update fun s => forgotten_working s _ _)) fun _ =>
      h.complete_triple _ _

lemma perform_triple (h : Careless sha256 A X r) :
    Triple (Rest sha256 ok) A (During sha256 (· = .running r) X) (perform r)
      fun _ => During sha256 outside X := by
  unfold perform
  cases r.action with
  | none => exact h.complete_triple _ _
  | configure => exact h.runConfigure_triple
  | enable => exact h.runEnable_triple
  | forget => exact h.runForget_triple

end Careless

/-! ## Waiting for the response -/

/-- A response that has been sent stays so, and time goes on. -/
lemma other_due {e : Other} {d : ℕ}
    (h : Follows sha256 (waiting r d) s.core) (hstep : s.other sha256 e = some t) :
    (s.replyReleased = true → t.replyReleased = true) ∧ s.clock ≤ t.clock := by
  have hop : s.hasOperation = true := by
    obtain ⟨p, -, ha, rel, hp⟩ := h.run
    have hpres := ha.present
    rw [hp] at hpres
    exact hpres.1
  cases e with
  | elapse us =>
    obtain rfl := Option.some.inj hstep
    exact ⟨fun h => h, Nat.le_add_right _ _⟩
  | post p =>
    simp only [Service.other] at hstep
    split_ifs at hstep
    obtain rfl := Option.some.inj hstep
    exact ⟨fun h => h, le_rfl⟩
  | deliver =>
    simp only [Service.other] at hstep
    cases hp : s.posted with
    | nil =>
      rw [hp] at hstep
      cases hstep
    | cons p rest =>
      rw [hp] at hstep
      obtain rfl := Option.some.inj hstep
      exact ⟨fun h => (congrArg Core.replyReleased (handleEvent_core _ p)).trans h,
        (handleEvent_clock { s with posted := rest } p).ge⟩
  | start =>
    obtain rfl := Option.some.inj hstep
    exact ⟨fun h => h, le_rfl⟩
  | rpc text capacity hashed =>
    obtain rfl := Option.some.inj hstep
    unfold Service.rpcHandle
    cases requestOf sha256 text capacity hashed with
    | error response => exact ⟨fun h => h, le_rfl⟩
    | ok q =>
      dsimp only
      rw [submit_of_hasOperation hop]
      exact ⟨fun h => h, le_rfl⟩
  | responseSent id =>
    obtain rfl := Option.some.inj hstep
    unfold Service.rpcResponseSent
    by_cases hhex : (!lowerHexOperationId id) = true
    · rw [if_pos hhex]
      exact ⟨fun h => h, le_rfl⟩
    · rw [if_neg hhex]
      refine ⟨fun h => ?_, le_rfl⟩
      change (if _ then true else s.replyReleased) = true
      rw [h, ite_self]
  | python call =>
    refine ⟨fun h => ?_, (python_clock hstep).ge⟩
    have hrel : t.core.replyReleased = s.core.replyReleased := by
      rcases python_core hstep with heq | heq | ⟨-, heq⟩ <;> rw [heq]
    exact hrel.trans h

/-- The request waits, and its response has been sent or its deadline has come. -/
structure Due (sha256 : List UInt8 → List UInt8) (X : Records → Prop) (r : NetworkRequest) (d : ℕ)
    (s : Service) : Prop where
  during : During sha256 (waiting r d) X s
  due : s.replyReleased = true ∨ d ≤ s.clock

lemma Due.stable {d : ℕ} (l : Place) (s t : Service) (h : Due sha256 X r d s)
    (hst : Rest sha256 ok l s t) : Due sha256 X r d t := by
  obtain ⟨e, he, hstep⟩ := hst
  obtain ⟨hrel, hclock⟩ := other_due h.during.follows hstep
  exact ⟨h.during.stable (calm_waiting r d) l s t ⟨e, he, hstep⟩,
    h.due.imp hrel fun h => h.trans hclock⟩

lemma awaitReply_triple (r : NetworkRequest) (d : ℕ) (hA : ∀ f s, During sha256 f X s → A {} s) :
    Triple (Rest sha256 ok) A (During sha256 (waiting r d) X) (awaitReply d)
      fun _ => Due sha256 X r d := by
  have hstable : ∀ l s t, During sha256 (waiting r d) X s → Rest sha256 ok l s t →
      During sha256 (waiting r d) X t := During.stable (calm_waiting r d)
  refine .repeatUntil (hstable _) (fun s h => hA _ s h) ?_
  refine .bind (M := fun early s => During sha256 (waiting r d) X s ∧
    (early = false → d ≤ s.clock)) (.atomic (hstable _) fun s h => ⟨hA _ s h, fun o =>
      ⟨h, fun he => by simpa using he⟩⟩) fun early => ?_
  split_ifs with he
  · refine .pre (fun s h => h.1) (.atomic (hstable _) fun s h => ⟨hA _ s h, fun o => ?_⟩)
    dsimp only
    split_ifs with hrel
    · exact ⟨h, .inl hrel⟩
    · exact h
  · exact .pure fun s h => ⟨h.1, .inr (h.2 (by simpa using he))⟩

/-- The records when an operation starts. -/
def Records.begun (records : Records) (r : NetworkRequest) (time : ℕ) : Records :=
  { records with
    done := records.done ++ [.executed r time]
    before := (records.persisted, records.stored)
    verdict := {} }

lemma startOperation_records (s : Service) (r : NetworkRequest) :
    (s.startOperation r).core.records = s.core.records.begun r s.clock := by
  simp [Core.records, Service.core, Service.startOperation, Service.record, Records.begun,
    Entry.ofWorker]

lemma startOperation_follows {d : ℕ} (h : Due sha256 X r d s) :
    Follows sha256 (· = .running r) (s.startOperation r).core := by
  obtain ⟨⟨⟨⟨p, hr, ha, rel, hp⟩, hapart, hmade, hkeyed⟩, -⟩, hdue⟩ := h
  have hpres := ha.present
  rw [hp] at hpres
  obtain ⟨hop, hreq, hoper, hd, hrel⟩ := hpres
  have hop' : s.hasOperation = true := hop
  have hoper' : s.operation = { id := r.id, action := r.action, state := .queued } := hoper
  have hrel' : s.replyReleased = rel := hrel
  refine ⟨⟨_, hr.snoc (.executed r d rel s.clock hp (hrel' ▸ hdue)), ⟨⟨hop, hreq, ?_⟩, ha.last⟩,
    rfl⟩, hapart, fun q e hm => ?_, hkeyed⟩
  · change (if s.hasOperation = true then _ else s.operation) = _
    rw [if_pos hop', hoper']
  · rcases List.mem_append.mp hm with hm | hm
    · exact hmade q e hm
    · simp at hm

/-! ## The worker -/

/-- What a question about the worker brings: `X` holds of the records between operations, `Y r`
during the operation `r`, and `A` at every place. -/
structure WorkerSpec (sha256 : List UInt8 → List UInt8) (ok : Place → Other → Service → Prop)
    (A : Place → Service → Prop) (X : Records → Prop) (Y : NetworkRequest → Records → Prop) :
    Prop where
  idle : ∀ f s, During sha256 f X s → A {} s
  begun : ∀ r records time, X records → Y r (records.begun r time)
  perform : ∀ r, Triple (Rest sha256 ok) A (During sha256 (· = .running r) (Y r)) (perform r)
    fun _ => During sha256 outside X
  initial : Triple (Rest sha256 ok) A (During sha256 outside X) connectInitially
    fun _ => During sha256 outside X
  reconnect : Triple (Rest sha256 ok) A (During sha256 outside X) tryReconnect
    fun _ => During sha256 outside X

namespace WorkerSpec

/-- Where the service stands behind the look at the slot. -/
def Job (sha256 : List UInt8 → List UInt8) (X : Records → Prop) (s : Service) :
    Option (NetworkRequest × ℕ) → Prop
  | none => During sha256 outside X s
  | some (r, d) => During sha256 (waiting r d) X s

variable (h : WorkerSpec sha256 ok A X Y)

include h in
lemma runOperation_triple : Triple (Rest sha256 ok) A (During sha256 outside X) runOperation
    fun _ => During sha256 outside X := by
  refine .bind (M := fun job s => Job sha256 X s job)
    (.atomic (During.stable calm_outside _) fun s hs => ⟨h.idle _ s hs, fun o => ?_⟩)
    fun job => ?_
  · dsimp only
    split_ifs with hc
    · -- the slot shows a queued request, so the protocol stands there
      simp only [Bool.and_eq_true, beq_iff_eq] at hc
      obtain ⟨p, hr, ha, hp⟩ := hs.follows.run
      refine ⟨⟨⟨p, hr, ha, ?_⟩, hs.follows.apart, hs.follows.made, hs.follows.keyed⟩, hs.records⟩
      have hpres := ha.present
      cases hph : p.phase with
      | idle =>
        rw [hph] at hpres
        exact absurd (hc.1.symm.trans hpres.1) (by decide)
      | queued r d rel =>
        rw [hph] at hpres
        have hreq : s.activeRequest = r := hpres.2.1
        have hd : s.replyDeadline = d := hpres.2.2.2.1
        exact ⟨rel, by rw [hreq, hd]⟩
      | running r => exact absurd hph (hp r)
    · exact hs
  · cases job with
    | none => exact .pure fun s hs => hs
    | some job =>
      obtain ⟨r, d⟩ := job
      refine .bind (awaitReply_triple r d h.idle) fun _ =>
        .bind (M := fun _ => During sha256 (· = .running r) (Y r))
          (.update (Due.stable _) fun s hs => ⟨h.idle _ s hs.during, ?_, ?_⟩) fun _ => h.perform r
      · exact startOperation_follows hs
      · rw [startOperation_records]
        exact h.begun r _ _ hs.during.records

include h in
lemma workerRound_triple : Triple (Rest sha256 ok) A (During sha256 outside X) workerRound
    fun _ => During sha256 outside X := by
  have hread : ∀ {α : Type} (g : Service → α), Triple (Rest sha256 ok) A
      (During sha256 outside X) (atomic {} fun _ s => (g s, s) : Task α)
      fun _ => During sha256 outside X := fun g =>
    .atomic (During.stable calm_outside _) fun s hs => ⟨h.idle _ s hs, fun _ => hs⟩
  refine .bind (hread _) fun ⟨pending, retryAt⟩ => ?_
  dsimp only
  split_ifs
  · exact h.runOperation_triple
  refine .bind (hread _) fun due => ?_
  split_ifs
  · exact .pure fun s hs => hs
  refine .bind (hread _) fun now => ?_
  split_ifs
  · exact h.reconnect
  · exact .pure fun s hs => hs

lemma boot_follows (d : Defaults) (stored : Stored) (a : BootAnswers) :
    Follows sha256 outside (Service.boot d stored a).core :=
  ⟨⟨{}, .init rfl, ⟨⟨rfl, rfl⟩, rfl⟩, fun r => by simp⟩, fun h => (by cases h),
    fun r d h => (by cases h), rfl⟩

include h in
/-- `A` holds in every state that a run reaches, at the place of the worker there. -/
theorem of_reaches {init : Service → Prop} (hboot : ∀ s, init s → ∃ d stored a, s = .boot d stored a)
    (hinit : ∀ s, init s → X s.core.records) {ms : List (Move Other Outcome)}
    {c : Task Empty × Service}
    (hr : Reaches (among networkWorker init (Service.other sha256) ok) ms c) :
    ∃ l, c.1.place = some l ∧ A l c.2 := by
  have hworker : Triple (Rest sha256 ok) A (During sha256 outside X) networkWorker
      fun _ => During sha256 outside X :=
    .bind h.initial fun _ =>
      .forever (During.stable calm_outside _) (fun s hs => h.idle _ s hs) h.workerRound_triple
  have hstart : Triple (Rest sha256 ok) A init networkWorker fun _ => During sha256 outside X := by
    refine .pre (fun s hs => ⟨?_, hinit s hs⟩) hworker
    obtain ⟨d, stored, a, rfl⟩ := hboot s hs
    exact boot_follows d stored a
  obtain ⟨p, s⟩ := c
  cases hp : p.place with
  | none =>
    cases p with
    | ret a => exact a.elim
    | _ => simp [Prog.place] at hp
  | some l => exact ⟨l, rfl, hstart.place_of_reaches hr hp⟩

end WorkerSpec

end EspVision.NetworkService
