import EspVision.NetworkOperation

/-!
# The record in memory and in the storage (`network_service.c`)

Between operations the record in memory is the one that was committed last, whatever calls of the
driver and of the storage fail. An operation that cannot commit changes neither, and a
`network.configure` that fails puts the profile of the driver back.
-/
namespace EspVision.NetworkService

open TaskProgram TransitionSystem

variable {sha256 : List UInt8 → List UInt8} {ok : Place → Other → Service → Prop}
  {A : Place → Service → Prop} {X Z : Records → Prop} {r : NetworkRequest} {s t : Service}
  {r₀ : Record × Stored}

/-! ## What is committed -/

/-- The record that was committed last, in memory and as it is stored; `r₀` is what boot left. -/
def lastCommitted (r₀ : Record × Stored) (log : List Entry) : Record × Stored :=
  log.foldl (fun last e => match e with
    | .committed _ record _ => (record, .blob (recordPrepare record))
    | _ => last) r₀

@[simp] lemma lastCommitted_committed (log : List Entry) (q : NetworkRequest) (record : Record)
    (v : Verdict) : lastCommitted r₀ (log ++ [.committed q record v]) =
      (record, .blob (recordPrepare record)) := by
  simp [lastCommitted]

@[simp] lemma lastCommitted_completed (log : List Entry) (report : Report) :
    lastCommitted r₀ (log ++ [.completed report]) = lastCommitted r₀ log := by
  simp [lastCommitted]

@[simp] lemma lastCommitted_executed (log : List Entry) (q : NetworkRequest) (time : ℕ) :
    lastCommitted r₀ (log ++ [.executed q time]) = lastCommitted r₀ log := by
  simp [lastCommitted]

lemma lastCommitted_filter (log : List Entry) :
    lastCommitted r₀ (log.filter Entry.ofWorker) = lastCommitted r₀ log := by
  unfold lastCommitted
  induction log generalizing r₀ with
  | nil => rfl
  | cons e log ih =>
    cases e with
    | accepted | responseSent =>
      rw [List.filter_cons_of_neg (by simp [Entry.ofWorker])]
      exact ih
    | executed | committed | completed =>
      rw [List.filter_cons_of_pos rfl]
      exact ih

/-- The profile that the driver should have for a record. -/
def Record.profile (record : Record) : Profile :=
  if record.configured = 0 then {} else configFromRecord record

/-- What an entry says of the record, after the entries of `log`. -/
def Durable (r₀ : Record × Stored) (log : List Entry) : Entry → Prop
  | .committed _ record _ => record.revision = (lastCommitted r₀ log).1.revision + 1
  | .completed report =>
    report.after = lastCommitted r₀ log ∧
      (report.error = .persistFailed → report.after = report.before) ∧
      (report.request.action = .configure → report.succeeded = false →
        report.after = report.before ∧
          (report.driverOk = true → report.profile = report.before.1.profile))
  | _ => True

/-- The record in memory is the one that was committed last. -/
structure Settled (r₀ : Record × Stored) (records : Records) : Prop where
  synced : (records.persisted, records.stored) = lastCommitted r₀ records.done
  told : Told (Durable r₀) records.done

/-- Nothing has changed since the operation began. -/
structure Unchanged (r₀ : Record × Stored) (records : Records) : Prop where
  settled : Settled r₀ records
  before : records.before = (records.persisted, records.stored)

/-- A record has been committed and is not yet in memory. -/
structure Committed (r₀ : Record × Stored) (record : Record) (records : Records) : Prop where
  stored : (record, records.stored) = lastCommitted r₀ records.done
  told : Told (Durable r₀) records.done

/-- What is told of the record is so, and it is in memory while no operation runs. -/
def Kept (r₀ : Record × Stored) (_ : Place) (s : Service) : Prop :=
  Told (Durable r₀) s.core.records.done ∧
    ((s.hasOperation = true → s.operation.state ≠ .running) →
      (s.persisted, s.stored) = lastCommitted r₀ s.core.records.done)

lemma kept_of_running (h : During sha256 (· = .running r) X s)
    (htold : Told (Durable r₀) s.core.records.done) (l : Place) : Kept r₀ l s := by
  refine ⟨htold, fun hidle => absurd ?_ (hidle (hasOperation_of_running h.follows))⟩
  obtain ⟨p, -, ha, hp⟩ := h.follows.run
  have hpres := ha.present
  rw [hp] at hpres
  exact congrArg Operation.state hpres.2.2

/-! ## Committing -/

/-- The triples of the worker that keep what is told of the record. -/
abbrev KeptTriple (sha256 : List UInt8 → List UInt8) (ok : Place → Other → Service → Prop)
    (r₀ : Record × Stored) {α : Type} (P : Service → Prop) (p : Task α) (Q : α → Service → Prop) :
    Prop :=
  Triple (Rest sha256 ok) (Kept r₀) P p Q

lemma kept_framed {α : Type} {p : Task α} (hX : ∀ records, X records → Settled r₀ records)
    (hp : Every Framed p) : KeptTriple sha256 ok r₀ (During sha256 (· = .running r) X) p
      fun _ => During sha256 (· = .running r) X :=
  framed_triple (calm_running r) (fun l _ h => kept_of_running h (hX _ h.records).told l) hp

/-- The operation looks at the record in memory. -/
lemma look_triple {α : Type} {run : Outcome → Service → α × Service} (R : α → Record → Prop)
    (hX : ∀ records, X records → Settled r₀ records) (hcore : ∀ o s, (run o s).2.core = s.core)
    (hR : ∀ o s, R (run o s).1 s.persisted) :
    KeptTriple sha256 ok r₀ (During sha256 (· = .running r) X) (atomic {} run) fun a =>
      During sha256 (· = .running r) fun records => X records ∧ R a records.persisted := by
  refine .atomic (During.stable (calm_running r) _) fun s h =>
    ⟨kept_of_running h (hX _ h.records).told _, fun o => ?_⟩
  have h' := h.of_framed (hcore o s)
  refine ⟨h'.follows, h'.records, ?_⟩
  have hpersisted : (run o s).2.persisted = s.persisted := congrArg Core.persisted (hcore o s)
  change R _ (run o s).2.persisted
  rw [hpersisted]
  exact hR o s

lemma persist_triple {record : Record} (hX : ∀ records, X records → Settled r₀ records)
    (hrev : ∀ records, X records → record.revision = records.persisted.revision + 1) :
    KeptTriple sha256 ok r₀ (During sha256 (· = .running r) X) (persist record) fun done =>
      During sha256 (· = .running r) fun records =>
        if done then Committed r₀ record records else X records := by
  refine .atomic (During.stable (calm_running r) _) fun s h =>
    ⟨kept_of_running h (hX _ h.records).told _, fun o => ?_⟩
  have hwork := (persist_working record).1 o s
  refine ⟨h.follows.working hwork, ?_⟩
  unfold persistRecord
  by_cases hc : (o.persist.opened && o.persist.set && o.persist.committed) = true
  · rw [if_pos hc]
    have hdone : (({ s with stored := .blob (recordPrepare record) } : Service).record
        (.committed s.activeRequest record s.trace.verdict)).core.records.done =
        s.core.records.done ++ [.committed s.activeRequest record s.trace.verdict] := by
      simp [Core.records, Service.core, Service.record, Entry.ofWorker]
    change Committed r₀ record _
    refine ⟨?_, ?_⟩
    · rw [hdone, lastCommitted_committed]
      rfl
    · rw [hdone]
      refine (hX _ h.records).told.snoc ?_
      change record.revision = _
      rw [← (hX _ h.records).synced]
      exact hrev _ h.records
  · rw [if_neg hc]
    exact h.records

/-- The committed record goes to the memory. -/
lemma publish_triple {record : Record} {f : Service → Service}
    (hf : ∀ s, Working s (f s) ∧ (f s).core.records = { s.core.records with persisted := record }) :
    KeptTriple sha256 ok r₀ (During sha256 (· = .running r) (Committed r₀ record)) (update {} f)
      fun _ => During sha256 (· = .running r) (Settled r₀) := by
  refine .update (During.stable (calm_running r) _) fun s h =>
    ⟨kept_of_running h h.records.told _, h.follows.working (hf s).1, ?_⟩
  rw [(hf s).2]
  exact ⟨h.records.stored, h.records.told⟩

lemma persistAndPublish_triple {record : Record}
    (hX : ∀ records, X records → Settled r₀ records)
    (hrev : ∀ records, X records → record.revision = records.persisted.revision + 1) :
    KeptTriple sha256 ok r₀ (During sha256 (· = .running r) X) (persistAndPublish record)
      fun done => During sha256 (· = .running r) fun records =>
        if done then Settled r₀ records else X records := by
  refine .bind (persist_triple hX hrev) fun done => ?_
  cases done with
  | true =>
    exact .bind (publish_triple fun s => ⟨⟨record, s.stored, s.trace.log, s.trace.verdict, rfl,
      .inl rfl⟩, rfl⟩) fun _ => .pure fun s h => h
  | false => exact .pure fun s h => h

/-- The operation completes and reports what is so. -/
lemma complete_triple {P : Service → Prop} (succeeded : Bool) (error : Error)
    (hP : ∀ s, P s → During sha256 (· = .running r) (Settled r₀) s)
    (hs : ∀ s t, P s → Rest sha256 ok {} s t → P t)
    (herr : ∀ s, P s → succeeded = false → error = .persistFailed →
      s.trace.before = (s.persisted, s.stored))
    (hconf : ∀ s, P s → r.action = .configure → succeeded = false →
      s.trace.before = (s.persisted, s.stored) ∧
        (s.trace.driverOk = true → s.profile = s.persisted.profile)) :
    KeptTriple sha256 ok r₀ P (completeOperation succeeded error)
      fun _ => During sha256 outside (Settled r₀) := by
  refine completeOperation_triple succeeded error hP hs
    (fun s h => kept_of_running (hP s h) (hP s h).records.told _) fun s h => ?_
  have hset := (hP s h).records
  have hreq : s.activeRequest = r := activeRequest_of_running (hP s h).follows
  refine ⟨hset.synced.trans (lastCommitted_completed _ _).symm, hset.told.snoc ⟨hset.synced,
    fun he => ?_, fun hact hfail => ?_⟩⟩
  · cases succeeded with
    | true => cases he
    | false => exact (herr s h rfl he).symm
  · change s.activeRequest.action = .configure at hact
    rw [hreq] at hact
    obtain ⟨hbefore, hprofile⟩ := hconf s h hact hfail
    refine ⟨hbefore.symm, fun hok => ?_⟩
    change s.profile = s.trace.before.1.profile
    rw [hbefore]
    exact hprofile hok

/-! ## Enabling and forgetting -/

/-- An operation other than `network.configure` completes. -/
lemma complete_other (hr : r.action ≠ .configure) (succeeded : Bool) {error : Error}
    (herr : error ≠ .persistFailed) :
    KeptTriple sha256 ok r₀ (During sha256 (· = .running r) (Settled r₀))
      (completeOperation succeeded error) fun _ => During sha256 outside (Settled r₀) :=
  complete_triple succeeded error (fun _ h => h) (During.stable (calm_running r) _)
    (fun _ _ _ he => absurd he herr) fun _ _ ha => absurd ha hr

/-- It completes because it could not commit. -/
lemma complete_unchanged (hr : r.action ≠ .configure)
    (hX : ∀ records, X records → Unchanged r₀ records) (succeeded : Bool) (error : Error) :
    KeptTriple sha256 ok r₀ (During sha256 (· = .running r) X)
      (completeOperation succeeded error) fun _ => During sha256 outside (Settled r₀) :=
  complete_triple succeeded error (fun _ h => ⟨h.follows, (hX _ h.records).settled⟩)
    (During.stable (calm_running r) _) (fun _ h _ _ => (hX _ h.records).before)
    fun _ _ ha => absurd ha hr

lemma runEnable_kept (hr : r.action ≠ .configure) :
    KeptTriple sha256 ok r₀ (During sha256 (· = .running r) (Unchanged r₀)) (runEnable r)
      fun _ => During sha256 outside (Settled r₀) := by
  refine .bind (look_triple (fun current persisted => persisted = current)
    (fun _ h => h.settled) (fun _ _ => rfl) fun _ _ => rfl) fun current => ?_
  split_ifs
  · exact complete_unchanged hr (fun _ h => h.1) _ _
  refine .bind (persistAndPublish_triple (fun _ h => h.1.settled) fun _ h => by
    rw [h.2]) fun published => ?_
  cases published with
  | false => exact complete_unchanged hr (fun _ h => h.1) _ _
  | true =>
    refine .bind (kept_framed (X := Settled r₀) (fun _ h => h) ?_) fun ready =>
      .bind (kept_framed (fun _ h => h) (.update fun s => enabled_core s _ _ _)) fun _ =>
      .bind (kept_framed (fun _ h => h) ?_) fun done => ?_
    · split_ifs
      · exact restoreProfile_framed _
      · exact .pure _
    · split_ifs
      · exact disableSta_framed
      · exact .pure _
    · split_ifs
      · exact complete_other hr _ (by decide)
      · exact complete_other hr _ (by decide)

lemma forgotten_records (s : Service) (empty : Record) (cleared : Bool) :
    (s.forgotten empty cleared).core.records = { s.core.records with persisted := empty } := by
  unfold Service.forgotten
  dsimp only
  split_ifs <;> rfl

lemma runForget_kept (hr : r.action ≠ .configure) :
    KeptTriple sha256 ok r₀ (During sha256 (· = .running r) (Unchanged r₀)) runForget
      fun _ => During sha256 outside (Settled r₀) := by
  refine .bind (look_triple (fun (empty : Record) persisted =>
    empty.revision = persisted.revision + 1) (fun _ h => h.settled) (fun _ _ => rfl)
    fun _ _ => rfl) fun empty => ?_
  refine .bind (persist_triple (fun _ h => h.1.settled) fun _ h => h.2) fun persisted => ?_
  cases persisted with
  | false => exact complete_unchanged hr (fun _ h => h.1) _ _
  | true =>
    have hframed : ∀ {p : Task Bool}, Every Framed p → KeptTriple sha256 ok r₀
        (During sha256 (· = .running r) (Committed r₀ empty)) p
        fun _ => During sha256 (· = .running r) (Committed r₀ empty) := fun hp =>
      framed_triple (calm_running r) (fun l _ h => kept_of_running h h.records.told l) hp
    refine .bind (hframed (framed_of_modest disconnectSta_modest)) fun _ =>
      .bind (hframed clearStaCredentials_framed) fun credentials =>
      .bind (hframed stopStaInterface_framed) fun interface =>
      .bind (publish_triple fun s => ⟨forgotten_working s _ _, forgotten_records s _ _⟩)
      fun _ => complete_other hr _ ?_
    split_ifs <;> decide

/-! ## Putting the profile back -/

/-- The state of an operation in which a profile is put back: where every call of the driver has
succeeded, the profile has `P`. -/
abbrev Restoring (sha256 : List UInt8 → List UInt8) (r : NetworkRequest) (X : Records → Prop)
    (P : Profile → Prop) : Service → Prop :=
  At sha256 r X fun d => d.driverOk = true → P d.profile

variable {P : Profile → Prop}

lemma kept_at {D : Driver → Prop} (hX : ∀ records, X records → Settled r₀ records)
    (l : Place) (h : At sha256 r X D s) : Kept r₀ l s :=
  kept_of_running h.during (hX _ h.during.records).told l

lemma restoring_modest (h : Restoring sha256 r X P s) (hm : Modest s t) :
    Restoring sha256 r X P t := by
  refine ⟨h.during.of_framed hm.framed, fun hok => ?_⟩
  change P t.profile
  rw [hm.profile]
  exact h.driver (hm.driverOk hok)

lemma modest_triple {α : Type} {p : Task α} (hX : ∀ records, X records → Settled r₀ records)
    (hp : Every Modest p) : KeptTriple sha256 ok r₀ (Restoring sha256 r X P) p
      fun _ => Restoring sha256 r X P := by
  have hkeeps : Keeps (Kept r₀) (Restoring sha256 r X P) p :=
    hp.keeps (fun l _ h => kept_at hX l h) fun _ _ h hm => restoring_modest h hm
  exact hkeeps.triple At.stable

lemma ensureStaMode_kept (hX : ∀ records, X records → Settled r₀ records) :
    KeptTriple sha256 ok r₀ (During sha256 (· = .running r) X) ensureStaMode
      fun ready => Restoring sha256 r X fun _ => ready = true := by
  refine .post (ensureStaMode_triple fun l s h => kept_of_running h (hX _ h.records).told l)
    fun ready s h => ⟨h.during, fun hok => ?_⟩
  by_contra hready
  exact absurd (hok.symm.trans (h.driver (by simpa using hready)).1) (by decide)

lemma setConfig_kept (hX : ∀ records, X records → Settled r₀ records) (p : Profile) :
    KeptTriple sha256 ok r₀ (During sha256 (· = .running r) X) (wifiSetConfig p)
      fun _ => Restoring sha256 r X (· = p) := by
  refine .post (wifiSetConfig_triple (fun l s h => kept_of_running h (hX _ h.records).told l) p)
    fun set s h => ⟨h.during, fun hok => ?_⟩
  cases set with
  | false => exact absurd (hok.symm.trans h.driver.1) (by decide)
  | true => exact h.driver

/-- The station gets a profile if it is ready. -/
lemma setReady_triple (hX : ∀ records, X records → Settled r₀ records) (ready : Bool)
    (p : Profile) : KeptTriple sha256 ok r₀ (Restoring sha256 r X fun _ => ready = true)
      (onlyIf ready (wifiSetConfig p)) fun _ => Restoring sha256 r X (· = p) := by
  cases ready with
  | false => exact .pure fun s h => ⟨h.during, fun hok => absurd (h.driver hok) Bool.false_ne_true⟩
  | true => exact .pre (fun s h => h.during) (setConfig_kept hX p)

/-- A rollback in which every call of the driver succeeds restores the profile. -/
lemma rollbackRuntime_kept (hX : ∀ records, X records → Settled r₀ records) (previous : Record) :
    KeptTriple sha256 ok r₀ (During sha256 (· = .running r) X) (rollbackRuntime previous)
      fun _ => Restoring sha256 r X (· = previous.profile) := by
  refine .bind (kept_framed hX (.update fun s => rfl)) fun _ => ?_
  unfold Record.profile
  split_ifs with hconf hen
  · exact .bind (kept_framed hX (framed_of_modest disconnectSta_modest)) fun _ =>
      .bind (.bind (ensureStaMode_kept hX) fun ready => setReady_triple hX ready {}) fun _ =>
      modest_triple hX (.update fun s => ⟨rfl, rfl, id⟩)
  · refine .bind (M := fun _ => Restoring sha256 r X (· = configFromRecord previous)) ?_
      fun failure => ?_
    · refine .bind (ensureStaMode_kept hX) fun ready => ?_
      cases ready with
      | false => exact .pure fun s h => ⟨h.during, fun hok => absurd (h.driver hok) Bool.false_ne_true⟩
      | true =>
        refine .bind (.pre (fun s h => h.during) (setConfig_kept hX _)) fun set => ?_
        cases set with
        | false => exact .pure fun s h => h
        | true => exact modest_triple hX (connect_modest _ _ _ _)
    · split_ifs
      · exact .pure fun s h => h
      · exact modest_triple hX scheduleRetry_modest
  · exact .bind (ensureStaMode_kept hX) fun ready =>
      .bind (setReady_triple hX ready _) fun _ =>
      .bind (modest_triple hX disconnectSta_modest) fun _ =>
      modest_triple hX (.update fun s => ⟨rfl, rfl, id⟩)

lemma judge_triple (hX : ∀ records, X records → Settled r₀ records)
    (hv : ∀ records v, X records → X { records with verdict := v }) :
    KeptTriple sha256 ok r₀ (During sha256 (· = .running r) X) (update {} Service.judge)
      fun _ => During sha256 (· = .running r) X :=
  .update (During.stable (calm_running r) _) fun s h =>
    ⟨kept_of_running h (hX _ h.records).told _, h.follows.working ⟨s.persisted, s.stored,
      s.trace.log, s.judge.trace.verdict, rfl, .inl rfl⟩, hv _ s.judge.trace.verdict h.records⟩

lemma runConfigure_kept :
    KeptTriple sha256 ok r₀ (During sha256 (· = .running r) (Unchanged r₀)) (runConfigure r)
      fun _ => During sha256 outside (Settled r₀) := by
  refine .bind (look_triple (fun previous persisted => persisted = previous)
    (fun _ h => h.settled) (fun _ _ => rfl) fun _ _ => rfl) fun previous => ?_
  have hX : ∀ records, Unchanged r₀ records ∧ records.persisted = previous → Settled r₀ records :=
    fun _ h => h.1.settled
  -- the operation fails with the record as it was, and puts the profile back
  have hfail : ∀ error, KeptTriple sha256 ok r₀
      (During sha256 (· = .running r) fun records =>
        Unchanged r₀ records ∧ records.persisted = previous)
      (do rollbackRuntime previous; completeOperation false error)
      fun _ => During sha256 outside (Settled r₀) := by
    intro error
    refine .bind (rollbackRuntime_kept hX previous) fun _ => complete_triple false error
      (fun s h => ⟨h.during.follows, hX _ h.during.records⟩) (At.stable _)
      (fun s h _ _ => h.during.records.1.before) fun s h _ _ =>
      ⟨h.during.records.1.before, fun hok => ?_⟩
    have hprev : s.persisted = previous := h.during.records.2
    rw [hprev]
    exact h.driver hok
  refine .bind (kept_framed hX (framed_of_modest disconnectSta_modest)) fun _ =>
    .bind (kept_framed hX (connectRecord_framed _ _ _ _)) fun failure =>
    .bind (judge_triple hX fun _ _ h => ⟨⟨⟨h.1.settled.synced, h.1.settled.told⟩, h.1.before⟩, h.2⟩)
    fun _ => ?_
  split_ifs
  · exact hfail failure
  refine .bind (persistAndPublish_triple hX fun _ h => by rw [h.2]; rfl) fun published => ?_
  cases published with
  | false => exact hfail .persistFailed
  | true =>
    exact .bind (kept_framed (X := Settled r₀) (fun _ h => h) (.update fun s => rfl)) fun _ =>
      complete_triple true .none (fun _ h => h) (During.stable (calm_running r) _)
        (fun _ _ hs => (by cases hs)) fun _ _ _ hs => (by cases hs)

lemma perform_kept (r : NetworkRequest) :
    KeptTriple sha256 ok r₀ (During sha256 (· = .running r) (Unchanged r₀)) (perform r)
      fun _ => During sha256 outside (Settled r₀) := by
  unfold perform
  cases hr : r.action with
  | none => exact complete_unchanged (by simp [hr]) (fun _ h => h) _ _
  | configure => exact runConfigure_kept
  | enable => exact runEnable_kept (by simp [hr])
  | forget => exact runForget_kept (by simp [hr])

/-! ## Durability -/

/-- The service from a given boot on. -/
def networkFrom (sha256 : List UInt8 → List UInt8) (d : Defaults) (stored : Stored)
    (a : BootAnswers) : System (Task Empty × Service) (Move Other Outcome) :=
  among networkWorker (· = Service.boot d stored a) (Service.other sha256) fun _ _ _ => True

/-- What boot leaves in memory and in the storage. -/
def bootRecord (d : Defaults) (stored : Stored) (a : BootAnswers) : Record × Stored :=
  ((Service.boot d stored a).persisted, (Service.boot d stored a).stored)

lemma reaches_networkFrom {d : Defaults} {stored : Stored} {a : BootAnswers}
    {ms : List (Move Other Outcome)} {c : Task Empty × Service}
    (h : runFrom (fun _ _ _ => True) (.boot d stored a) ms = some c) :
    Reaches (networkFrom id d stored a) ms c :=
  reaches_of_foldlM rfl h

/-- The network is disabled at the request of the host, with one outcome for all calls. -/
def disabling (o : Outcome) : List (Move Other Outcome) :=
  ([.other .start, .other (.rpc disableText 1024 true), .other (.responseSent sampleId)] :
    List (Move Other Outcome)) ++ (List.replicate 15 (.task o) : List (Move Other Outcome))

/-- A record with a network that is disabled. -/
def disabledRecord (revision : UInt32) : Record where
  revision := revision
  configured := 1
  ssidLength := 1
  ssid := memcpy (cleared ssidMax) [0x61] 1

/-- Boot finds a record that makes sense. -/
lemma boot_prepared {record : Record} (h : record.Settings) :
    Service.boot {} (.blob (recordPrepare record)) {} =
      { persisted := recordPrepare record
        ssid := if record.configured = 0 then [] else record.name
        stored := .blob (recordPrepare record) } := by
  have hrestored : restoreRecordFromNvs {} (.blob (recordPrepare record)) {} =
      { persisted := recordPrepare record, stored := .blob (recordPrepare record) } := by
    simp [restoreRecordFromNvs, recordValid_prepare, h]
  unfold Service.boot
  rw [hrestored]
  rfl

end EspVision.NetworkService
