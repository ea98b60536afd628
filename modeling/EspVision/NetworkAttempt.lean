import EspVision.NetworkOperation

/-!
# The attempt of `network.configure` (`network_service.c`)

The handlers and the worker share a few flags that carry no attempt. As long as the events that are
handled during an attempt are those of its own association, its outcome is its own: it succeeds, and
the record is committed, only for an address that an association with the new credentials obtained,
and it fails only for what happened to that association, for a call of the driver, or in time.
-/
namespace EspVision.NetworkService

open TaskProgram TransitionSystem

variable {sha256 : List UInt8 → List UInt8} {X : Records → Prop} {r : NetworkRequest}
  {s t : Service} {p : Profile}

/-! ## Events of the attempt -/

/-- The event is about an association: it comes from one, or ends all. -/
def WifiEvent.decisive (e : WifiEvent) : Bool := e.associated || e == .staStop

/-- Between the start of an attempt and its verdict no event of another association is handled. -/
def Timely (l : Place) (e : Other) (s : Service) : Prop :=
  l.trying = true → e = .deliver →
    (s.posted.head?.all fun p => !p.event.decisive || some p.association == s.trace.own) = true

instance (l : Place) (e : Other) (s : Service) : Decidable (Timely l e s) :=
  inferInstanceAs (Decidable (_ → _ → _))

/-- What the handlers tell the worker. -/
structure Flags where
  connectInProgress : Bool
  staAssociated : Bool
  ipv4 : List UInt8
  addressOf : Option ℕ
  downBy : Option ℕ
  deriving DecidableEq

def Service.flags (s : Service) : Flags where
  connectInProgress := s.connectInProgress
  staAssociated := s.staAssociated
  ipv4 := s.ipv4
  addressOf := s.trace.addressOf
  downBy := s.trace.downBy

/-- The flags tell of the own association only, and that one was made with `p`. -/
structure Window (p : Profile) (d : Driver) (k : Flags) : Prop where
  made : ∀ n, d.own = some n → d.associations[n]? = some p
  address : k.ipv4 ≠ [] → ∃ n, d.own = some n ∧ k.addressOf = some n
  down : k.connectInProgress = false → k.staAssociated = false →
    ∃ n, d.own = some n ∧ k.downBy = some n

/-- An event of the own association, or one about none. -/
lemma Window.handleEvent {d : Driver} {e : Posted} (h : Window p d s.flags)
    (he : (!e.event.decisive || some e.association == d.own) = true) :
    Window p d (s.handleEvent e).flags := by
  obtain ⟨event, association⟩ := e
  cases event with
  | staStart | apStart | apStop => exact ⟨h.made, h.address, h.down⟩
  | staConnected => exact ⟨h.made, h.address, fun _ ha => (by cases ha)⟩
  | lostIp => exact ⟨h.made, fun ha => absurd rfl ha, h.down⟩
  | gotIp address =>
    have hown : some association = d.own := by
      simpa [WifiEvent.decisive, WifiEvent.associated] using he
    exact ⟨h.made, fun _ => ⟨association, hown.symm, rfl⟩, fun _ ha => (by cases ha)⟩
  | staStop =>
    have hown : some association = d.own := by
      simpa [WifiEvent.decisive, WifiEvent.associated] using he
    exact ⟨h.made, fun ha => absurd rfl ha, fun _ _ => ⟨association, hown.symm, rfl⟩⟩
  | staDisconnected reason jitter =>
    have hown : some association = d.own := by
      simpa [WifiEvent.decisive, WifiEvent.associated] using he
    unfold Service.handleEvent
    dsimp only
    split_ifs
    all_goals
      exact ⟨h.made, fun ha => absurd rfl ha, fun _ _ => ⟨association, hown.symm, rfl⟩⟩

/-- During an operation only the event task touches the flags. -/
lemma other_flags (h : Follows sha256 (· = .running r) s.core) {e : Other} (he : e ≠ .deliver)
    (hstep : s.other sha256 e = some t) : t.flags = s.flags := by
  cases e with
  | deliver => exact absurd rfl he
  | elapse us =>
    obtain rfl := Option.some.inj hstep
    rfl
  | post p =>
    simp only [Service.other] at hstep
    split_ifs at hstep
    obtain rfl := Option.some.inj hstep
    rfl
  | start =>
    obtain rfl := Option.some.inj hstep
    rfl
  | rpc text capacity hashed =>
    obtain rfl := Option.some.inj hstep
    unfold Service.rpcHandle
    cases requestOf sha256 text capacity hashed with
    | error response => rfl
    | ok q =>
      dsimp only
      rw [submit_of_hasOperation (hasOperation_of_running h)]
  | responseSent id =>
    obtain rfl := Option.some.inj hstep
    unfold Service.rpcResponseSent
    split_ifs <;> rfl
  | python call =>
    change s.python call = some t at hstep
    rw [(claimed_of_running h).python] at hstep
    split_ifs at hstep
    obtain rfl := Option.some.inj hstep
    rfl

/-- The attempt runs, the flags tell of it only, and the driver has `D`. -/
structure Attempt (sha256 : List UInt8 → List UInt8) (r : NetworkRequest) (X : Records → Prop)
    (p : Profile) (D : Driver → Prop) (s : Service) : Prop where
  at_ : At sha256 r X D s
  window : Window p s.driver s.flags

lemma Attempt.stable {D : Driver → Prop} {l : Place} (hl : l.trying = true) (s t : Service)
    (h : Attempt sha256 r X p D s) (hst : Rest sha256 Timely l s t) :
    Attempt sha256 r X p D t := by
  refine ⟨h.at_.stable l s t hst, ?_⟩
  obtain ⟨e, hok, hstep⟩ := hst
  rw [other_driver h.at_.during.follows hstep]
  by_cases he : e = .deliver
  · have hevent := hok hl he
    subst he
    simp only [Service.other] at hstep
    cases hp : s.posted with
    | nil =>
      rw [hp] at hstep
      cases hstep
    | cons q rest =>
      rw [hp] at hstep hevent
      obtain rfl := Option.some.inj hstep
      refine Window.handleEvent ⟨h.window.made, h.window.address, h.window.down⟩ ?_
      exact hevent
  · rw [other_flags h.at_.during.follows he hstep]
    exact h.window

/-! ## The verdict -/

/-- The attempt got an address, for an association made with `p`. -/
def Verdict.Own (v : Verdict) (p : Profile) : Prop :=
  ∃ n, v.own = some n ∧ v.cause = .address (some n) ∧ v.made = some p

/-- The attempt failed: a call of the driver did, or its association went down, or the time was
over. -/
def Verdict.Failed (v : Verdict) : Prop :=
  v.cause = .driver ∨ (∃ n, v.own = some n ∧ v.cause = .down (some n)) ∨ v.cause = .deadline

/-- The profile with the credentials of a request. -/
def NetworkRequest.profile (q : NetworkRequest) : Profile := configFromRecord (candidateRecord {} q)

/-- What is so of the entries of a `network.configure`. -/
def Attempted : Entry → Prop
  | .committed q record v =>
    q.action = .configure → v.Own q.profile ∧ configFromRecord record = q.profile
  | .completed report =>
    report.request.action = .configure →
      (report.succeeded = true → report.verdict.Own report.request.profile) ∧
      (report.succeeded = false → report.verdict.Failed ∨
        (report.error = .persistFailed ∧ report.verdict.Own report.request.profile))
  | _ => True

/-- Everything that has been done is so. -/
def Owned (records : Records) : Prop := ∀ e ∈ records.done, Attempted e

/-- The triples of the worker under timely events. -/
abbrev TimelyTriple (sha256 : List UInt8 → List UInt8) {α : Type} (P : Service → Prop) (p : Task α)
    (Q : α → Service → Prop) : Prop :=
  Triple (Rest sha256 Timely) (fun _ s => Owned s.core.records) P p Q

lemma owned_framed {α : Type} {q : Task α} {f : Phase → Prop} (hf : Calm f)
    (hX : ∀ records, X records → Owned records) (hq : Every Framed q) :
    TimelyTriple sha256 (During sha256 f X) q fun _ => During sha256 f X :=
  framed_triple hf (fun _ _ h => hX _ h.records) hq

/-- How `connect_record` leaves the driver. -/
def Driver.Judged (d : Driver) (p : Profile) (failure : Error) : Prop :=
  (failure = .none → ∃ n, d.own = some n ∧ d.cause = .address (some n) ∧
    d.associations[n]? = some p) ∧
  (failure ≠ .none → d.cause = .driver ∨ (∃ n, d.own = some n ∧ d.cause = .down (some n)) ∨
    d.cause = .deadline)

lemma classifyConnectFailure_ne_none (s : Service) : s.classifyConnectFailure ≠ .none := by
  unfold Service.classifyConnectFailure
  cases s.disconnectReason
  all_goals dsimp only
  all_goals first | decide | (split_ifs <;> decide)

/-- Waiting ends with the address of the own association, or with its loss, or in time. -/
lemma waitForIp_timely (hX : ∀ records, X records → Owned records) (timeoutMs : ℕ) :
    TimelyTriple sha256 (Attempt sha256 r X p fun _ => True) (waitForIp timeoutMs false true)
      fun connected => At sha256 r X fun d =>
        if connected then d.Judged p .none else d.Judged p .connectTimeout := by
  have hA : ∀ s, Attempt sha256 r X p (fun _ => True) s → Owned s.core.records :=
    fun s h => hX _ h.at_.during.records
  have hstable : ∀ s t, Attempt sha256 r X p (fun _ => True) s →
      Rest sha256 Timely { trying := true } s t → Attempt sha256 r X p (fun _ => True) t :=
    Attempt.stable rfl
  refine .bind (M := fun _ => Attempt sha256 r X p fun _ => True)
    (.atomic hstable fun s h => ⟨hA s h, fun _ => h⟩) fun deadline => .repeatUntil hstable hA ?_
  refine .bind (M := fun early => Attempt sha256 r X p fun d => early = false → d.cause = .deadline)
    (.atomic hstable fun s h => ⟨hA s h, fun _ => ?_⟩) fun early => ?_
  · unfold Service.early
    split_ifs
    · exact ⟨⟨h.at_.during, fun he => (by cases he)⟩, h.window⟩
    · exact ⟨⟨h.at_.during.of_framed rfl, fun _ => rfl⟩,
        ⟨h.window.made, h.window.address, h.window.down⟩⟩
  cases early with
  | false =>
    exact .pure fun s h => ⟨h.at_.during, fun hn => (by cases hn),
      fun _ => .inr (.inr (h.at_.driver rfl))⟩
  | true =>
    refine .pre (R := Attempt sha256 r X p fun _ => True)
      (fun s h => ⟨⟨h.at_.during, trivial⟩, h.window⟩)
      (.atomic hstable fun s h => ⟨hA s h, fun _ => ?_⟩)
    unfold Service.look
    by_cases hup : (s.staConnected && s.ipv4 != []) = true
    · rw [if_pos hup]
      simp only [Bool.and_eq_true, bne_iff_ne] at hup
      obtain ⟨n, hown, haddr⟩ := h.window.address hup.2
      refine ⟨h.at_.during.of_framed rfl, fun _ => ⟨n, hown, ?_, h.window.made n hown⟩,
        fun hn => absurd rfl hn⟩
      exact congrArg Cause.address haddr
    rw [if_neg hup]
    by_cases hdown : (!s.connectInProgress && !s.staAssociated) = true
    · rw [if_pos hdown]
      simp only [Bool.and_eq_true, Bool.not_eq_true'] at hdown
      obtain ⟨n, hown, hby⟩ := h.window.down hdown.1 hdown.2
      refine ⟨h.at_.during.of_framed rfl, fun hn => (by cases hn), fun _ =>
        .inr (.inl ⟨n, hown, ?_⟩)⟩
      exact congrArg Cause.down hby
    · rw [if_neg hdown]
      exact h

/-- An attempt of `network.configure` ends for a reason of its own. -/
lemma connectRecord_timely (hX : ∀ records, X records → Owned records) (record : Record)
    (timeoutMs : ℕ) :
    TimelyTriple sha256 (During sha256 (· = .running r) X)
      (connectRecord record timeoutMs false true) fun failure =>
        At sha256 r X fun d => d.Judged (configFromRecord record) failure := by
  have hA : ∀ (l : Place) s, During sha256 (· = .running r) X s → Owned s.core.records :=
    fun _ _ h => hX _ h.records
  have hfailed : ∀ {d : Driver}, d.Failed → d.Judged (configFromRecord record) .driverError :=
    fun hd => ⟨fun hn => (by cases hn), fun _ => .inl hd.2⟩
  refine .bind (ensureStaMode_triple hA) fun ready => ?_
  cases ready with
  | false => exact .pure fun s h => ⟨h.during, hfailed (h.driver rfl)⟩
  | true =>
    refine .bind (.pre (fun s h => h.during) (wifiSetConfig_triple hA _)) fun set => ?_
    cases set with
    | false => exact .pure fun s h => ⟨h.during, hfailed h.driver⟩
    | true =>
      refine .bind (M := fun _ => Attempt sha256 r X (configFromRecord record) fun d =>
        d.profile = configFromRecord record ∧ d.own = none)
        (.update (At.stable _) fun s h => ⟨hA {} _ h.during, ⟨?_, ?_⟩⟩) fun _ => ?_
      · exact ⟨h.during.of_framed rfl, h.driver, rfl⟩
      · exact ⟨fun n hn => (by cases hn), fun ha => absurd rfl ha, fun hc => (by cases hc)⟩
      refine .bind (M := fun connecting s => if connecting then
          Attempt sha256 r X (configFromRecord record) (fun _ => True) s
        else At sha256 r X Driver.Failed s)
        (.atomic (Attempt.stable rfl) fun s h => ⟨hA {} _ h.at_.during, fun o => ?_⟩)
        fun connecting => ?_
      · obtain ⟨hprofile, hown⟩ := h.at_.driver
        have hnone : ∀ n, s.driver.own ≠ some n := fun n hn => by
          rw [hown] at hn
          cases hn
        by_cases ho : o.err = .ok
        · -- the association is made with the profile that was set
          rw [if_pos ho]
          refine ⟨⟨h.at_.during.of_framed rfl, trivial⟩, fun n hn => ?_, fun ha => ?_,
            fun hc has => ?_⟩
          · obtain rfl := Option.some.inj hn
            change (s.associations ++ [s.profile])[s.associations.length]? = _
            rw [List.getElem?_concat_length]
            exact congrArg some hprofile
          · obtain ⟨n, hn, -⟩ := h.window.address ha
            exact absurd hn (hnone n)
          · obtain ⟨n, hn, -⟩ := h.window.down hc has
            exact absurd hn (hnone n)
        rw [if_neg ho]
        by_cases ht : o.err ∈ [Err.wifiConn]
        · rw [if_pos ht]
          exact ⟨⟨h.at_.during, trivial⟩, h.window⟩
        · rw [if_neg ht]
          exact ⟨h.at_.during.of_framed rfl, rfl, rfl⟩
      cases connecting with
      | false =>
        exact .bind (M := fun _ => At sha256 r X Driver.Failed)
          (.update (At.stable _) fun s h => ⟨hA {} _ h.during,
            ⟨h.during.of_framed rfl, h.driver⟩⟩)
          fun _ => .pure fun s h => ⟨h.during, hfailed h.driver⟩
      | true =>
        refine .bind (waitForIp_timely hX timeoutMs) fun connected => ?_
        cases connected with
        | true => exact .pure fun s h => h
        | false =>
          refine .atomic (At.stable _) fun s h => ⟨hA {} _ h.during, fun o => ⟨h.during,
            fun hn => absurd hn (classifyConnectFailure_ne_none s), fun _ => ?_⟩⟩
          exact h.driver.2 (by decide)

/-! ## The operation -/

lemma judge_timely (hX : ∀ records, X records → Owned records)
    (hv : ∀ records v, X records → X { records with verdict := v }) (failure : Error) :
    TimelyTriple sha256 (At sha256 r X fun d => d.Judged p failure) (update {} Service.judge)
      fun _ => During sha256 (· = .running r) fun records => X records ∧
        (failure = .none → records.verdict.Own p) ∧
        (failure ≠ .none → records.verdict.Failed) := by
  refine .update (At.stable _) fun s h => ⟨hX _ h.during.records, h.during.follows.working
    ⟨s.persisted, s.stored, s.trace.log, s.judge.trace.verdict, rfl, .inl rfl⟩,
    hv _ s.judge.trace.verdict h.during.records, fun hn => ?_, h.driver.2⟩
  obtain ⟨n, hown, hcause, hmade⟩ := h.driver.1 hn
  refine ⟨n, hown, hcause, ?_⟩
  change s.trace.own.bind _ = some p
  have hown' : s.trace.own = some n := hown
  rw [hown']
  exact hmade

/-- The operation completes, and what it reports is so. -/
lemma complete_timely {Z : Records → Prop} (hZ : ∀ records, Z records → Owned records)
    (succeeded : Bool) (error : Error)
    (hreport : ∀ records, Z records → r.action = .configure →
      (succeeded = true → records.verdict.Own r.profile) ∧
      (succeeded = false → records.verdict.Failed ∨
        (error = .persistFailed ∧ records.verdict.Own r.profile))) :
    TimelyTriple sha256 (During sha256 (· = .running r) Z) (completeOperation succeeded error)
      fun _ => During sha256 outside Owned := by
  refine completeOperation_triple succeeded error (fun _ h => h)
    (During.stable (calm_running r) _) (fun s h => hZ _ h.records) fun s h e he => ?_
  rcases List.mem_append.mp he with he | he
  · exact hZ _ h.records e he
  · obtain rfl := List.mem_singleton.mp he
    intro hact
    have hreq : s.activeRequest = r := activeRequest_of_running h.follows
    change s.activeRequest.action = .configure at hact
    rw [hreq] at hact
    obtain ⟨hs, hf⟩ := hreport _ h.records hact
    change (_ → s.trace.verdict.Own s.activeRequest.profile) ∧
      (_ → s.trace.verdict.Failed ∨ ((s.report succeeded error).error = _ ∧
        s.trace.verdict.Own s.activeRequest.profile))
    rw [hreq]
    refine ⟨hs, fun hfail => (hf hfail).imp_right fun ⟨herr, hown⟩ => ⟨?_, hown⟩⟩
    change succeeded = false at hfail
    subst hfail
    exact herr

/-- A step that commits nothing but `record`. -/
structure Committing (record : Record) (s t : Service) : Prop where
  working : Working s t
  verdict : t.core.records.verdict = s.core.records.verdict
  done : t.core.records.done = s.core.records.done ∨ t.core.records.done =
    s.core.records.done ++ [.committed s.activeRequest record s.core.records.verdict]

lemma persistAndPublish_committing (record : Record) :
    Every (Committing record) (persistAndPublish record) := by
  refine .bind (.atomic fun o s => ?_) fun done => ?_
  · have hwork := (persist_working record).1 o s
    unfold persistRecord at hwork ⊢
    dsimp only at hwork ⊢
    by_cases hc : (o.persist.opened && o.persist.set && o.persist.committed) = true
    · rw [if_pos hc] at hwork ⊢
      refine ⟨hwork, rfl, .inr ?_⟩
      simp [Core.records, Service.core, Service.record, Entry.ofWorker]
    · rw [if_neg hc] at hwork ⊢
      exact ⟨hwork, rfl, .inl rfl⟩
  · split_ifs
    · exact .bind (.update fun s => ⟨⟨record, s.stored, s.trace.log, s.trace.verdict, rfl,
        .inl rfl⟩, rfl, .inl rfl⟩) fun _ => .pure _
    · exact .pure _

/-- Committing the record of a request whose attempt has got its address. -/
lemma persistAndPublish_timely {record : Record} (hrecord : configFromRecord record = r.profile) :
    TimelyTriple sha256
      (During sha256 (· = .running r) fun records =>
        Owned records ∧ (r.action = .configure → records.verdict.Own r.profile))
      (persistAndPublish record) fun _ => During sha256 (· = .running r) fun records =>
        Owned records ∧ (r.action = .configure → records.verdict.Own r.profile) := by
  refine ((persistAndPublish_committing record).keeps (fun _ _ h => h.records.1)
    fun s t h hst => ⟨h.follows.working hst.working, fun e he => ?_, ?_⟩).triple
    (During.stable (calm_running r))
  · rcases hst.done with hd | hd
    · rw [hd] at he
      exact h.records.1 e he
    rw [hd] at he
    rcases List.mem_append.mp he with he | he
    · exact h.records.1 e he
    · obtain rfl := List.mem_singleton.mp he
      rw [activeRequest_of_running h.follows]
      exact fun hact => ⟨h.records.2 hact, hrecord⟩
  · rw [hst.verdict]
    exact h.records.2

lemma runConfigure_timely :
    TimelyTriple sha256 (During sha256 (· = .running r) Owned) (runConfigure r)
      fun _ => During sha256 outside Owned := by
  have hframed : ∀ {α : Type} {Z : Records → Prop} {q : Task α},
      (∀ records, Z records → Owned records) → Every Framed q →
      TimelyTriple sha256 (During sha256 (· = .running r) Z) q
        fun _ => During sha256 (· = .running r) Z :=
    fun hZ hq => owned_framed (calm_running r) hZ hq
  refine .bind (hframed (Z := Owned) (fun _ h => h) (.atomic fun _ _ => rfl)) fun previous =>
    .bind (hframed (fun _ h => h) (framed_of_modest disconnectSta_modest)) fun _ =>
    .bind (connectRecord_timely (fun _ h => h) _ _) fun failure =>
    .bind (judge_timely (fun _ h => h) (fun _ _ h => h) failure) fun _ => ?_
  by_cases hf : failure = .none
  · rw [if_neg (fun hn => hn hf)]
    refine .bind (.pre (fun s h => ⟨h.follows, h.records.1, fun _ => h.records.2.1 hf⟩)
      (persistAndPublish_timely rfl)) fun published => ?_
    split_ifs
    · exact .bind (hframed (fun _ h => h.1) (rollbackRuntime_framed previous)) fun _ =>
        complete_timely (fun _ h => h.1) false .persistFailed fun _ h hact =>
          ⟨fun hs => (by cases hs), fun _ => .inr ⟨rfl, h.2 hact⟩⟩
    · exact .bind (hframed (fun _ h => h.1) (.update fun _ => rfl)) fun _ =>
        complete_timely (fun _ h => h.1) true .none fun _ h hact =>
          ⟨fun _ => h.2 hact, fun hs => (by cases hs)⟩
  · rw [if_pos hf]
    exact .bind (hframed (fun _ h => h.1) (rollbackRuntime_framed previous)) fun _ =>
      complete_timely (fun _ h => h.1) false failure fun _ h _ =>
        ⟨fun hs => (by cases hs), fun _ => .inl (h.2.2 hf)⟩

lemma perform_timely (r : NetworkRequest) :
    TimelyTriple sha256 (During sha256 (· = .running r) Owned) (perform r)
      fun _ => During sha256 outside Owned := by
  by_cases hact : r.action = .configure
  · unfold perform
    rw [hact]
    exact runConfigure_timely
  -- what the other operations record is no attempt
  · refine Careless.perform_triple ⟨fun _ _ h => h.records, fun s t h hst => ?_,
      fun s succeeded error h e he => ?_⟩
    · obtain ⟨persisted, stored, log, verdict, heq, hlog⟩ := hst
      rw [heq]
      rcases hlog with rfl | ⟨record, v, rfl⟩
      · exact h.records
      · intro e he
        have hdone : e ∈ (s.core.log ++ [Entry.committed s.core.activeRequest record v]).filter
            Entry.ofWorker := he
        rw [List.filter_append] at hdone
        rcases List.mem_append.mp hdone with he | he
        · exact h.records e he
        · obtain rfl := List.mem_singleton.mp (List.mem_filter.mp he).1
          have hreq : s.core.activeRequest = r := activeRequest_of_running h.follows
          rw [hreq]
          exact fun ha => absurd ha hact
    · rcases List.mem_append.mp he with he | he
      · exact h.records e he
      · obtain rfl := List.mem_singleton.mp he
        have hreq : s.activeRequest = r := activeRequest_of_running h.follows
        intro ha
        change s.activeRequest.action = .configure at ha
        rw [hreq] at ha
        exact absurd ha hact

/-! ## Outcomes -/

/-- In every run in which no event of another association is handled during an attempt, a record
that `network.configure` commits, and a success that it reports, is for an address that its own
association with the credentials of the request obtained; and it reports a failure because a driver
call failed, because its own association went down or because its time was over, or because the
record of such a successful attempt could not be stored. -/
theorem configure_outcome_own {h : List (Move Other Outcome)} {c : Task Empty × Service}
    (hr : Reaches (network sha256 Timely) h c) :
    (∀ q record v, .committed q record v ∈ c.2.trace.log → q.action = .configure →
      v.Own q.profile ∧ configFromRecord record = q.profile) ∧
    ∀ report, .completed report ∈ c.2.trace.log → report.request.action = .configure →
      (report.succeeded = true → report.verdict.Own report.request.profile) ∧
      (report.succeeded = false → report.verdict.Failed ∨
        (report.error = .persistFailed ∧ report.verdict.Own report.request.profile)) := by
  have hspec : WorkerSpec sha256 Timely (fun _ s => Owned s.core.records) Owned
      (fun _ => Owned) := {
    idle := fun _ _ h => h.records
    begun := fun r records time h e he => by
      rcases List.mem_append.mp he with he | he
      · exact h e he
      · obtain rfl := List.mem_singleton.mp he
        trivial
    perform := perform_timely
    initial := owned_framed calm_outside (fun _ h => h) connectInitially_framed
    reconnect := owned_framed calm_outside (fun _ h => h) tryReconnect_framed }
  have hboot : ∀ s, (∃ d stored a, s = Service.boot d stored a) → Owned s.core.records := by
    rintro s ⟨d, stored, a, rfl⟩ e he
    cases he
  obtain ⟨l, -, howned⟩ := hspec.of_reaches (fun _ h => h) hboot hr
  refine ⟨fun q record v hm => ?_, fun report hm => ?_⟩
  · exact howned _ (List.mem_filter.mpr ⟨hm, rfl⟩)
  · exact howned _ (List.mem_filter.mpr ⟨hm, rfl⟩)

/-! ## Runs -/

/-- The request to configure the open network `b`, under the sample id. -/
def configureText : List UInt8 :=
  [0x7b, 0x22, 0x61, 0x63, 0x74, 0x69, 0x6f, 0x6e, 0x22, 0x3a, 0x22, 0x6e, 0x65, 0x74, 0x77, 0x6f,
    0x72, 0x6b, 0x2e, 0x63, 0x6f, 0x6e, 0x66, 0x69, 0x67, 0x75, 0x72, 0x65, 0x22, 0x2c, 0x22, 0x6f,
    0x70, 0x65, 0x72, 0x61, 0x74, 0x69, 0x6f, 0x6e, 0x49, 0x64, 0x22, 0x3a, 0x22, 0x30, 0x31, 0x32,
    0x33, 0x34, 0x35, 0x36, 0x37, 0x38, 0x39, 0x61, 0x62, 0x63, 0x64, 0x65, 0x66, 0x30, 0x31, 0x32,
    0x33, 0x34, 0x35, 0x36, 0x37, 0x38, 0x39, 0x61, 0x62, 0x63, 0x64, 0x65, 0x66, 0x22, 0x2c, 0x22,
    0x73, 0x73, 0x69, 0x64, 0x22, 0x3a, 0x22, 0x62, 0x22, 0x2c, 0x22, 0x70, 0x61, 0x73, 0x73, 0x77,
    0x6f, 0x72, 0x64, 0x22, 0x3a, 0x22, 0x22, 0x7d]

def steps (n : ℕ) : List (Move Other Outcome) := List.replicate n (.task { mode := .sta })

/-- The board is connected to its default network `a` by association 0 and is asked to configure
`b`; events of `left` are still to be handled when the attempt, association 1, has begun. -/
def configuring (left : List Posted) : List (Move Other Outcome) :=
  steps 6 ++ ([.other (.post { event := .gotIp [0x31], association := 0 }), .other .deliver,
    .other .start, .other (.rpc configureText 1024 true), .other (.responseSent sampleId)] :
    List (Move Other Outcome)) ++
    left.map (fun p => .other (.post p)) ++ steps 19

/-- The attempt gets its address. -/
def configured : List (Move Other Outcome) :=
  configuring [] ++ ([.other (.post { event := .gotIp [0x32], association := 1 }),
    .other .deliver] : List (Move Other Outcome)) ++ steps 9

/-- The old association gets a new address, and the event is handled during the attempt. -/
def renewed : List (Move Other Outcome) :=
  configuring [{ event := .gotIp [0x32], association := 0 }] ++
    ([.other .deliver] : List (Move Other Outcome)) ++ steps 9

/-- The old association goes down, and the event is handled during the attempt; the rollback does
not get through either. -/
def tornDown : List (Move Other Outcome) :=
  configuring [{ event := .staDisconnected (some .other) 0, association := 0 }] ++
    ([.other .deliver] : List (Move Other Outcome)) ++ steps 12 ++
    ([.other (.post { event := .staDisconnected (some .other) 0, association := 2 }),
      .other .deliver] : List (Move Other Outcome)) ++ steps 7

/-- What the last operation reports. -/
def lastReport (log : List Entry) : Option Report :=
  match log.getLast? with
  | some (.completed report) => some report
  | _ => none

lemma mem_of_lastReport {log : List Entry} {report : Report} (h : lastReport log = some report) :
    .completed report ∈ log := by
  unfold lastReport at h
  split at h
  · rename_i report' hlast
    obtain rfl := Option.some.inj h
    exact List.mem_of_getLast? hlast
  · cases h

/-- An attempt that gets an address of its own. -/
theorem configure_outcome_own_configured :
    ∃ (c : Task Empty × Service) (report : Report),
      Reaches (network id Timely) configured c ∧ .completed report ∈ c.2.trace.log ∧
      report.succeeded = true ∧ report.verdict.Own report.request.profile := by
  obtain ⟨c, hc⟩ := Option.isSome_iff_exists.mp
    (show (runFrom Timely (.boot { ssid := [0x61] } .absent {}) configured).isSome = true by
      decide +kernel)
  have hview : ((runFrom Timely (.boot { ssid := [0x61] } .absent {}) configured).bind fun c =>
      (lastReport c.2.trace.log).map fun report =>
        (report.request.action, report.succeeded)) = some (.configure, true) := by decide +kernel
  rw [hc, Option.bind_some] at hview
  obtain ⟨report, hlast, hview⟩ := Option.map_eq_some_iff.mp hview
  obtain ⟨hact, hs⟩ := Prod.mk.inj hview
  have hr := reaches_of_runFrom hc
  have hm := mem_of_lastReport hlast
  exact ⟨c, report, hr, hm, hs, ((configure_outcome_own hr).2 report hm hact).1 hs⟩

/-- An event of the association before the attempt decides it: with a new address of the old
network the operation succeeds, and with the end of the old association it fails, while nothing has
come from its own association. -/
theorem earlier_association_decides :
    (∃ (c : Task Empty × Service) (report : Report),
      Reaches (network id fun _ _ _ => True) renewed c ∧ .completed report ∈ c.2.trace.log ∧
      report.request.action = .configure ∧ report.succeeded = true ∧
      report.verdict.own = some 1 ∧ report.verdict.cause = .address (some 0)) ∧
    ∃ (c : Task Empty × Service) (report : Report),
      Reaches (network id fun _ _ _ => True) tornDown c ∧ .completed report ∈ c.2.trace.log ∧
      report.request.action = .configure ∧ report.succeeded = false ∧
      report.error = .connectTimeout ∧
      report.verdict.own = some 1 ∧ report.verdict.cause = .down (some 0) := by
  refine ⟨?_, ?_⟩
  · obtain ⟨c, hc⟩ := Option.isSome_iff_exists.mp
      (show (runFrom (fun _ _ _ => True) (.boot { ssid := [0x61] } .absent {}) renewed).isSome = true
        by decide +kernel)
    have hview : ((runFrom (fun _ _ _ => True) (.boot { ssid := [0x61] } .absent {}) renewed).bind
        fun c => (lastReport c.2.trace.log).map fun report => (report.request.action,
          report.succeeded, report.verdict.own, report.verdict.cause)) =
        some (.configure, true, some 1, .address (some 0)) := by decide +kernel
    rw [hc, Option.bind_some] at hview
    obtain ⟨report, hlast, hview⟩ := Option.map_eq_some_iff.mp hview
    simp only [Prod.mk.injEq] at hview
    exact ⟨c, report, reaches_of_runFrom hc, mem_of_lastReport hlast, hview⟩
  · obtain ⟨c, hc⟩ := Option.isSome_iff_exists.mp
      (show (runFrom (fun _ _ _ => True) (.boot { ssid := [0x61] } .absent {}) tornDown).isSome =
        true by decide +kernel)
    have hview : ((runFrom (fun _ _ _ => True) (.boot { ssid := [0x61] } .absent {}) tornDown).bind
        fun c => (lastReport c.2.trace.log).map fun report => (report.request.action,
          report.succeeded, report.error, report.verdict.own, report.verdict.cause)) =
        some (.configure, false, .connectTimeout, some 1, .down (some 0)) := by decide +kernel
    rw [hc, Option.bind_some] at hview
    obtain ⟨report, hlast, hview⟩ := Option.map_eq_some_iff.mp hview
    simp only [Prod.mk.injEq] at hview
    exact ⟨c, report, reaches_of_runFrom hc, mem_of_lastReport hlast, hview⟩

end EspVision.NetworkService
