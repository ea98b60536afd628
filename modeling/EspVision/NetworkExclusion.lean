import EspVision.NetworkOperation

/-!
# The worker and Python at the driver (`network_service.c`)

`s_connect_in_progress` is the claim of an automatic connection on the driver. A Python change is
refused while it is set, but the event handlers clear it, also for an event of an association that
came before. As long as they do not while the worker is inside the driver, the worker and Python
never meet there.
-/
namespace EspVision.NetworkService

open TaskProgram TransitionSystem

variable {sha256 : List UInt8 → List UInt8} {s t : Service}

/-! ## The claim -/

/-- The handler of the event clears `s_connect_in_progress`. -/
def WifiEvent.clears : WifiEvent → Bool
  | .staStop | .staDisconnected .. | .gotIp _ => true
  | _ => false

/-- While the worker is inside the driver without an operation, no event is handled that clears
its claim. -/
def Undisturbed (l : Place) (e : Other) (s : Service) : Prop :=
  l.driving = true → s.hasOperation = false → e = .deliver →
    (s.posted.head?.all fun p => !p.event.clears) = true

instance (l : Place) (e : Other) (s : Service) : Decidable (Undisturbed l e s) :=
  inferInstanceAs (Decidable (_ → _ → _ → _))

/-- Inside the driver the worker has it. -/
def Exclusive (l : Place) (s : Service) : Prop := l.driving = true → Claimed s

lemma handleEvent_claim {p : Posted} (hp : p.event.clears = false) :
    (s.handleEvent p).connectInProgress = s.connectInProgress := by
  obtain ⟨event, association⟩ := p
  cases event with
  | staStop | staDisconnected | gotIp => cases hp
  | _ => rfl

/-- The rest leaves a claim alone. -/
lemma other_claimed {l : Place} {e : Other} (hl : l.driving = true) (h : Claimed s)
    (hok : Undisturbed l e s) (hstep : s.other sha256 e = some t) : Claimed t := by
  cases e with
  | elapse us =>
    obtain rfl := Option.some.inj hstep
    exact ⟨h.inactive, h.claim⟩
  | post p =>
    simp only [Service.other] at hstep
    split_ifs at hstep
    obtain rfl := Option.some.inj hstep
    exact ⟨h.inactive, h.claim⟩
  | deliver =>
    simp only [Service.other] at hstep
    cases hp : s.posted with
    | nil =>
      rw [hp] at hstep
      cases hstep
    | cons p rest =>
      rw [hp] at hstep
      obtain rfl := Option.some.inj hstep
      have hcore := handleEvent_core { s with posted := rest } p
      refine ⟨(congrArg Core.pythonMutationActive hcore).trans h.inactive, ?_⟩
      by_cases hop : s.hasOperation = true
      · exact .inl ((congrArg Core.hasOperation hcore).trans hop)
      · have hclears := hok hl (by simpa using hop) rfl
        rw [hp, List.head?_cons, Option.all_some, Bool.not_eq_true'] at hclears
        exact .inr ((handleEvent_claim hclears).trans (h.claim.resolve_left hop))
  | start =>
    obtain rfl := Option.some.inj hstep
    exact ⟨h.inactive, h.claim⟩
  | rpc text capacity hashed =>
    obtain rfl := Option.some.inj hstep
    unfold Service.rpcHandle
    cases requestOf sha256 text capacity hashed with
    | error response => exact h
    | ok r =>
      dsimp only
      rcases submit_cases s r with heq | ⟨heq, -⟩
      · rw [heq]
        exact h
      · rw [heq]
        exact ⟨h.inactive, .inl rfl⟩
  | responseSent id =>
    obtain rfl := Option.some.inj hstep
    unfold Service.rpcResponseSent
    split_ifs <;> exact ⟨h.inactive, h.claim⟩
  | python call =>
    change s.python call = some t at hstep
    rw [h.python] at hstep
    split_ifs at hstep
    obtain rfl := Option.some.inj hstep
    exact h

/-- The worker has claimed the driver between two operations. -/
structure Guarded (sha256 : List UInt8 → List UInt8) (s : Service) : Prop where
  during : During sha256 outside (fun _ => True) s
  claimed : Claimed s

lemma Guarded.stable {l : Place} (hl : l.driving = true) (s t : Service) (h : Guarded sha256 s)
    (hst : Rest sha256 Undisturbed l s t) : Guarded sha256 t := by
  obtain ⟨e, hok, hstep⟩ := hst
  exact ⟨h.during.stable calm_outside l s t ⟨e, hok, hstep⟩, other_claimed hl h.claimed hok hstep⟩

/-! ## Automatic connections -/

/-- The triples of the worker under a claim that is left alone. -/
abbrev ClaimTriple (sha256 : List UInt8 → List UInt8) {α : Type} (P : Service → Prop) (p : Task α)
    (Q : α → Service → Prop) : Prop :=
  Triple (Rest sha256 Undisturbed) Exclusive P p Q

/-- An action inside the driver that keeps the claim. -/
lemma inside_triple {α : Type} {l : Place} (hl : l.driving = true)
    {run : Outcome → Service → α × Service} (hcore : ∀ o s, (run o s).2.core = s.core)
    (hclaim : ∀ o s, s.connectInProgress = true → (run o s).2.connectInProgress = true) :
    ClaimTriple sha256 (Guarded sha256) (atomic l run) fun _ => Guarded sha256 := by
  refine .atomic (Guarded.stable hl) fun s h => ⟨fun _ => h.claimed, fun o => ?_⟩
  refine ⟨h.during.of_framed (hcore o s), ?_, ?_⟩
  · exact (congrArg Core.pythonMutationActive (hcore o s)).trans h.claimed.inactive
  · exact h.claimed.claim.imp (congrArg Core.hasOperation (hcore o s)).trans (hclaim o s)

/-- An action outside the driver. -/
lemma outside_triple {α : Type} {l : Place} (hl : l.driving = false)
    {run : Outcome → Service → α × Service} (hcore : ∀ o s, (run o s).2.core = s.core) :
    ClaimTriple sha256 (During sha256 outside fun _ => True) (atomic l run)
      fun _ => During sha256 outside fun _ => True := by
  refine .atomic (During.stable calm_outside l) fun s h => ⟨fun hd => ?_, fun o =>
    h.of_framed (hcore o s)⟩
  rw [hl] at hd
  cases hd

lemma driverCall_guarded {tolerated : List Err} {f : Service → Service} {trying : Bool}
    (hcore : ∀ s, (f s).core = s.core)
    (hclaim : ∀ s, s.connectInProgress = true → (f s).connectInProgress = true) :
    ClaimTriple sha256 (Guarded sha256) (driverCall tolerated f trying)
      fun _ => Guarded sha256 := by
  refine inside_triple rfl (fun o s => ?_) fun o s hs => ?_
  · split_ifs
    · exact hcore s
    · rfl
    · rfl
  · split_ifs
    · exact hclaim s hs
    · exact hs
    · exact hs

lemma ensureStaMode_guarded :
    ClaimTriple sha256 (Guarded sha256) ensureStaMode fun _ => Guarded sha256 := by
  have hmode : ClaimTriple sha256 (Guarded sha256) wifiGetMode fun _ => Guarded sha256 := by
    refine inside_triple rfl (fun o s => ?_) fun o s hs => ?_
    · split_ifs <;> rfl
    · split_ifs <;> exact hs
  have hcall : ∀ tolerated, ClaimTriple sha256 (Guarded sha256) (driverCall tolerated id false)
      fun _ => Guarded sha256 :=
    fun tolerated => driverCall_guarded (fun _ => rfl) fun _ hs => hs
  refine .bind hmode fun ⟨err, mode⟩ => ?_
  dsimp only
  split_ifs
  · exact .pure fun s h => h
  all_goals
    refine .bind (M := fun _ => Guarded sha256) ?_ fun set => ?_
  · exact .pure fun s h => h
  · cases set
    · exact .pure fun s h => h
    · exact hcall _
  · exact hcall _
  · cases set
    · exact .pure fun s h => h
    · exact hcall _

lemma wifiConnect_guarded (trying : Bool) :
    ClaimTriple sha256 (Guarded sha256) (wifiConnect trying) fun _ => Guarded sha256 :=
  driverCall_guarded (fun _ => rfl) fun _ hs => hs

/-- The claim of an automatic connection: what gives it up does not matter. -/
lemma Guarded.drop {α : Type} {p : Task α} {P : Service → Prop}
    (hp : ClaimTriple sha256 P p fun _ => Guarded sha256) :
    ClaimTriple sha256 P p fun _ => During sha256 outside fun _ => True :=
  hp.post fun _ _ h => h.during

lemma scheduleRetry_claim : ClaimTriple sha256 (During sha256 outside fun _ => True) scheduleRetry
    fun _ => During sha256 outside fun _ => True := by
  refine outside_triple rfl fun o s => ?_
  dsimp only
  split_ifs <;> rfl

lemma waitForIp_claim (timeoutMs : ℕ) (interrupt : Bool) :
    ClaimTriple sha256 (During sha256 outside fun _ => True) (waitForIp timeoutMs interrupt false)
      fun _ => During sha256 outside fun _ => True := by
  refine .bind (outside_triple rfl fun _ _ => rfl) fun deadline =>
    .repeatUntil (During.stable calm_outside _) (fun s h hd => by cases hd) ?_
  refine .post (Q := fun _ => During sha256 outside fun _ => True) ?_ fun b s h => by
    cases b <;> exact h
  refine .bind (outside_triple rfl fun o s => (early_modest s deadline).framed) fun early => ?_
  split_ifs
  · exact outside_triple rfl fun o s => (look_modest s interrupt).framed
  · exact .pure fun s h => h

lemma connectRecord_claim (r : Record) (timeoutMs : ℕ) (interrupt : Bool) :
    ClaimTriple sha256 (Guarded sha256) (connectRecord r timeoutMs interrupt false)
      fun _ => During sha256 outside fun _ => True := by
  refine .bind ensureStaMode_guarded fun ready => ?_
  split_ifs
  · exact .pure fun s h => h.during
  refine .bind (driverCall_guarded (fun _ => rfl) fun _ hs => hs) fun set => ?_
  split_ifs
  · exact .pure fun s h => h.during
  refine .bind (inside_triple (α := Unit) rfl (fun _ _ => rfl) fun _ _ _ => rfl) fun _ =>
    .bind (Guarded.drop (wifiConnect_guarded false)) fun connecting => ?_
  split_ifs
  · exact .bind (outside_triple (α := Unit) rfl fun _ _ => rfl) fun _ => .pure fun s h => h
  refine .bind (waitForIp_claim _ _) fun connected => ?_
  split_ifs
  · exact .pure fun s h => h
  · exact outside_triple rfl fun _ _ => rfl

/-- Both automatic connections claim the driver in the section that finds it free. -/
lemma claim_triple {α β : Type} {look : Service → α × Service} {g : α → Task β}
    (free : α → Prop) (hcore : ∀ s, (look s).2.core = s.core)
    (hclaim : ∀ s, ¬free (look s).1 →
      s.pythonMutationActive = false ∧ (look s).2.connectInProgress = true)
    {Q : β → Service → Prop}
    (hfree : ∀ a, free a →
      ClaimTriple sha256 (During sha256 outside fun _ => True) (g a) Q)
    (hgo : ∀ a, ¬free a → ClaimTriple sha256 (Guarded sha256) (g a) Q) :
    ClaimTriple sha256 (During sha256 outside fun _ => True)
      ((atomic {} fun _ s => look s : Task α) >>= g) Q := by
  refine .bind (M := fun a s => During sha256 outside (fun _ => True) s ∧ (¬free a → Claimed s))
    (.atomic (During.stable calm_outside _) fun s h => ⟨fun hd => (by cases hd), fun o =>
      ⟨h.of_framed (hcore s), fun ha => ?_⟩⟩) fun a => ?_
  · obtain ⟨hinactive, hclaimed⟩ := hclaim s ha
    exact ⟨(congrArg Core.pythonMutationActive (hcore s)).trans hinactive, .inr hclaimed⟩
  · by_cases ha : free a
    · exact .pre (fun s h => h.1) (hfree a ha)
    · exact .pre (fun s h => ⟨h.1, h.2 ha⟩) (hgo a ha)

lemma connectInitially_claim :
    ClaimTriple sha256 (During sha256 outside fun _ => True) connectInitially
      fun _ => During sha256 outside fun _ => True := by
  refine claim_triple (· = none) (fun s => ?_) (fun s hs => ?_) (fun a ha => ?_) fun a ha => ?_
  · split_ifs <;> rfl
  · split_ifs at hs ⊢ with hc
    · simp only [Bool.and_eq_true, Bool.not_eq_true'] at hc
      exact ⟨hc.1.1.2, rfl⟩
    · exact absurd rfl hs
  · subst ha
    exact .pure fun s h => h
  · cases a with
    | none => exact absurd rfl ha
    | some r =>
      refine .bind (connectRecord_claim r _ _) fun failure => ?_
      split_ifs
      · exact .pure fun s h => h
      · exact scheduleRetry_claim

lemma tryReconnect_claim :
    ClaimTriple sha256 (During sha256 outside fun _ => True) tryReconnect
      fun _ => During sha256 outside fun _ => True := by
  refine claim_triple (· = false) (fun s => ?_) (fun s hs => ?_) (fun a ha => ?_) fun a ha => ?_
  · split_ifs <;> rfl
  · split_ifs at hs ⊢ with hc
    · unfold Service.reconnectDue at hc
      simp only [Bool.and_eq_true, Bool.not_eq_true'] at hc
      exact ⟨hc.1.1.1.1.1.2, rfl⟩
    · exact absurd rfl hs
  · subst ha
    exact .pure fun s h => h
  · cases a with
    | false => exact absurd rfl ha
    | true =>
      refine .bind ensureStaMode_guarded fun ready => .bind (M := fun _ =>
        During sha256 outside fun _ => True) ?_ fun connecting => ?_
      · cases ready with
        | false => exact .pure fun s h => h.during
        | true =>
          exact .bind (inside_triple (α := Unit) rfl (fun _ _ => rfl) fun _ _ hs => hs)
            fun _ => Guarded.drop (wifiConnect_guarded false)
      split_ifs
      · exact scheduleRetry_claim
      refine .bind (outside_triple rfl fun _ _ => rfl) fun connected => ?_
      split_ifs
      · exact .pure fun s h => h
      · exact scheduleRetry_claim

/-! ## Mutual exclusion -/

/-- In every run in which no event clears a claim while the worker is inside the driver, the worker
and a Python change are never there together: while the worker is inside, none is active, and none
can begin. -/
theorem driver_exclusion {h : List (Move Other Outcome)} {c : Task Empty × Service}
    (hr : Reaches (network sha256 Undisturbed) h c) {l : Place} (hl : c.1.place = some l)
    (hd : l.driving = true) :
    c.2.pythonMutationActive = false ∧ c.2.python .mutationBegin = some c.2 := by
  have hspec : WorkerSpec sha256 Undisturbed Exclusive (fun _ => True) (fun _ _ => True) := {
    idle := fun f s h hd => by cases hd
    begun := fun _ _ _ _ => trivial
    perform := fun r => Careless.perform_triple {
      place := fun l s h _ => claimed_of_running h.follows
      working := fun _ _ _ _ => trivial
      completed := fun _ _ _ _ => trivial }
    initial := connectInitially_claim
    reconnect := tryReconnect_claim }
  obtain ⟨l', hl', hclaim⟩ := hspec.of_reaches (fun _ h => h) (fun _ _ => trivial) hr
  obtain rfl := Option.some.inj (hl.symm.trans hl')
  have hc := hclaim hd
  exact ⟨hc.inactive, by rw [hc.python, if_pos rfl]⟩

/-- A board with a default network begins its first connection. -/
theorem driver_exclusion_first :
    ∃ c : Task Empty × Service, Reaches (network id Undisturbed) [.task {}] c ∧
      c.2.connectInProgress = true ∧ c.2.pythonMutationActive = false ∧
      c.2.python .mutationBegin = some c.2 := by
  obtain ⟨c, hc⟩ := Option.isSome_iff_exists.mp
    (show (runFrom Undisturbed (.boot { ssid := [0x61] } .absent {}) [.task {}]).isSome = true
      by decide +kernel)
  have hview : ((runFrom Undisturbed (.boot { ssid := [0x61] } .absent {}) [.task {}]).map fun c =>
      (c.1.place, c.2.connectInProgress)) = some (some { driving := true }, true) := by
    decide +kernel
  rw [hc] at hview
  obtain ⟨hl, hclaim⟩ := Prod.mk.inj (Option.some.inj hview)
  have hr := reaches_of_runFrom hc
  exact ⟨c, hr, hclaim, driver_exclusion hr hl rfl⟩

/-- The first connection fails; the second one is given up after the short wait while the driver
still makes its association; the worker claims the driver for the third one; the driver reports
that the association has failed, and the handler clears the claim; a Python change begins. -/
def clearing : List (Move Other Outcome) :=
  ([.task {}, .task { err := .failed }, .task {}, .other (.elapse 2000000)] :
    List (Move Other Outcome)) ++ (List.replicate 11 (.task { mode := .sta }) : List (Move Other Outcome)) ++
    ([.other (.elapse 3000000)] : List (Move Other Outcome)) ++
    (List.replicate 5 (.task { mode := .sta }) : List (Move Other Outcome)) ++
    ([.other (.post { event := .staDisconnected (some .other) 0, association := 0 }),
      .other .deliver, .other (.python .mutationBegin)] : List (Move Other Outcome))

/-- The worker is about to start the driver and to connect while a Python change is active. -/
theorem cleared_claim_lets_python_in :
    ∃ (c : Task Empty × Service) (l : Place), Reaches (network id fun _ _ _ => True) clearing c ∧
      c.1.place = some l ∧ l.driving = true ∧ c.2.pythonMutationActive = true := by
  obtain ⟨c, hc⟩ := Option.isSome_iff_exists.mp
    (show (runFrom (fun _ _ _ => True) (.boot { ssid := [0x61] } .absent {}) clearing).isSome = true
      by decide +kernel)
  have hview : ((runFrom (fun _ _ _ => True) (.boot { ssid := [0x61] } .absent {}) clearing).map
      fun c => (c.1.place, c.2.pythonMutationActive)) = some (some { driving := true }, true) := by
    decide +kernel
  rw [hc] at hview
  obtain ⟨hl, hpy⟩ := Prod.mk.inj (Option.some.inj hview)
  exact ⟨c, { driving := true }, reaches_of_runFrom hc, hl, rfl, hpy⟩

end EspVision.NetworkService
