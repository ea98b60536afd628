import EspVision.WriterTasks

/-!
# The storage writer across resets

A reset can fall between any two steps of any call. What keeps it safe is the order of the two
writes of a lease: the LEASED record is stored before the lease is granted, and the record that
replaces it is stored by the release of that lease, when the volume has drained and been refreshed.
-/
namespace EspVision.StorageWriter

open TransitionSystem

/-! ## Histories of leases -/

/-- The lease that an event grants. -/
def Label.granted : Label → Option LeaseIds
  | .finished _ (.acquire ids) true => some ids
  | _ => none

/-- What follows each grant has the property. -/
def EachGrant (P : LeaseIds → List Label → Prop) : List Label → Prop
  | [] => True
  | l :: h => (∀ ids ∈ l.granted, P ids h) ∧ EachGrant P h

def NoGrant (h : List Label) : Prop := ∀ l ∈ h, l.granted = none

/-- The steps by which one call releases a lease, up to the durable record. -/
def releaseTrail (c : ℕ) (ids : LeaseIds) (ok : Bool) : List Label :=
  [.begin c (.release ids) true, .drained c, .refreshed c, .wrote c (.release ids) ok]

/-- A release with these identifiers has stored the HANDOFF record. -/
def HandedOff (ids : LeaseIds) (h : List Label) : Prop :=
  ∃ c ok, (releaseTrail c ids ok).Sublist h

/-- A load has stored the MANAGED_HOST record after that. -/
def LoadedAgain (ids : LeaseIds) (h : List Label) : Prop :=
  ∃ c ok c' managed ok', (releaseTrail c ids ok ++ [Label.wrote c' (.load managed) ok']).Sublist h

lemma EachGrant.imp {P Q : LeaseIds → List Label → Prop} (hPQ : ∀ ids h, P ids h → Q ids h)
    {h : List Label} (hp : EachGrant P h) : EachGrant Q h := by
  induction h with
  | nil => trivial
  | cons l h ih => exact ⟨fun ids hids => hPQ ids h (hp.1 ids hids), ih hp.2⟩

/-- An event that grants nothing, and a property that it turns `P` into. -/
lemma EachGrant.snoc {P Q : LeaseIds → List Label → Prop} {l : Label} (hl : l.granted = none)
    (hPQ : ∀ ids h, P ids h → Q ids (h ++ [l])) {h : List Label} (hp : EachGrant P h) :
    EachGrant Q (h ++ [l]) := by
  induction h with
  | nil => exact ⟨by simp [hl], trivial⟩
  | cons l' h ih => exact ⟨fun ids hids => hPQ ids h (hp.1 ids hids), ih hp.2⟩

lemma NoGrant.eachGrant {P : LeaseIds → List Label → Prop} {h : List Label} (hn : NoGrant h) :
    EachGrant P h := by
  induction h with
  | nil => trivial
  | cons l h ih =>
    refine ⟨?_, ih fun l' hl' => hn l' (List.mem_cons_of_mem l hl')⟩
    simp [hn l List.mem_cons_self]

lemma NoGrant.snoc {h : List Label} {l : Label} (hn : NoGrant h) (hl : l.granted = none) :
    NoGrant (h ++ [l]) := by
  intro l' hl'
  rcases List.mem_append.mp hl' with h' | h'
  · exact hn l' h'
  · rw [List.mem_singleton.mp h', hl]

lemma EachGrant.append {P : LeaseIds → List Label → Prop}
    (hmono : ∀ ids h h', P ids h → P ids (h ++ h')) {h h' : List Label} (hp : EachGrant P h)
    (hp' : EachGrant P h') : EachGrant P (h ++ h') := by
  induction h with
  | nil => exact hp'
  | cons l h ih => exact ⟨fun ids hids => hmono ids h h' (hp.1 ids hids), ih hp.2⟩

lemma HandedOff.append {ids : LeaseIds} {h : List Label} (hp : HandedOff ids h)
    (h' : List Label) : HandedOff ids (h ++ h') := by
  obtain ⟨c, ok, hsub⟩ := hp
  exact ⟨c, ok, hsub.trans (List.sublist_append_left h h')⟩

lemma LoadedAgain.append {ids : LeaseIds} {h : List Label} (hp : LoadedAgain ids h)
    (h' : List Label) : LoadedAgain ids (h ++ h') := by
  obtain ⟨c, ok, c', m, ok', hsub⟩ := hp
  exact ⟨c, ok, c', m, ok', hsub.trans (List.sublist_append_left h h')⟩

lemma LoadedAgain.handedOff {ids : LeaseIds} {h : List Label} (hp : LoadedAgain ids h) :
    HandedOff ids h := by
  obtain ⟨c, ok, c', m, ok', hsub⟩ := hp
  exact ⟨c, ok, (List.sublist_append_left _ _).trans hsub⟩

/-- The last lease has these identifiers, all earlier ones have been handed off, and the steps `t`
have been taken since. -/
def Since (h : List Label) (ids : LeaseIds) (t : List Label) : Prop :=
  ∃ h₁ c h₂, h = h₁ ++ .finished c (.acquire ids) true :: h₂ ∧ EachGrant HandedOff h₁ ∧
    NoGrant h₂ ∧ t.Sublist h₂

lemma Since.snoc {h : List Label} {ids : LeaseIds} {t : List Label} {l : Label}
    (hs : Since h ids t) (hl : l.granted = none) : Since (h ++ [l]) ids t := by
  obtain ⟨h₁, c, h₂, rfl, hr, hn, ht⟩ := hs
  exact ⟨h₁, c, h₂ ++ [l], by simp, hr, hn.snoc hl, ht.trans (List.sublist_append_left _ _)⟩

lemma Since.extend {h : List Label} {ids : LeaseIds} {t : List Label} {l : Label}
    (hs : Since h ids t) (hl : l.granted = none) : Since (h ++ [l]) ids (t ++ [l]) := by
  obtain ⟨h₁, c, h₂, rfl, hr, hn, ht⟩ := hs
  exact ⟨h₁, c, h₂ ++ [l], by simp, hr, hn.snoc hl, ht.append (List.Sublist.refl _)⟩

lemma Since.released {h : List Label} {ids : LeaseIds} {c : ℕ} {ok : Bool}
    (hs : Since h ids (releaseTrail c ids ok)) : EachGrant HandedOff h := by
  obtain ⟨h₁, c', h₂, rfl, hr, hn, ht⟩ := hs
  refine hr.append (fun ids h h' hp => hp.append h') ⟨?_, hn.eachGrant⟩
  intro ids' hids
  obtain rfl : ids = ids' := Option.some.inj hids
  exact ⟨c, ok, ht⟩

/-! ## The invariant -/

/-- A call that owns the transition. -/
def Task.active (t : Task) : Prop := t.stage ≠ .failed ∧ t.job ≠ .quarantine

/-- What a call that owns the transition has behind it. -/
def Progress (h : List Label) (w : Writer) (c : ℕ) : Task → Prop
  | ⟨.acquire ids, stage⟩ =>
    ids.valid = true ∧ EachGrant HandedOff h ∧
      (stage = .written ∨ stage = .stored → Persist.open? w.stored.state = false) ∧
      (stage = .stored → w.gate.quarantined = false → w.record = (Job.acquire ids).record)
  | ⟨.release ids, .begun⟩ => Since h ids ((releaseTrail c ids true).take 1)
  | ⟨.release ids, .quiet⟩ => Since h ids ((releaseTrail c ids true).take 2)
  | ⟨.release ids, .refreshed⟩ => Since h ids ((releaseTrail c ids true).take 3)
  | ⟨.release ids, .admitted⟩ => Since h ids ((releaseTrail c ids true).take 3)
  | ⟨.release _, .written⟩ => EachGrant HandedOff h
  | ⟨.release _, .stored⟩ => EachGrant HandedOff h
  | ⟨.release _, _⟩ => True
  | ⟨.eject _, _⟩ => EachGrant HandedOff h
  | ⟨.load _, _⟩ => EachGrant HandedOff h
  | ⟨.quarantine, _⟩ => True

/-- What the durable record says about the leases before it. -/
structure Durable (h : List Label) (state : Option Persist) : Prop where
  host : state = some .host → NoGrant h
  managedHost : state = some .managedHost → EachGrant LoadedAgain h
  handoff : state = some .handoff → EachGrant HandedOff h

structure CrashSafe (h : List Label) (w : Writer) : Prop where
  one : ∀ c c' t t', w.tasks c = some t → w.tasks c' = some t' → t.active → t'.active → c = c'
  pending : ∀ c t, w.tasks c = some t → t.active →
    w.gate.transitionPending = true ∨ w.gate.quarantined = true
  progress : ∀ c t, w.tasks c = some t → t.active → Progress h w c t
  durable : Durable h w.stored.state
  idle : w.gate.quarantined = false → w.gate.leaseHeld = false → EachGrant HandedOff h
  leased : w.gate.quarantined = false → w.gate.leaseHeld = true →
    w.gate.transitionPending = false →
    ∃ ids : LeaseIds, ids.valid = true ∧ w.record = (Job.acquire ids).record ∧ Since h ids []

lemma Durable.snoc {h : List Label} {state : Option Persist} {l : Label} (hd : Durable h state)
    (hl : l.granted = none) : Durable (h ++ [l]) state where
  host hs := (hd.host hs).snoc hl
  managedHost hs := (hd.managedHost hs).snoc hl fun _ _ hp => hp.append [l]
  handoff hs := (hd.handoff hs).snoc hl fun _ _ hp => hp.append [l]

lemma Durable.of_closed {h : List Label} {state : Option Persist}
    (hc : Persist.open? state = false) : Durable h state := by
  constructor <;> rintro rfl <;> cases hc

lemma Durable.released {h : List Label} {state : Option Persist} (hd : Durable h state)
    (hopen : Persist.open? state = true) : EachGrant HandedOff h := by
  cases state with
  | none => cases hopen
  | some s =>
    cases s with
    | host => exact (hd.host rfl).eachGrant
    | managedHost => exact (hd.managedHost rfl).imp fun _ _ hp => hp.handedOff
    | handoff => exact hd.handoff rfl
    | _ => cases hopen

/-! ## Steps -/

variable {h : List Label} {w w' : Writer}

/-- No other call owns the transition. -/
def Alone (w : Writer) (c : ℕ) : Prop := ∀ c' t, c' ≠ c → w.tasks c' = some t → ¬ t.active

lemma CrashSafe.alone (hi : CrashSafe h w) {c : ℕ} {t : Task} (ht : w.tasks c = some t)
    (ha : t.active) : Alone w c :=
  fun c' t' hne ht' ha' => hne (hi.one c' c t' t ht' ht ha' ha)

/-- The steps of one call, or of none: what the others own stays theirs. -/
lemma CrashSafe.advance (hi : CrashSafe h w) {l : Label} (hl : l.granted = none) {c : ℕ}
    {t' : Option Task} (htasks : w'.tasks = Function.update w.tasks c t')
    (hnew : ∀ t ∈ t', t.active → Alone w c ∧
      (w'.gate.transitionPending = true ∨ w'.gate.quarantined = true) ∧ Progress (h ++ [l]) w' c t)
    (hothers : Alone w c ∨
      (Persist.open? w.stored.state = false → Persist.open? w'.stored.state = false) ∧
        (w'.gate.quarantined = false → w'.record = w.record) ∧
        (w.gate.transitionPending = true →
          w'.gate.transitionPending = true ∨ w'.gate.quarantined = true))
    (hq : w.gate.quarantined = true → w'.gate.quarantined = true)
    (hdurable : Durable (h ++ [l]) w'.stored.state)
    (hidle : w'.gate.quarantined = false → w'.gate.leaseHeld = false →
      EachGrant HandedOff (h ++ [l]))
    (hleased : w'.gate.quarantined = false → w'.gate.leaseHeld = true →
      w'.gate.transitionPending = false →
      ∃ ids : LeaseIds, ids.valid = true ∧ w'.record = (Job.acquire ids).record ∧
        Since (h ++ [l]) ids []) :
    CrashSafe (h ++ [l]) w' := by
  have hold : ∀ {c' : ℕ} {t : Task}, c' ≠ c → w'.tasks c' = some t → w.tasks c' = some t := by
    intro c' t hne ht
    rwa [htasks, Function.update_of_ne hne] at ht
  have hat : ∀ {t : Task}, w'.tasks c = some t → t' = some t := by
    intro t ht
    rwa [htasks, Function.update_self] at ht
  have hreleased : ∀ {g : List Label}, EachGrant HandedOff g → EachGrant HandedOff (g ++ [l]) :=
    fun hg => hg.snoc hl fun _ _ hp => hp.append [l]
  constructor
  · intro c₁ c₂ t₁ t₂ h₁ h₂ ha₁ ha₂
    by_cases e₁ : c₁ = c
    · by_cases e₂ : c₂ = c
      · rw [e₁, e₂]
      · subst e₁
        exact absurd ha₂ ((hnew t₁ (hat h₁) ha₁).1 c₂ t₂ e₂ (hold e₂ h₂))
    · by_cases e₂ : c₂ = c
      · subst e₂
        exact absurd ha₁ ((hnew t₂ (hat h₂) ha₂).1 c₁ t₁ e₁ (hold e₁ h₁))
      · exact hi.one c₁ c₂ t₁ t₂ (hold e₁ h₁) (hold e₂ h₂) ha₁ ha₂
  · intro c₁ t ht ha
    by_cases e : c₁ = c
    · subst e
      exact (hnew t (hat ht) ha).2.1
    · rcases hothers with halone | ⟨-, -, hpend⟩
      · exact absurd ha (halone c₁ t e (hold e ht))
      · rcases hi.pending c₁ t (hold e ht) ha with hp | hp
        · exact hpend hp
        · exact .inr (hq hp)
  · intro c₁ t ht ha
    by_cases e : c₁ = c
    · subst e
      exact (hnew t (hat ht) ha).2.2
    · rcases hothers with halone | ⟨hopen, hrec, -⟩
      · exact absurd ha (halone c₁ t e (hold e ht))
      · have hp := hi.progress c₁ t (hold e ht) ha
        obtain ⟨job, stage⟩ := t
        cases job with
        | acquire ids =>
          obtain ⟨hv, hr, hclosed, hmem⟩ := hp
          refine ⟨hv, hreleased hr, fun hs => hopen (hclosed hs), fun hs hnq => ?_⟩
          have hnq' : w.gate.quarantined = false := by
            by_contra hc
            rw [Bool.not_eq_false] at hc
            simp [hq hc] at hnq
          rw [hrec hnq, hmem hs hnq']
        | release ids =>
          cases stage with
          | begun | quiet | refreshed | admitted => exact Since.snoc hp hl
          | written | stored => exact hreleased hp
          | unwritten | failed => trivial
        | eject m | load m => exact hreleased hp
        | quarantine => trivial
  · exact hdurable
  · exact hidle
  · exact hleased

/-- A step that changes neither the storage nor the record, and of the gate at most the transition
that it sets and the quarantine that it begins. -/
lemma CrashSafe.calm (hi : CrashSafe h w) {l : Label} (hl : l.granted = none) {c : ℕ}
    {t' : Option Task} (htasks : w'.tasks = Function.update w.tasks c t')
    (hnew : ∀ t ∈ t', t.active → Alone w c ∧
      (w'.gate.transitionPending = true ∨ w'.gate.quarantined = true) ∧ Progress (h ++ [l]) w' c t)
    (hstored : w'.stored = w.stored) (hrecord : w'.record = w.record)
    (hq : w.gate.quarantined = true → w'.gate.quarantined = true)
    (hpend : w.gate.transitionPending = true →
      w'.gate.transitionPending = true ∨ w'.gate.quarantined = true)
    (hlease : w'.gate.quarantined = false → w'.gate.leaseHeld = w.gate.leaseHeld) :
    CrashSafe (h ++ [l]) w' := by
  have hnq : w'.gate.quarantined = false → w.gate.quarantined = false := by
    intro hq'
    by_contra hc
    rw [Bool.not_eq_false] at hc
    simp [hq hc] at hq'
  refine hi.advance hl htasks hnew (.inr ⟨?_, fun _ => hrecord, hpend⟩) hq ?_ ?_ ?_
  · rw [hstored]
    exact id
  · rw [hstored]
    exact hi.durable.snoc hl
  · intro hq' hfree
    rw [hlease hq'] at hfree
    exact (hi.idle (hnq hq') hfree).snoc hl fun _ _ hp => hp.append [l]
  · intro hq' hheld hidle
    rw [hlease hq'] at hheld
    have hidle' : w.gate.transitionPending = false := by
      by_contra hc
      rw [Bool.not_eq_false] at hc
      rcases hpend hc with hp | hp
      · simp [hp] at hidle
      · simp [hp] at hq'
    obtain ⟨ids, hv, hr, hs⟩ := hi.leased (hnq hq') hheld hidle'
    exact ⟨ids, hv, by rw [hrecord, hr], hs.snoc hl⟩

/-- One call goes on to its next stage. -/
lemma CrashSafe.restage (hi : CrashSafe h w) {l : Label} (hl : l.granted = none) {c : ℕ}
    {job : Job} {stage stage' : Stage} (ht : w.tasks c = some ⟨job, stage⟩)
    (hstage : stage ≠ .failed)
    (hprog : ∀ w'' : Writer, w''.stored = w.stored → w''.gate = w.gate →
      Progress h w c ⟨job, stage⟩ → Progress (h ++ [l]) w'' c ⟨job, stage'⟩)
    (hgate : w'.gate = w.gate) (hrecord : w'.record = w.record) (hstored : w'.stored = w.stored)
    (htasks : w'.tasks = Function.update w.tasks c (some ⟨job, stage'⟩)) :
    CrashSafe (h ++ [l]) w' := by
  refine hi.calm hl htasks ?_ hstored hrecord (by rw [hgate]; exact id) ?_ ?_
  · intro t hmem ha
    obtain rfl := Option.some.inj hmem
    have ha' : Task.active ⟨job, stage⟩ := ⟨hstage, ha.2⟩
    refine ⟨hi.alone ht ha', ?_, hprog w' hstored hgate (hi.progress c _ ht ha')⟩
    rw [hgate]
    exact hi.pending c _ ht ha'
  · rw [hgate]
    exact .inl
  · intro _
    rw [hgate]

/-- A call ends, or fails, or turns to storing a quarantine. -/
lemma CrashSafe.retire (hi : CrashSafe h w) {l : Label} (hl : l.granted = none) {c : ℕ}
    {t' : Option Task} (hnew : ∀ t ∈ t', ¬ t.active)
    (htasks : w'.tasks = Function.update w.tasks c t')
    (hstored : w'.stored = w.stored) (hrecord : w'.record = w.record)
    (hq : w.gate.quarantined = true → w'.gate.quarantined = true)
    (hpend : w.gate.transitionPending = true →
      w'.gate.transitionPending = true ∨ w'.gate.quarantined = true)
    (hlease : w'.gate.quarantined = false → w'.gate.leaseHeld = w.gate.leaseHeld) :
    CrashSafe (h ++ [l]) w' :=
  hi.calm hl htasks (fun t hmem ha => absurd ha (hnew t hmem)) hstored hrecord hq hpend hlease

lemma not_active_failed {job : Job} : ∀ t ∈ some (⟨job, .failed⟩ : Task), ¬ t.active := by
  rintro t ht ⟨h1, -⟩
  obtain rfl := Option.some.inj ht
  exact h1 rfl

lemma not_active_quarantine {stage : Stage} :
    ∀ t ∈ some (⟨.quarantine, stage⟩ : Task), ¬ t.active := by
  rintro t ht ⟨-, h2⟩
  obtain rfl := Option.some.inj ht
  exact h2 rfl

lemma not_active_none : ∀ t ∈ (none : Option Task), ¬ t.active := by simp

lemma drained_step (hi : CrashSafe h w) {c : ℕ} (hs : w.step (.drained c) = some w') :
    CrashSafe (h ++ [.drained c]) w' := by
  simp only [Writer.step] at hs
  split at hs
  · rename_i job ht
    split_ifs at hs
    obtain rfl := Option.some.inj hs
    refine hi.restage rfl ht (by decide) ?_ rfl rfl rfl rfl
    intro w'' _ _ hp
    cases job with
    | acquire ids =>
      exact ⟨hp.1, hp.2.1.snoc rfl fun _ _ hp => hp.append _, by simp, by simp⟩
    | release ids => exact Since.extend hp rfl
    | eject m | load m => exact EachGrant.snoc rfl (fun _ _ hp => hp.append _) hp
    | quarantine => trivial
  · cases hs

lemma refreshed_step (hi : CrashSafe h w) {c : ℕ} (hs : w.step (.refreshed c) = some w') :
    CrashSafe (h ++ [.refreshed c]) w' := by
  simp only [Writer.step] at hs
  split at hs
  · rename_i job ht
    obtain rfl := Option.some.inj hs
    refine hi.restage rfl ht (by decide) ?_ rfl rfl rfl rfl
    intro w'' _ _ hp
    cases job with
    | acquire ids =>
      exact ⟨hp.1, hp.2.1.snoc rfl fun _ _ hp => hp.append _, by simp [Job.stores],
        by simp [Job.stores]⟩
    | release ids => exact Since.extend hp rfl
    | eject m | load m => exact EachGrant.snoc rfl (fun _ _ hp => hp.append _) hp
    | quarantine => trivial
  · cases hs

lemma gaveUp_step (hi : CrashSafe h w) {c : ℕ} (hs : w.step (.gaveUp c) = some w') :
    CrashSafe (h ++ [.gaveUp c]) w' := by
  simp only [Writer.step] at hs
  split at hs
  · obtain rfl := Option.some.inj hs
    exact hi.retire rfl not_active_failed rfl rfl rfl id .inl fun _ => rfl
  · obtain rfl := Option.some.inj hs
    exact hi.retire rfl not_active_failed rfl rfl rfl id .inl fun _ => rfl
  · cases hs

lemma admitted_step (hi : CrashSafe h w) {c : ℕ} {ok : Bool}
    (hs : w.step (.admitted c ok) = some w') : CrashSafe (h ++ [.admitted c ok]) w' := by
  simp only [Writer.step] at hs
  split at hs
  · rename_i job ht
    split_ifs at hs
    obtain rfl := Option.some.inj hs
    unfold Writer.accepted
    split_ifs with hallowed hjob
    · refine hi.restage rfl ht (by decide) ?_ rfl rfl rfl rfl
      intro w'' _ _ hp
      cases job with
      | acquire ids =>
        exact ⟨hp.1, hp.2.1.snoc rfl fun _ _ hp => hp.append _, by simp, by simp⟩
      | release ids => exact Since.snoc hp rfl
      | eject m | load m => exact EachGrant.snoc rfl (fun _ _ hp => hp.append _) hp
      | quarantine => trivial
    · exact hi.retire rfl not_active_none rfl rfl rfl id .inl fun _ => rfl
    · exact hi.retire rfl not_active_failed rfl rfl rfl id .inl fun _ => rfl
  · cases hs

lemma notWritten_step (hi : CrashSafe h w) {c : ℕ} (hs : w.step (.notWritten c) = some w') :
    CrashSafe (h ++ [.notWritten c]) w' := by
  simp only [Writer.step] at hs
  split at hs
  · rename_i job ht
    obtain rfl := Option.some.inj hs
    refine hi.restage rfl ht (by decide) ?_ rfl rfl rfl rfl
    intro w'' _ _ hp
    cases job with
    | acquire ids =>
      exact ⟨hp.1, hp.2.1.snoc rfl fun _ _ hp => hp.append _, by simp, by simp⟩
    | release ids => trivial
    | eject m | load m => exact EachGrant.snoc rfl (fun _ _ hp => hp.append _) hp
    | quarantine => trivial
  · cases hs

/-- The record that a call writes says what its progress allows. -/
lemma durable_wrote (hi : CrashSafe h w) {c : ℕ} {job : Job} (ok : Bool)
    (ht : w.tasks c = some ⟨job, .admitted⟩) :
    Durable (h ++ [.wrote c job ok]) (Stored.blob job.record).state := by
  have hstate : job.persist ≠ .leased → (Stored.blob job.record).state = some job.persist :=
    fun hne => state_make job.ids hne
  cases job with
  | acquire ids => exact .of_closed (state_make_leased ids)
  | release ids =>
    rw [hstate (by simp [Job.persist])]
    have hp : Since h ids ((releaseTrail c ids true).take 3) :=
      hi.progress c _ ht ⟨by simp, by simp⟩
    have hrel : EachGrant HandedOff (h ++ [.wrote c (.release ids) ok]) :=
      Since.released (hp.extend rfl)
    exact ⟨nofun, nofun, fun _ => hrel⟩
  | eject m =>
    rw [hstate (by simp [Job.persist])]
    have hp : EachGrant HandedOff h := hi.progress c _ ht ⟨by simp, by simp⟩
    exact ⟨nofun, nofun, fun _ => hp.snoc rfl fun _ _ hp => hp.append _⟩
  | load m =>
    rw [hstate (by simp [Job.persist])]
    have hp : EachGrant HandedOff h := hi.progress c _ ht ⟨by simp, by simp⟩
    refine ⟨nofun, fun _ => hp.snoc rfl ?_, nofun⟩
    rintro ids g ⟨c', ok', hsub⟩
    exact ⟨c', ok', c, m, ok, hsub.append (List.Sublist.refl _)⟩
  | quarantine =>
    rw [hstate (by simp [Job.persist])]
    exact .of_closed rfl

lemma wrote_step (hi : CrashSafe h w) {c : ℕ} {job : Job} {ok : Bool}
    (hs : w.step (.wrote c job ok) = some w') : CrashSafe (h ++ [.wrote c job ok]) w' := by
  have ht : w.tasks c = some ⟨job, .admitted⟩ := by
    by_contra hne
    simp [Writer.step, hne] at hs
  simp only [Writer.step, if_pos ht] at hs
  obtain rfl := Option.some.inj hs
  have hdurable := durable_wrote hi ok ht
  refine hi.advance rfl rfl ?_ ?_ id hdurable
    (fun hq hf => (hi.idle hq hf).snoc rfl fun _ _ hp => hp.append _) ?_
  · intro t hmem ha
    obtain rfl := Option.some.inj hmem
    have ha' : Task.active ⟨job, .admitted⟩ := ⟨by simp, ha.2⟩
    refine ⟨hi.alone ht ha', hi.pending c _ ht ha', ?_⟩
    have hp := hi.progress c _ ht ha'
    cases job with
    | acquire ids =>
      refine ⟨hp.1, hp.2.1.snoc rfl fun _ _ hp => hp.append _, fun _ => state_make_leased ids, ?_⟩
      cases ok <;> simp
    | release ids =>
      cases ok with
      | true => exact hdurable.handoff (state_make ids (by simp [Job.persist]))
      | false => trivial
    | eject m | load m => exact EachGrant.snoc rfl (fun _ _ hp => hp.append _) hp
    | quarantine => trivial
  · by_cases hjob : job = .quarantine
    · subst hjob
      refine .inr ⟨fun _ => ?_, fun _ => rfl, .inl⟩
      show Persist.open? (Stored.blob (Job.record .quarantine)).state = false
      rw [show (Stored.blob (Job.record .quarantine)).state = some .quarantine from
        state_make _ (by decide)]
      rfl
    · exact .inl (hi.alone ht ⟨by simp, hjob⟩)
  · intro hq hheld hpend
    obtain ⟨ids, hv, hr, hsince⟩ := hi.leased hq hheld hpend
    exact ⟨ids, hv, hr, hsince.snoc rfl⟩

lemma settled_step (hi : CrashSafe h w) {c : ℕ} {ok : Bool}
    (hs : w.step (.settled c ok) = some w') : CrashSafe (h ++ [.settled c ok]) w' := by
  simp only [Writer.step] at hs
  split at hs
  · rename_i job ht
    split_ifs at hs
    obtain rfl := Option.some.inj hs
    by_cases hallowed : stillAllowed w.gate job.persist = true
    · have hsettle : w.settle c job true =
          { w.setTask c (if job = .quarantine then none else some ⟨job, .stored⟩) with
            lock := none
            record := job.record } := by
        simp only [Writer.settle, Bool.true_and, hallowed, if_true]
        rfl
      rw [hsettle]
      by_cases hjob : job = .quarantine
      · subst hjob
        have hq : w.gate.quarantined = true := hallowed
        refine hi.advance rfl rfl (by simp) (.inr ⟨id, ?_, .inl⟩) id (hi.durable.snoc rfl) ?_ ?_
        · intro hnq
          simp [Writer.setTask, hq] at hnq
        · intro hnq
          simp [Writer.setTask, hq] at hnq
        · intro hnq
          simp [Writer.setTask, hq] at hnq
      · have ha : Task.active ⟨job, .written⟩ := ⟨by simp, hjob⟩
        have hpend : w.gate.transitionPending = true := by
          cases job with
          | quarantine => exact absurd rfl hjob
          | _ =>
            simp only [stillAllowed, Job.persist, Bool.and_eq_true] at hallowed
            simp [hallowed]
        refine hi.advance rfl rfl ?_ (.inl (hi.alone ht ha)) id (hi.durable.snoc rfl)
          (fun hnq hf => (hi.idle hnq hf).snoc rfl fun _ _ hp => hp.append _) ?_
        · rw [if_neg hjob]
          intro t hmem _
          obtain rfl := Option.some.inj hmem
          refine ⟨hi.alone ht ha, hi.pending c _ ht ha, ?_⟩
          have hp := hi.progress c _ ht ha
          cases job with
          | acquire ids =>
            exact ⟨hp.1, hp.2.1.snoc rfl fun _ _ hp => hp.append _, fun _ => hp.2.2.1 (.inl rfl),
              fun _ _ => rfl⟩
          | release ids | eject m | load m =>
            exact EachGrant.snoc rfl (fun _ _ hp => hp.append _) hp
          | quarantine => trivial
        · intro _ _ hidle
          exact absurd (hpend.symm.trans hidle) (by simp)
    · have hsettle : w.settle c job true =
          { w.setTask c (if job = .quarantine then none else some ⟨job, .failed⟩) with
            lock := none } := by
        simp only [Writer.settle, Bool.true_and, hallowed]
        rfl
      rw [hsettle]
      refine hi.retire rfl ?_ rfl rfl rfl id .inl fun _ => rfl
      split_ifs
      · exact not_active_none
      · exact not_active_failed
  · rename_i job ht
    split_ifs at hs
    obtain rfl := Option.some.inj hs
    have hsettle : w.settle c job false =
        { w.setTask c (if job = .quarantine then none else some ⟨job, .failed⟩) with
          lock := none } := by
      simp only [Writer.settle, Bool.false_and, Bool.false_eq_true, if_false]
      rfl
    rw [hsettle]
    refine hi.retire rfl ?_ rfl rfl rfl id .inl fun _ => rfl
    split_ifs
    · exact not_active_none
    · exact not_active_failed
  · cases hs

/-! ## Begin and end of a transition -/

lemma finish_refused {job : Job} {g : Gate} (h : (job.finish g).2 = false) :
    (job.finish g).1 = g := by
  cases job with
  | acquire ids =>
    simp only [Job.finish, Gate.finishAcquire] at h ⊢
    split_ifs at h ⊢
    rfl
  | release ids =>
    simp only [Job.finish, Gate.finishRelease] at h ⊢
    split_ifs at h ⊢
    rfl
  | eject m =>
    simp only [Job.finish, Gate.finishEject] at h ⊢
    split_ifs at h ⊢
    rfl
  | load m =>
    simp only [Job.finish, Gate.finishLoad] at h ⊢
    split_ifs at h ⊢
    rfl
  | quarantine => rfl

/-- What a transition that is not an acquisition leaves when it finishes. -/
lemma finish_done {job : Job} {g : Gate} (hok : (job.finish g).2 = true)
    (hjob : ∀ ids, job ≠ .acquire ids) (hq : job ≠ .quarantine) :
    (job.finish g).1.leaseHeld = false ∧ (job.finish g).1.quarantined = g.quarantined := by
  cases job with
  | acquire ids => exact absurd rfl (hjob ids)
  | release ids =>
    simp only [Job.finish, Gate.finishRelease] at hok ⊢
    split_ifs at hok ⊢
    exact ⟨rfl, rfl⟩
  | eject m =>
    have heff := apply_effect g .finishEject
    simp only [Job.finish] at hok ⊢
    simp only [Gate.apply, hok] at heff
    generalize g.finishEject.1 = g' at heff ⊢
    cases heff with
    | ejectFinished ht hl hnq hd => exact ⟨hl, rfl⟩
  | load m =>
    have heff := apply_effect g .finishLoad
    simp only [Job.finish] at hok ⊢
    simp only [Gate.apply, hok] at heff
    generalize g.finishLoad.1 = g' at heff ⊢
    cases heff with
    | loadFinished ht he hl hnq hd => exact ⟨hl, rfl⟩
  | quarantine => exact absurd rfl hq

/-- A lease is granted: its record is durable. -/
lemma grant_step (hi : CrashSafe h w) {c : ℕ} {ids : LeaseIds}
    (ht : w.tasks c = some ⟨.acquire ids, .stored⟩) (hok : w.gate.finishAcquire.2 = true) :
    CrashSafe (h ++ [.finished c (.acquire ids) true])
      { w.setTask c none with gate := w.gate.finishAcquire.1 } := by
  have ha : Task.active ⟨.acquire ids, .stored⟩ := ⟨by simp, by simp⟩
  obtain ⟨hv, hr, hclosed, hmem⟩ := hi.progress c _ ht ha
  have hgate : w.gate.finishAcquire.1.quarantined = w.gate.quarantined ∧
      w.gate.finishAcquire.1.leaseHeld = true := by
    simp only [Gate.finishAcquire] at hok ⊢
    split_ifs at hok ⊢
    exact ⟨rfl, rfl⟩
  have hnone : ∀ c' t, (w.setTask c none).tasks c' = some t → ¬ t.active := by
    intro c' t ht' ha'
    by_cases e : c' = c
    · subst e
      simp [Writer.setTask] at ht'
    · simp only [Writer.setTask, Function.update_of_ne e] at ht'
      exact hi.alone ht ha c' t e ht' ha'
  constructor
  · intro c₁ c₂ t₁ t₂ h₁ _ ha₁ _
    exact absurd ha₁ (hnone c₁ t₁ h₁)
  · intro c₁ t₁ h₁ ha₁
    exact absurd ha₁ (hnone c₁ t₁ h₁)
  · intro c₁ t₁ h₁ ha₁
    exact absurd ha₁ (hnone c₁ t₁ h₁)
  · exact .of_closed (hclosed (.inr rfl))
  · intro _ hfree
    exact absurd (hgate.2.symm.trans hfree) (by simp)
  · intro hnq _ _
    refine ⟨ids, hv, hmem rfl (hgate.1.symm.trans hnq), h, c, [], rfl, hr, ?_, List.Sublist.refl _⟩
    simp [NoGrant]

lemma finished_step (hi : CrashSafe h w) {c : ℕ} {job : Job} {ok : Bool}
    (hs : w.step (.finished c job ok) = some w') : CrashSafe (h ++ [.finished c job ok]) w' := by
  have hcond : w.tasks c = some ⟨job, .stored⟩ ∧ ok = (job.finish w.gate).2 := by
    by_contra hne
    simp [Writer.step, hne] at hs
  simp only [Writer.step, if_pos hcond] at hs
  obtain rfl := Option.some.inj hs
  obtain ⟨ht, rfl⟩ := hcond
  cases hok : (job.finish w.gate).2 with
  | false =>
    have hgate := finish_refused hok
    have hl : (Label.finished c job false).granted = none := by cases job <;> rfl
    rw [hgate]
    exact hi.retire hl not_active_failed rfl rfl rfl id .inl fun _ => rfl
  | true =>
    cases job with
    | acquire ids => exact grant_step hi ht hok
    | quarantine => exact hi.retire rfl not_active_none rfl rfl rfl id .inl fun _ => rfl
    | release ids | eject m | load m =>
      have ha := hi.alone ht ⟨by simp, by simp⟩
      have hp : EachGrant HandedOff h := hi.progress c _ ht ⟨by simp, by simp⟩
      obtain ⟨hfree, hq⟩ := finish_done hok (by simp) (by simp)
      refine hi.advance rfl rfl (by simp) (.inl ha) ?_ (hi.durable.snoc rfl)
        (fun _ _ => hp.snoc rfl fun _ _ hp => hp.append _) ?_
      · intro hq'
        exact hq.trans hq'
      · intro _ hheld
        exact absurd (hfree.symm.trans hheld) (by simp)

/-- What the first half of a transition needs, and the gate `g` that it leaves. -/
structure Started (w : Writer) (job : Job) (g : Gate) : Prop where
  idle : w.gate.transitionPending = false
  usable : w.gate.quarantined = false
  pending : g.transitionPending = true
  quarantined : g.quarantined = false
  leaseHeld : g.leaseHeld = w.gate.leaseHeld
  free : (∀ ids, job ≠ .release ids) → w.gate.leaseHeld = false
  sameLease : ∀ ids, job = .release ids → w.leaseMatches ids = true

lemma started_of_begin {job : Job} (hok : (w.beginJob job).2.2 = true) :
    Started w job (w.beginJob job).2.1 := by
  cases job with
  | acquire ids =>
    have heff := apply_effect w.gate .beginAcquire
    have hok' : (w.gate.apply .beginAcquire).2 = true := hok
    rw [hok'] at heff
    show Started w (.acquire ids) (w.gate.apply .beginAcquire).1
    generalize (w.gate.apply .beginAcquire).1 = g at heff
    cases heff with
    | acquireBegun he ht hl hq => exact ⟨ht, hq, rfl, hq, rfl, fun _ => hl, by simp⟩
  | release ids =>
    have hm : w.leaseMatches ids = true := by
      by_contra hne
      simp [Writer.beginJob, hne] at hok
    have heff := apply_effect w.gate .beginRelease
    have hok' : (w.gate.apply .beginRelease).2 = true := by
      simp only [Writer.beginJob, hm, if_true] at hok
      exact hok
    rw [hok'] at heff
    have hg : (w.beginJob (.release ids)).2.1 = (w.gate.apply .beginRelease).1 := by
      simp only [Writer.beginJob, hm, if_true]
      rfl
    rw [hg]
    generalize (w.gate.apply .beginRelease).1 = g at heff
    cases heff with
    | releaseBegun hl ht hq =>
      refine ⟨ht, hq, rfl, hq, rfl, fun hne => absurd rfl (hne ids), ?_⟩
      intro ids' heq
      obtain rfl := Job.release.inj heq
      exact hm
  | eject m =>
    have heff := apply_effect w.gate .beginEject
    have hok' : (w.gate.apply .beginEject).2 = true := hok
    rw [hok'] at heff
    show Started w (.eject m) (w.gate.apply .beginEject).1
    generalize (w.gate.apply .beginEject).1 = g at heff
    cases heff with
    | ejectBegun ht hl hq => exact ⟨ht, hq, rfl, hq, rfl, fun _ => hl, by simp⟩
  | load m =>
    have heff := apply_effect w.gate .beginLoad
    have hok' : (w.gate.apply .beginLoad).2 = true := hok
    rw [hok'] at heff
    show Started w (.load m) (w.gate.apply .beginLoad).1
    generalize (w.gate.apply .beginLoad).1 = g at heff
    cases heff with
    | loadBegun he hr ht hl hq hd => exact ⟨ht, hq, rfl, hq, rfl, fun _ => hl, by simp⟩
  | quarantine => cases hok

lemma begin_refused {job : Job} (hok : (w.beginJob job).2.2 = false) :
    (w.beginJob job).2.1 = w.gate := by
  cases job with
  | acquire ids =>
    simp only [Writer.beginJob, Gate.beginAcquire] at hok ⊢
    split_ifs at hok ⊢
    rfl
  | release ids =>
    simp only [Writer.beginJob, Gate.beginRelease] at hok ⊢
    split_ifs at hok ⊢
    · rfl
    · rfl
  | eject m =>
    simp only [Writer.beginJob, Gate.beginEject] at hok ⊢
    split_ifs at hok ⊢
    rfl
  | load m =>
    simp only [Writer.beginJob, Gate.beginLoad] at hok ⊢
    split_ifs at hok ⊢
    rfl
  | quarantine => rfl

/-- The identifiers that match are those of the lease. -/
lemma ids_of_leaseMatches {ids ids' : LeaseIds} (hv : ids.valid = true)
    (hr : w.record = (Job.acquire ids).record) (hm : w.leaseMatches ids' = true) : ids = ids' := by
  simp only [LeaseIds.valid, Bool.and_eq_true] at hv
  obtain ⟨⟨h1, h2⟩, h3⟩ := hv
  have hrec : (Job.acquire ids).record =
      ⟨recordMagic, recordVersion, Persist.leased.code, ids.operationId ++ [0],
        ids.leaseId ++ [0], ids.sessionId ++ [0]⟩ := rfl
  simp only [Writer.leaseMatches, hr, hrec, cString_hexId h1, cString_hexId h2, cString_hexId h3,
    Bool.and_eq_true, beq_iff_eq] at hm
  obtain ⟨⟨⟨-, e1⟩, e2⟩, e3⟩ := hm
  cases ids
  cases ids'
  simp_all

lemma begin_step (hi : CrashSafe h w) {c : ℕ} {job : Job} {ok : Bool}
    (hs : w.step (.begin c job ok) = some w') : CrashSafe (h ++ [.begin c job ok]) w' := by
  have hcond : c = w.calls ∧ (w.beginJob job).1 = true ∧ ok = (w.beginJob job).2.2 := by
    by_contra hne
    simp [Writer.step, hne] at hs
  simp only [Writer.step, if_pos hcond] at hs
  obtain rfl := Option.some.inj hs
  obtain ⟨rfl, hadm, rfl⟩ := hcond
  cases hok : (w.beginJob job).2.2 with
  | false =>
    have hgate := begin_refused hok
    obtain ⟨t', htask, hcall⟩ : ∃ t', (∀ t ∈ t', ¬ Task.active t) ∧
        w.beginCall job = { w.setTask w.calls t' with calls := w.calls + 1 } := by
      simp only [Writer.beginCall, hok, hgate, Bool.false_eq_true, if_false]
      cases job with
      | acquire ids => exact ⟨none, not_active_none, rfl⟩
      | _ => exact ⟨some ⟨_, .failed⟩, not_active_failed, rfl⟩
    rw [hcall]
    exact hi.retire rfl htask rfl rfl rfl id .inl fun _ => rfl
  | true =>
    have hst := started_of_begin hok
    have hnone : ∀ c' t, w.tasks c' = some t → ¬ t.active := by
      intro c' t ht ha
      rcases hi.pending c' t ht ha with hp | hp
      · simp [hst.idle] at hp
      · simp [hst.usable] at hp
    have hcall : w.beginCall job = { w.setTask w.calls (some ⟨job, .begun⟩) with
        gate := (w.beginJob job).2.1, calls := w.calls + 1 } := by
      simp only [Writer.beginCall, hok, if_true]
    rw [hcall]
    refine hi.calm rfl rfl ?_ rfl rfl ?_ ?_ ?_
    · intro t hmem _
      obtain rfl := Option.some.inj hmem
      refine ⟨fun c' t _ ht => hnone c' t ht, .inl hst.pending, ?_⟩
      cases job with
      | acquire ids =>
        exact ⟨hadm, (hi.idle hst.usable (hst.free (by simp))).snoc rfl fun _ _ hp => hp.append _,
          by simp, by simp⟩
      | release ids =>
        have hm := hst.sameLease ids rfl
        have hheld : w.gate.leaseHeld = true := by
          simp only [Writer.leaseMatches, Bool.and_eq_true] at hm
          exact hm.1.1.1.1
        obtain ⟨ids', hv, hr, hsince⟩ := hi.leased hst.usable hheld hst.idle
        obtain rfl := ids_of_leaseMatches hv hr hm
        exact hsince.extend rfl
      | eject m | load m =>
        exact (hi.idle hst.usable (hst.free (by simp))).snoc rfl fun _ _ hp => hp.append _
      | quarantine => trivial
    · intro hq
      simp [hst.usable] at hq
    · intro hp
      simp [hst.idle] at hp
    · exact fun _ => hst.leaseHeld

/-! ## Everything else -/

lemma quarantined_step (hi : CrashSafe h w) {c : ℕ} (hs : w.step (.quarantined c) = some w') :
    CrashSafe (h ++ [.quarantined c]) w' := by
  simp only [Writer.step] at hs
  split at hs
  · obtain rfl := Option.some.inj hs
    exact hi.retire rfl not_active_quarantine rfl rfl rfl (fun _ => rfl) (fun _ => .inr rfl) nofun
  · cases hs

lemma ioFailed_step (hi : CrashSafe h w) {c : ℕ} (hs : w.step (.ioFailed c) = some w') :
    CrashSafe (h ++ [.ioFailed c]) w' := by
  simp only [Writer.step] at hs
  split_ifs at hs
  obtain rfl := Option.some.inj hs
  exact hi.retire rfl not_active_quarantine rfl rfl rfl id .inl fun _ => rfl

lemma sessionChanged_step (hi : CrashSafe h w) {c : ℕ} {current : Option (List UInt8)}
    (hs : w.step (.sessionChanged c current) = some w') :
    CrashSafe (h ++ [.sessionChanged c current]) w' := by
  simp only [Writer.step] at hs
  split_ifs at hs with hcond
  obtain rfl := Option.some.inj hs
  have hgate : w.gate.sessionInvalidated = w.gate.quarantine := by
    have hc := hcond.2.1
    rw [Bool.or_comm] at hc
    exact if_pos hc
  rw [hgate]
  exact hi.retire rfl not_active_quarantine rfl rfl rfl (fun _ => rfl) (fun _ => .inr rfl) nofun

/-- An access leaves the flags alone, or quarantines. -/
lemma io_flags {g : Gate} {op : Op} (hop : op.isIo = true) :
    ((g.apply op).1.quarantined = true ∨ (g.apply op).1.quarantined = g.quarantined) ∧
      (g.apply op).1.leaseHeld = g.leaseHeld ∧
      (g.apply op).1.transitionPending = g.transitionPending := by
  have heff := apply_effect g op
  generalize (g.apply op).1 = g' at heff ⊢
  generalize (g.apply op).2 = ok at heff
  cases heff with
  | closed => exact ⟨.inl rfl, rfl, rfl⟩
  | refused | hostIoBegun | hostIoFinished | syncBegun | writeCompleted | vfsIoBegun
  | vfsIoFinished => exact ⟨.inr rfl, rfl, rfl⟩
  | _ => cases hop

lemma io_step (hi : CrashSafe h w) {op : Op} {ok : Bool}
    (hs : w.step (.io op ok) = some w') : CrashSafe (h ++ [.io op ok]) w' := by
  simp only [Writer.step] at hs
  split_ifs at hs with hcond
  obtain rfl := Option.some.inj hs
  obtain ⟨hq, hl, ht⟩ := io_flags (g := w.gate) hcond.1
  have hq' : w.gate.quarantined = true → (w.gate.apply op).1.quarantined = true := by
    intro h
    rcases hq with hq | hq
    · exact hq
    · exact hq.trans h
  have htasks : w.tasks = Function.update w.tasks w.calls (w.tasks w.calls) :=
    (Function.update_eq_self _ _).symm
  refine hi.calm rfl htasks ?_ rfl rfl hq' (fun h => .inl (ht.trans h)) fun _ => hl
  intro t hmem ha
  refine ⟨hi.alone hmem ha, ?_, ?_⟩
  · rcases hi.pending _ t hmem ha with hp | hp
    · exact .inl (ht.trans hp)
    · exact .inr (hq' hp)
  · have hp := hi.progress _ t hmem ha
    obtain ⟨job, stage⟩ := t
    cases job with
    | acquire ids =>
      refine ⟨hp.1, hp.2.1.snoc rfl fun _ _ hp => hp.append _, hp.2.2.1, fun hs hnq => ?_⟩
      refine hp.2.2.2 hs ?_
      by_contra hc
      rw [Bool.not_eq_false] at hc
      exact absurd ((hq' hc).symm.trans hnq) (by simp)
    | release ids =>
      cases stage with
      | begun | quiet | refreshed | admitted => exact Since.snoc hp rfl
      | written | stored => exact EachGrant.snoc rfl (fun _ _ hp => hp.append _) hp
      | unwritten | failed => trivial
    | eject m | load m => exact EachGrant.snoc rfl (fun _ _ hp => hp.append _) hp
    | quarantine => trivial

/-- The gate of a reset is the one that its record allows. -/
lemma boot_gate (w : Writer) (readable : Bool) :
    (w.boot readable).gate = bootGate (if readable then w.stored.state else none) := by
  cases readable <;> rfl

lemma reset_safe {h' : List Label} (hd : Durable h' w.stored.state) (readable : Bool) :
    CrashSafe h' (w.boot readable) := by
  have hgate := boot_gate w readable
  have hlease : ∀ state, (bootGate state).leaseHeld = false := by
    intro state
    cases state with
    | none => rfl
    | some s => cases s <;> rfl
  constructor
  · intro _ _ _ _ h₁
    cases h₁
  · intro _ _ h₁
    cases h₁
  · intro _ _ h₁
    cases h₁
  · exact hd
  · intro hnq _
    rw [hgate] at hnq
    cases readable with
    | false => cases hnq
    | true =>
      refine hd.released ?_
      by_contra hc
      rw [Bool.not_eq_true] at hc
      exact absurd ((bootGate_quarantined hc).1.symm.trans hnq) (by simp)
  · intro _ hheld
    rw [hgate, hlease] at hheld
    cases hheld

/-! ## Runs -/

theorem crashSafe_step {l : Label} (hi : CrashSafe h w) (hs : writer.step w l w') :
    CrashSafe (h ++ [l]) w' := by
  cases l with
  | begin c job ok => exact begin_step hi hs
  | drained c => exact drained_step hi hs
  | refreshed c => exact refreshed_step hi hs
  | gaveUp c => exact gaveUp_step hi hs
  | admitted c ok => exact admitted_step hi hs
  | wrote c job ok => exact wrote_step hi hs
  | notWritten c => exact notWritten_step hi hs
  | settled c ok => exact settled_step hi hs
  | finished c job ok => exact finished_step hi hs
  | quarantined c => exact quarantined_step hi hs
  | ioFailed c => exact ioFailed_step hi hs
  | sessionChanged c current => exact sessionChanged_step hi hs
  | io op ok => exact io_step hi hs
  | reset readable =>
    obtain rfl := Option.some.inj hs
    exact reset_safe (hi.durable.snoc rfl) readable

theorem crashSafe_of_reaches (hr : Reaches writer h w) : CrashSafe h w := by
  refine hr.invariant ?_ ?_
  · rintro w ⟨stored, readable, rfl⟩
    have hnone : NoGrant [] := by simp [NoGrant]
    exact reset_safe ⟨fun _ => hnone, fun _ => trivial, fun _ => trivial⟩ readable
  · exact fun h w l w' _ hi hs => crashSafe_step hi hs

/-- Take steps one after the other. -/
def Writer.run (w : Writer) : List Label → Option Writer
  | [] => some w
  | l :: ls => (w.step l).bind fun w' => w'.run ls

lemma Writer.run_path {w w' : Writer} {ls : List Label} (hr : w.run ls = some w') :
    Path writer w ls w' := by
  induction ls generalizing w with
  | nil =>
    obtain rfl := Option.some.inj hr
    exact .nil w
  | cons l ls ih =>
    obtain ⟨w₁, hs, hr⟩ := Option.bind_eq_some_iff.mp hr
    exact .cons hs (ih hr)

/-- A volume that was handed off before power-on. -/
def poweredOn : Writer :=
  Writer.boot ⟨.init true false, bootRecord none, .blob (.make .handoff ⟨[], [], []⟩), none,
    fun _ => none, 0⟩ true

def sampleIds : LeaseIds := ⟨List.replicate 32 0x61, List.replicate 32 0x62, List.replicate 32 0x63⟩

/-- A call that goes through all of its steps. -/
def wholeCall (c : ℕ) (job : Job) : List Label :=
  [.begin c job true, .drained c, .refreshed c, .admitted c true, .wrote c job true,
    .settled c true, .finished c job true]

/-- A lease, its release and a load. -/
def leaseAndBack : List Label :=
  wholeCall 0 (.acquire sampleIds) ++ wholeCall 1 (.release sampleIds) ++ wholeCall 2 (.load true)

end EspVision.StorageWriter
