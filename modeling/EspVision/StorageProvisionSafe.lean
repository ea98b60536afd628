import EspVision.StorageProvision

/-!
# When the internal volume is formatted

A call has few courses (`Course`), and what it does to the volume, to the record and to the
writer gate is read off them. Runs are sequences of calls, each of which a reset may cut.
-/
namespace EspVision.StorageProvision

open TransitionSystem

/-! ## The courses of a call -/

/-- How the call behind the record goes: what it does and whether it leaves the volume mounted. -/
inductive Course (p : Partition) (c : Call) (a : Answers) (record : Option Record) :
    List Effect → Bool → Prop
  | interrupted : c.confirmedFormat = false → record.any Record.isPending = true →
      Course p c a record [] false
  | readable : a.mount = .ok → (record.any fun r => r.covers p && r.isPending) = false →
      (c.confirmedFormat = false → record.any Record.isPending = false) →
      Course p c a record [.mounted a.mount] (!c.confirmedFormat)
  | refused (admission : List Effect) : admission = [] ∨ admission = [.vfsBegun false] →
      Course p c a record (.mounted a.mount :: admission) false
  | confirmed (status : Status) : status.mounted = false → c.confirmedFormat = true →
      (a.mount = .ok → (record.any fun r => r.covers p && r.isPending) = true) →
      (a.mount = .ok ∨ a.mount = .noFilesystem ∨ a.mount = .intErr) →
      Course p c a record ([.mounted a.mount] ++ (format p a status).1)
        (format p a status).2.mounted
  | automatic (status : Status) : status.mounted = false → c.confirmedFormat = false →
      c.formatIfNoFilesystem = true → p.factoryFfat = true → a.mount = .noFilesystem → a.openHandles = 0 →
      record.any Record.isPending = false →
      Course p c a record ([.mounted a.mount] ++ (admittedFormat p a status).1)
        (admittedFormat p a status).2.mounted

theorem mountRecorded_course (p : Partition) (c : Call) (a : Answers) (status : Status)
    (record : Option Record) (hs : status.mounted = false) :
    Course p c a record (mountRecorded p c a status record).1
      (mountRecorded p c a status record).2.mounted := by
  unfold mountRecorded
  by_cases hi : (!c.confirmedFormat && record.any Record.isPending) = true
  · rw [if_pos hi]
    simp only [Bool.and_eq_true, Bool.not_eq_true'] at hi
    simpa only [hs] using Course.interrupted hi.1 hi.2
  rw [if_neg hi]
  have hi' : c.confirmedFormat = false → record.any Record.isPending = false := fun hc => by
    simpa [hc] using hi
  by_cases hm : a.mount = .ok ∧ (record.any fun r => r.covers p && r.isPending) = false
  · rw [if_pos hm]
    exact .readable hm.1 hm.2 hi'
  rw [if_neg hm]
  by_cases hf : a.mount ≠ .ok ∧ a.mount ≠ .noFilesystem ∧ a.mount ≠ .intErr
  · rw [if_pos hf]
    simpa only [hs] using Course.refused [] (.inl rfl)
  rw [if_neg hf]
  by_cases hc : c.confirmedFormat = true
  · rw [if_pos hc]
    refine .confirmed _ hs hc (fun h => by simpa [h] using hm) ?_
    by_contra h
    push Not at h
    exact hf h
  rw [if_neg hc]
  have hc' : c.confirmedFormat = false := by simpa using hc
  by_cases ha : (c.formatIfNoFilesystem && p.factoryFfat && a.mount == .noFilesystem) = true
  · rw [if_pos ha]
    simp only [Bool.and_eq_true, beq_iff_eq] at ha
    by_cases hh : a.openHandles ≠ 0
    · rw [if_pos hh]
      simpa only [hs] using Course.refused [] (.inl rfl)
    rw [if_neg hh]
    by_cases hb : (!a.vfsBegin) = true
    · rw [if_pos hb]
      simpa only [hs] using Course.refused [.vfsBegun false] (.inr rfl)
    · rw [if_neg hb]
      exact .automatic _ hs hc' ha.1.1 ha.1.2 ha.2 (by simpa using hh) (hi' hc')
  rw [if_neg ha]
  by_cases hn : a.mount = .noFilesystem
  · rw [if_pos hn]
    cases a.scan <;> simpa only [hs] using Course.refused [] (.inl rfl)
  · rw [if_neg hn]
    simpa only [hs] using Course.refused [] (.inl rfl)

/-- How a format goes. -/
inductive FormatCourse (p : Partition) : List Effect → Bool → Prop
  | unsaved (save : Save) : save ≠ .saved → FormatCourse p [.saved p .pending save] false
  | interrupted (result : FResult) (remount : List FResult) :
      FormatCourse p
        ([.saved p .pending .saved, .formatted result] ++ remount.map Effect.mounted) false
  | done (save : Save) :
      FormatCourse p
        [.saved p .pending .saved, .formatted .ok, .mounted .ok, .saved p .ready save]
        (save = .saved)

theorem format_course (p : Partition) (a : Answers) (status : Status)
    (hs : status.mounted = false) :
    FormatCourse p (format p a status).1 (format p a status).2.mounted := by
  unfold format
  by_cases hp : a.savePending ≠ .saved
  · rw [if_pos hp]
    simpa only [hs] using FormatCourse.unsaved _ hp
  rw [if_neg hp]
  have hp' : a.savePending = .saved := by simpa using hp
  by_cases hm : a.mkfs = .ok
  · by_cases hr : a.remount = .ok
    · simpa [hp', hm, hr] using FormatCourse.done a.saveReady
    · simpa [hp', hm, hr, hs] using FormatCourse.interrupted .ok [a.remount]
  · simpa [hp', hm, hs] using FormatCourse.interrupted a.mkfs []

/-! ## Where the format stands -/

def Effect.mountResult : Effect → Option FResult
  | .mounted result => some result
  | _ => none

/-- The effect leaves a record in the key. -/
def Effect.records : Effect → Bool
  | .saved _ _ save => save.durable
  | _ => false

def Effect.isAdmission : Effect → Bool
  | .vfsBegun _ => true
  | .vfsFinished _ => true
  | _ => false

theorem durableAfter_append (stored : Stored) (es fs : List Effect) :
    durableAfter stored (es ++ fs) = durableAfter (durableAfter stored es) fs := by
  simp only [durableAfter, List.foldl_append]

theorem Effect.store_eq_self (stored : Stored) {e : Effect} (h : e.records = false) :
    e.store stored = stored := by
  cases e with
  | saved p state save =>
    have hs : save.durable = false := h
    simp [Effect.store, hs]
  | _ => rfl

theorem durableAfter_eq_self (stored : Stored) {es : List Effect}
    (h : ∀ e ∈ es, e.records = false) : durableAfter stored es = stored := by
  induction es generalizing stored with
  | nil => rfl
  | cons e es ih =>
    have he := h e (by simp)
    calc durableAfter stored (e :: es) = durableAfter (e.store stored) es := rfl
      _ = durableAfter stored es := by rw [Effect.store_eq_self stored he]
      _ = stored := ih stored fun f hf => h f (by simp [hf])

theorem FormatCourse.formatted {p : Partition} {es tail pre post : List Effect} {m : Bool}
    {r : FResult} (hf : FormatCourse p es m) (ht : .formatted r ∉ tail)
    (h : es ++ tail = pre ++ .formatted r :: post) : pre = [.saved p .pending .saved] := by
  have hpos {x : FResult} {l : List Effect} (hl : Effect.formatted r ∉ l)
      (h : [Effect.saved p .pending .saved] ++ .formatted x :: (l ++ tail) =
        pre ++ .formatted r :: post) : pre = [.saved p .pending .saved] :=
    ((List.append_cons_inj_of_notMem (by simp) (by simp [hl, ht])).mp h).1.symm
  cases hf with
  | unsaved save _ =>
    have : Effect.formatted r ∈ [Effect.saved p .pending save] ++ tail := h ▸ by simp
    simp [ht] at this
  | interrupted result remount => exact hpos (by simp) h
  | done save => exact hpos (by simp) h

/-- What holds when `f_mkfs` runs on a partition; `pre` is what the call has done before. -/
structure MayFormat (stored : Stored) (c : Call) (a : Answers) (p : Partition)
    (pre : List Effect) : Prop where
  partition : c.partition = some p
  factory : p.factoryFfat = true
  saved : .saved p .pending .saved ∈ pre
  durable : durableAfter stored pre = .blob (.make p .pending)
  permitted : ∃ m, pre.filterMap Effect.mountResult = [m] ∧
    (c.confirmedFormat = true ∧
        (m = .noFilesystem ∨ m = .intErr ∨ stored.isPendingFor p = true) ∨
      c.confirmedFormat = false ∧ c.formatIfNoFilesystem = true ∧ m = .noFilesystem ∧
        stored.isPending = false ∧ a.openHandles = 0 ∧ .vfsBegun true ∈ pre)

/-- The record that the call goes by is the stored one. -/
structure Loaded (stored : Stored) (record : Option Record) (p : Partition) : Prop where
  pending : record.any Record.isPending = stored.isPending
  pendingFor : (record.any fun r => r.covers p && r.isPending) = stored.isPendingFor p

theorem loadRecord_loaded {stored : Stored} {failure : Option ℤ} {r : Record} (p : Partition)
    (h : loadRecord stored failure = .ok r) : Loaded stored (some r) p := by
  cases failure with
  | some code => simp [loadRecord] at h
  | none =>
    cases stored with
    | absent => simp [loadRecord] at h
    | otherSize => simp [loadRecord] at h
    | blob r' =>
      simp only [loadRecord] at h
      by_cases hv : r'.valid = true
      · obtain rfl : r' = r := by simpa [hv] using h
        constructor
        · cases hp : r'.isPending <;>
            simp [Stored.isPending, Stored.pendingRecord, hv, hp]
        · cases hp : r'.isPending <;>
            simp [Stored.isPendingFor, Stored.pendingRecord, hv, hp]
      · simp [hv] at h

theorem loadRecord_none {stored : Stored} {failure : Option ℤ} (p : Partition)
    (h : loadRecord stored failure = .error .nvsNotFound) : Loaded stored none p := by
  cases failure with
  | some code => simp [loadRecord] at h
  | none =>
    cases stored with
    | absent => exact ⟨rfl, rfl⟩
    | otherSize => simp [loadRecord] at h
    | blob r' =>
      cases hv : r'.valid <;> simp [loadRecord, hv] at h

/-- A call either gives up before it touches anything or follows a course. -/
theorem mountFlashFat_course (stored : Stored) (c : Call) (a : Answers) :
    ((mountFlashFat stored c a).1 = [] ∧ (mountFlashFat stored c a).2.mounted = false) ∨
      ∃ p record, c.partition = some p ∧ (c.confirmedFormat = true → p.factoryFfat = true) ∧
        (p.factoryFfat = true → Loaded stored record p) ∧
        Course p c a record (mountFlashFat stored c a).1 (mountFlashFat stored c a).2.mounted := by
  unfold mountFlashFat
  by_cases hs : (!c.hasStatus) = true
  · rw [if_pos hs]
    exact .inl ⟨rfl, rfl⟩
  rw [if_neg hs]
  cases hp : c.partition with
  | none => exact .inl ⟨rfl, rfl⟩
  | some p =>
    dsimp only
    by_cases hu : (!c.usable p) = true
    · rw [if_pos hu]
      exact .inl ⟨rfl, rfl⟩
    rw [if_neg hu]
    by_cases hf : (c.confirmedFormat && !p.factoryFfat) = true
    · rw [if_pos hf]
      exact .inl ⟨rfl, rfl⟩
    rw [if_neg hf]
    have hconf : c.confirmedFormat = true → p.factoryFfat = true := fun hc => by
      simpa [hc] using hf
    cases hl : (if p.factoryFfat then loadRecord stored a.loadFailure
        else .error .nvsNotFound) with
    | error e =>
      dsimp only
      by_cases he : e = .nvsNotFound
      · rw [if_pos he]
        refine .inr ⟨p, none, rfl, hconf, fun hp => ?_, mountRecorded_course _ _ _ _ _ rfl⟩
        rw [if_pos hp, he] at hl
        exact loadRecord_none p hl
      · rw [if_neg he]
        exact .inl ⟨rfl, rfl⟩
    | ok r =>
      refine .inr ⟨p, some r, rfl, hconf, fun hp => ?_, mountRecorded_course _ _ _ _ _ rfl⟩
      rw [if_pos hp] at hl
      exact loadRecord_loaded p hl

theorem Course.mayFormat {stored : Stored} {p : Partition} {c : Call} {a : Answers}
    {record : Option Record} {es pre post : List Effect} {m : Bool} {r : FResult}
    (hc : Course p c a record es m) (hp : c.partition = some p)
    (hconf : c.confirmedFormat = true → p.factoryFfat = true)
    (hl : p.factoryFfat = true → Loaded stored record p)
    (h : es = pre ++ .formatted r :: post) : MayFormat stored c a p pre := by
  have hmem : Effect.formatted r ∈ es := h ▸ by simp
  cases hc with
  | interrupted _ _ => simp at hmem
  | readable _ _ _ => simp at hmem
  | refused admission ha => rcases ha with rfl | rfl <;> simp at hmem
  | confirmed status hs hconf' hok hm =>
    have hfac := hconf hconf'
    cases pre with
    | nil => simp at h
    | cons e pre =>
      obtain ⟨rfl, ht⟩ : .mounted a.mount = e ∧ (format p a status).1 ++ [] = _ := by simpa using h
      obtain rfl := (format_course p a status hs).formatted (by simp) ht
      refine ⟨hp, hfac, by simp, rfl, a.mount, rfl, .inl ⟨hconf', ?_⟩⟩
      rcases hm with hm | hm | hm
      · exact .inr (.inr ((hl hfac).pendingFor ▸ hok hm))
      · exact .inl hm
      · exact .inr (.inl hm)
  | automatic status hs hconf' hpol hfac hm hh hrec =>
    match pre with
    | [] => simp at h
    | [e] => simp [admittedFormat] at h
    | e :: f :: pre =>
      obtain ⟨rfl, rfl, ht⟩ : .mounted a.mount = e ∧ .vfsBegun true = f ∧
          (format p a status).1 ++ [.vfsFinished a.vfsFinish] = pre ++ .formatted r :: post := by
        simpa only [admittedFormat, List.cons_append, List.nil_append, List.cons.injEq] using h
      obtain rfl := (format_course p a status hs).formatted (by simp) ht
      exact ⟨hp, hfac, by simp, rfl, a.mount, rfl,
        .inr ⟨hconf', hpol, hm, (hl hfac).pending ▸ hrec, hh, by simp⟩⟩

theorem FormatCourse.mounted {p : Partition} {es : List Effect} {m : Bool}
    (hf : FormatCourse p es m) (hm : m = true) :
    es = [.saved p .pending .saved, .formatted .ok, .mounted .ok, .saved p .ready .saved] := by
  cases hf with
  | unsaved _ _ => simp at hm
  | interrupted _ _ => simp at hm
  | done save =>
    obtain rfl : save = .saved := by simpa using hm
    rfl

/-- The last mount has succeeded, and the record of the factory partition is not PENDING. -/
theorem Course.mounted {stored : Stored} {p : Partition} {c : Call} {a : Answers}
    {record : Option Record} {es : List Effect} {m : Bool} (hc : Course p c a record es m)
    (hm : m = true) (hl : p.factoryFfat = true → Loaded stored record p) :
    (es.filterMap Effect.mountResult).getLast? = some .ok ∧
      (p.factoryFfat = true → (durableAfter stored es).isPending = false) := by
  have hdone {status : Status} (hs : status.mounted = false)
      (h : (format p a status).2.mounted = true) : (format p a status).1 =
        [.saved p .pending .saved, .formatted .ok, .mounted .ok, .saved p .ready .saved] :=
    (format_course p a status hs).mounted h
  cases hc with
  | interrupted _ _ => simp at hm
  | readable hok _ hr =>
    refine ⟨by simp [hok, Effect.mountResult], fun hf => ?_⟩
    show stored.isPending = false
    rw [← (hl hf).pending]
    exact hr (by simpa using hm)
  | refused _ _ => simp at hm
  | confirmed status hs _ _ _ =>
    rw [hdone hs hm]
    exact ⟨rfl, fun _ => rfl⟩
  | automatic status hs _ _ _ _ _ _ =>
    obtain ⟨hd, hv⟩ : (format p a status).2.mounted = true ∧ a.vfsFinish = true := by
      cases hv : a.vfsFinish <;> simp [admittedFormat, hv] at hm ⊢
      exact hm
    simp only [admittedFormat, hdone hs hd]
    exact ⟨rfl, fun _ => rfl⟩

/-- The admissions of the writer gate are paired. -/
theorem Course.paired {p : Partition} {c : Call} {a : Answers} {record : Option Record}
    {es : List Effect} {m : Bool} (hc : Course p c a record es m) :
    es.filter Effect.isAdmission ∈ [[], [.vfsBegun false],
      [.vfsBegun true, .vfsFinished a.vfsFinish]] := by
  have hf (status : Status) (hs : status.mounted = false) :
      (format p a status).1.filter Effect.isAdmission = [] := by
    have h := format_course p a status hs
    generalize (format p a status).1 = fs, (format p a status).2.mounted = b at h
    cases h with
    | unsaved _ _ => rfl
    | interrupted _ _ => simp [Effect.isAdmission]
    | done _ => rfl
  cases hc with
  | interrupted _ _ => simp
  | readable _ _ _ => simp [Effect.isAdmission]
  | refused admission ha => rcases ha with rfl | rfl <;> simp [Effect.isAdmission]
  | confirmed status hs _ _ _ => simp [hf status hs, Effect.isAdmission]
  | automatic status hs _ _ _ _ _ _ =>
    simp [admittedFormat, List.filter_cons, List.filter_append, hf status hs, Effect.isAdmission]

/-! ## Runs -/

/-- The call gets as far as the record of the factory partition, and can read it. -/
structure Attempt.Reads (t : Attempt) (p : Partition) : Prop where
  partition : t.call.partition = some p
  factory : p.factoryFfat = true
  usable : t.call.hasStatus = true ∧ t.call.usable p = true
  load : t.answers.loadFailure = none

def Attempt.status (t : Attempt) (stored : Stored) : Status :=
  (mountFlashFat stored t.call t.answers).2

/-- What one call does to the volume, to the record and to the writer gate. -/
structure Safe (stored : Stored) (t : Attempt) : Prop where
  formatted : ∀ pre r post, t.effects stored = pre ++ .formatted r :: post →
    ∃ p, MayFormat stored t.call t.answers p pre
  left : ∀ pre r post, t.effects stored = pre ++ .formatted r :: post →
    (∀ e ∈ post, e.records = false) → (durableAfter stored (t.effects stored)).isPending = true
  healthy : ∀ pre r post, t.effects stored = .mounted .ok :: pre ++ .formatted r :: post →
    t.call.confirmedFormat = true ∧ ∃ p, t.call.partition = some p ∧ stored.isPendingFor p = true
  interrupted : ∀ p, t.Reads p → t.call.confirmedFormat = false → stored.isPending = true →
    t.effects stored = [] ∧ (t.status stored).state = .formatInterrupted
  mounted : t.cut = none → (t.status stored).mounted = true →
    ((t.effects stored).filterMap Effect.mountResult).getLast? = some .ok ∧
      ∀ p, t.call.partition = some p → p.factoryFfat = true →
        (durableAfter stored (t.effects stored)).isPending = false
  paired : t.cut = none → (t.effects stored).filter Effect.isAdmission ∈
    [[], [.vfsBegun false], [.vfsBegun true, .vfsFinished t.answers.vfsFinish]]

theorem Attempt.effects_eq (t : Attempt) (stored : Stored) (h : t.cut = none) :
    t.effects stored = (mountFlashFat stored t.call t.answers).1 := by
  simp only [Attempt.effects, h]

/-- What a cut call does is the beginning of what the call does. -/
theorem Attempt.effects_prefix (t : Attempt) (stored : Stored) :
    ∃ rest, (mountFlashFat stored t.call t.answers).1 = t.effects stored ++ rest := by
  cases hc : t.cut with
  | none => exact ⟨[], by simp [Attempt.effects, hc]⟩
  | some k =>
    exact ⟨(mountFlashFat stored t.call t.answers).1.drop k, by simp [Attempt.effects, hc]⟩

theorem Attempt.mayFormat (t : Attempt) {stored : Stored} {pre post : List Effect} {r : FResult}
    (h : t.effects stored = pre ++ .formatted r :: post) :
    ∃ p, MayFormat stored t.call t.answers p pre := by
  obtain ⟨rest, hrest⟩ := t.effects_prefix stored
  rw [h, List.append_assoc, List.cons_append] at hrest
  rcases mountFlashFat_course stored t.call t.answers with ⟨he, _⟩ | ⟨p, record, hp, hc, hl, hcourse⟩
  · rw [he] at hrest
    simp at hrest
  · exact ⟨p, hcourse.mayFormat hp hc hl hrest⟩

theorem Attempt.interrupted (t : Attempt) {stored : Stored} {p : Partition} (hr : t.Reads p)
    (hc : t.call.confirmedFormat = false) (hs : stored.isPending = true) :
    (mountFlashFat stored t.call t.answers).1 = [] ∧
      (t.status stored).state = .formatInterrupted := by
  obtain ⟨record, hl⟩ : ∃ r, loadRecord stored t.answers.loadFailure = .ok r := by
    cases stored with
    | absent => simp [Stored.isPending, Stored.pendingRecord] at hs
    | otherSize => simp [Stored.isPending, Stored.pendingRecord] at hs
    | blob r =>
      refine ⟨r, ?_⟩
      cases hv : r.valid <;> simp [Stored.isPending, Stored.pendingRecord, hv] at hs
      simp [loadRecord, hr.load, hv]
  have hp : (some record).any Record.isPending = true := (loadRecord_loaded p hl).pending ▸ hs
  obtain ⟨hst, hu⟩ := hr.usable
  constructor
  · simp [mountFlashFat, hr.partition, hst, hu, hc, hr.factory, hl, mountRecorded, hp]
  · simp [Attempt.status, mountFlashFat, hr.partition, hst, hu, hc, hr.factory, hl, mountRecorded,
      hp]

theorem Attempt.safe (stored : Stored) (t : Attempt) : Safe stored t where
  formatted pre r post h := t.mayFormat h
  left pre r post h hpost := by
    obtain ⟨p, hp⟩ := t.mayFormat h
    have hrest : ∀ e ∈ .formatted r :: post, e.records = false := by
      simpa [Effect.records] using hpost
    rw [h, durableAfter_append, hp.durable, durableAfter_eq_self _ hrest]
    rfl
  healthy pre r post h := by
    obtain ⟨p, hp⟩ := t.mayFormat h
    obtain ⟨m, hm, ⟨hc, hcase⟩ | ⟨_, _, hno, _⟩⟩ := hp.permitted
    · obtain rfl : .ok = m := by simpa [Effect.mountResult] using (List.cons.inj hm).1
      exact ⟨hc, p, hp.partition, by simpa using hcase⟩
    · obtain rfl : .ok = m := by simpa [Effect.mountResult] using (List.cons.inj hm).1
      simp at hno
  interrupted p hr hc hs := by
    obtain ⟨he, hst⟩ := t.interrupted hr hc hs
    refine ⟨?_, hst⟩
    cases hcut : t.cut <;> simp [Attempt.effects, hcut, he]
  mounted hcut hm := by
    rw [t.effects_eq stored hcut]
    rcases mountFlashFat_course stored t.call t.answers with
      ⟨_, hf⟩ | ⟨p, record, hp, _, hl, hcourse⟩
    · simp [Attempt.status, hf] at hm
    · obtain ⟨hlast, hpend⟩ := hcourse.mounted hm hl
      refine ⟨hlast, fun q hq => ?_⟩
      obtain rfl : p = q := by simpa [hp] using hq
      exact hpend
  paired hcut := by
    rw [t.effects_eq stored hcut]
    rcases mountFlashFat_course stored t.call t.answers with ⟨he, _⟩ | ⟨p, record, _, _, _, hcourse⟩
    · simp [he]
    · exact hcourse.paired

/-- Only a confirmed call gets past a PENDING record. -/
theorem Attempt.keeps_pending (t : Attempt) {stored : Stored}
    (hc : t.call.confirmedFormat = false) (hs : stored.isPending = true) :
    durableAfter stored (t.effects stored) = stored ∧ ∀ r, .formatted r ∉ t.effects stored := by
  have hnone : ∀ e ∈ (mountFlashFat stored t.call t.answers).1,
      e.records = false ∧ ∀ r, e ≠ .formatted r := by
    rcases mountFlashFat_course stored t.call t.answers with ⟨he, _⟩ | ⟨p, record, _, _, hl, hcourse⟩
    · simp [he]
    · generalize (mountFlashFat stored t.call t.answers).1 = es,
        (mountFlashFat stored t.call t.answers).2.mounted = m at hcourse
      cases hcourse with
      | interrupted _ _ => simp
      | readable _ _ _ => simp [Effect.records]
      | refused admission ha => rcases ha with rfl | rfl <;> simp [Effect.records]
      | confirmed _ _ hconf _ _ => simp [hc] at hconf
      | automatic _ _ _ _ hfac _ _ hrec =>
        rw [(hl hfac).pending, hs] at hrec
        simp at hrec
  obtain ⟨rest, hrest⟩ := t.effects_prefix stored
  have hmem {e : Effect} (he : e ∈ t.effects stored) :
      e ∈ (mountFlashFat stored t.call t.answers).1 := by
    simp [hrest, he]
  exact ⟨durableAfter_eq_self stored fun e he => (hnone e (hmem he)).1,
    fun r hr => (hnone _ (hmem hr)).2 r rfl⟩

/-- Every call of every run is safe, and behind a record that a reset has left PENDING every
unconfirmed call changes nothing and reports the interrupted format. -/
theorem format_safe {h : List Attempt} {stored : Stored} (hr : Reaches provisioning h stored) :
    (∀ h₁ t h₂, h = h₁ ++ t :: h₂ → ∃ before, Reaches provisioning h₁ before ∧ Safe before t) ∧
      (stored.isPending = true → ∀ ls after, Path provisioning stored ls after →
        (∀ t ∈ ls, t.call.confirmedFormat = false) →
        after = stored ∧ ∀ t ∈ ls, (∀ r, .formatted r ∉ t.effects stored) ∧
          ∀ p, t.Reads p → (t.status stored).state = .formatInterrupted) := by
  constructor
  · intro h₁ t h₂ he
    subst he
    obtain ⟨before, hb, _⟩ := hr.split
    exact ⟨before, hb, t.safe before⟩
  · intro hs ls after hpath hls
    clear hr
    induction hpath with
    | nil stored => exact ⟨rfl, by simp⟩
    | @cons stored mid after t ls hstep hpath ih =>
      obtain ⟨hkeep, hno⟩ := t.keeps_pending (hls t (by simp)) hs
      obtain rfl : mid = stored := hstep.trans hkeep
      obtain ⟨hafter, hall⟩ := ih hs fun u hu => hls u (by simp [hu])
      refine ⟨hafter, fun u hu => ?_⟩
      rcases List.mem_cons.mp hu with rfl | hu
      · exact ⟨hno, fun p hp => (u.interrupted hp (hls u (by simp)) hs).2⟩
      · exact hall u hu

/-- The first boot formats `ffat`, and a reset comes after `f_mkfs`: the next boots report it. -/
def cutFormat : Attempt where
  call := {
    partition := some ⟨partitionTypeData, partitionSubtypeFat, "ffat", 0x200000, 0x10000⟩
    confirmedFormat := false
    formatIfNoFilesystem := true }
  answers := { mount := .noFilesystem }
  cut := some 4

theorem format_safe_cutFormat :
    ∃ stored, Reaches provisioning [cutFormat] stored ∧ stored.isPending = true ∧
      ∀ after, Path provisioning stored [{ cutFormat with cut := none }] after → after = stored := by
  have hr : Reaches provisioning [cutFormat] _ := .snoc (.init (s := .absent) trivial) rfl
  have hp : (durableAfter .absent (cutFormat.effects .absent)).isPending = true := by decide
  exact ⟨_, hr, hp, fun after h => ((format_safe hr).2 hp _ after h (by simp [cutFormat])).1⟩

/-- Another partition keeps no record, and a PENDING record of `ffat` does not concern it. -/
theorem other_partition_mounts :
    let data : Partition := ⟨partitionTypeData, partitionSubtypeFat, "data", 0x300000, 0x10000⟩
    let ffat : Partition := ⟨partitionTypeData, partitionSubtypeFat, "ffat", 0x200000, 0x10000⟩
    let stored : Stored := .blob (.make ffat .pending)
    let t : Attempt := ⟨⟨true, some data, true, eraseSize, false, false⟩, { mount := .ok }, none⟩
    stored.isPending = true ∧ (t.status stored).state = .ready ∧
      (t.status stored).mounted = true ∧
      (durableAfter stored (t.effects stored)).isPending = true := by
  decide

end EspVision.StorageProvision
