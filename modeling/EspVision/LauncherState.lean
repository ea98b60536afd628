import EspVision.EventLog
import EspVision.LauncherPath

/-!
# The application launcher (`ev_launcher_state.c`)

The active application is selected in the main entry of a VM, a trial is armed by its operation
identity. Boot path, trial path and VM resets share one record; the calls and their answers are
logged, and a rule says behind which log each success may come.
-/
namespace EspVision.EvLauncher
open EventLog

/-! ## The record -/

/-- `ev_launcher_outcome_t`. -/
inductive Outcome
  | unknown | running | normalReturn | uncaughtException | userInterruption | reset
  deriving DecidableEq

/-- `ev_launcher_trial_status_t`. -/
inductive TrialStatus
  | notStarted | armed | running | finished
  deriving DecidableEq

/-- The parts of `ev_launcher_state_snapshot_t` that calls change, `s_main_entry_window` and
`s_main_entry_consumed`. -/
structure State where
  vmEpoch : UInt32 := 0
  selectionValid : Bool := false
  generation : UInt64 := 0
  sourceHash : List UInt8 := []
  sourcePath : List UInt8 := []
  executionOutcome : Outcome := .unknown
  trialValid : Bool := false
  operationId : List UInt8 := []
  lastTrialOperationId : List UInt8 := []
  trialSourceHash : List UInt8 := []
  trialSourcePath : List UInt8 := []
  trialVmEpoch : UInt32 := 0
  trialStatus : TrialStatus := .notStarted
  trialOutcome : Outcome := .unknown
  mainEntryWindow : Bool := false
  mainEntryConsumed : Bool := false

/-- The outcomes that a finish may report. -/
def Outcome.isFinal : Outcome → Bool
  | .normalReturn => true
  | .uncaughtException => true
  | .userInterruption => true
  | _ => false

def maxGeneration : UInt64 := 9007199254740991

namespace State

variable (s : State)

/-- `esp_vision_launcher_state_vm_reset_begin`. -/
def vmResetBegin : State :=
  let s := { s with
    executionOutcome := if s.executionOutcome = .running then .reset else .unknown
    selectionValid := false
    mainEntryWindow := false
    mainEntryConsumed := false }
  if s.trialValid ∧ (s.trialStatus = .armed ∨ s.trialStatus = .running) then
    { s with trialStatus := .finished, trialOutcome := .reset }
  else s

/-- `esp_vision_launcher_main_entry_begin`. -/
def mainEntryBegin : State := { s with mainEntryWindow := true, mainEntryConsumed := false }

/-- `esp_vision_launcher_main_entry_end`. -/
def mainEntryEnd : State := { s with mainEntryWindow := false, mainEntryConsumed := false }

/-- `esp_vision_launcher_begin_active`; `epoch` is the present VM epoch. -/
def beginActive (epoch : UInt32) (generation : UInt64) (sourceHash sourcePath : List UInt8) :
    State × Bool :=
  if generation = 0 ∨ maxGeneration < generation ∨ !activePath sourcePath sourceHash then
    (s, false)
  else
    if s.mainEntryWindow ∧ !s.mainEntryConsumed ∧ !s.selectionValid ∧
        (s.executionOutcome = .unknown ∨ s.executionOutcome = .reset) then
      ({ s with
          mainEntryConsumed := true
          sourceHash := sourceHash
          sourcePath := sourcePath
          generation := generation
          vmEpoch := epoch
          selectionValid := true
          executionOutcome := .running }, true)
    else (s, false)

/-- `esp_vision_launcher_finish_active`. -/
def finishActive (outcome : Outcome) : State × Bool :=
  if outcome.isFinal then
    if s.selectionValid ∧ s.executionOutcome = .running then
      ({ s with executionOutcome := outcome }, true)
    else (s, false)
  else (s, false)

/-- `esp_vision_launcher_arm_trial`. -/
def armTrial (epoch : UInt32) (operation runnerPath sourcePath sourceHash : List UInt8) :
    State × Bool :=
  if !trialPaths operation runnerPath sourcePath sourceHash then (s, false)
  else
    if (!s.trialValid ∨ s.trialStatus = .finished) ∧ s.lastTrialOperationId ≠ operation then
      ({ s with
          operationId := operation
          lastTrialOperationId := operation
          trialSourceHash := sourceHash
          trialSourcePath := sourcePath
          trialVmEpoch := epoch
          trialValid := true
          trialStatus := .armed
          trialOutcome := .unknown }, true)
    else (s, false)

/-- `esp_vision_launcher_begin_trial`. -/
def beginTrial (epoch : UInt32) (operation sourcePath sourceHash : List UInt8) : State × Bool :=
  if !EvLauncher.operationId operation ∨ !hex sourceHash sourceHashHexLen ∨
      sourcePathMax < sourcePath.length then (s, false)
  else
    if s.trialValid ∧ s.trialStatus = .armed ∧ s.trialVmEpoch = epoch ∧
        s.operationId = operation ∧ s.trialSourcePath = sourcePath ∧
        s.trialSourceHash = sourceHash then
      ({ s with trialStatus := .running, trialOutcome := .running }, true)
    else (s, false)

/-- `esp_vision_launcher_finish_trial`. -/
def finishTrial (outcome : Outcome) : State × Bool :=
  if outcome.isFinal then
    if s.trialValid ∧ s.trialStatus = .running then
      ({ s with trialStatus := .finished, trialOutcome := outcome }, true)
    else (s, false)
  else (s, false)

/-- `esp_vision_launcher_cancel_trial_arm`. -/
def cancelTrialArm (operation : List UInt8) : State × Bool :=
  if !EvLauncher.operationId operation then (s, false)
  else
    if s.trialValid ∧ s.trialStatus = .armed ∧ s.operationId = operation then
      ({ s with trialValid := false, trialStatus := .notStarted, trialOutcome := .unknown }, true)
    else (s, false)

/-- `esp_vision_launcher_state_snapshot`. -/
def snapshot (epoch : UInt32) : State := { s with vmEpoch := epoch }

/-- `esp_vision_launcher_trial_snapshot`. -/
def trialSnapshot (epoch : UInt32) (operation : List UInt8) : Option State :=
  if !EvLauncher.operationId operation then none
  else
    let out := s.snapshot epoch
    if out.trialValid ∧ out.operationId = operation then some out else none

end State

/-! ## Runs -/

inductive Call
  /-- The VM is reset, and its next epoch begins. -/
  | vmReset (epoch : UInt32)
  | mainEntryBegin
  | mainEntryEnd
  | beginActive (generation : UInt64) (hash path : List UInt8)
  | finishActive (outcome : Outcome)
  | armTrial (operation runner path hash : List UInt8)
  | beginTrial (operation path hash : List UInt8)
  | finishTrial (outcome : Outcome)
  | cancelTrialArm (operation : List UInt8)
  | trialSnapshot (operation : List UInt8)
  deriving DecidableEq

/-- The launcher and the VM epoch of the session. -/
structure World where
  state : State := {}
  epoch : UInt32

def World.step (w : World) : Call → World × Bool
  | .vmReset epoch => (⟨w.state.vmResetBegin, epoch⟩, true)
  | .mainEntryBegin => (⟨w.state.mainEntryBegin, w.epoch⟩, true)
  | .mainEntryEnd => (⟨w.state.mainEntryEnd, w.epoch⟩, true)
  | .beginActive generation hash path =>
    let r := w.state.beginActive w.epoch generation hash path
    (⟨r.1, w.epoch⟩, r.2)
  | .finishActive outcome =>
    let r := w.state.finishActive outcome
    (⟨r.1, w.epoch⟩, r.2)
  | .armTrial operation runner path hash =>
    let r := w.state.armTrial w.epoch operation runner path hash
    (⟨r.1, w.epoch⟩, r.2)
  | .beginTrial operation path hash =>
    let r := w.state.beginTrial w.epoch operation path hash
    (⟨r.1, w.epoch⟩, r.2)
  | .finishTrial outcome =>
    let r := w.state.finishTrial outcome
    (⟨r.1, w.epoch⟩, r.2)
  | .cancelTrialArm operation =>
    let r := w.state.cancelTrialArm operation
    (⟨r.1, w.epoch⟩, r.2)
  | .trialSnapshot operation => (w, (w.state.trialSnapshot w.epoch operation).isSome)

/-- The calls that were made and whether they succeeded. -/
abbrev Log := List (Call × Bool)

/-- The last world of a run and its log behind an earlier one. -/
def World.run (w : World) (log : Log) : List Call → World × Log
  | [] => (w, log)
  | c :: calls => World.run (w.step c).1 (log ++ [(c, (w.step c).2)]) calls

/-! ## The rule -/

/-- The last entry of one kind. -/
def lastOf (p : Call × Bool → Bool) (log : Log) : Option (Call × Bool) := (log.filter p).getLast?

/-- The main entry begins or ends, or the VM is reset. -/
def isEntry : Call × Bool → Bool
  | (.vmReset _, ok) => ok
  | (.mainEntryBegin, ok) => ok
  | (.mainEntryEnd, ok) => ok
  | _ => false

/-- The VM is reset, or the active application begins or finishes. -/
def isActive : Call × Bool → Bool
  | (.vmReset _, ok) => ok
  | (.beginActive _ _ _, ok) => ok
  | (.finishActive _, ok) => ok
  | _ => false

/-- The VM is reset, or the trial changes. -/
def isTrial : Call × Bool → Bool
  | (.vmReset _, ok) => ok
  | (.armTrial _ _ _ _, ok) => ok
  | (.beginTrial _ _ _, ok) => ok
  | (.finishTrial _, ok) => ok
  | (.cancelTrialArm _, ok) => ok
  | _ => false

def isArm : Call × Bool → Bool
  | (.armTrial _ _ _ _, ok) => ok
  | _ => false

/-- What may come behind which log. -/
def Allowed (log : Log) : Call × Bool → Prop
  | (.beginActive _ hash path, true) =>
    activePath path hash = true ∧ lastOf isEntry log = some (.mainEntryBegin, true) ∧
      (lastOf isActive log = none ∨ ∃ epoch, lastOf isActive log = some (.vmReset epoch, true))
  | (.finishActive _, true) =>
    ∃ generation hash path, lastOf isActive log = some (.beginActive generation hash path, true)
  | (.armTrial operation _ _ _, true) =>
    ∀ operation' runner path hash,
      lastOf isArm log = some (.armTrial operation' runner path hash, true) →
        operation' ≠ operation
  | (.beginTrial operation path hash, true) =>
    ∃ runner, lastOf isTrial log = some (.armTrial operation runner path hash, true)
  | (.finishTrial _, true) =>
    ∃ operation path hash, lastOf isTrial log = some (.beginTrial operation path hash, true)
  | _ => True

/-! ## The trial -/

/-- Which trial was armed, and in which VM epoch. -/
structure Identity where
  operation : List UInt8
  path : List UInt8
  hash : List UInt8
  epoch : UInt32

inductive Trial
  | idle
  | armed (id : Identity)
  | running (id : Identity)
  | finished (id : Identity)

def State.trial (s : State) : Trial :=
  if s.trialValid then
    let id := ⟨s.operationId, s.trialSourcePath, s.trialSourceHash, s.trialVmEpoch⟩
    match s.trialStatus with
    | .notStarted => .idle
    | .armed => .armed id
    | .running => .running id
    | .finished => .finished id
  else .idle

/-- How a call may change the trial in a VM epoch. -/
inductive TrialStep (epoch : UInt32) : Call → Trial → Trial → Prop
  | stay (c : Call) (t : Trial) : TrialStep epoch c t t
  | arm (operation runner path hash : List UInt8) {t : Trial}
      (h : t = .idle ∨ ∃ id, t = .finished id) :
      TrialStep epoch (.armTrial operation runner path hash) t
        (.armed ⟨operation, path, hash, epoch⟩)
  | begin (id : Identity) (h : id.epoch = epoch) :
      TrialStep epoch (.beginTrial id.operation id.path id.hash) (.armed id) (.running id)
  | finish (outcome : Outcome) (id : Identity) (h : id.epoch = epoch) :
      TrialStep epoch (.finishTrial outcome) (.running id) (.finished id)
  | cancel (id : Identity) :
      TrialStep epoch (.cancelTrialArm id.operation) (.armed id) .idle
  | resetArmed (next : UInt32) (id : Identity) :
      TrialStep epoch (.vmReset next) (.armed id) (.finished id)
  | resetRunning (next : UInt32) (id : Identity) :
      TrialStep epoch (.vmReset next) (.running id) (.finished id)

/-! ## What each call can do -/

lemma vmResetBegin_active (s : State) :
    s.vmResetBegin.selectionValid = false ∧
      (s.vmResetBegin.executionOutcome = .unknown ∨ s.vmResetBegin.executionOutcome = .reset) ∧
      s.vmResetBegin.mainEntryWindow = false ∧
      s.vmResetBegin.lastTrialOperationId = s.lastTrialOperationId := by
  dsimp only [State.vmResetBegin]
  split_ifs <;> simp

/-- A reset finishes a trial that is armed or running. -/
lemma vmResetBegin_trial (s : State) :
    (s.trial = .idle ∧ s.vmResetBegin.trial = .idle) ∨
      ∃ id, (s.trial = .armed id ∨ s.trial = .running id ∨ s.trial = .finished id) ∧
        s.vmResetBegin.trial = .finished id := by
  unfold State.vmResetBegin State.trial
  cases hv : s.trialValid with
  | false => exact .inl (by simp)
  | true =>
    cases hs : s.trialStatus with
    | notStarted => exact .inl (by simp)
    | armed => exact .inr ⟨_, .inl rfl, by simp⟩
    | running => exact .inr ⟨_, .inr (.inl rfl), by simp⟩
    | finished => exact .inr ⟨_, .inr (.inr rfl), by simp⟩

lemma beginActive_cases (s : State) (epoch : UInt32) (generation : UInt64)
    (hash path : List UInt8) :
    s.beginActive epoch generation hash path = (s, false) ∨
      ∃ s', s.beginActive epoch generation hash path = (s', true) ∧
        activePath path hash = true ∧ s.mainEntryWindow = true ∧ s.selectionValid = false ∧
        s'.mainEntryWindow = true ∧ s'.selectionValid = true ∧ s'.executionOutcome = .running ∧
        s'.trial = s.trial ∧ s'.lastTrialOperationId = s.lastTrialOperationId := by
  unfold State.beginActive
  split_ifs with hbad hallowed
  · exact .inl rfl
  · simp only [not_or, Bool.not_eq_true', Bool.not_eq_false] at hbad
    simp only [Bool.not_eq_true'] at hallowed
    exact .inr ⟨_, rfl, hbad.2.2, hallowed.1, hallowed.2.2.1, hallowed.1, rfl, rfl, rfl, rfl⟩
  · exact .inl rfl

lemma finishActive_cases (s : State) (outcome : Outcome) :
    s.finishActive outcome = (s, false) ∨
      (s.finishActive outcome = ({ s with executionOutcome := outcome }, true) ∧
        outcome.isFinal = true ∧ s.selectionValid = true ∧ s.executionOutcome = .running) := by
  unfold State.finishActive
  split_ifs with hfinal hvalid
  · exact .inr ⟨rfl, hfinal, hvalid.1, hvalid.2⟩
  · exact .inl rfl
  · exact .inl rfl

lemma armTrial_cases (s : State) (epoch : UInt32) (operation runner path hash : List UInt8) :
    s.armTrial epoch operation runner path hash = (s, false) ∨
      ∃ s', s.armTrial epoch operation runner path hash = (s', true) ∧
        trialPaths operation runner path hash = true ∧
        (s.trial = .idle ∨ ∃ id, s.trial = .finished id) ∧
        s.lastTrialOperationId ≠ operation ∧
        s'.trial = .armed ⟨operation, path, hash, epoch⟩ ∧ s'.lastTrialOperationId = operation ∧
        s'.mainEntryWindow = s.mainEntryWindow ∧ s'.selectionValid = s.selectionValid ∧
        s'.executionOutcome = s.executionOutcome := by
  unfold State.armTrial
  split_ifs with hbad hallowed
  · exact .inl rfl
  · refine .inr ⟨_, rfl, by simpa using hbad, ?_, hallowed.2, rfl, rfl, rfl, rfl, rfl⟩
    unfold State.trial
    cases hv : s.trialValid with
    | false => exact .inl (by simp)
    | true =>
      have hfinished : s.trialStatus = .finished := by simpa [hv] using hallowed.1
      exact .inr ⟨⟨s.operationId, s.trialSourcePath, s.trialSourceHash, s.trialVmEpoch⟩,
        by simp [hfinished]⟩
  · exact .inl rfl

lemma beginTrial_cases (s : State) (epoch : UInt32) (operation path hash : List UInt8) :
    s.beginTrial epoch operation path hash = (s, false) ∨
      ∃ s', s.beginTrial epoch operation path hash = (s', true) ∧
        s.trial = .armed ⟨operation, path, hash, epoch⟩ ∧
        s'.trial = .running ⟨operation, path, hash, epoch⟩ ∧
        s'.lastTrialOperationId = s.lastTrialOperationId ∧
        s'.mainEntryWindow = s.mainEntryWindow ∧ s'.selectionValid = s.selectionValid ∧
        s'.executionOutcome = s.executionOutcome := by
  unfold State.beginTrial
  split_ifs with hbad hmatch
  · exact .inl rfl
  · obtain ⟨hv, hs, rfl, rfl, rfl, rfl⟩ := hmatch
    exact .inr ⟨_, rfl, by simp [State.trial, hv, hs], by simp [State.trial, hv], rfl, rfl, rfl,
      rfl⟩
  · exact .inl rfl

lemma finishTrial_cases (s : State) (outcome : Outcome) :
    s.finishTrial outcome = (s, false) ∨
      ∃ s' id, s.finishTrial outcome = (s', true) ∧ s.trial = .running id ∧
        s'.trial = .finished id ∧ s'.lastTrialOperationId = s.lastTrialOperationId ∧
        s'.mainEntryWindow = s.mainEntryWindow ∧ s'.selectionValid = s.selectionValid ∧
        s'.executionOutcome = s.executionOutcome := by
  unfold State.finishTrial
  split_ifs with hfinal hvalid
  · obtain ⟨hv, hs⟩ := hvalid
    exact .inr ⟨_, _, rfl, by simp [State.trial, hv, hs]; rfl, by simp [State.trial, hv], rfl, rfl,
      rfl, rfl⟩
  · exact .inl rfl
  · exact .inl rfl

lemma cancelTrialArm_cases (s : State) (operation : List UInt8) :
    s.cancelTrialArm operation = (s, false) ∨
      ∃ s' id, s.cancelTrialArm operation = (s', true) ∧ s.trial = .armed id ∧
        id.operation = operation ∧ s'.trial = .idle ∧
        s'.lastTrialOperationId = s.lastTrialOperationId ∧
        s'.mainEntryWindow = s.mainEntryWindow ∧ s'.selectionValid = s.selectionValid ∧
        s'.executionOutcome = s.executionOutcome := by
  unfold State.cancelTrialArm
  split_ifs with hbad hvalid
  · exact .inl rfl
  · obtain ⟨hv, hs, rfl⟩ := hvalid
    exact .inr ⟨_, ⟨s.operationId, s.trialSourcePath, s.trialSourceHash, s.trialVmEpoch⟩, rfl,
      by simp [State.trial, hv, hs], rfl, by simp [State.trial], rfl, rfl, rfl, rfl⟩
  · exact .inl rfl

/-! ## The record and its log -/

@[simp] theorem lastOf_snoc (p : Call × Bool → Bool) (log : Log) (e : Call × Bool) :
    lastOf p (log ++ [e]) = if p e then some e else lastOf p log := by
  unfold lastOf
  by_cases h : p e = true <;> simp [List.filter_append, h]

/-- The selection, as the last entry about the active application leaves it. -/
def ActiveFits (s : State) : Option (Call × Bool) → Prop
  | some (.beginActive _ _ _, _) => s.selectionValid = true ∧ s.executionOutcome = .running
  | some (.finishActive _, _) => s.selectionValid = true ∧ s.executionOutcome.isFinal = true
  | _ => s.selectionValid = false ∧
    (s.executionOutcome = .unknown ∨ s.executionOutcome = .reset)

/-- The trial, as the last entry about it leaves it; its epoch is the present one. -/
def TrialFits (w : World) : Option (Call × Bool) → Prop
  | some (.armTrial operation _ path hash, _) =>
    w.state.trial = .armed ⟨operation, path, hash, w.epoch⟩
  | some (.beginTrial operation path hash, _) =>
    w.state.trial = .running ⟨operation, path, hash, w.epoch⟩
  | _ => w.state.trial = .idle ∨ ∃ id, w.state.trial = .finished id

def ArmFits (s : State) : Option (Call × Bool) → Prop
  | some (.armTrial operation _ _ _, _) => s.lastTrialOperationId = operation
  | _ => True

/-- The record agrees with its log. -/
structure Tracks (w : World) (log : Log) : Prop where
  window : w.state.mainEntryWindow = true → lastOf isEntry log = some (.mainEntryBegin, true)
  active : ActiveFits w.state (lastOf isActive log)
  trial : TrialFits w (lastOf isTrial log)
  arm : ArmFits w.state (lastOf isArm log)

lemma lastOf_spec {p : Call × Bool → Bool} {log : Log} {e : Call × Bool}
    (h : lastOf p log = some e) : p e = true :=
  (List.mem_filter.mp (List.mem_of_getLast? h)).2

lemma ActiveFits.congr {s s' : State} {o : Option (Call × Bool)} (h : ActiveFits s o)
    (hv : s'.selectionValid = s.selectionValid)
    (ho : s'.executionOutcome = s.executionOutcome) : ActiveFits s' o := by
  unfold ActiveFits at h ⊢
  rw [hv, ho]
  exact h

lemma TrialFits.congr {w w' : World} {o : Option (Call × Bool)} (h : TrialFits w o)
    (ht : w'.state.trial = w.state.trial) (he : w'.epoch = w.epoch) : TrialFits w' o := by
  unfold TrialFits at h ⊢
  rw [ht, he]
  exact h

lemma ArmFits.congr {s s' : State} {o : Option (Call × Bool)} (h : ArmFits s o)
    (hl : s'.lastTrialOperationId = s.lastTrialOperationId) : ArmFits s' o := by
  unfold ArmFits at h ⊢
  rw [hl]
  exact h

/-- An entry of the log either says what its part of the record is or leaves that part. -/
lemma tracks_snoc {w w' : World} {log : Log} {e : Call × Bool} (h : Tracks w log)
    (hwindow : (isEntry e = true ∧
        (w'.state.mainEntryWindow = true → e = (.mainEntryBegin, true))) ∨
      (isEntry e = false ∧ w'.state.mainEntryWindow = w.state.mainEntryWindow))
    (hactive : (isActive e = true ∧ ActiveFits w'.state (some e)) ∨
      (isActive e = false ∧ w'.state.selectionValid = w.state.selectionValid ∧
        w'.state.executionOutcome = w.state.executionOutcome))
    (htrial : (isTrial e = true ∧ TrialFits w' (some e)) ∨
      (isTrial e = false ∧ w'.state.trial = w.state.trial ∧ w'.epoch = w.epoch))
    (harm : (isArm e = true ∧ ArmFits w'.state (some e)) ∨
      (isArm e = false ∧ w'.state.lastTrialOperationId = w.state.lastTrialOperationId)) :
    Tracks w' (log ++ [e]) := by
  refine ⟨?_, ?_, ?_, ?_⟩
  · rcases hwindow with ⟨hp, hw⟩ | ⟨hp, hw⟩
    · intro hopen
      rw [lastOf_snoc, if_pos hp, hw hopen]
    · simpa [hp, hw] using h.window
  · rcases hactive with ⟨hp, ha⟩ | ⟨hp, hv, ho⟩
    · simpa [hp] using ha
    · simpa [hp] using h.active.congr hv ho
  · rcases htrial with ⟨hp, ht⟩ | ⟨hp, ht, he⟩
    · simpa [hp] using ht
    · simpa [hp] using h.trial.congr ht he
  · rcases harm with ⟨hp, hl⟩ | ⟨hp, hl⟩
    · simpa [hp] using hl
    · simpa [hp] using h.arm.congr hl

/-- A call that says nothing about the record and leaves it. -/
lemma tracks_same {w : World} {log : Log} {e : Call × Bool} (h : Tracks w log)
    (h1 : isEntry e = false) (h2 : isActive e = false) (h3 : isTrial e = false)
    (h4 : isArm e = false) : Tracks w (log ++ [e]) :=
  tracks_snoc h (.inr ⟨h1, rfl⟩) (.inr ⟨h2, rfl, rfl⟩) (.inr ⟨h3, rfl, rfl⟩) (.inr ⟨h4, rfl⟩)

/-! ## One call -/

/-- What a call keeps, and what its answer shows. -/
def Kept (w : World) (log : Log) (c : Call) : Prop :=
  Tracks (w.step c).1 (log ++ [(c, (w.step c).2)]) ∧ Allowed log (c, (w.step c).2) ∧
    TrialStep w.epoch c w.state.trial (w.step c).1.state.trial

lemma kept_vmReset {w : World} {log : Log} (h : Tracks w log) (epoch : UInt32) :
    Kept w log (.vmReset epoch) := by
  obtain ⟨hv, ho, hw, hl⟩ := vmResetBegin_active w.state
  have ht := vmResetBegin_trial w.state
  refine ⟨tracks_snoc h (.inl ⟨rfl, fun hopen => ?_⟩) (.inl ⟨rfl, hv, ho⟩) (.inl ⟨rfl, ?_⟩)
    (.inr ⟨rfl, hl⟩), trivial, ?_⟩
  · change w.state.vmResetBegin.mainEntryWindow = true at hopen
    rw [hw] at hopen
    cases hopen
  · rcases ht with ⟨-, hidle⟩ | ⟨id, -, hfin⟩
    · exact .inl hidle
    · exact .inr ⟨id, hfin⟩
  · change TrialStep _ _ _ w.state.vmResetBegin.trial
    rcases ht with ⟨hidle, hidle'⟩ | ⟨id, harmed | hrunning | hfinished, hfin⟩
    · rw [hidle, hidle']
      exact .stay _ _
    · rw [harmed, hfin]
      exact .resetArmed epoch id
    · rw [hrunning, hfin]
      exact .resetRunning epoch id
    · rw [hfinished, hfin]
      exact .stay _ _

/-- A call that fails and leaves the launcher. -/
lemma kept_failed {w : World} {log : Log} {c : Call} (h : Tracks w log)
    (hstep : w.step c = (w, false)) (h1 : isEntry (c, false) = false)
    (h2 : isActive (c, false) = false) (h3 : isTrial (c, false) = false)
    (h4 : isArm (c, false) = false) (hallowed : Allowed log (c, false)) : Kept w log c := by
  unfold Kept
  rw [hstep]
  exact ⟨tracks_same h h1 h2 h3 h4, hallowed, .stay _ _⟩

lemma kept_beginActive {w : World} {log : Log} (h : Tracks w log) (generation : UInt64)
    (hash path : List UInt8) : Kept w log (.beginActive generation hash path) := by
  rcases beginActive_cases w.state w.epoch generation hash path with heq |
    ⟨s', heq, hpath, hopen, hvalid, hopen', hvalid', hrun, ht, hl⟩
  · exact kept_failed h (by simp only [World.step, heq]) rfl rfl rfl rfl trivial
  · have hstep : w.step (.beginActive generation hash path) = (⟨s', w.epoch⟩, true) := by
      simp only [World.step, heq]
    unfold Kept
    rw [hstep]
    refine ⟨tracks_snoc h (.inr ⟨rfl, hopen'.trans hopen.symm⟩) (.inl ⟨rfl, hvalid', hrun⟩)
      (.inr ⟨rfl, ht, rfl⟩) (.inr ⟨rfl, hl⟩), ⟨hpath, h.window hopen, ?_⟩, ?_⟩
    · -- a selection is valid from its begin to the next reset
      have hfits := h.active
      cases hlast : lastOf isActive log with
      | none => exact .inl rfl
      | some e =>
        rw [hlast] at hfits
        have hkind := lastOf_spec hlast
        obtain ⟨c, ok⟩ := e
        cases c with
        | vmReset epoch =>
          obtain rfl : ok = true := hkind
          exact .inr ⟨epoch, rfl⟩
        | beginActive g hash path => exact absurd hfits.1 (by simp [hvalid])
        | finishActive o => exact absurd hfits.1 (by simp [hvalid])
        | _ => cases hkind
    · change TrialStep _ _ _ s'.trial
      rw [ht]
      exact .stay _ _

lemma kept_finishActive {w : World} {log : Log} (h : Tracks w log) (outcome : Outcome) :
    Kept w log (.finishActive outcome) := by
  rcases finishActive_cases w.state outcome with heq | ⟨heq, hfinal, hvalid, hrun⟩
  · exact kept_failed h (by simp only [World.step, heq]) rfl rfl rfl rfl trivial
  · have hstep : w.step (.finishActive outcome) =
        (⟨{ w.state with executionOutcome := outcome }, w.epoch⟩, true) := by
      simp only [World.step, heq]
    unfold Kept
    rw [hstep]
    refine ⟨tracks_snoc h (.inr ⟨rfl, rfl⟩) (.inl ⟨rfl, hvalid, hfinal⟩)
      (.inr ⟨rfl, rfl, rfl⟩) (.inr ⟨rfl, rfl⟩), ?_, .stay _ _⟩
    have hfits := h.active
    cases hlast : lastOf isActive log with
    | none =>
      rw [hlast] at hfits
      exact absurd hfits.1 (by simp [hvalid])
    | some e =>
      rw [hlast] at hfits
      have hkind := lastOf_spec hlast
      obtain ⟨c, ok⟩ := e
      cases c with
      | vmReset epoch => exact absurd hfits.1 (by simp [hvalid])
      | beginActive g hash path =>
        obtain rfl : ok = true := hkind
        exact ⟨g, hash, path, hlast⟩
      | finishActive o =>
        have ho : w.state.executionOutcome.isFinal = true := hfits.2
        rw [hrun] at ho
        cases ho
      | _ => cases hkind

lemma kept_armTrial {w : World} {log : Log} (h : Tracks w log)
    (operation runner path hash : List UInt8) :
    Kept w log (.armTrial operation runner path hash) := by
  rcases armTrial_cases w.state w.epoch operation runner path hash with heq |
    ⟨s', heq, -, hfree, hne, harmed, hl, hw, hv, ho⟩
  · exact kept_failed h (by simp only [World.step, heq]) rfl rfl rfl rfl trivial
  · have hstep : w.step (.armTrial operation runner path hash) = (⟨s', w.epoch⟩, true) := by
      simp only [World.step, heq]
    unfold Kept
    rw [hstep]
    refine ⟨tracks_snoc h (.inr ⟨rfl, hw⟩) (.inr ⟨rfl, hv, ho⟩) (.inl ⟨rfl, harmed⟩)
      (.inl ⟨rfl, hl⟩), fun operation' runner' path' hash' hlast => ?_, ?_⟩
    · have hfits := h.arm
      rw [hlast] at hfits
      exact fun heq' => hne (hfits.trans heq')
    · change TrialStep _ _ _ s'.trial
      rw [harmed]
      exact .arm operation runner path hash hfree

lemma kept_beginTrial {w : World} {log : Log} (h : Tracks w log)
    (operation path hash : List UInt8) : Kept w log (.beginTrial operation path hash) := by
  rcases beginTrial_cases w.state w.epoch operation path hash with heq |
    ⟨s', heq, harmed, hrunning, hl, hw, hv, ho⟩
  · exact kept_failed h (by simp only [World.step, heq]) rfl rfl rfl rfl trivial
  · have hstep : w.step (.beginTrial operation path hash) = (⟨s', w.epoch⟩, true) := by
      simp only [World.step, heq]
    unfold Kept
    rw [hstep]
    refine ⟨tracks_snoc h (.inr ⟨rfl, hw⟩) (.inr ⟨rfl, hv, ho⟩) (.inl ⟨rfl, hrunning⟩)
      (.inr ⟨rfl, hl⟩), ?_, ?_⟩
    · have hfits := h.trial
      cases hlast : lastOf isTrial log with
      | none =>
        rw [hlast] at hfits
        simp [TrialFits, harmed] at hfits
      | some e =>
        rw [hlast] at hfits
        have hkind := lastOf_spec hlast
        obtain ⟨c, ok⟩ := e
        cases c with
        | armTrial operation' runner' path' hash' =>
          obtain rfl : ok = true := hkind
          have hid : w.state.trial = .armed ⟨operation', path', hash', w.epoch⟩ := hfits
          rw [harmed] at hid
          cases hid
          exact ⟨runner', hlast⟩
        | beginTrial operation' path' hash' =>
          have hid : w.state.trial = .running ⟨operation', path', hash', w.epoch⟩ := hfits
          rw [harmed] at hid
          cases hid
        | _ => simp [TrialFits, harmed] at hfits
    · change TrialStep _ _ _ s'.trial
      rw [hrunning, harmed]
      exact .begin ⟨operation, path, hash, w.epoch⟩ rfl

lemma kept_finishTrial {w : World} {log : Log} (h : Tracks w log) (outcome : Outcome) :
    Kept w log (.finishTrial outcome) := by
  rcases finishTrial_cases w.state outcome with heq |
    ⟨s', id, heq, hrunning, hfinished, hl, hw, hv, ho⟩
  · exact kept_failed h (by simp only [World.step, heq]) rfl rfl rfl rfl trivial
  · have hstep : w.step (.finishTrial outcome) = (⟨s', w.epoch⟩, true) := by
      simp only [World.step, heq]
    unfold Kept
    rw [hstep]
    have hlast : ∃ operation path hash,
        lastOf isTrial log = some (.beginTrial operation path hash, true) ∧
          id.epoch = w.epoch := by
      have hfits := h.trial
      cases hlast : lastOf isTrial log with
      | none =>
        rw [hlast] at hfits
        simp [TrialFits, hrunning] at hfits
      | some e =>
        rw [hlast] at hfits
        have hkind := lastOf_spec hlast
        obtain ⟨c, ok⟩ := e
        cases c with
        | armTrial operation' runner' path' hash' =>
          have hid : w.state.trial = .armed ⟨operation', path', hash', w.epoch⟩ := hfits
          rw [hrunning] at hid
          cases hid
        | beginTrial operation' path' hash' =>
          obtain rfl : ok = true := hkind
          have hid : w.state.trial = .running ⟨operation', path', hash', w.epoch⟩ := hfits
          rw [hrunning] at hid
          cases hid
          exact ⟨operation', path', hash', rfl, rfl⟩
        | _ => simp [TrialFits, hrunning] at hfits
    obtain ⟨operation, path, hash, hlast, hepoch⟩ := hlast
    refine ⟨tracks_snoc h (.inr ⟨rfl, hw⟩) (.inr ⟨rfl, hv, ho⟩)
      (.inl ⟨rfl, .inr ⟨id, hfinished⟩⟩) (.inr ⟨rfl, hl⟩), ⟨operation, path, hash, hlast⟩, ?_⟩
    change TrialStep _ _ _ s'.trial
    rw [hrunning, hfinished]
    exact .finish outcome id hepoch

lemma kept_cancelTrialArm {w : World} {log : Log} (h : Tracks w log)
    (operation : List UInt8) : Kept w log (.cancelTrialArm operation) := by
  rcases cancelTrialArm_cases w.state operation with heq |
    ⟨s', id, heq, harmed, rfl, hidle, hl, hw, hv, ho⟩
  · exact kept_failed h (by simp only [World.step, heq]) rfl rfl rfl rfl trivial
  · have hstep : w.step (.cancelTrialArm id.operation) = (⟨s', w.epoch⟩, true) := by
      simp only [World.step, heq]
    unfold Kept
    rw [hstep]
    refine ⟨tracks_snoc h (.inr ⟨rfl, hw⟩) (.inr ⟨rfl, hv, ho⟩) (.inl ⟨rfl, .inl hidle⟩)
      (.inr ⟨rfl, hl⟩), trivial, ?_⟩
    change TrialStep _ _ _ s'.trial
    rw [harmed, hidle]
    exact .cancel id

theorem kept_step {w : World} {log : Log} (h : Tracks w log) (c : Call) : Kept w log c := by
  cases c with
  | vmReset epoch => exact kept_vmReset h epoch
  | mainEntryBegin =>
    exact ⟨tracks_snoc h (.inl ⟨rfl, fun _ => rfl⟩) (.inr ⟨rfl, rfl, rfl⟩) (.inr ⟨rfl, rfl, rfl⟩)
      (.inr ⟨rfl, rfl⟩), trivial, .stay _ _⟩
  | mainEntryEnd =>
    exact ⟨tracks_snoc h (.inl ⟨rfl, fun hopen => by cases hopen⟩) (.inr ⟨rfl, rfl, rfl⟩)
      (.inr ⟨rfl, rfl, rfl⟩) (.inr ⟨rfl, rfl⟩), trivial, .stay _ _⟩
  | beginActive generation hash path => exact kept_beginActive h generation hash path
  | finishActive outcome => exact kept_finishActive h outcome
  | armTrial operation runner path hash => exact kept_armTrial h operation runner path hash
  | beginTrial operation path hash => exact kept_beginTrial h operation path hash
  | finishTrial outcome => exact kept_finishTrial h outcome
  | cancelTrialArm operation => exact kept_cancelTrialArm h operation
  | trialSnapshot operation => exact ⟨tracks_same h rfl rfl rfl rfl, trivial, .stay _ _⟩

/-- In a run from the boot, every success was allowed where it came, and the record agrees with
the log. -/
theorem run_tracks {w : World} {log : Log} (h : Tracks w log) (hok : Justified Allowed log)
    (calls : List Call) :
    Tracks (w.run log calls).1 (w.run log calls).2 ∧ Justified Allowed (w.run log calls).2 := by
  induction calls generalizing w log with
  | nil => exact ⟨h, hok⟩
  | cons c calls ih =>
    obtain ⟨htracks, hallowed, -⟩ := kept_step h c
    exact ih htracks (hok.snoc hallowed)

theorem tracks_boot (epoch : UInt32) : Tracks { epoch := epoch } [] where
  window h := by cases h
  active := ⟨rfl, .inl rfl⟩
  trial := .inl rfl
  arm := trivial

/-- In every run of calls and VM resets: a begin comes in the main entry and as the first since
the last reset, a finish behind a begin that has not finished, an arming under another operation
identity than the one before, the begin of a trial behind the arming of that trial and its finish
behind that begin, without a reset between. The trial moves as `TrialStep` says, and the active
path is the one that is put together from its name and its hash. -/
theorem launcher_safe (epoch : UInt32) (calls : List Call) :
    Justified Allowed (World.run { epoch := epoch } [] calls).2 ∧
      (∀ c, TrialStep (World.run { epoch := epoch } [] calls).1.epoch c
        (World.run { epoch := epoch } [] calls).1.state.trial
        ((World.run { epoch := epoch } [] calls).1.step c).1.state.trial) ∧
      ∀ path hash, activePath path hash = true ↔
        IsHash hash ∧ ∃ apps s, IsApps apps ∧ IsSlug s ∧ path = pathOf apps s hash := by
  obtain ⟨htracks, hok⟩ := run_tracks (tracks_boot epoch) justified_nil calls
  exact ⟨hok, fun c => (kept_step htracks c).2.2, activePath_iff⟩

def trialOperation : List UInt8 := LenientJson.ascii "00000000-0000-4000-8000-000000000001"
def trialRoot : List UInt8 :=
  LenientJson.ascii "/.esp-vision/staging/" ++ trialOperation ++ [slash]

/-- An armed trial whose VM is reset is finished without having run. -/
theorem armed_trial_reset :
    let hash := List.replicate 64 0x61
    let runner := trialRoot ++ LenientJson.ascii "runner.py"
    let path := trialRoot ++ LenientJson.ascii "candidate.py"
    let armed := World.run { epoch := 7 } [] [.armTrial trialOperation runner path hash]
    let reset := armed.1.run armed.2 [.vmReset 8]
    armed.1.state.trialStatus = .armed ∧ reset.1.state.trialStatus = .finished ∧
      reset.2.all fun e => !(e.1 == .beginTrial trialOperation path hash) := by
  decide +kernel

end EspVision.EvLauncher
