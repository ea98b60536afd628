import EspVision.FileTransfer

/-!
# What each call of an upload can do

One list of outcomes for every call. The names of a transfer's files fit in their buffers and are
different, and only the staging file, the target and its backup ever change.
-/
namespace EspVision.EvFileTransfer

open EvTransport EvSession FileSystem

/-! ## The names -/

theorem printed_fits {text : Path} (h : text.length < pathCap) : printed text = (text, true) := by
  have ht : text.take (pathCap - 1) = text := List.take_of_length_le (by omega)
  simp [printed, ht, h]

theorem pathUsable_length {path : Path} (h : pathUsable path = true) : path.length ≤ 123 := by
  simp only [pathUsable, Bool.and_eq_true, decide_eq_true_eq] at h
  exact h.1.1.1.1.1.1.2

theorem targetOf_length {path : Path} (h : pathUsable path = true) :
    (targetOf path).length ≤ 129 := by
  have hp := pathUsable_length h
  have hr : (relativePath path).length ≤ path.length := by
    unfold relativePath
    split_ifs
    · simp
    · exact le_rfl
  unfold targetOf
  split_ifs <;> simp [flashPath] <;> omega

theorem unhex_length {t bytes : Path} {n : ℕ} (h : unhex (some t) n = some bytes) :
    t.length = n * 2 := by
  by_contra hne
  simp [unhex, hne] at h

@[simp] theorem temporaryOf_length (target uploadId : Path) :
    (temporaryOf target uploadId).length = target.length + uploadId.length + 14 := by
  simp [temporaryOf, uploadInfix, tmpSuffix]
  omega

theorem ne_of_length_lt {p q : Path} (h : p.length < q.length) : p ≠ q := fun he => by
  rw [he] at h
  exact lt_irrefl _ h

/-- The files of a transfer: their names fit and differ. -/
structure Named (f : Transfer) : Prop where
  short : f.target.length ≤ 129
  temporary : f.target.length < f.temporary.length ∧ f.temporary.length ≤ 175

/-- The name of the backup. -/
def Transfer.backup (f : Transfer) : Path := f.temporary ++ oldSuffix

theorem Transfer.backup_length (f : Transfer) : f.backup.length = f.temporary.length + 4 := by
  simp [Transfer.backup, oldSuffix]

theorem Named.ne_nil {f : Transfer} (h : Named f) : f.temporary ≠ [] := fun he => by
  have := h.temporary.1
  simp [he] at this

theorem Named.target_ne {f : Transfer} (h : Named f) : f.target ≠ f.temporary :=
  ne_of_length_lt h.temporary.1

theorem Named.backup_ne {f : Transfer} (h : Named f) :
    f.backup ≠ f.temporary ∧ f.backup ≠ f.target := by
  have h1 := f.backup_length
  have h2 := h.temporary.1
  exact ⟨(ne_of_length_lt (by omega)).symm, (ne_of_length_lt (by omega)).symm⟩

theorem Named.backup_printed {f : Transfer} (h : Named f) :
    printed (f.temporary ++ oldSuffix) = (f.backup, true) := by
  refine printed_fits ?_
  have h1 := f.backup_length
  have h2 := h.temporary.2
  unfold Transfer.backup at h1
  unfold pathCap
  omega

theorem named_of_paths {f : Transfer} {path uploadId token : Path} (hp : pathUsable path = true)
    (hu : unhex (some uploadId) 16 = some token) (ht : f.target = targetOf path)
    (hn : f.temporary = temporaryOf f.target uploadId) : Named f := by
  have h1 := targetOf_length hp
  have h2 := unhex_length hu
  rw [← ht] at h1
  refine ⟨h1, ?_⟩
  rw [hn, temporaryOf_length]
  omega

/-! ## The end of a transfer -/

/-- The transfer after its descriptor could not be closed. -/
def State.poison (s : State) : State :=
  { s with file := { s.file with fd := false, poisoned := true } }

/-- The transfer has ended, or is held back for good; only its staging file may have changed. -/
structure Ended (s s' : State) (close : Bool) : Prop where
  lock : s'.lock = s.lock
  others : ∀ q, q ≠ s.file.temporary → s'.fs q = s.fs q
  result : (s'.file = {} ∧ s'.admissions =
        Function.update s.admissions s.file.volume (s.admissions s.file.volume - 1)) ∨
      (close = false ∧ s'.file.active = true ∧ s'.file.poisoned = true ∧ s'.file.fd = false ∧
        s'.file.volume = s.file.volume ∧ s'.admissions = s.admissions)

theorem discard_ended {s : State} {a : DiscardAnswers} (hact : s.file.active = true)
    (hpois : s.file.poisoned = false) : Ended s (discard s a).1 a.close := by
  unfold discard
  rw [if_neg (by simp [hpois])]
  by_cases hc : (s.file.fd && !a.close) = true
  · rw [if_pos hc]
    simp only [Bool.and_eq_true, Bool.not_eq_true'] at hc
    exact ⟨rfl, fun _ _ => rfl, .inr ⟨hc.2, hact, rfl, rfl, rfl, rfl⟩⟩
  · rw [if_neg hc]
    refine ⟨rfl, fun q hq => ?_, .inl ⟨rfl, by simp [hact]⟩⟩
    by_cases ht : s.file.temporary = []
    · simp [ht]
    · simp [ht, unlink_of_ne a.unlink hq]

/-- What happened to the files before the transfer ended does not matter off the staging file. -/
theorem Ended.of_fs {s t s' : State} {close : Bool} (h : Ended t s' close) (hl : t.lock = s.lock)
    (ht : t.file.temporary = s.file.temporary) (hv : t.file.volume = s.file.volume)
    (ha : t.admissions = s.admissions) (hq : ∀ q, q ≠ s.file.temporary → t.fs q = s.fs q) :
    Ended s s' close where
  lock := h.lock.trans hl
  others q hne := (h.others q (ht ▸ hne)).trans (hq q hne)
  result := by
    rw [← ha, ← hv]
    exact h.result

/-! ## Begin -/

/-- The transfer with its staging file. -/
def opened (s : State) (r : BeginRequest) (path : Path) (digest token : List UInt8)
    (nowMs : UInt32) : State :=
  let name := temporaryOf (targetOf path) r.uploadId
  let t := admitted s r path digest nowMs
  { t with
    fs := Function.update s.fs name (some (.file []))
    file := { t.file with id := token, target := targetOf path, temporary := name, fd := true } }

/-- The arguments that `begin` takes. -/
structure Accepts (s : State) (r : BeginRequest) (a : BeginAnswers) (path : Path)
    (digest token : List UInt8) : Prop where
  lock : s.lock = true
  current : currentOwner r.owner a.current = true
  idle : s.file.active = false
  path : r.path = some path ∧ pathUsable path = true
  digest : unhex r.sha256 32 = some digest
  token : unhex (some r.uploadId) 16 = some token

/-- How a `begin` ends. -/
inductive BeginOutcome (s : State) (r : BeginRequest) (a : BeginAnswers) :
    State → Option Fault → Prop
  | refused (fault : Fault) : BeginOutcome s r a s (some fault)
  | dropped (f : Transfer) (fault : Fault) : s.file.active = false → f.active = false →
      f.poisoned = false → f.fd = false → BeginOutcome s r a { s with file := f } (some fault)
  | abandoned (path : Path) (digest token : List UInt8) (s' : State) (fault : Fault) :
      Accepts s r a path digest token →
      s.fs (temporaryOf (targetOf path) r.uploadId) = none →
      Ended (opened s r path digest token a.nowMs) s' a.discard.close →
      BeginOutcome s r a s' (some fault)
  | staged (path : Path) (digest token : List UInt8) : Accepts s r a path digest token →
      s.fs (temporaryOf (targetOf path) r.uploadId) = none →
      BeginOutcome s r a (opened s r path digest token a.nowMs) none

/-- The staging file is opened last, so an earlier failure has touched no file. -/
theorem stage_cases {t : State} {r : BeginRequest} {token : List UInt8} {a : BeginAnswers}
    {name : Path} (hempty : t.file.temporary = [])
    (hname : printed (temporaryOf t.file.target r.uploadId) = (name, true)) :
    (∃ id fault, stage t r token a = ({ t with file := { t.file with id := id } }, some fault)) ∨
      (t.fs name = none ∧
        (stage t r token a).1 = { t with
          fs := Function.update t.fs name (some (.file []))
          file := { t.file with id := token, temporary := name, fd := true } }) := by
  have hcreate : (∃ id fault, stage.create r token a t =
      ({ t with file := { t.file with id := id } }, some fault)) ∨
      (t.fs name = none ∧ (stage.create r token a t).1 = { t with
          fs := Function.update t.fs name (some (.file []))
          file := { t.file with id := token, temporary := name, fd := true } }) := by
    simp only [stage.create, hname, Bool.not_true, Bool.false_eq_true, if_false]
    cases ho : openNew t.fs name a.openOk with
    | none =>
      refine .inl ⟨token, .fileOpenFailed, ?_⟩
      simp only [← hempty]
    | some fs =>
      obtain ⟨hnone, rfl⟩ := openNew_some ho
      refine .inr ⟨hnone, ?_⟩
      cases a.hashSetup with
      | true => rfl
      | false => rfl
  have hkeep (fault : Fault) : ∃ id f, (t, some fault) =
      (({ t with file := { t.file with id := id } } : State), some f) := ⟨t.file.id, fault, rfl⟩
  unfold stage
  cases hs : stat t.fs t.file.target a.stat with
  | ok node =>
    dsimp only
    by_cases hx : (!r.overwrite || !node.isFile) = true
    · rw [if_pos hx]
      exact .inl (hkeep _)
    · rw [if_neg hx]
      exact hcreate
  | error e =>
    cases e with
    | noEntry => exact hcreate
    | «exists» => exact .inl (hkeep _)
    | other code => exact .inl (hkeep _)

theorem begin_outcome (s : State) (r : BeginRequest) (a : BeginAnswers) :
    BeginOutcome s r a (begin s r a).1 (begin s r a).2 := by
  unfold begin
  by_cases hl : (!s.lock) = true
  · rw [if_pos hl]
    exact .refused _
  rw [if_neg hl]
  by_cases hc : (!currentOwner r.owner a.current) = true
  · rw [if_pos hc]
    exact .refused _
  rw [if_neg hc]
  by_cases hact : s.file.active = true
  · rw [if_pos hact]
    exact .refused _
  rw [if_neg hact]
  have hidle : s.file.active = false := by simpa using hact
  cases hp : r.path.filter pathUsable with
  | none => exact .refused _
  | some path =>
  cases hd : unhex r.sha256 32 with
  | none => exact .refused _
  | some digest =>
  cases ht : unhex (some r.uploadId) 16 with
  | none => exact .refused _
  | some token =>
  dsimp only
  obtain ⟨hpath, husable⟩ := Option.filter_eq_some_iff.mp hp
  have hacc : Accepts s r a path digest token :=
    ⟨by simpa using hl, by simpa using hc, hidle, ⟨hpath, husable⟩, hd, ht⟩
  have htarget : printed (targetOf path) = (targetOf path, true) :=
    printed_fits (lt_of_le_of_lt (targetOf_length husable) (by unfold pathCap; omega))
  rw [htarget, if_neg (by simp)]
  by_cases hm : (!a.mounted) = true
  · rw [if_pos hm]
    exact .dropped _ _ hidle rfl rfl rfl
  rw [if_neg hm]
  by_cases hv : (!a.vfsBegin) = true
  · rw [if_pos hv]
    exact .dropped _ _ hidle rfl rfl rfl
  rw [if_neg hv]
  have hfile : (admitted s r path digest a.nowMs).file.target = targetOf path := by
    simp [admitted, htarget]
  have hname : printed (temporaryOf (admitted s r path digest a.nowMs).file.target r.uploadId) =
      (temporaryOf (targetOf path) r.uploadId, true) := by
    rw [hfile]
    refine printed_fits ?_
    have h1 := targetOf_length husable
    have h2 := unhex_length ht
    rw [temporaryOf_length]
    unfold pathCap
    omega
  rcases stage_cases rfl hname with ⟨id, fault, hs⟩ | ⟨hnone, hs⟩
  · -- no staging file: the admission is given back
    rw [hs]
    have hback : (discard { admitted s r path digest a.nowMs with
        file := { (admitted s r path digest a.nowMs).file with id := id } } a.discard).1 =
        { s with file := {} } := by
      simp [discard, admitted]
    dsimp only
    rw [hback]
    exact .dropped _ _ hidle rfl rfl rfl
  · have hopened : (stage (admitted s r path digest a.nowMs) r token a).1 =
        opened s r path digest token a.nowMs := by
      rw [hs]
      simp [opened, admitted, htarget]
    generalize hst : stage (admitted s r path digest a.nowMs) r token a = st at hopened
    obtain ⟨t, f⟩ := st
    obtain rfl : t = _ := hopened
    cases f with
    | none => exact .staged path digest token hacc hnone
    | some fault =>
      exact .abandoned path digest token _ fault hacc hnone (discard_ended rfl rfl)

/-! ## Write -/

theorem writeLoop_of_ne {p q : Path} (hq : q ≠ p) (fs : Files Path) (results : List WriteResult)
    (data : List UInt8) : (writeLoop fs p results data).1 q = fs q := by
  induction results generalizing fs data with
  | nil => cases data <;> rfl
  | cons x results ih =>
    cases data with
    | nil => cases x <;> rfl
    | cons d data =>
      cases x with
      | interrupted => exact ih fs _
      | failed => rfl
      | count n =>
        cases n with
        | zero => rfl
        | succ n => exact (ih _ _).trans (append_of_ne _ hq)

/-- A loop that is done has appended all the data, in however many writes. -/
theorem writeLoop_done {p : Path} {fs : Files Path} {results : List WriteResult}
    {data old : List UInt8} (hold : fs p = some (.file old))
    (hdone : (writeLoop fs p results data).2 = true) :
    (writeLoop fs p results data).1 p = some (.file (old ++ data)) := by
  induction results generalizing fs data old with
  | nil =>
    cases data with
    | nil => simpa [writeLoop] using hold
    | cons d data => simp [writeLoop] at hdone
  | cons x results ih =>
    cases data with
    | nil => cases x <;> simpa [writeLoop] using hold
    | cons d data =>
      cases x with
      | interrupted => exact ih hold hdone
      | failed => simp [writeLoop] at hdone
      | count n =>
        cases n with
        | zero => simp [writeLoop] at hdone
        | succ n =>
          have hap := ih (append_file ((d :: data).take (n + 1)) hold) hdone
          rwa [List.append_assoc, List.take_append_drop] at hap

/-- The chunk is for the transfer that works. -/
structure Addressed (s : State) (owner : Snapshot) (payload : List UInt8)
    (current : Option Snapshot) : Prop where
  lock : s.lock = true
  active : s.file.active = true
  mine : sameOwner s.file.owner owner = true
  current : currentOwner owner current = true
  length : prefixBytes < payload.length ∧ payload.length ≤ payloadMax
  id : payload.take 16 = s.file.id
  clean : s.file.poisoned = false

/-- The chunk is one that the transfer takes. -/
structure Takes (s : State) (owner : Snapshot) (payload : List UInt8)
    (current : Option Snapshot) : Prop extends Addressed s owner payload current where
  offset : offsetOf payload = s.file.received
  size : (payload.drop prefixBytes).length ≤ (s.file.total - s.file.received).toNat
  aligned : (payload.drop prefixBytes).length % 4096 = 0 ∨
    (payload.drop prefixBytes).length = (s.file.total - s.file.received).toNat

/-- The transfer after a chunk. -/
def State.grown (s : State) (data : List UInt8) (fs : Files Path) (nowMs : UInt32) : State :=
  { s with
    fs := fs
    file := { s.file with
      hash := s.file.hash ++ data
      received := s.file.received + data.length.toUInt32
      lastMs := nowMs } }

/-- How a `write` ends. -/
inductive WriteOutcome (s : State) (owner : Snapshot) (payload : List UInt8) (a : WriteAnswers) :
    State → Option Fault → Prop
  | rejected (fault : Fault) : ¬Takes s owner payload a.current →
      fault ∈ [.transferUnavailable, .invalidTransfer, .fileCloseFailed, .invalidOffsetOrSize] →
      (fault = .invalidOffsetOrSize → Addressed s owner payload a.current) →
      WriteOutcome s owner payload a s (some fault)
  | failed (s' : State) (fault : Fault) : Takes s owner payload a.current →
      fault ∈ [.fileWriteFailed, .hashFailed, .sessionLost] → Ended s s' a.discard.close →
      WriteOutcome s owner payload a s' (some fault)
  | accepted : Takes s owner payload a.current →
      (writeLoop s.fs s.file.temporary a.results (payload.drop prefixBytes)).2 = true →
      WriteOutcome s owner payload a
        (s.grown (payload.drop prefixBytes)
          (writeLoop s.fs s.file.temporary a.results (payload.drop prefixBytes)).1 a.nowMs) none

theorem write_outcome (s : State) (owner : Snapshot) (payload : List UInt8) (a : WriteAnswers) :
    WriteOutcome s owner payload a (write s owner payload a).1 (write s owner payload a).2.1 := by
  unfold write
  by_cases hl : (!s.lock) = true
  · rw [if_pos hl]
    exact .rejected _ (fun h => by simp [h.lock] at hl) (by simp) (by simp)
  rw [if_neg hl]
  by_cases hv : (!s.file.active || !sameOwner s.file.owner owner ||
      !currentOwner owner a.current || payload.length ≤ prefixBytes ||
      payloadMax < payload.length || payload.take 16 != s.file.id) = true
  · rw [if_pos hv]
    refine .rejected _ (fun h => ?_) (by simp) (by simp)
    simp [h.active, h.mine, h.current, h.id, not_le.mpr h.length.1, not_lt.mpr h.length.2] at hv
  rw [if_neg hv]
  by_cases hpois : s.file.poisoned = true
  · rw [if_pos hpois]
    exact .rejected _ (fun h => by simp [h.clean] at hpois) (by simp) (by simp)
  rw [if_neg hpois]
  dsimp only
  simp only [Bool.or_eq_true, Bool.not_eq_true', decide_eq_true_eq, bne_iff_ne, ne_eq, not_or,
    Bool.not_eq_false, not_lt, not_le, Decidable.not_not] at hv
  have hpois' : s.file.poisoned = false := by simpa using hpois
  have haddr : Addressed s owner payload a.current :=
    ⟨by simpa using hl, hv.1.1.1.1.1, hv.1.1.1.1.2, hv.1.1.1.2, ⟨hv.1.1.2, hv.1.2⟩, hv.2, hpois'⟩
  by_cases ho : offsetOf payload ≠ s.file.received ∨
      (s.file.total - s.file.received).toNat < (payload.drop prefixBytes).length ∨
      ((payload.drop prefixBytes).length % 4096 ≠ 0 ∧
        (payload.drop prefixBytes).length ≠ (s.file.total - s.file.received).toNat)
  · rw [if_pos ho]
    refine .rejected _ (fun h => ?_) (by simp) fun _ => haddr
    rcases ho with ho | ho | ⟨h1, h2⟩
    · exact ho h.offset
    · exact absurd h.size (by omega)
    · exact h.aligned.elim h1 h2
  rw [if_neg ho]
  push Not at ho
  have htakes : Takes s owner payload a.current :=
    ⟨haddr, ho.1, ho.2.1, or_iff_not_imp_left.mpr ho.2.2⟩
  set loop := writeLoop s.fs s.file.temporary a.results (payload.drop prefixBytes) with hloop
  have hended (f : Transfer) (hact : f.active = true) (hp : f.poisoned = false)
      (ht : f.temporary = s.file.temporary) (hvol : f.volume = s.file.volume) :
      Ended s (discard { s with fs := loop.1, file := f } a.discard).1 a.discard.close :=
    (discard_ended (s := { s with fs := loop.1, file := f }) hact hp).of_fs rfl ht hvol rfl
      fun q hq => writeLoop_of_ne hq _ _ _
  by_cases hd : (!loop.2) = true
  · rw [if_pos hd]
    exact .failed _ _ htakes (by simp) (hended s.file htakes.active hpois' rfl rfl)
  rw [if_neg hd]
  by_cases hu : (!a.hashUpdate) = true
  · rw [if_pos hu]
    exact .failed _ _ htakes (by simp) (hended s.file htakes.active hpois' rfl rfl)
  rw [if_neg hu]
  by_cases hc : (!currentOwner owner a.currentAfter) = true
  · rw [if_pos hc]
    exact .failed _ _ htakes (by simp) (hended _ htakes.active hpois' rfl rfl)
  rw [if_neg hc]
  exact .accepted htakes (by simpa [hloop] using hd)

/-! ## Publication -/

/-- The files after a publication: the staged file stands at the target. -/
structure Published (s : State) (fs : Files Path) : Prop where
  target : fs s.file.target = s.fs s.file.temporary
  moved : fs s.file.temporary = none
  backup : s.fs s.file.backup ≠ none → fs s.file.backup = s.fs s.file.backup
  others : ∀ q, q ≠ s.file.target → q ≠ s.file.temporary → q ≠ s.file.backup → fs q = s.fs q

/-- The files after a failed roll-back: the old file stands at the backup. -/
structure RolledAside (s : State) (fs : Files Path) : Prop where
  old : ∃ bytes, s.fs s.file.target = some (.file bytes)
  fresh : s.fs s.file.backup = none
  target : fs s.file.target = none
  backup : fs s.file.backup = s.fs s.file.target
  others : ∀ q, q ≠ s.file.target → q ≠ s.file.backup → fs q = s.fs q

/-- How `publish` ends. -/
inductive PublishOutcome (s : State) : State → Option Fault → Prop
  | published (fs : Files Path) : Published s fs →
      PublishOutcome s { s with fs := fs, file := { s.file with temporary := [] } } none
  | unchanged (fault : Fault) : fault ∈ [.fileStatFailed, .fileExists, .fileRenameFailed] →
      PublishOutcome s s (some fault)
  | rolledAside (fs : Files Path) : RolledAside s fs →
      PublishOutcome s { s with fs := fs } (some .fileRollbackFailed)

theorem rename_published {s : State} (hn : Named s.file) {fs : Files Path}
    {failure : Option Errno} (h : rename s.fs s.file.temporary s.file.target failure = .ok fs) :
    Published s fs := by
  obtain ⟨node, hnode, rfl⟩ := rename_ok h
  obtain ⟨hb1, hb2⟩ := hn.backup_ne
  refine ⟨?_, ?_, fun _ => ?_, fun q h1 h2 _ => ?_⟩
  · simp [hnode]
  · simp [hn.target_ne.symm]
  · simp [hb1, hb2]
  · simp [h1, h2]

theorem publishOver_outcome {s : State} (hn : Named s.file) {bytes : List UInt8}
    (hold : s.fs s.file.target = some (.file bytes)) (a : PublishAnswers) :
    PublishOutcome s (publishOver s a).1 (publishOver s a).2 := by
  obtain ⟨hb1, hb2⟩ := hn.backup_ne
  unfold publishOver
  dsimp only
  rw [hn.backup_printed, if_neg (by simp)]
  dsimp only
  cases hs : stat s.fs s.file.backup a.statBackup with
  | ok node => exact .unchanged _ (by simp)
  | error e =>
  cases e with
  | «exists» => exact .unchanged _ (by simp)
  | other code => exact .unchanged _ (by simp)
  | noEntry =>
  have hfresh := stat_noEntry hs
  dsimp only
  cases hr : rename s.fs s.file.target s.file.backup a.renameBackup with
  | error e => exact .unchanged _ (by simp)
  | ok kept =>
  obtain ⟨node, hnode, rfl⟩ := rename_ok hr
  dsimp only
  set kept := Function.update (Function.update s.fs s.file.target none) s.file.backup (some node)
    with hkept
  cases hagain : rename kept s.file.temporary s.file.target a.renameAgain with
  | error e =>
    dsimp only
    cases hback : rename kept s.file.backup s.file.target a.rollback with
    | error e =>
      refine .rolledAside _ ⟨⟨bytes, hold⟩, hfresh, ?_, ?_, fun q h1 h2 => ?_⟩
      · simp [hkept, hb2.symm]
      · simp [hkept, hnode]
      · simp [hkept, h1, h2]
    | ok restored =>
      -- everything is back in its place
      obtain ⟨node', hnode', rfl⟩ := rename_ok hback
      obtain rfl : node = node' := by simpa [hkept] using hnode'
      have hsame : Function.update (Function.update kept s.file.backup none) s.file.target
          (some node) = s.fs := by
        funext q
        by_cases h1 : q = s.file.target
        · simp [h1, hnode]
        · by_cases h2 : q = s.file.backup
          · simp [h2, hb2, hfresh]
          · simp [hkept, h1, h2]
      rw [hsame]
      exact .unchanged _ (by simp)
  | ok fs =>
    obtain ⟨node', hnode', rfl⟩ := rename_ok hagain
    have htemp : s.fs s.file.temporary = some node' := by
      simpa [hkept, hb1.symm, hn.target_ne.symm] using hnode'
    refine .published _ ⟨?_, ?_, fun h => absurd hfresh h, fun q h1 h2 h3 => ?_⟩
    · rw [unlink_of_ne _ hb2.symm]
      simp [htemp]
    · rw [unlink_of_ne _ hb1.symm]
      simp [hn.target_ne.symm]
    · rw [unlink_of_ne _ h3]
      simp [hkept, h1, h2, h3]

theorem publish_outcome {s : State} (hn : Named s.file) (a : PublishAnswers) :
    PublishOutcome s (publish s a).1 (publish s a).2 := by
  unfold publish
  cases hs : stat s.fs s.file.target a.stat with
  | error e =>
    cases e with
    | noEntry =>
      dsimp only
      cases hr : rename s.fs s.file.temporary s.file.target a.rename with
      | ok fs => exact .published _ (rename_published hn hr)
      | error e => exact .unchanged _ (by simp)
    | «exists» => exact .unchanged _ (by simp)
    | other code => exact .unchanged _ (by simp)
  | ok node =>
    dsimp only
    by_cases hx : (!s.file.overwrite || !node.isFile) = true
    · rw [if_pos hx]
      exact .unchanged _ (by simp)
    rw [if_neg hx]
    cases node with
    | other => simp [Node.isFile] at hx
    | file bytes =>
    cases hr : rename s.fs s.file.temporary s.file.target a.rename with
    | ok fs => exact .published _ (rename_published hn hr)
    | error e =>
      cases e with
      | «exists» => exact publishOver_outcome hn (stat_ok hs) a
      | noEntry => exact .unchanged _ (by simp)
      | other code => exact .unchanged _ (by simp)

/-! ## Commit and abort -/

/-- A descriptor that is closed already cannot fail to close. -/
theorem discard_closed {s : State} {a : DiscardAnswers} (hact : s.file.active = true)
    (hpois : s.file.poisoned = false) (hfd : s.file.fd = false) :
    (∀ q, q ≠ s.file.temporary → (discard s a).1.fs q = s.fs q) ∧
      (s.file.temporary = [] → (discard s a).1.fs = s.fs) ∧
      (discard s a).1.lock = s.lock ∧ (discard s a).1.file = {} ∧
      (discard s a).1.admissions =
        Function.update s.admissions s.file.volume (s.admissions s.file.volume - 1) ∧
      (discard s a).2 = if a.vfsFinish then none else some .storageQuarantined := by
  have hd : discard s a = ({ s with
      fs := if s.file.temporary = [] then s.fs else unlink s.fs s.file.temporary a.unlink
      admissions := Function.update s.admissions s.file.volume (s.admissions s.file.volume - 1)
      file := {} }, if a.vfsFinish then none else some .storageQuarantined) := by
    simp [discard, hact, hpois, hfd]
  rw [hd]
  refine ⟨fun q hq => ?_, fun ht => by simp [ht], rfl, rfl, rfl, rfl⟩
  by_cases ht : s.file.temporary = []
  · simp [ht]
  · simp [ht, unlink_of_ne a.unlink hq]

/-- The caller may end the transfer. -/
structure MayEnd (s : State) (owner : Snapshot) (uploadId : Option Path)
    (current : Option Snapshot) : Prop where
  lock : s.lock = true
  active : s.file.active = true
  mine : sameOwner s.file.owner owner = true
  current : currentOwner owner current = true
  id : unhex uploadId 16 = some s.file.id
  clean : s.file.poisoned = false

/-- How `ev_file_transfer_end` ends. -/
inductive FinishOutcome (sha256 : List UInt8 → List UInt8) (s : State) (owner : Snapshot)
    (uploadId : Option Path) (isCommit : Bool) (a : EndAnswers) : State → Option Fault → Prop
  | rejected (fault : Fault) :
      fault ∈ [.transferUnavailable, .invalidTransfer, .fileCloseFailed, .fileIncomplete] →
      FinishOutcome sha256 s owner uploadId isCommit a s (some fault)
  | aborted (s' : State) (fault : Option Fault) : MayEnd s owner uploadId a.current →
      isCommit = false → Ended s s' a.discard.close →
      FinishOutcome sha256 s owner uploadId isCommit a s' fault
  | failed (s' : State) (fault : Fault) : MayEnd s owner uploadId a.current →
      isCommit = true →
      fault ∈ [.hashMismatch, .fileSyncFailed, .sessionLost, .fileCloseFailed, .fileStatFailed,
        .fileExists, .fileRenameFailed] →
      Ended s s' (a.close && a.discard.close) →
      FinishOutcome sha256 s owner uploadId isCommit a s' (some fault)
  | published (s' : State) (fault : Option Fault) : MayEnd s owner uploadId a.current →
      isCommit = true → (fault = none ∨ fault = some .storageQuarantined) →
      s.file.received = s.file.total → sha256 s.file.hash = s.file.expectedHash →
      Published s s'.fs → s'.lock = s.lock → s'.file = {} →
      s'.admissions =
        Function.update s.admissions s.file.volume (s.admissions s.file.volume - 1) →
      FinishOutcome sha256 s owner uploadId isCommit a s' fault
  | rolledAside (s' : State) (fs : Files Path) : MayEnd s owner uploadId a.current →
      isCommit = true → RolledAside s fs → (∀ q, q ≠ s.file.temporary → s'.fs q = fs q) →
      s'.lock = s.lock → s'.file = {} →
      s'.admissions =
        Function.update s.admissions s.file.volume (s.admissions s.file.volume - 1) →
      FinishOutcome sha256 s owner uploadId isCommit a s' (some .fileRollbackFailed)

theorem Ended.weaken {s s' : State} {close close' : Bool} (h : Ended s s' close)
    (hc : close = false → close' = false) : Ended s s' close' where
  lock := h.lock
  others := h.others
  result := h.result.imp_right fun hr => ⟨hc hr.1, hr.2⟩

/-- The clean-up after a commit. -/
theorem commit_outcome {sha256 : List UInt8 → List UInt8} {s : State} {owner : Snapshot}
    {uploadId : Option Path} {a : EndAnswers} (hn : Named s.file)
    (hmay : MayEnd s owner uploadId a.current) (hr : s.file.received = s.file.total) :
    let committed := commit sha256 s owner a
    let cleaned := discard committed.1 a.discard
    FinishOutcome sha256 s owner uploadId true a cleaned.1
      (committed.2.1.orElse fun _ => cleaned.2) := by
  dsimp only
  have hended : Ended s (discard s a.discard).1 (a.close && a.discard.close) :=
    (discard_ended hmay.active hmay.clean).weaken fun h => by simp [h]
  unfold commit
  dsimp only
  by_cases hh : (!a.hashFinish || (sha256 s.file.hash).length ≠ 32 ||
      sha256 s.file.hash ≠ s.file.expectedHash) = true
  · rw [if_pos hh]
    exact .failed _ _ hmay rfl (by simp) hended
  rw [if_neg hh]
  by_cases hf : (!a.fsync) = true
  · rw [if_pos hf]
    exact .failed _ _ hmay rfl (by simp) hended
  rw [if_neg hf]
  by_cases hc : (!currentOwner owner a.currentAfter) = true
  · rw [if_pos hc]
    exact .failed _ _ hmay rfl (by simp) hended
  rw [if_neg hc]
  by_cases hcl : (!a.close) = true
  · rw [if_pos hcl]
    have hclose : a.close = false := by simpa using hcl
    refine .failed _ _ hmay rfl (by simp) ?_
    simp only [discard, if_true]
    exact ⟨rfl, fun _ _ => rfl, .inr ⟨by simp [hclose], hmay.active, rfl, rfl, rfl, rfl⟩⟩
  rw [if_neg hcl]
  have hsha : sha256 s.file.hash = s.file.expectedHash := by
    by_contra hne
    simp [hne] at hh
  dsimp only
  generalize ht : ({ s with file := { s.file with fd := false } } : State) = t
  have htn : Named t.file := by
    rw [← ht]
    exact ⟨hn.short, hn.temporary⟩
  have hout := publish_outcome htn a.publish
  generalize publish t a.publish = p at hout
  obtain ⟨t', fault⟩ := p
  dsimp only at hout ⊢
  subst ht
  cases hout with
  | published fs hp =>
    obtain ⟨_, hfs, hlock, hfile, hadm, hfault⟩ := discard_closed (a := a.discard)
      (s := { s with fs := fs, file := { s.file with fd := false, temporary := [] } })
      hmay.active hmay.clean rfl
    refine .published _ _ hmay rfl ?_ hr hsha ?_ hlock hfile hadm
    · rw [hfault]
      cases a.discard.vfsFinish <;> simp
    · rw [hfs rfl]
      exact ⟨hp.target, hp.moved, hp.backup, hp.others⟩
  | unchanged fault hfault =>
    refine .failed _ _ hmay rfl ?_ ?_
    · simp only [List.mem_cons, List.not_mem_nil, or_false] at hfault ⊢
      tauto
    · have he : Ended s (discard { s with file := { s.file with fd := false } } a.discard).1
          a.discard.close :=
        (discard_ended (s := { s with file := { s.file with fd := false } }) hmay.active
          hmay.clean).of_fs rfl rfl rfl rfl fun _ _ => rfl
      exact he.weaken fun h => by simp [h]
  | rolledAside fs hp =>
    obtain ⟨hothers, _, hlock, hfile, hadm, _⟩ := discard_closed (a := a.discard)
      (s := { s with fs := fs, file := { s.file with fd := false } }) hmay.active hmay.clean rfl
    exact .rolledAside _ fs hmay rfl ⟨hp.old, hp.fresh, hp.target, hp.backup, hp.others⟩ hothers
      hlock hfile hadm

theorem finish_outcome (sha256 : List UInt8 → List UInt8) {s : State} (owner : Snapshot)
    (uploadId : Option Path) (isCommit : Bool) (a : EndAnswers)
    (hn : s.file.active = true → s.file.poisoned = false → Named s.file) :
    FinishOutcome sha256 s owner uploadId isCommit a (finish sha256 s owner uploadId isCommit a).1
      (finish sha256 s owner uploadId isCommit a).2.1 := by
  unfold finish
  by_cases hl : (!s.lock) = true
  · rw [if_pos hl]
    exact .rejected _ (by simp)
  rw [if_neg hl]
  by_cases hv : (!s.file.active || !sameOwner s.file.owner owner ||
      !currentOwner owner a.current || unhex uploadId 16 != some s.file.id) = true
  · rw [if_pos hv]
    exact .rejected _ (by simp)
  rw [if_neg hv]
  by_cases hpois : s.file.poisoned = true
  · rw [if_pos hpois]
    exact .rejected _ (by simp)
  rw [if_neg hpois]
  simp only [Bool.or_eq_true, Bool.not_eq_true', bne_iff_ne, ne_eq, not_or, Bool.not_eq_false,
    Decidable.not_not] at hv
  have hclean : s.file.poisoned = false := by simpa using hpois
  have hmay : MayEnd s owner uploadId a.current :=
    ⟨by simpa using hl, hv.1.1.1, hv.1.1.2, hv.1.2, hv.2, hclean⟩
  cases isCommit with
  | false =>
    rw [if_pos (by simp)]
    exact .aborted _ _ hmay rfl (discard_ended hmay.active hclean)
  | true =>
    rw [if_neg (by simp)]
    by_cases hr : s.file.received ≠ s.file.total
    · rw [if_pos hr]
      exact .rejected _ (by simp)
    · rw [if_neg hr]
      exact commit_outcome (hn hmay.active hclean) hmay (by simpa using hr)

/-! ## Poll -/

/-- How a poll ends. -/
inductive PollOutcome (s : State) (a : PollAnswers) : State → Prop
  | kept : PollOutcome s a s
  | ended (s' : State) : s.file.active = true → s.file.poisoned = false →
      Ended s s' a.discard.close → PollOutcome s a s'

theorem poll_outcome (s : State) (a : PollAnswers) : PollOutcome s a (poll s a) := by
  unfold poll
  by_cases hl : (!s.lock || !a.taken) = true
  · rw [if_pos hl]
    exact .kept
  rw [if_neg hl]
  by_cases hc : (s.file.active && (!currentOwner s.file.owner a.current ||
      idleMs ≤ a.nowMs - s.file.lastMs)) = true
  · rw [if_pos hc]
    simp only [Bool.and_eq_true] at hc
    by_cases hp : s.file.poisoned = true
    · rw [discard, if_pos hp]
      exact .kept
    · have hclean : s.file.poisoned = false := by simpa using hp
      exact .ended _ hc.1 hclean (discard_ended hc.1 hclean)
  · rw [if_neg hc]
    exact .kept

end EspVision.EvFileTransfer
