import EspVision.FileTransferSteps

/-!
# Uploads are atomic

The upload under way is read off the run: its `begin` and the chunks taken since. While a
transfer works, its staging file holds these chunks and nothing else has changed.
-/
namespace EspVision.EvFileTransfer

open EvTransport EvSession FileSystem TransitionSystem

/-! ## The upload under way -/

structure Upload where
  request : BeginRequest
  chunks : List (List UInt8) := []

def Upload.bytes (u : Upload) : List UInt8 := u.chunks.flatten

def Event.upload (u : Option Upload) : Event → Option Upload
  | ⟨.begin r _, none⟩ => some { request := r }
  | ⟨.write _ payload _, none⟩ =>
    u.map fun u => { u with chunks := u.chunks ++ [payload.drop prefixBytes] }
  | _ => u

/-- The last upload that was begun. -/
def uploadOf (h : List Event) : Option Upload := h.foldl Event.upload none

theorem uploadOf_append (h : List Event) (e : Event) :
    uploadOf (h ++ [e]) = e.upload (uploadOf h) := by
  simp only [uploadOf, List.foldl_append, List.foldl_cons, List.foldl_nil]

/-- A call that fails does not change the upload under way. -/
theorem Event.upload_fault (u : Option Upload) (c : Call) (fault : Fault) :
    Event.upload u ⟨c, some fault⟩ = u := by
  cases c <;> rfl

/-! ## The invariant -/

/-- A transfer that works has staged its upload so far. -/
structure Working (s : State) (u : Upload) : Prop where
  active : s.file.active = true
  clean : s.file.poisoned = false
  path : ∃ path, u.request.path = some path ∧ pathUsable path = true ∧
    s.file.target = targetOf path
  temporary : s.file.temporary = temporaryOf s.file.target u.request.uploadId
  id : unhex (some u.request.uploadId) 16 = some s.file.id
  digest : unhex u.request.sha256 32 = some s.file.expectedHash
  owner : s.file.owner = u.request.owner
  total : s.file.total = u.request.total
  staged : s.fs s.file.temporary = some (.file u.bytes)
  hash : s.file.hash = u.bytes
  received : s.file.received.toNat = u.bytes.length
  bounded : u.bytes.length ≤ s.file.total.toNat

theorem Working.named {s : State} {u : Upload} (w : Working s u) : Named s.file := by
  obtain ⟨path, _, hp, ht⟩ := w.path
  exact named_of_paths hp w.id ht w.temporary

/-- No transfer, one that works, or one that is held back for good. -/
inductive Phase (h : List Event) (s : State) : Prop
  | idle : s.file.active = false → s.file.poisoned = false → Phase h s
  | working (u : Upload) : uploadOf h = some u → Working s u → Phase h s
  | held : s.file.active = true → s.file.poisoned = true → Phase h s

/-- The admissions that are outstanding are those of the active transfer. -/
def Admitted (s : State) : Prop :=
  ∀ v, s.admissions v = if s.file.active = true ∧ s.file.volume = v then 1 else 0

/-- The admission is given back. -/
theorem admitted_released {s s' : State} (hf : s'.file = {}) (hadm : s'.admissions =
      Function.update s.admissions s.file.volume (s.admissions s.file.volume - 1))
    (hact : s.file.active = true) (ha : Admitted s) : Admitted s' := by
  intro v
  rw [hadm, hf]
  by_cases hv : v = s.file.volume
  · subst hv
    simp [ha s.file.volume, hact]
  · have := ha v
    simp [Function.update_of_ne hv, this, Ne.symm hv]

theorem Ended.admitted {s s' : State} {close : Bool} (h : Ended s s' close)
    (hact : s.file.active = true) (ha : Admitted s) : Admitted s' := by
  rcases h.result with ⟨hf, hadm⟩ | ⟨_, hact', _, _, hvol, hadm⟩
  · exact admitted_released hf hadm hact ha
  · intro v
    rw [hadm, hact', hvol, ha v, hact]

theorem Ended.phase {s s' : State} {close : Bool} {h : List Event} (he : Ended s s' close) :
    Phase h s' := by
  rcases he.result with ⟨hf, _⟩ | ⟨_, hact, hpois, _⟩
  · exact .idle (by simp [hf]) (by simp [hf])
  · exact .held hact hpois

/-- What is known in every state of a run. -/
structure Inv (h : List Event) (s : State) : Prop where
  phase : Phase h s
  admitted : Admitted s

theorem opened_working {s : State} {r : BeginRequest} {a : BeginAnswers} {path : Path}
    {digest token : List UInt8} (h : Accepts s r a path digest token) :
    Working (opened s r path digest token a.nowMs) { request := r } where
  active := rfl
  clean := rfl
  path := ⟨path, h.path.1, h.path.2, rfl⟩
  temporary := rfl
  id := h.token
  digest := h.digest
  owner := rfl
  total := rfl
  staged := by simp [opened, Upload.bytes]
  hash := rfl
  received := rfl
  bounded := by simp [Upload.bytes]

theorem opened_admitted {s : State} {r : BeginRequest} {a : BeginAnswers} {path : Path}
    {digest token : List UInt8} (h : Accepts s r a path digest token) (ha : Admitted s) :
    Admitted (opened s r path digest token a.nowMs) := by
  intro v
  have hv := ha v
  simp only [h.idle, Bool.false_eq_true, false_and, if_false] at hv
  by_cases he : v = volumeOf path
  · subst he
    simp [opened, admitted, hv]
  · simp [opened, admitted, Function.update_of_ne he, hv, Ne.symm he]

/-- A chunk that the transfer takes fits into what is left. -/
theorem Working.grown {s : State} {u : Upload} {owner : Snapshot} {payload : List UInt8}
    {current : Option Snapshot} (w : Working s u) (ht : Takes s owner payload current)
    {results : List WriteResult} (nowMs : UInt32)
    (hdone : (writeLoop s.fs s.file.temporary results (payload.drop prefixBytes)).2 = true) :
    Working (s.grown (payload.drop prefixBytes)
        (writeLoop s.fs s.file.temporary results (payload.drop prefixBytes)).1 nowMs)
      { u with chunks := u.chunks ++ [payload.drop prefixBytes] } := by
  have hsize := ht.size
  have hle : s.file.received ≤ s.file.total := by
    rw [UInt32.le_iff_toNat_le, w.received]
    exact w.bounded
  rw [UInt32.toNat_sub_of_le _ _ hle, w.received] at hsize
  have hlt := s.file.total.toNat_lt
  have hbytes : ({ u with chunks := u.chunks ++ [payload.drop prefixBytes] } : Upload).bytes =
      u.bytes ++ payload.drop prefixBytes := by
    simp [Upload.bytes]
  have hlen : (u.bytes ++ payload.drop prefixBytes).length ≤ s.file.total.toNat := by
    have := w.bounded
    rw [List.length_append]
    omega
  exact
    { active := w.active
      clean := w.clean
      path := w.path
      temporary := w.temporary
      id := w.id
      digest := w.digest
      owner := w.owner
      total := w.total
      staged := by
        rw [hbytes]
        exact writeLoop_done w.staged hdone
      hash := by
        rw [hbytes, ← w.hash]
        rfl
      received := by
        rw [hbytes]
        have hr := w.received
        rw [List.length_append] at hlen ⊢
        show (s.file.received + (payload.drop prefixBytes).length.toUInt32).toNat = _
        rw [UInt32.toNat_add, Nat.toUInt32, UInt32.toNat_ofNat', hr]
        omega
      bounded := by
        rw [hbytes]
        exact hlen }

/-! ## One call of any kind -/

def Call.isCommit : Call → Bool
  | .finish _ _ commit _ => commit
  | _ => false

/-- Everything that a call can do to the state. -/
inductive Change (sha256 : List UInt8 → List UInt8) (s : State) : Call → Option Fault → State → Prop
  | unchanged (c : Call) (fault : Option Fault) (s' : State) : s'.file = s.file → s'.fs = s.fs →
      s'.admissions = s.admissions →
      (fault = none → (∃ created, c = .init created) ∨ ∃ a, c = .poll a) →
      (fault = some .storageQuarantined ∨ fault = some .fileRollbackFailed →
        c.isCommit = false) → Change sha256 s c fault s'
  | dropped (r : BeginRequest) (a : BeginAnswers) (f : Transfer) (fault : Fault) :
      s.file.active = false → f.active = false → f.poisoned = false →
      Change sha256 s (.begin r a) (some fault) { s with file := f }
  | abandoned (r : BeginRequest) (a : BeginAnswers) (path : Path) (digest token : List UInt8)
      (s' : State) (fault : Fault) : Accepts s r a path digest token →
      s.fs (temporaryOf (targetOf path) r.uploadId) = none →
      Ended (opened s r path digest token a.nowMs) s' a.discard.close →
      Change sha256 s (.begin r a) (some fault) s'
  | staged (r : BeginRequest) (a : BeginAnswers) (path : Path) (digest token : List UInt8) :
      Accepts s r a path digest token →
      s.fs (temporaryOf (targetOf path) r.uploadId) = none →
      Change sha256 s (.begin r a) none (opened s r path digest token a.nowMs)
  | accepted (owner : Snapshot) (payload : List UInt8) (a : WriteAnswers) :
      Takes s owner payload a.current →
      (writeLoop s.fs s.file.temporary a.results (payload.drop prefixBytes)).2 = true →
      Change sha256 s (.write owner payload a) none
        (s.grown (payload.drop prefixBytes)
          (writeLoop s.fs s.file.temporary a.results (payload.drop prefixBytes)).1 a.nowMs)
  | ended (c : Call) (fault : Option Fault) (s' : State) (close : Bool) : s.file.active = true →
      s.file.poisoned = false → Ended s s' close →
      (fault = none → (∃ owner uploadId a, c = .finish owner uploadId false a) ∨ ∃ a, c = .poll a) →
      (fault = some .storageQuarantined ∨ fault = some .fileRollbackFailed →
        c.isCommit = false) → Change sha256 s c fault s'
  | published (owner : Snapshot) (uploadId : Option Path) (a : EndAnswers) (fault : Option Fault)
      (s' : State) : MayEnd s owner uploadId a.current →
      (fault = none ∨ fault = some .storageQuarantined) → s.file.received = s.file.total →
      sha256 s.file.hash = s.file.expectedHash → Published s s'.fs → s'.file = {} →
      s'.admissions =
        Function.update s.admissions s.file.volume (s.admissions s.file.volume - 1) →
      Change sha256 s (.finish owner uploadId true a) fault s'
  | rolledAside (owner : Snapshot) (uploadId : Option Path) (a : EndAnswers) (fs : Files Path)
      (s' : State) : MayEnd s owner uploadId a.current → RolledAside s fs →
      (∀ q, q ≠ s.file.temporary → s'.fs q = fs q) → s'.file = {} →
      s'.admissions =
        Function.update s.admissions s.file.volume (s.admissions s.file.volume - 1) →
      Change sha256 s (.finish owner uploadId true a) (some .fileRollbackFailed) s'

theorem change_of_apply {sha256 : List UInt8 → List UInt8} {s : State}
    (hn : s.file.active = true → s.file.poisoned = false → Named s.file) (c : Call) :
    Change sha256 s c (c.apply sha256 s).2 (c.apply sha256 s).1 := by
  cases c with
  | init created => exact .unchanged _ _ _ rfl rfl rfl (fun _ => .inl ⟨_, rfl⟩) (by simp [Call.apply])
  | begin r a =>
    have h := begin_outcome s r a
    simp only [Call.apply]
    generalize EvFileTransfer.begin s r a = p at h
    obtain ⟨s', fault⟩ := p
    dsimp only at h ⊢
    cases h with
    | refused fault => exact .unchanged _ _ _ rfl rfl rfl (by simp) (fun _ => rfl)
    | dropped f fault hidle hact hpois _ => exact .dropped r a f fault hidle hact hpois
    | abandoned path digest token s' fault hacc hnone he =>
      exact .abandoned r a path digest token s' fault hacc hnone he
    | staged path digest token hacc hnone => exact .staged r a path digest token hacc hnone
  | write owner payload a =>
    have h := write_outcome s owner payload a
    simp only [Call.apply]
    generalize (EvFileTransfer.write s owner payload a).1 = s',
      (EvFileTransfer.write s owner payload a).2.1 = fault at h
    cases h with
    | rejected fault _ _ _ => exact .unchanged _ _ _ rfl rfl rfl (by simp) (fun _ => rfl)
    | failed s' fault ht _ he =>
      exact .ended _ _ _ _ ht.active ht.clean he (by simp) (fun _ => rfl)
    | accepted ht hdone => exact .accepted owner payload a ht hdone
  | finish owner uploadId commit a =>
    have h := finish_outcome sha256 owner uploadId commit a hn
    simp only [Call.apply]
    generalize (EvFileTransfer.finish sha256 s owner uploadId commit a).1 = s',
      (EvFileTransfer.finish sha256 s owner uploadId commit a).2.1 = fault at h
    cases h with
    | rejected fault hf =>
      refine .unchanged _ _ _ rfl rfl rfl (by simp) fun hq => ?_
      rcases hq with hq | hq <;> simp [Option.some.inj hq] at hf
    | aborted s' fault hmay hc he =>
      subst hc
      exact .ended _ _ _ _ hmay.active hmay.clean he (fun _ => .inl ⟨_, _, _, rfl⟩) (fun _ => rfl)
    | failed s' fault hmay hc hf he =>
      refine .ended _ _ _ _ hmay.active hmay.clean he (by simp) fun hq => ?_
      rcases hq with hq | hq <;> simp [Option.some.inj hq] at hf
    | published s' fault hmay hc hf hr hsha hp hlock hfile hadm =>
      subst hc
      exact .published owner uploadId a fault s' hmay hf hr hsha hp hfile hadm
    | rolledAside s' fs hmay hc hp hothers hlock hfile hadm =>
      subst hc
      exact .rolledAside owner uploadId a fs s' hmay hp hothers hfile hadm
  | poll a =>
    have h := poll_outcome s a
    simp only [Call.apply]
    generalize EvFileTransfer.poll s a = s' at h
    cases h with
    | kept => exact .unchanged _ _ _ rfl rfl rfl (fun _ => .inr ⟨_, rfl⟩) (by simp)
    | ended s' hact hpois he =>
      exact .ended _ _ _ _ hact hpois he (fun _ => .inr ⟨_, rfl⟩) (by simp)

theorem Phase.named {h : List Event} {s : State} (hp : Phase h s) (hact : s.file.active = true)
    (hclean : s.file.poisoned = false) : ∃ u, uploadOf h = some u ∧ Working s u := by
  cases hp with
  | idle hi _ => simp [hi] at hact
  | working u hu w => exact ⟨u, hu, w⟩
  | held _ hpois => simp [hpois] at hclean

theorem Working.of_eq {s s' : State} {u : Upload} (w : Working s u) (hf : s'.file = s.file)
    (hfs : s'.fs = s.fs) : Working s' u := by
  constructor
  · exact hf ▸ w.active
  · exact hf ▸ w.clean
  · exact hf ▸ w.path
  · exact hf ▸ w.temporary
  · exact hf ▸ w.id
  · exact hf ▸ w.digest
  · exact hf ▸ w.owner
  · exact hf ▸ w.total
  · exact hf ▸ hfs ▸ w.staged
  · exact hf ▸ w.hash
  · exact hf ▸ w.received
  · exact hf ▸ w.bounded

theorem Phase.of_eq {h h' : List Event} {s s' : State} (hp : Phase h s) (hf : s'.file = s.file)
    (hfs : s'.fs = s.fs) (hu : uploadOf h' = uploadOf h) : Phase h' s' := by
  cases hp with
  | idle h1 h2 => exact .idle (hf ▸ h1) (hf ▸ h2)
  | working u hup w => exact .working u (hu.trans hup) (w.of_eq hf hfs)
  | held h1 h2 => exact .held (hf ▸ h1) (hf ▸ h2)

/-- A call that changes nothing does not count towards the upload. -/
theorem upload_unchanged {c : Call} {fault : Option Fault} (u : Option Upload)
    (h : fault = none → (∃ created, c = .init created) ∨ ∃ a, c = .poll a) :
    Event.upload u ⟨c, fault⟩ = u := by
  cases fault with
  | some fault => exact Event.upload_fault u c fault
  | none =>
    rcases h rfl with ⟨created, rfl⟩ | ⟨a, rfl⟩
    · rfl
    · rfl

/-- A step is a change, and tells what it returns. -/
theorem change_of_step {sha256 : List UInt8 → List UInt8} {h : List Event} {s s' : State}
    {e : Event} (hi : Inv h s) (hstep : (transfers sha256).step s e s') :
    Change sha256 s e.call e.fault s' := by
  obtain ⟨c, fault⟩ := e
  have hn : s.file.active = true → s.file.poisoned = false → Named s.file := fun h1 h2 =>
    (hi.phase.named h1 h2).elim fun u hu => hu.2.named
  have hc : Change sha256 s c (c.apply sha256 s).2 (c.apply sha256 s).1 := change_of_apply hn c
  obtain ⟨rfl, rfl⟩ : s' = (c.apply sha256 s).1 ∧ fault = (c.apply sha256 s).2 :=
    Prod.mk.inj (show (s', fault) = c.apply sha256 s from hstep)
  exact hc

theorem inv_step {sha256 : List UInt8 → List UInt8} {h : List Event} {s s' : State} {e : Event}
    (hi : Inv h s) (hstep : (transfers sha256).step s e s') : Inv (h ++ [e]) s' := by
  have hc := change_of_step hi hstep
  have hupload := uploadOf_append h e
  obtain ⟨c, fault⟩ := e
  cases hc with
  | unchanged c fault s' hf hfs hadm hnone _ =>
    rw [upload_unchanged _ hnone] at hupload
    refine ⟨hi.phase.of_eq hf hfs hupload, fun v => ?_⟩
    rw [hadm, hf]
    exact hi.admitted v
  | dropped r a f fault hidle hact hpois =>
    refine ⟨.idle hact hpois, fun v => ?_⟩
    have := hi.admitted v
    simp only [hidle, Bool.false_eq_true, false_and, if_false] at this
    simp [this, hact]
  | abandoned r a path digest token s' fault hacc _ he =>
    exact ⟨he.phase, he.admitted rfl (opened_admitted hacc hi.admitted)⟩
  | staged r a path digest token hacc _ =>
    exact ⟨.working _ hupload (opened_working hacc), opened_admitted hacc hi.admitted⟩
  | accepted owner payload a ht hdone =>
    obtain ⟨u, hu, w⟩ := hi.phase.named ht.active ht.clean
    rw [hu] at hupload
    exact ⟨.working _ hupload (w.grown ht a.nowMs hdone), hi.admitted⟩
  | ended c fault s' close hact _ he _ _ => exact ⟨he.phase, he.admitted hact hi.admitted⟩
  | published owner uploadId a fault s' hmay _ _ _ _ hfile hadm =>
    exact ⟨.idle (by simp [hfile]) (by simp [hfile]),
      admitted_released hfile hadm hmay.active hi.admitted⟩
  | rolledAside owner uploadId a fs s' hmay _ _ hfile hadm =>
    exact ⟨.idle (by simp [hfile]) (by simp [hfile]),
      admitted_released hfile hadm hmay.active hi.admitted⟩

theorem inv_of_reaches {sha256 : List UInt8 → List UInt8} {h : List Event} {s : State}
    (hr : Reaches (transfers sha256) h s) : Inv h s := by
  refine hr.invariant (fun s hs => ?_) fun h s e s' _ hi hstep => inv_step hi hstep
  obtain ⟨_, hf, hadm⟩ := hs
  exact ⟨.idle (by simp [hf]) (by simp [hf]), fun v => by simp [hf, hadm]⟩

/-! ## Every call of every run -/

/-- The `begin` of the upload under way did not find the file. -/
def CreatedHere (sha256 : List UInt8 → List UInt8) (h : List Event) (p : Path) : Prop :=
  ∃ h₀ r a rest s₀, h = h₀ ++ ⟨.begin r a, none⟩ :: rest ∧ Reaches (transfers sha256) h₀ s₀ ∧
    s₀.fs p = none ∧ (uploadOf h).map Upload.request = some r

theorem CreatedHere.later {sha256 : List UInt8 → List UInt8} {h : List Event} {p : Path} {e : Event}
    (hc : CreatedHere sha256 h p)
    (hu : (uploadOf (h ++ [e])).map Upload.request = (uploadOf h).map Upload.request) :
    CreatedHere sha256 (h ++ [e]) p := by
  obtain ⟨h₀, r, a, rest, s₀, rfl, hr, hp, hreq⟩ := hc
  exact ⟨h₀, r, a, rest ++ [e], s₀, by simp, hr, hp, hu.trans hreq⟩

theorem Ended.not_working {s s' : State} {close : Bool} (he : Ended s s' close)
    (hact : s'.file.active = true) : s'.file.poisoned = true := by
  rcases he.result with ⟨hf, _⟩ | ⟨_, _, hpois, _⟩
  · simp [hf] at hact
  · exact hpois

theorem created_of_reaches {sha256 : List UInt8 → List UInt8} {h : List Event} {s : State}
    (hr : Reaches (transfers sha256) h s) (hact : s.file.active = true)
    (hclean : s.file.poisoned = false) : CreatedHere sha256 h s.file.temporary := by
  suffices hI : s.file.active = true → s.file.poisoned = false →
      CreatedHere sha256 h s.file.temporary from hI hact hclean
  clear hact hclean
  refine hr.invariant (I := fun h s => s.file.active = true → s.file.poisoned = false →
    CreatedHere sha256 h s.file.temporary) (fun s hs hact => ?_) fun h s e s' hr ih hstep => ?_
  · simp [hs.2.1] at hact
  · intro hact hclean
    have hupload := uploadOf_append h e
    obtain ⟨c, fault⟩ := e
    cases change_of_step (inv_of_reaches hr) hstep with
    | unchanged c fault s' hf hfs hadm hnone _ =>
      rw [upload_unchanged _ hnone] at hupload
      rw [hf] at hact hclean ⊢
      exact (ih hact hclean).later (by rw [hupload])
    | dropped r a f fault _ hidle _ => simp [hidle] at hact
    | abandoned r a path digest token s' fault _ _ he => simp [he.not_working hact] at hclean
    | staged r a path digest token hacc hnone =>
      exact ⟨h, r, a, [], s, rfl, hr, hnone, by rw [hupload]; rfl⟩
    | accepted owner payload a ht hdone =>
      refine (ih hact hclean).later ?_
      rw [hupload]
      cases uploadOf h with
      | none => rfl
      | some u => rfl
    | ended c fault s' close _ _ he _ _ => simp [he.not_working hact] at hclean
    | published owner uploadId a fault s' _ _ _ _ _ hfile _ => simp [hfile] at hact
    | rolledAside owner uploadId a fs s' _ _ _ hfile _ => simp [hfile] at hact

/-- The target holds the upload. -/
structure Holds (sha256 : List UInt8 → List UInt8) (h : List Event) (target : Path)
    (fs : Files Path) : Prop where
  upload : ∃ u path, uploadOf h = some u ∧ u.request.path = some path ∧ target = targetOf path ∧
    fs target = some (.file u.bytes) ∧ u.bytes.length = u.request.total.toNat ∧
    unhex u.request.sha256 32 = some (sha256 u.bytes)

/-- Who makes a call, and the session at its start. -/
def Call.caller : Call → Option (Snapshot × Option Snapshot)
  | .write owner _ a => some (owner, a.current)
  | .finish owner _ _ a => some (owner, a.current)
  | _ => none

/-- What a call may do to the files, to the transfer and to the admissions. -/
structure Atomic (sha256 : List UInt8 → List UInt8) (h : List Event) (s : State) (e : Event)
    (s' : State) : Prop where
  /-- Only a commit changes a file that is not the staging file. -/
  files : e.call.isCommit = false → ∀ p, s'.fs p ≠ s.fs p →
    (s.file.active = true ∧ p = s.file.temporary) ∨ ∃ r a path,
      e.call = .begin r a ∧ r.path = some path ∧ p = temporaryOf (targetOf path) r.uploadId
  target : e.call.isCommit = false → s.file.active = true →
    s'.fs s.file.target = s.fs s.file.target
  committed : e.call.isCommit = true → e.fault = none ∨ e.fault = some .storageQuarantined →
    Holds sha256 h s.file.target s'.fs
  uncommitted : e.call.isCommit = true → ∀ fault, e.fault = some fault →
    fault ≠ .storageQuarantined → fault ≠ .fileRollbackFailed →
    s'.fs s.file.target = s.fs s.file.target
  aside : e.call.isCommit = true → e.fault = some .fileRollbackFailed →
    ∃ bytes, s.fs s.file.target = some (.file bytes) ∧ s'.fs s.file.backup = some (.file bytes)
  rejected : ∀ owner payload a, e.call = .write owner payload a →
    ¬Takes s owner payload a.current → s' = s ∧ e.fault ≠ none
  failed : ∀ owner payload a, e.call = .write owner payload a →
    Takes s owner payload a.current → e.fault ≠ none →
    s'.fs s.file.target = s.fs s.file.target ∧
      (s'.file.active = false ∨ a.discard.close = false ∧ s'.file.poisoned = true)
  owner : ∀ owner current, e.call.caller = some (owner, current) →
    s'.fs ≠ s.fs ∨ s'.file ≠ s.file ∨ e.fault = none →
    ∃ u, uploadOf h = some u ∧ sameOwner u.request.owner owner = true ∧
      currentOwner owner current = true
  removed : ∀ p, s.fs p ≠ none → s'.fs p = none →
    (p = s.file.temporary ∧ CreatedHere sha256 h p) ∨
      (e.fault = some .fileRollbackFailed ∧ p = s.file.target)
  admitted : Admitted s'
  held : s.file.poisoned = true →
    s'.fs = s.fs ∧ s'.file = s.file ∧ s'.admissions = s.admissions

section Step

variable {sha256 : List UInt8 → List UInt8} {h : List Event} {s s' : State} {c : Call}
  {fault : Option Fault}

theorem opened_of_ne {r : BeginRequest} {path : Path} {digest token : List UInt8} {nowMs : UInt32}
    {p : Path} (hp : p ≠ temporaryOf (targetOf path) r.uploadId) :
    (opened s r path digest token nowMs).fs p = s.fs p := by
  simp [opened, hp]

theorem Change.files (hc : Change sha256 s c fault s') (hcommit : c.isCommit = false) {p : Path}
    (hp : s'.fs p ≠ s.fs p) : (s.file.active = true ∧ p = s.file.temporary) ∨ ∃ r a path,
      c = .begin r a ∧ r.path = some path ∧ p = temporaryOf (targetOf path) r.uploadId := by
  cases hc with
  | unchanged c fault s' _ hfs _ _ _ => exact absurd (congrFun hfs p) hp
  | dropped r a f fault _ _ _ => exact absurd rfl hp
  | abandoned r a path digest token s' fault hacc _ he =>
    refine .inr ⟨r, a, path, rfl, hacc.path.1, ?_⟩
    by_contra hne
    exact hp ((he.others p hne).trans (opened_of_ne hne))
  | staged r a path digest token hacc _ =>
    refine .inr ⟨r, a, path, rfl, hacc.path.1, ?_⟩
    by_contra hne
    exact hp (opened_of_ne hne)
  | accepted owner payload a ht _ =>
    refine .inl ⟨ht.active, ?_⟩
    by_contra hne
    exact hp (writeLoop_of_ne hne _ _ _)
  | ended c fault s' close hact _ he _ _ =>
    refine .inl ⟨hact, ?_⟩
    by_contra hne
    exact hp (he.others p hne)
  | published => simp [Call.isCommit] at hcommit
  | rolledAside => simp [Call.isCommit] at hcommit

/-- While a transfer is active no other is begun. -/
theorem Change.target (hi : Inv h s) (hc : Change sha256 s c fault s')
    (hcommit : c.isCommit = false) (hact : s.file.active = true) :
    s'.fs s.file.target = s.fs s.file.target := by
  cases hc with
  | unchanged c fault s' _ hfs _ _ _ => exact congrFun hfs _
  | dropped r a f fault hidle _ _ => simp [hidle] at hact
  | abandoned r a path digest token s' fault hacc _ _ => simp [hacc.idle] at hact
  | staged r a path digest token hacc _ => simp [hacc.idle] at hact
  | accepted owner payload a ht _ =>
    obtain ⟨u, _, w⟩ := hi.phase.named ht.active ht.clean
    exact writeLoop_of_ne w.named.target_ne _ _ _
  | ended c fault s' close hact hclean he _ _ =>
    obtain ⟨u, _, w⟩ := hi.phase.named hact hclean
    exact he.others _ w.named.target_ne
  | published => simp [Call.isCommit] at hcommit
  | rolledAside => simp [Call.isCommit] at hcommit

theorem Working.holds {u : Upload} (w : Working s u) (hu : uploadOf h = some u)
    (hr : s.file.received = s.file.total) (hsha : sha256 s.file.hash = s.file.expectedHash)
    {fs : Files Path} (hp : Published s fs) : Holds sha256 h s.file.target fs := by
  obtain ⟨path, hpath, _, htarget⟩ := w.path
  refine ⟨u, path, hu, hpath, htarget, hp.target.trans w.staged, ?_, ?_⟩
  · rw [← w.received, hr, w.total]
  · rw [w.digest, ← hsha, w.hash]

theorem Change.committed (hi : Inv h s) (hc : Change sha256 s c fault s')
    (hcommit : c.isCommit = true) (hf : fault = none ∨ fault = some .storageQuarantined) :
    Holds sha256 h s.file.target s'.fs := by
  cases hc with
  | unchanged c fault s' _ _ _ hnone hq =>
    rcases hf with rfl | rfl
    · rcases hnone rfl with ⟨_, rfl⟩ | ⟨_, rfl⟩ <;> simp [Call.isCommit] at hcommit
    · simp [hq (.inl rfl)] at hcommit
  | dropped => simp [Call.isCommit] at hcommit
  | abandoned => simp [Call.isCommit] at hcommit
  | staged => simp [Call.isCommit] at hcommit
  | accepted => simp [Call.isCommit] at hcommit
  | ended c fault s' close _ _ _ hnone hq =>
    rcases hf with rfl | rfl
    · rcases hnone rfl with ⟨_, _, _, rfl⟩ | ⟨_, rfl⟩ <;> simp [Call.isCommit] at hcommit
    · simp [hq (.inl rfl)] at hcommit
  | published owner uploadId a fault s' hmay _ hr hsha hp _ _ =>
    obtain ⟨u, hu, w⟩ := hi.phase.named hmay.active hmay.clean
    exact w.holds hu hr hsha hp
  | rolledAside => simp at hf

theorem Change.uncommitted (hi : Inv h s) (hc : Change sha256 s c fault s')
    (hcommit : c.isCommit = true) {f : Fault} (hf : fault = some f)
    (hq : f ≠ .storageQuarantined) (hb : f ≠ .fileRollbackFailed) :
    s'.fs s.file.target = s.fs s.file.target := by
  cases hc with
  | unchanged c fault s' _ hfs _ _ _ => exact congrFun hfs _
  | dropped => simp [Call.isCommit] at hcommit
  | abandoned => simp [Call.isCommit] at hcommit
  | staged => simp [Call.isCommit] at hcommit
  | accepted => simp [Call.isCommit] at hcommit
  | ended c fault s' close hact hclean he _ _ =>
    obtain ⟨u, _, w⟩ := hi.phase.named hact hclean
    exact he.others _ w.named.target_ne
  | published owner uploadId a fault s' _ hfault _ _ _ _ _ =>
    subst hf
    simp [hq] at hfault
  | rolledAside => exact absurd (Option.some.inj hf).symm hb

theorem Change.aside (hi : Inv h s) (hc : Change sha256 s c fault s') (hcommit : c.isCommit = true)
    (hf : fault = some .fileRollbackFailed) :
    ∃ bytes, s.fs s.file.target = some (.file bytes) ∧
      s'.fs s.file.backup = some (.file bytes) := by
  cases hc with
  | unchanged c fault s' _ _ _ _ hq => simp [hq (.inr hf)] at hcommit
  | dropped => simp [Call.isCommit] at hcommit
  | abandoned => simp [Call.isCommit] at hcommit
  | staged => simp [Call.isCommit] at hcommit
  | accepted => simp [Call.isCommit] at hcommit
  | ended c fault s' close _ _ _ _ hq => simp [hq (.inr hf)] at hcommit
  | published owner uploadId a fault s' _ hfault _ _ _ _ _ =>
    subst hf
    simp at hfault
  | rolledAside owner uploadId a fs s' hmay hp hothers _ _ =>
    obtain ⟨u, _, w⟩ := hi.phase.named hmay.active hmay.clean
    obtain ⟨bytes, hold⟩ := hp.old
    refine ⟨bytes, hold, ?_⟩
    rw [hothers _ w.named.backup_ne.1, hp.backup, hold]

theorem Change.removed (hr : Reaches (transfers sha256) h s) (hc : Change sha256 s c fault s')
    {p : Path} (hp : s.fs p ≠ none) (hp' : s'.fs p = none) :
    (p = s.file.temporary ∧ CreatedHere sha256 h p) ∨
      (fault = some .fileRollbackFailed ∧ p = s.file.target) := by
  have hi := inv_of_reaches hr
  have hown (hact : s.file.active = true) (hclean : s.file.poisoned = false)
      (hq : p = s.file.temporary) : p = s.file.temporary ∧ CreatedHere sha256 h p :=
    ⟨hq, hq ▸ created_of_reaches hr hact hclean⟩
  cases hc with
  | unchanged c fault s' _ hfs _ _ _ => exact absurd ((congrFun hfs p).symm.trans hp') hp
  | dropped r a f fault _ _ _ => exact absurd hp' hp
  | abandoned r a path digest token s' fault _ hnone he =>
    have hne : p ≠ temporaryOf (targetOf path) r.uploadId := fun hq => hp (hq ▸ hnone)
    exact absurd ((opened_of_ne hne).symm.trans ((he.others p hne).symm.trans hp')) hp
  | staged r a path digest token _ hnone =>
    have hne : p ≠ temporaryOf (targetOf path) r.uploadId := fun hq => hp (hq ▸ hnone)
    exact absurd ((opened_of_ne hne).symm.trans hp') hp
  | accepted owner payload a ht _ =>
    refine .inl (hown ht.active ht.clean ?_)
    by_contra hne
    exact hp ((writeLoop_of_ne hne _ _ _).symm.trans hp')
  | ended c fault s' close hact hclean he _ _ =>
    refine .inl (hown hact hclean ?_)
    by_contra hne
    exact hp ((he.others p hne).symm.trans hp')
  | published owner uploadId a fault s' hmay _ _ _ hpub _ _ =>
    refine .inl (hown hmay.active hmay.clean ?_)
    obtain ⟨u, _, w⟩ := hi.phase.named hmay.active hmay.clean
    by_contra hne
    by_cases h1 : p = s.file.target
    · rw [h1, hpub.target, w.staged] at hp'
      simp at hp'
    · by_cases h2 : p = s.file.backup
      · exact hp (h2 ▸ (hpub.backup (h2 ▸ hp)).symm.trans (h2 ▸ hp'))
      · exact hp ((hpub.others p h1 hne h2).symm.trans hp')
  | rolledAside owner uploadId a fs s' hmay haside hothers _ _ =>
    by_cases hq : p = s.file.temporary
    · exact .inl (hown hmay.active hmay.clean hq)
    · refine .inr ⟨rfl, ?_⟩
      by_contra h1
      by_cases h2 : p = s.file.backup
      · exact hp (h2 ▸ haside.fresh)
      · exact hp ((haside.others p h1 h2).symm.trans ((hothers p hq).symm.trans hp'))

/-- A transfer that is held back stays as it is. -/
theorem Change.held (hi : Inv h s) (hc : Change sha256 s c fault s')
    (hpois : s.file.poisoned = true) :
    s'.fs = s.fs ∧ s'.file = s.file ∧ s'.admissions = s.admissions := by
  have hact : s.file.active = true := by
    cases hi.phase with
    | idle _ hclean => simp [hclean] at hpois
    | working u _ w => exact w.active
    | held hact _ => exact hact
  cases hc with
  | unchanged c fault s' hf hfs hadm _ _ => exact ⟨hfs, hf, hadm⟩
  | dropped r a f fault hidle _ _ => simp [hidle] at hact
  | abandoned r a path digest token s' fault hacc _ _ => simp [hacc.idle] at hact
  | staged r a path digest token hacc _ => simp [hacc.idle] at hact
  | accepted owner payload a ht _ => simp [ht.clean] at hpois
  | ended c fault s' close _ hclean _ _ _ => simp [hclean] at hpois
  | published owner uploadId a fault s' hmay _ _ _ _ _ _ => simp [hmay.clean] at hpois
  | rolledAside owner uploadId a fs s' hmay _ _ _ _ => simp [hmay.clean] at hpois

theorem write_owner {owner : Snapshot} {payload : List UInt8} {a : WriteAnswers} (hi : Inv h s)
    (hchange : (write s owner payload a).1.fs ≠ s.fs ∨ (write s owner payload a).1.file ≠ s.file ∨
      (write s owner payload a).2.1 = none) :
    ∃ u, uploadOf h = some u ∧ sameOwner u.request.owner owner = true ∧
      currentOwner owner a.current = true := by
  have hout := write_outcome s owner payload a
  have htakes : Takes s owner payload a.current := by
    generalize (write s owner payload a).1 = s', (write s owner payload a).2.1 = fault
      at hout hchange
    cases hout with
    | rejected fault _ _ _ => simp at hchange
    | failed s' fault ht _ _ => exact ht
    | accepted ht _ => exact ht
  obtain ⟨u, hu, w⟩ := hi.phase.named htakes.active htakes.clean
  exact ⟨u, hu, w.owner ▸ htakes.mine, htakes.current⟩

theorem finish_owner {owner : Snapshot} {uploadId : Option Path} {commit : Bool} {a : EndAnswers}
    (hi : Inv h s)
    (hchange : (finish sha256 s owner uploadId commit a).1.fs ≠ s.fs ∨
      (finish sha256 s owner uploadId commit a).1.file ≠ s.file ∨
      (finish sha256 s owner uploadId commit a).2.1 = none) :
    ∃ u, uploadOf h = some u ∧ sameOwner u.request.owner owner = true ∧
      currentOwner owner a.current = true := by
  have hout := finish_outcome sha256 owner uploadId commit a fun h1 h2 =>
    (hi.phase.named h1 h2).elim fun u hu => hu.2.named
  have hmay : MayEnd s owner uploadId a.current := by
    generalize (finish sha256 s owner uploadId commit a).1 = s',
      (finish sha256 s owner uploadId commit a).2.1 = fault at hout hchange
    cases hout with
    | rejected fault _ => simp at hchange
    | aborted s' fault hmay _ _ => exact hmay
    | failed s' fault hmay _ _ _ => exact hmay
    | published s' fault hmay _ _ _ _ _ _ _ _ => exact hmay
    | rolledAside s' fs hmay _ _ _ _ _ _ => exact hmay
  obtain ⟨u, hu, w⟩ := hi.phase.named hmay.active hmay.clean
  exact ⟨u, hu, w.owner ▸ hmay.mine, hmay.current⟩

end Step

/-- **Uploads are atomic**, at every call of every run. -/
theorem upload_atomic {sha256 : List UInt8 → List UInt8} {h : List Event} {s s' : State} {e : Event}
    (hr : Reaches (transfers sha256) h s) (hstep : (transfers sha256).step s e s') :
    Atomic sha256 h s e s' := by
  have hi := inv_of_reaches hr
  have hc := change_of_step hi hstep
  obtain ⟨c, fault⟩ := e
  have happly : (s', fault) = c.apply sha256 s := hstep
  exact
    { files := fun hcommit p hp => hc.files hcommit hp
      target := fun hcommit hact => hc.target hi hcommit hact
      committed := fun hcommit hf => hc.committed hi hcommit hf
      uncommitted := fun hcommit f hf hq hb => hc.uncommitted hi hcommit hf hq hb
      aside := fun hcommit hf => hc.aside hi hcommit hf
      rejected := by
        rintro owner payload a rfl hnot
        have hout := write_outcome s owner payload a
        obtain ⟨rfl, rfl⟩ := Prod.mk.inj happly
        generalize (write s owner payload a).1 = s', (write s owner payload a).2.1 = fault at hout
        cases hout with
        | rejected fault _ _ _ => exact ⟨rfl, by simp⟩
        | failed s' fault ht _ _ => exact absurd ht hnot
        | accepted ht _ => exact absurd ht hnot
      failed := by
        rintro owner payload a rfl htakes hfault
        have htarget := hc.target hi rfl htakes.active
        have hout := write_outcome s owner payload a
        obtain ⟨rfl, rfl⟩ := Prod.mk.inj happly
        refine ⟨htarget, ?_⟩
        dsimp only at hfault
        generalize (write s owner payload a).1 = s', (write s owner payload a).2.1 = fault
          at hout hfault
        cases hout with
        | rejected fault hnot _ _ => exact absurd htakes hnot
        | failed s' fault _ _ he =>
          rcases he.result with ⟨hf, _⟩ | ⟨hclose, _, hpois, _⟩
          · exact .inl (by simp [hf])
          · exact .inr ⟨hclose, hpois⟩
        | accepted _ _ => exact absurd rfl hfault
      owner := by
        intro owner current hcaller hchange
        obtain ⟨rfl, rfl⟩ := Prod.mk.inj happly
        cases c with
        | write owner' payload a =>
          obtain ⟨rfl, rfl⟩ : owner' = owner ∧ a.current = current := by
            simpa [Call.caller] using hcaller
          exact write_owner hi hchange
        | finish owner' uploadId commit a =>
          obtain ⟨rfl, rfl⟩ : owner' = owner ∧ a.current = current := by
            simpa [Call.caller] using hcaller
          exact finish_owner hi hchange
        | _ => simp [Call.caller] at hcaller
      removed := fun p hp hp' => hc.removed hr hp hp'
      admitted := (inv_step hi hstep).admitted
      held := fun hpois => hc.held hi hpois }

/-! ## Runs that can be computed -/

/-- The calls in turn. -/
def State.run (sha256 : List UInt8 → List UInt8) (s : State) : List Call → List Event × State
  | [] => ([], s)
  | c :: calls =>
    let done := c.apply sha256 s
    let rest := done.1.run sha256 calls
    (⟨c, done.2⟩ :: rest.1, rest.2)

theorem run_path (sha256 : List UInt8 → List UInt8) (s : State) (calls : List Call) :
    TransitionSystem.Path (transfers sha256) s (s.run sha256 calls).1 (s.run sha256 calls).2 := by
  induction calls generalizing s with
  | nil => exact .nil s
  | cons c calls ih => exact .cons rfl (ih _)

theorem run_reaches (sha256 : List UInt8 → List UInt8) (fs : Files Path) (calls : List Call) :
    Reaches (transfers sha256) (State.run sha256 { fs := fs } calls).1
      (State.run sha256 { fs := fs } calls).2 := by
  have hinit : Reaches (transfers sha256) [] { fs := fs } := .init ⟨rfl, rfl, rfl⟩
  simpa using hinit.append (run_path sha256 _ calls)

/-- A session that stays. -/
def someOwner : Snapshot :=
  { noSnapshot with hasOwner := true, vmReady := true, handshakeComplete := true }

/-- An upload of three bytes to `/flash/t`. -/
def someBegin : Call :=
  .begin ⟨someOwner, some [0x2f, 0x74], true, 3, some (List.replicate 64 0x30),
    List.replicate 32 0x30⟩ { current := some someOwner }

def someWrite (results : List WriteResult) (close : Bool) : Call :=
  .write someOwner (List.replicate 20 0 ++ [1, 2, 3])
    { current := some someOwner, results := results, currentAfter := some someOwner,
      discard := { close := close } }

def someCommit : Call :=
  .finish someOwner (some (List.replicate 32 0x30)) true
    { current := some someOwner, currentAfter := some someOwner }

/-- The commit of the three bytes, written one by one and by two. -/
theorem upload_atomic_threeBytes :
    let sha256 : List UInt8 → List UInt8 := fun _ => List.replicate 32 0
    let calls := [.init true, someBegin, someWrite [.count 1, .interrupted, .count 2] true]
    let s := State.run sha256 { fs := fun _ => none } calls
    (someCommit.apply sha256 s.2).1.fs (flashPath ++ [0x2f, 0x74]) = some (.file [1, 2, 3]) ∧
      Holds sha256 s.1 (flashPath ++ [0x2f, 0x74]) (someCommit.apply sha256 s.2).1.fs := by
  intro sha256 calls s
  have hr : Reaches (transfers sha256) s.1 s.2 := run_reaches sha256 _ calls
  have hstep : (transfers sha256).step s.2 ⟨someCommit, none⟩ (someCommit.apply sha256 s.2).1 :=
    Prod.ext rfl (by decide)
  have htarget : s.2.file.target = flashPath ++ [0x2f, 0x74] := by decide
  exact ⟨by decide, htarget ▸ (upload_atomic hr hstep).committed rfl (.inl rfl)⟩

/-- A chunk that cannot be written ends the transfer only if the descriptor can be closed. -/
theorem failed_close_keeps_transfer :
    let sha256 : List UInt8 → List UInt8 := fun _ => List.replicate 32 0
    let s := State.run sha256 { fs := fun _ => none } [.init true, someBegin]
    let done := (someWrite [.failed] false).apply sha256 s.2
    Reaches (transfers sha256) s.1 s.2 ∧ done.2 = some .fileWriteFailed ∧
      done.1.file.active = true ∧ done.1.admissions .flash = 1 := by
  intro sha256 s done
  exact ⟨run_reaches sha256 _ _, by decide, by decide, by decide⟩

end EspVision.EvFileTransfer
