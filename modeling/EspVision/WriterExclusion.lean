import EspVision.WriterGate

/-!
# Exclusion by the storage writer gate

The gate counts host and device accesses together. Here they are counted apart, each access being
finished by the side that began it, and the operations come in any order. In a managed gate that is
not quarantined the two sides are never at work together: a side is let in only after the other
one has drained, and the medium stays ejected for the host as long as the device may write.
-/
namespace EspVision.StorageWriter

open TransitionSystem

/-- The gate with the accesses in flight. -/
structure Medium where
  gate : Gate
  hostIo : ℕ
  vfsIo : ℕ

/-- An operation and what it reported. -/
structure GateEvent where
  op : Op
  ok : Bool
  deriving DecidableEq

/-- The gates that `esp_vision_msc_writer_init` makes. -/
def Booted (g : Gate) : Prop :=
  g = .init false false ∨ g = { Gate.init false false with managed := true } ∨
    g = .init false true ∨ g = .init true false

/-- An access is finished by the side that began it; the gate also accounts for a finish that
finds no access at all. -/
def Medium.enabled (m : Medium) : Op → Prop
  | .finishHostIo _ => 0 < m.hostIo ∨ m.gate.inFlightIo = 0
  | .finishVfsIo => 0 < m.vfsIo ∨ m.gate.inFlightIo = 0
  | _ => True

def hostIoAfter (n : ℕ) (e : GateEvent) : ℕ :=
  match e.op with
  | .beginHostIo => if e.ok then n + 1 else n
  | .finishHostIo _ => n - 1
  | _ => n

def vfsIoAfter (n : ℕ) (e : GateEvent) : ℕ :=
  match e.op with
  | .beginVfsIo => if e.ok then n + 1 else n
  | .finishVfsIo => n - 1
  | _ => n

/-- Operations of all parties in any order. -/
def medium : System Medium GateEvent where
  init m := Booted m.gate ∧ m.hostIo = 0 ∧ m.vfsIo = 0
  step m e m' :=
    m.enabled e.op ∧ m.gate.apply e.op = (m'.gate, e.ok) ∧
      m'.hostIo = hostIoAfter m.hostIo e ∧ m'.vfsIo = vfsIoAfter m.vfsIo e

/-- The inductive invariant. -/
structure Excluded (m : Medium) : Prop where
  counted : m.hostIo + m.vfsIo ≤ m.gate.inFlightIo
  ejected : m.gate.handoffReady ∨ m.gate.leaseHeld ∨ m.gate.quarantined → m.gate.ejected
  hostSide : m.gate.managed → m.gate.quarantined = false → m.gate.ejected = false → m.vfsIo = 0
  deviceSide : m.gate.handoffReady ∨ m.gate.leaseHeld → m.gate.quarantined = false → m.hostIo = 0
  apart : m.gate.managed → m.gate.quarantined = false → m.hostIo = 0 ∨ m.vfsIo = 0

lemma excluded_booted {m : Medium} (hb : Booted m.gate) (hh : m.hostIo = 0) (hv : m.vfsIo = 0) :
    Excluded m := by
  refine ⟨by omega, ?_, fun _ _ _ => hv, fun _ _ => hh, fun _ _ => .inl hh⟩
  rcases hb with h | h | h | h <;> simp [h, Gate.init]

lemma drained_iff {g : Gate} : g.ioDrained = true ↔ g.inFlightIo = 0 ∧ g.pendingWriteSync = 0 := by
  simp [Gate.ioDrained]

lemma hostWritable_iff {g : Gate} : g.hostWritable = true ↔
    g.ejected = false ∧ g.transitionPending = false ∧ g.leaseHeld = false ∧
      g.quarantined = false := by
  simp [Gate.hostWritable, and_assoc]

lemma pythonIoAllowed_iff {g : Gate} : g.pythonIoAllowed = true ↔
    g.transitionPending = false ∧ g.quarantined = false ∧
      (g.managed = true → g.handoffReady = true ∨ g.leaseHeld = true) := by
  cases hm : g.managed <;> simp [Gate.pythonIoAllowed, hm, and_assoc]

lemma hostIoAfter_le (n : ℕ) {e : GateEvent} (h : e.op = .beginHostIo → e.ok = false) :
    hostIoAfter n e ≤ n := by
  unfold hostIoAfter
  split
  · rename_i hop
    simp [h hop]
  · omega
  · exact le_rfl

lemma vfsIoAfter_le (n : ℕ) {e : GateEvent} (h : e.op = .beginVfsIo → e.ok = false) :
    vfsIoAfter n e ≤ n := by
  unfold vfsIoAfter
  split
  · rename_i hop
    simp [h hop]
  · omega
  · exact le_rfl

/-- A quarantined gate promises nothing but that the medium is ejected. -/
lemma Excluded.of_quarantined {m : Medium} (hc : m.hostIo + m.vfsIo ≤ m.gate.inFlightIo)
    (hq : m.gate.quarantined = true) (he : m.gate.ejected = true) : Excluded m := by
  refine ⟨hc, fun _ => he, ?_, ?_, ?_⟩ <;> simp [hq]

/-- A drained gate has no access in flight, whatever its flags become. -/
lemma Excluded.of_drained {m : Medium} {g : Gate} (hi : Excluded m)
    (hd : m.gate.ioDrained = true)
    (he : g.handoffReady ∨ g.leaseHeld ∨ g.quarantined → g.ejected) :
    Excluded ⟨g, m.hostIo, m.vfsIo⟩ := by
  have hzero := (drained_iff.mp hd).1
  have hcount := hi.counted
  have hhost : m.hostIo = 0 := by omega
  have hvfs : m.vfsIo = 0 := by omega
  constructor
  · simp only [hhost, hvfs]
    omega
  · exact he
  · exact fun _ _ _ => hvfs
  · exact fun _ _ => hhost
  · exact fun _ _ => .inl hhost

/-- Fewer accesses and more caution. -/
lemma Excluded.mono {m m' : Medium} (hi : Excluded m)
    (hc : m'.hostIo + m'.vfsIo ≤ m'.gate.inFlightIo) (hh : m'.hostIo ≤ m.hostIo)
    (hv : m'.vfsIo ≤ m.vfsIo) (hm : m'.gate.managed = m.gate.managed)
    (hq : m'.gate.quarantined = m.gate.quarantined)
    (hr : m'.gate.handoffReady = m.gate.handoffReady) (hl : m'.gate.leaseHeld = m.gate.leaseHeld)
    (he : m.gate.ejected = true → m'.gate.ejected = true) : Excluded m' := by
  constructor
  · exact hc
  · rw [hr, hl, hq]
    exact fun h => he (hi.ejected h)
  · rw [hm, hq]
    intro hman hnq hne
    have hold : m.gate.ejected = false := by
      by_contra h
      rw [Bool.not_eq_false] at h
      simp [he h] at hne
    exact Nat.le_zero.mp (hi.hostSide hman hnq hold ▸ hv)
  · rw [hr, hl, hq]
    intro hdev hnq
    exact Nat.le_zero.mp (hi.deviceSide hdev hnq ▸ hh)
  · rw [hm, hq]
    intro hman hnq
    rcases hi.apart hman hnq with h | h
    · exact .inl (Nat.le_zero.mp (h ▸ hh))
    · exact .inr (Nat.le_zero.mp (h ▸ hv))

/-- A host access begins: the medium is not ejected, so the device has none. -/
lemma Excluded.beginHostIo {m : Medium} (hi : Excluded m) (hw : m.gate.hostWritable = true) :
    Excluded ⟨{ m.gate with inFlightIo := m.gate.inFlightIo + 1 }, m.hostIo + 1, m.vfsIo⟩ := by
  obtain ⟨he, -, -, hq⟩ := hostWritable_iff.mp hw
  have hdev : ¬ (m.gate.handoffReady ∨ m.gate.leaseHeld) := by
    intro h
    have hej := hi.ejected (h.imp_right .inl)
    simp [he] at hej
  have hcount := hi.counted
  constructor
  · show m.hostIo + 1 + m.vfsIo ≤ m.gate.inFlightIo + 1
    omega
  · exact hi.ejected
  · exact hi.hostSide
  · exact fun h => absurd h hdev
  · exact fun hman hnq => .inr (hi.hostSide hman hnq he)

/-- A device access begins: in a managed gate the host has none. -/
lemma Excluded.beginVfsIo {m : Medium} (hi : Excluded m) (hp : m.gate.pythonIoAllowed = true) :
    Excluded ⟨{ m.gate with inFlightIo := m.gate.inFlightIo + 1 }, m.hostIo, m.vfsIo + 1⟩ := by
  obtain ⟨-, -, hman⟩ := pythonIoAllowed_iff.mp hp
  have hcount := hi.counted
  constructor
  · show m.hostIo + (m.vfsIo + 1) ≤ m.gate.inFlightIo + 1
    omega
  · exact hi.ejected
  · intro hm _ he
    have hej := hi.ejected ((hman hm).imp_right .inl)
    exact absurd (hej.symm.trans he) (by decide)
  · exact hi.deviceSide
  · exact fun hm hnq => .inl (hi.deviceSide (hman hm) hnq)

/-- One operation keeps the invariant. -/
theorem excluded_step {m m' : Medium} {e : GateEvent} (hi : Excluded m)
    (hstep : medium.step m e m') : Excluded m' := by
  obtain ⟨hen, happ, hh, hv⟩ := hstep
  obtain ⟨g', hostIo', vfsIo'⟩ := m'
  obtain ⟨op, ok⟩ := e
  have heff := apply_effect m.gate op
  rw [happ] at heff
  have hcount := hi.counted
  simp only at heff hh hv hen
  subst hh hv
  -- an operation that begins no access leaves no more of them
  have hle : (op = .beginHostIo → ok = false) → (op = .beginVfsIo → ok = false) →
      hostIoAfter m.hostIo ⟨op, ok⟩ ≤ m.hostIo ∧ vfsIoAfter m.vfsIo ⟨op, ok⟩ ≤ m.vfsIo :=
    fun h h' => ⟨hostIoAfter_le _ h, vfsIoAfter_le _ h'⟩
  cases heff with
  | refused =>
    obtain ⟨h1, h2⟩ := hle (fun _ => rfl) (fun _ => rfl)
    exact hi.mono (by simp only; omega) h1 h2 rfl rfl rfl rfl id
  | closed hop =>
    obtain ⟨h1, h2⟩ := hle (fun _ => rfl) (fun _ => rfl)
    exact .of_quarantined (by simp only [Gate.failClosed]; omega) rfl rfl
  | hostIoBegun hw => exact hi.beginHostIo hw
  | hostIoFinished hio =>
    have hpos : 0 < m.hostIo := hen.resolve_right hio.ne'
    exact hi.mono (by simp only [hostIoAfter, vfsIoAfter]; omega) (Nat.sub_le _ _) le_rfl rfl rfl
      rfl rfl id
  | syncBegun hq => exact hi
  | writeCompleted => exact hi.mono hcount le_rfl le_rfl rfl rfl rfl rfl id
  | vfsIoBegun hp => exact hi.beginVfsIo hp
  | vfsIoFinished hio =>
    have hpos : 0 < m.vfsIo := hen.resolve_right hio.ne'
    exact hi.mono (by simp only [hostIoAfter, vfsIoAfter]; omega) le_rfl (Nat.sub_le _ _) rfl rfl
      rfl rfl id
  | ejectBegun ht hl hq => exact hi.mono hcount le_rfl le_rfl rfl rfl rfl rfl fun _ => rfl
  | ejectFinished ht hl hq hd => exact hi.of_drained hd fun _ => rfl
  | loadBegun => exact hi.mono hcount le_rfl le_rfl rfl rfl rfl rfl id
  | loadFinished ht he hl hq hd => exact hi.of_drained hd (by simp [hl, hq])
  | acquireBegun => exact hi.mono hcount le_rfl le_rfl rfl rfl rfl rfl id
  | acquireFinished ht hd => exact hi.of_drained hd fun _ => rfl
  | releaseBegun => exact hi.mono hcount le_rfl le_rfl rfl rfl rfl rfl id
  | releaseFinished hl ht hd => exact hi.of_drained hd fun _ => rfl
  | quarantined => exact .of_quarantined hcount rfl rfl
  | sessionLost =>
    simp only [Gate.sessionInvalidated]
    split_ifs
    · exact .of_quarantined hcount rfl rfl
    · exact hi

theorem excluded_of_reaches {h : List GateEvent} {m : Medium} (hr : Reaches medium h m) :
    Excluded m := by
  refine hr.stateInvariant ?_ ?_
  · rintro m ⟨hb, hh, hv⟩
    exact excluded_booted hb hh hv
  · exact fun m e m' hi hstep => excluded_step hi hstep

/-! ## Quarantine -/

/-- Quarantined, with nothing pending and no lease. -/
structure Locked (g : Gate) : Prop where
  quarantined : g.quarantined = true
  idle : g.transitionPending = false
  free : g.leaseHeld = false

lemma locked_quarantine (g : Gate) : Locked g.quarantine := ⟨rfl, rfl, rfl⟩

lemma locked_sessionInvalidated {g : Gate}
    (h : g.transitionPending = true ∨ g.leaseHeld = true ∨ g.quarantined = true) :
    Locked g.sessionInvalidated := by
  unfold Gate.sessionInvalidated
  split_ifs with hc
  · exact locked_quarantine g
  · rw [Bool.or_eq_true, not_or, Bool.not_eq_true, Bool.not_eq_true] at hc
    simp only [hc.1, hc.2, Bool.false_eq_true, false_or] at h
    exact ⟨h, hc.1, hc.2⟩

/-- No operation ends a quarantine, and none begins anything in it. -/
lemma quarantined_apply {g : Gate} (hq : g.quarantined = true) (op : Op) :
    (g.apply op).1.quarantined = true ∧
      (op.begins = true ∨ op = .finishEject ∨ op = .finishLoad → (g.apply op).2 = false) := by
  have heff := apply_effect g op
  generalize (g.apply op).1 = g' at heff
  generalize (g.apply op).2 = ok at heff
  cases heff with
  | refused => exact ⟨hq, fun _ => rfl⟩
  | closed => exact ⟨rfl, fun _ => rfl⟩
  | hostIoBegun hw => simp [(hostWritable_iff.mp hw).2.2.2] at hq
  | vfsIoBegun hp => simp [(pythonIoAllowed_iff.mp hp).2.1] at hq
  | ejectBegun ht hl hnq | ejectFinished ht hl hnq | loadBegun he hr ht hl hnq
  | loadFinished ht he hl hnq | acquireBegun he ht hl hnq | releaseBegun hl ht hnq
  | syncBegun hnq => simp [hnq] at hq
  | quarantined => exact ⟨rfl, by simp [Op.begins]⟩
  | sessionLost =>
    refine ⟨?_, by simp [Op.begins]⟩
    unfold Gate.sessionInvalidated
    split_ifs
    · rfl
    · exact hq
  | _ => exact ⟨hq, by simp [Op.begins]⟩

/-- In a locked gate no transition finishes either, and it stays locked. -/
lemma locked_apply {g : Gate} (hl : Locked g) (op : Op) :
    Locked (g.apply op).1 ∧ (op.finishesTransition = true → (g.apply op).2 = false) := by
  have hq := (quarantined_apply hl.quarantined op).1
  have heff := apply_effect g op
  generalize (g.apply op).1 = g' at heff hq
  generalize (g.apply op).2 = ok at heff
  cases heff with
  | refused => exact ⟨hl, fun _ => rfl⟩
  | closed => exact ⟨⟨rfl, hl.idle, hl.free⟩, fun _ => rfl⟩
  | ejectBegun ht hf hnq | loadBegun he hr ht hf hnq | acquireBegun he ht hf hnq
  | releaseBegun hf ht hnq => simp [hl.quarantined] at hnq
  | ejectFinished ht | loadFinished ht | acquireFinished ht | releaseFinished hf ht =>
    simp [hl.idle] at ht
  | quarantined => exact ⟨locked_quarantine g, by simp [Op.finishesTransition]⟩
  | sessionLost =>
    exact ⟨locked_sessionInvalidated (.inr (.inr hl.quarantined)), by simp [Op.finishesTransition]⟩
  | _ => exact ⟨⟨hq, hl.idle, hl.free⟩, by simp [Op.finishesTransition]⟩

/-- A transition finishes only when nothing is in flight. -/
lemma drained_of_finish {g : Gate} {op : Op} (hop : op.finishesTransition = true)
    (hok : (g.apply op).2 = true) : g.inFlightIo = 0 ∧ g.pendingWriteSync = 0 := by
  have heff := apply_effect g op
  generalize (g.apply op).1 = g' at heff
  generalize (g.apply op).2 = ok at heff hok
  cases heff with
  | refused | closed => cases hok
  | ejectFinished ht hl hq hd | loadFinished ht he hl hq hd | acquireFinished ht hd
  | releaseFinished hl ht hd => exact drained_iff.mp hd
  | _ => cases hop

/-- A locked gate stays locked, whatever follows. -/
theorem locked_path {m m' : Medium} {h : List GateEvent} (hp : Path medium m h m')
    (hl : Locked m.gate) :
    Locked m'.gate ∧ ∀ e ∈ h, e.op.finishesTransition = true → e.ok = false := by
  refine hp.closed (P := fun m => Locked m.gate)
    (Q := fun e => e.op.finishesTransition = true → e.ok = false) ?_ hl
  rintro m ⟨op, ok⟩ m' hl ⟨-, happ, -⟩
  have hlock := locked_apply hl op
  rwa [happ] at hlock

/-- The events that lock the gate: a quarantine, and the loss of a session while a transition, a
lease or a quarantine is at stake. -/
def Locks (g : Gate) (op : Op) : Prop :=
  op = .quarantine ∨ op = .sessionInvalidated ∧
    (g.transitionPending = true ∨ g.leaseHeld = true ∨ g.quarantined = true)

lemma locked_of_locks {g : Gate} {op : Op} (h : Locks g op) : Locked (g.apply op).1 := by
  rcases h with rfl | ⟨rfl, h⟩
  · exact locked_quarantine g
  · exact locked_sessionInvalidated h

/-- Exclusion of host and device. In every run: a managed gate that is not quarantined has no host
and device access in flight together; a handoff, a lease and a quarantine each keep the medium
ejected; a transition finishes only when everything has drained; a quarantine never ends, lets
nothing begin and no eject or load finish; and once the gate has been locked no transition
finishes and no lease is ever held again. -/
theorem writer_gate_exclusion {h : List GateEvent} {m : Medium} (hr : Reaches medium h m) :
    (m.gate.managed = true → m.gate.quarantined = false → m.hostIo = 0 ∨ m.vfsIo = 0) ∧
      (m.gate.handoffReady = true ∨ m.gate.leaseHeld = true ∨ m.gate.quarantined = true →
        m.gate.ejected = true) ∧
      (∀ op : Op, op.finishesTransition = true → (m.gate.apply op).2 = true →
        m.hostIo = 0 ∧ m.vfsIo = 0 ∧ m.gate.pendingWriteSync = 0) ∧
      (m.gate.quarantined = true → ∀ op : Op, (m.gate.apply op).1.quarantined = true ∧
        (op.begins = true ∨ op = .finishEject ∨ op = .finishLoad →
          (m.gate.apply op).2 = false)) ∧
      (∀ op : Op, Locks m.gate op → Locked (m.gate.apply op).1) ∧
      (Locked m.gate → ∀ h' m', Path medium m h' m' →
        m'.gate.quarantined = true ∧ m'.gate.leaseHeld = false ∧
          ∀ e ∈ h', e.op.finishesTransition = true → e.ok = false) := by
  have hi := excluded_of_reaches hr
  refine ⟨hi.apart, hi.ejected, ?_, fun hq op => quarantined_apply hq op,
    fun op hop => locked_of_locks hop, ?_⟩
  · intro op hop hok
    obtain ⟨hio, hsync⟩ := drained_of_finish hop hok
    have hcount := hi.counted
    exact ⟨by omega, by omega, hsync⟩
  · intro hl h' m' hp
    obtain ⟨hl', hall⟩ := locked_path hp hl
    exact ⟨hl'.quarantined, hl'.free, hall⟩

/-- Run operations one after the other. -/
def Medium.run (m : Medium) : List Op → List GateEvent × Medium
  | [] => ([], m)
  | op :: ops =>
    let e : GateEvent := ⟨op, (m.gate.apply op).2⟩
    let m' : Medium := ⟨(m.gate.apply op).1, hostIoAfter m.hostIo e, vfsIoAfter m.vfsIo e⟩
    (e :: (m'.run ops).1, (m'.run ops).2)

instance (m : Medium) (op : Op) : Decidable (m.enabled op) := by
  cases op <;> simp only [Medium.enabled] <;> infer_instance

/-- Every access is finished by its own side. -/
def Medium.paired (m : Medium) : List Op → Bool
  | [] => true
  | op :: ops =>
    let e : GateEvent := ⟨op, (m.gate.apply op).2⟩
    let m' : Medium := ⟨(m.gate.apply op).1, hostIoAfter m.hostIo e, vfsIoAfter m.vfsIo e⟩
    decide (m.enabled op) && m'.paired ops

lemma Medium.run_path {m : Medium} {ops : List Op} (h : m.paired ops = true) :
    Path medium m (m.run ops).1 (m.run ops).2 := by
  induction ops generalizing m with
  | nil => exact .nil m
  | cons op ops ih =>
    simp only [Medium.paired, Bool.and_eq_true, decide_eq_true_eq] at h
    exact .cons ⟨h.1, rfl, rfl, rfl⟩ (ih h.2)

/-- A gate that was handed off before the last reset. -/
def handedOff : Medium := ⟨.init false true, 0, 0⟩

lemma reaches_run {ops : List Op} (h : handedOff.paired ops = true) :
    Reaches medium (handedOff.run ops).1 (handedOff.run ops).2 := by
  have h₀ : Reaches medium [] handedOff := .init ⟨.inr (.inr (.inl rfl)), rfl, rfl⟩
  exact h₀.append (Medium.run_path h)

/-- A lease with a device access in flight. -/
def leasedAccess : List Op := [.beginAcquire, .finishAcquire, .beginVfsIo]

theorem writer_gate_exclusion_leasedAccess :
    (handedOff.run leasedAccess).2.gate.leaseHeld = true ∧
      ((handedOff.run leasedAccess).2.hostIo = 0 ∨ (handedOff.run leasedAccess).2.vfsIo = 0) ∧
      (handedOff.run leasedAccess).2.gate.ejected = true := by
  have hr : Reaches medium (handedOff.run leasedAccess).1 (handedOff.run leasedAccess).2 :=
    reaches_run (by decide)
  obtain ⟨hapart, hejected, -⟩ := writer_gate_exclusion hr
  exact ⟨by decide, hapart (by decide) (by decide), hejected (by decide)⟩

/-- A device access that outlives a quarantine finishes with success; and an acquisition finishes
with success in a gate that a failed completion has quarantined under it. -/
theorem quarantine_does_not_stop_finishing :
    Reaches medium (handedOff.run [.beginVfsIo, .quarantine, .finishVfsIo]).1
        (handedOff.run [.beginVfsIo, .quarantine, .finishVfsIo]).2 ∧
      (handedOff.run [.beginVfsIo, .quarantine, .finishVfsIo]).1 =
        [⟨.beginVfsIo, true⟩, ⟨.quarantine, true⟩, ⟨.finishVfsIo, true⟩] ∧
      Reaches medium (handedOff.run [.beginAcquire, .completeHostWrite 1 true, .finishAcquire]).1
        (handedOff.run [.beginAcquire, .completeHostWrite 1 true, .finishAcquire]).2 ∧
      (handedOff.run [.beginAcquire, .completeHostWrite 1 true, .finishAcquire]).1 =
        [⟨.beginAcquire, true⟩, ⟨.completeHostWrite 1 true, false⟩, ⟨.finishAcquire, true⟩] ∧
      (handedOff.run [.beginAcquire, .completeHostWrite 1 true, .finishAcquire]).2.gate.quarantined =
        true ∧
      (handedOff.run [.beginAcquire, .completeHostWrite 1 true, .finishAcquire]).2.gate.leaseHeld =
        true :=
  ⟨reaches_run (by decide), by decide, reaches_run (by decide), by decide, by decide, by decide⟩

end EspVision.StorageWriter
