import EspVision.SessionHistory

/-!
# Lease expiry under concurrent callers

Each caller reads the millisecond clock before it takes the session lock. The
clock is a natural number here and the functions get its value modulo `2 ^ 32`;
the readings of different tasks may reach the lock in any order.
-/
namespace EspVision.EvSession
open EvTransport TransitionSystem

/-- The clock argument of a section, if it has one. -/
def Op.now? : Op → Option UInt32
  | .acquire _ _ now _ _ => some now
  | .keepalive _ _ now _ => some now
  | .authorize _ _ _ _ now _ => some now
  | .tick now => some now
  | _ => none

/-- An event with the moment its caller read the clock and the moment it took the lock. -/
structure TimedEvent where
  event : Event
  reading : ℕ
  lockedAt : ℕ

structure Leases where
  sessions : Sessions
  clock : ℕ := 0

/-- Locks are taken in clock order; a clock argument was read at or before the lock. -/
def leases (cfg : Config) : System Leases TimedEvent where
  init s := (sessions cfg).init s.sessions ∧ s.clock = 0
  step s e t := (sessions cfg).step s.sessions e.event t.sessions ∧
    s.clock ≤ e.lockedAt ∧ t.clock = e.lockedAt ∧ e.reading ≤ e.lockedAt ∧
    ∀ now, e.event.op.now? = some now → now = UInt32.ofNat e.reading

/-- One event seen by `lastOk`. -/
def noteOk (last : Option ℕ) (e : TimedEvent) : Option ℕ :=
  if e.event.activity ≠ none then some e.reading
  else if e.event.ends then none
  else last

/-- The clock reading of the last accepted `acquire`, `keepalive` or `authorize` of the session
that is still stored; the end of a session forgets it. -/
def lastOk (h : List TimedEvent) : Option ℕ := h.foldl noteOk none

@[simp] theorem lastOk_snoc (h : List TimedEvent) (e : TimedEvent) :
    lastOk (h ++ [e]) = noteOk (lastOk h) e := by
  simp [lastOk, List.foldl_append]

/-- The stored activity of an owned session is the reading of its last accepted call. -/
def ActivityRecorded (h : List TimedEvent) (s : State) : Prop :=
  s.phase = .owned → ∃ R, lastOk h = some R ∧ s.lastActivityMs = UInt32.ofNat R

lemma now_of_activity {e : Event} {now : UInt32} (h : e.activity = some now) :
    e.op.now? = some now := by
  unfold Event.activity at h
  split at h <;> simp_all [Op.now?]

theorem activityRecorded_step {cfg : Config} {h : List TimedEvent} {s t : Leases}
    {e : TimedEvent} (hi : ActivityRecorded h s.sessions.state) (hs : (leases cfg).step s e t) :
    ActivityRecorded (h ++ [e]) t.sessions.state := by
  obtain ⟨⟨-, happ, -⟩, -, -, -, hnow⟩ := hs
  intro hp
  rw [lastOk_snoc]
  have hread : ∀ now, e.event.activity = some now →
      noteOk (lastOk h) e = some e.reading ∧ now = UInt32.ofNat e.reading := fun now ha =>
    ⟨by simp [noteOk, ha], hnow now (now_of_activity ha)⟩
  have hkeep : e.event.activity = none → e.event.ends = false →
      noteOk (lastOk h) e = lastOk h := fun ha he => by simp [noteOk, ha, he]
  cases apply_effect cfg happ with
  | granted link nonce now id _ ht _ ha =>
    rw [ht]
    exact ⟨_, (hread now ha).1, (hread now ha).2⟩
  | freed _ ht => simp [ht] at hp
  | releasing _ ht => simp [ht] at hp
  | completed ho ht _ _ he ha =>
    rw [ht, hkeep ha he]
    exact hi ho
  | refreshed now _ ht _ _ ha =>
    rw [ht]
    exact ⟨_, (hread now ha).1, (hread now ha).2⟩
  | advanced ht _ he ha =>
    rw [ht] at hp ⊢
    rw [hkeep ha he]
    exact hi hp
  | ready b ht _ he ha =>
    rw [ht] at hp ⊢
    rw [hkeep ha he]
    exact hi hp
  | same ht _ he ha =>
    rw [ht] at hp ⊢
    rw [hkeep ha he]
    exact hi hp

theorem activityRecorded_of_reaches {cfg : Config} {h : List TimedEvent} {s : Leases}
    (hr : Reaches (leases cfg) h s) : ActivityRecorded h s.sessions.state := by
  refine hr.invariant (I := fun h s => ActivityRecorded h s.sessions.state) ?_ ?_
  · rintro s ⟨⟨epoch, hs⟩, -⟩ hp
    simp [hs, init0] at hp
  · intro h s e t _ hi hs
    exact activityRecorded_step hi hs

/-- A section together with the two moments of its caller. -/
structure TimedOp where
  op : Op
  reading : ℕ
  lockedAt : ℕ

/-- The event and the state that a timed section produces. -/
def Leases.next (cfg : Config) (s : Leases) (o : TimedOp) : TimedEvent × Leases :=
  (⟨(s.sessions.next cfg o.op).1, o.reading, o.lockedAt⟩,
    ⟨(s.sessions.next cfg o.op).2, o.lockedAt⟩)

/-- The section can run, and its two moments fit the clock. -/
def TimedOp.fits (s : Leases) (o : TimedOp) : Bool :=
  decide (o.op.enabled s.sessions) && decide (s.clock ≤ o.lockedAt) &&
    decide (o.reading ≤ o.lockedAt) && o.op.now?.all (· = UInt32.ofNat o.reading)

lemma Leases.next_step {cfg : Config} {s : Leases} {o : TimedOp} (h : o.fits s = true) :
    (leases cfg).step s (s.next cfg o).1 (s.next cfg o).2 := by
  simp only [TimedOp.fits, Bool.and_eq_true, decide_eq_true_eq] at h
  obtain ⟨⟨⟨hen, hclock⟩, hread⟩, hnow⟩ := h
  refine ⟨⟨hen, rfl, rfl⟩, hclock, rfl, hread, ?_⟩
  intro now hn
  have hn' : o.op.now? = some now := hn
  rw [hn'] at hnow
  exact of_decide_eq_true hnow

/-- Run timed sections one after the other; the last component tells whether all of them fit. -/
def Leases.run (cfg : Config) (s : Leases) : List TimedOp → List TimedEvent × Leases × Bool
  | [] => ([], s, true)
  | o :: os =>
    let r := (s.next cfg o).2.run cfg os
    ((s.next cfg o).1 :: r.1, r.2.1, o.fits s && r.2.2)

theorem Leases.run_path {cfg : Config} {os : List TimedOp} {s : Leases}
    (h : (s.run cfg os).2.2 = true) :
    Path (leases cfg) s (s.run cfg os).1 (s.run cfg os).2.1 := by
  induction os generalizing s with
  | nil => exact .nil s
  | cons o os ih =>
    simp only [run, Bool.and_eq_true] at h
    exact .cons (next_step h.1) (ih h.2)

/-- The run of timed sections from power-on. -/
def leaseRun (cfg : Config) (epoch : UInt32) (os : List TimedOp) :
    List TimedEvent × Leases × Bool :=
  Leases.run cfg { sessions := { state := init0 cfg epoch } } os

theorem reaches_leaseRun {cfg : Config} {epoch : UInt32} {os : List TimedOp}
    (h : (leaseRun cfg epoch os).2.2 = true) :
    Reaches (leases cfg) (leaseRun cfg epoch os).1 (leaseRun cfg epoch os).2.1 := by
  simpa [leaseRun] using
    (Reaches.init ⟨⟨epoch, rfl⟩, rfl⟩ : Reaches (leases cfg) [] _).append (Leases.run_path h)

/-! ## The unsigned difference -/

/-- `EV_SESSION_LEASE_MS` as a number of milliseconds. -/
def leaseTime : ℕ := leaseMs.toNat

/-- The tick reading `T` is not older than the reading `R`, or so much older that the
unsigned difference is again below the lease. -/
def NotStale (R T : ℕ) : Prop :=
  R ≤ T ∨ (R - T) % 2 ^ 32 = 0 ∨ 2 ^ 32 - leaseTime < (R - T) % 2 ^ 32

instance (R T : ℕ) : Decidable (NotStale R T) := by
  unfold NotStale; infer_instance

lemma elapsed_toNat (R T : ℕ) :
    (UInt32.ofNat T - UInt32.ofNat R).toNat = (2 ^ 32 - R % 2 ^ 32 + T % 2 ^ 32) % 2 ^ 32 := by
  simp [UInt32.toNat_sub]

/-- With a reading that is not stale the unsigned comparison is sound, and only then. -/
theorem lease_compare_iff (R T : ℕ) :
    (leaseMs ≤ UInt32.ofNat T - UInt32.ofNat R → R + leaseTime ≤ T) ↔ NotStale R T := by
  have hl : leaseTime = 15000 := rfl
  have hm : leaseMs.toNat = 15000 := rfl
  rw [UInt32.le_iff_toNat_le, elapsed_toNat, NotStale, hl, hm]
  omega

/-- A tick frees exactly an owned session whose unsigned idle time reached the lease. -/
theorem tick_frees_iff (cfg : Config) (s : State) (now : UInt32) :
    (tick cfg s now).2.1 = true ↔ s.phase = .owned ∧ leaseMs ≤ now - s.lastActivityMs := by
  rcases tick_cases cfg s now with ⟨hp, hle, ht⟩ | ht
  · simp [ht, hp, hle]
  · rw [ht]
    simp only [Bool.false_eq_true, false_iff, not_and, UInt32.not_le]
    intro hp
    by_contra hlt
    simp only [tick, hp, hlt] at ht
    simp at ht

/-- A tick given the reading `T` is not older than the last accepted call of the session it
may free. -/
def TickFresh (h : List TimedEvent) (s : State) (T : ℕ) : Prop :=
  s.phase = .owned → ∀ R, lastOk h = some R → NotStale R T

/-- A tick that frees the owner finds its last accepted call a whole lease in the past. -/
def LeaseSafe (cfg : Config) (h : List TimedEvent) (s : State) (T : ℕ) : Prop :=
  (tick cfg s (UInt32.ofNat T)).2.1 = true → ∃ R, lastOk h = some R ∧ R + leaseTime ≤ T

theorem leaseSafe_iff_of_recorded (cfg : Config) {h : List TimedEvent} {s : State}
    (hi : ActivityRecorded h s) (T : ℕ) : LeaseSafe cfg h s T ↔ TickFresh h s T := by
  unfold LeaseSafe TickFresh
  rw [tick_frees_iff]
  by_cases hp : s.phase = .owned
  · obtain ⟨R, hR, hm⟩ := hi hp
    have hiff := lease_compare_iff R T
    simp only [hp, hm, hR, true_and, true_implies, Option.some.injEq, exists_eq_left',
      forall_eq']
    exact hiff
  · simp [hp]

/-- The ticks of a run, each with the run before it and the state it met, satisfy `P`. -/
def EveryTick (cfg : Config) (P : List TimedEvent → State → ℕ → Prop) (h : List TimedEvent) :
    Prop :=
  ∀ before e after s, h = before ++ e :: after → Reaches (leases cfg) before s →
    (∃ now, e.event.op = .tick now) → P before s.sessions.state e.reading

/-- A session whose last keepalive was read at 1001 ms. -/
def refreshedRun : List TimedEvent × Leases × Bool :=
  leaseRun noSinks 7
    [⟨.acquire usbLink someNonce 900 someWords true, 900, 900⟩,
      ⟨.acquireReturn usbLink true, 0, 901⟩,
      ⟨.helloComplete usbLink (makeId someWords) true, 0, 902⟩,
      ⟨.keepalive usbLink (some (makeId someWords)) 1001 true, 1001, 1001⟩]

theorem reaches_refreshedRun :
    Reaches (leases noSinks) refreshedRun.1 refreshedRun.2.1 :=
  reaches_leaseRun (by decide)

end EspVision.EvSession
