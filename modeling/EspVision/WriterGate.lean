import EspVision.TransitionSystem

/-!
# The storage writer gate (`storage_writer_gate.h`)

One gate per volume decides whether the USB host or the device writes. Each function below is one
section under the writer's lock and returns the new gate with the value the function reports. The
counters are natural numbers: every increment is guarded against `UINT32_MAX`.
-/
namespace EspVision.StorageWriter

def uint32Max : ℕ := 4294967295

/-- `esp_vision_storage_writer_gate_t`. -/
structure Gate where
  ejected : Bool
  transitionPending : Bool
  leaseHeld : Bool
  handoffReady : Bool
  managed : Bool
  quarantined : Bool
  inFlightIo : ℕ
  pendingWriteSync : ℕ

/-- `esp_vision_storage_writer_gate_init`. -/
def Gate.init (recoveredQuarantine recoveredHandoff : Bool) : Gate where
  ejected := recoveredQuarantine || recoveredHandoff
  transitionPending := false
  leaseHeld := false
  handoffReady := recoveredHandoff
  managed := recoveredQuarantine || recoveredHandoff
  quarantined := recoveredQuarantine
  inFlightIo := 0
  pendingWriteSync := 0

namespace Gate

variable (g : Gate)

def hostWritable : Bool :=
  !g.ejected && !g.transitionPending && !g.leaseHeld && !g.quarantined

def hostLoadAllowed : Bool := !g.transitionPending && !g.leaseHeld && !g.quarantined

def pythonIoAllowed : Bool :=
  !g.transitionPending && !g.quarantined && (!g.managed || g.handoffReady || g.leaseHeld)

def ioDrained : Bool := g.inFlightIo == 0 && g.pendingWriteSync == 0

def quiescent (openHandles : ℕ) : Bool := g.ioDrained && openHandles == 0

/-- What an operation does that finds the counters wrong. -/
def failClosed : Gate := { g with quarantined := true, ejected := true }

/-! ## Input and output -/

def beginHostIo : Gate × Bool :=
  if !g.hostWritable || g.inFlightIo == uint32Max then (g, false)
  else ({ g with inFlightIo := g.inFlightIo + 1 }, true)

def beginVfsIo : Gate × Bool :=
  if !g.pythonIoAllowed || g.inFlightIo == uint32Max then (g, false)
  else ({ g with inFlightIo := g.inFlightIo + 1 }, true)

def finishVfsIo : Gate × Bool :=
  if g.inFlightIo == 0 then (g.failClosed, false)
  else ({ g with inFlightIo := g.inFlightIo - 1 }, true)

def finishHostIo (acceptedWrite : Bool) : Gate × Bool :=
  if g.inFlightIo == 0 || (acceptedWrite && g.pendingWriteSync == uint32Max) then
    (g.failClosed, false)
  else
    ({ g with
        inFlightIo := g.inFlightIo - 1
        pendingWriteSync := if acceptedWrite then g.pendingWriteSync + 1 else g.pendingWriteSync },
      true)

/-- A sequence of `0` belongs to a command that accepted no writes. Writes newer than the sequence
stay pending. -/
def completeHostWrite (syncSequence : ℕ) (syncSucceeded : Bool) : Gate × Bool :=
  if syncSequence == 0 then (g, true)
  else if !syncSucceeded || g.pendingWriteSync < syncSequence then (g.failClosed, false)
  else if g.pendingWriteSync == syncSequence then ({ g with pendingWriteSync := 0 }, true)
  else (g, true)

/-! ## Transitions -/

def beginEject : Gate × Bool :=
  if g.transitionPending || g.leaseHeld || g.quarantined then (g, false)
  else ({ g with ejected := true, transitionPending := true }, true)

def finishEject : Gate × Bool :=
  if !g.transitionPending || g.leaseHeld || g.quarantined || !g.ioDrained then (g, false)
  else ({ g with transitionPending := false, handoffReady := true, ejected := true }, true)

def beginLoad : Gate × Bool :=
  if !g.ejected || !g.handoffReady || !g.hostLoadAllowed || !g.ioDrained then (g, false)
  else ({ g with transitionPending := true }, true)

def finishLoad : Gate × Bool :=
  if !g.transitionPending || !g.ejected || g.leaseHeld || g.quarantined || !g.ioDrained then
    (g, false)
  else ({ g with transitionPending := false, ejected := false, handoffReady := false }, true)

def beginAcquire : Gate × Bool :=
  if !g.ejected || g.transitionPending || g.leaseHeld || g.quarantined then (g, false)
  else ({ g with transitionPending := true }, true)

def finishAcquire : Gate × Bool :=
  if !g.transitionPending || !g.ioDrained then (g, false)
  else
    ({ g with
        transitionPending := false
        leaseHeld := true
        handoffReady := false
        managed := true
        ejected := true }, true)

def beginRelease : Gate × Bool :=
  if !g.leaseHeld || g.transitionPending || g.quarantined then (g, false)
  else ({ g with transitionPending := true }, true)

def finishRelease : Gate × Bool :=
  if !g.leaseHeld || !g.transitionPending || !g.ioDrained then (g, false)
  else
    ({ g with
        leaseHeld := false
        transitionPending := false
        handoffReady := true
        managed := true
        ejected := true }, true)

def quarantine : Gate :=
  { g with
    transitionPending := false
    leaseHeld := false
    managed := true
    quarantined := true
    ejected := true }

def sessionInvalidated : Gate :=
  if g.transitionPending || g.leaseHeld then g.quarantine else g

end Gate

/-! ## Operations -/

/-- The operations of the gate; `syncBegin` only reads the sequence that a later completion
names. -/
inductive Op
  | beginHostIo
  | finishHostIo (acceptedWrite : Bool)
  | syncBegin
  | completeHostWrite (syncSequence : ℕ) (syncSucceeded : Bool)
  | beginVfsIo
  | finishVfsIo
  | beginEject
  | finishEject
  | beginLoad
  | finishLoad
  | beginAcquire
  | finishAcquire
  | beginRelease
  | finishRelease
  | quarantine
  | sessionInvalidated
  deriving DecidableEq

/-- One operation and what it reports. -/
def Gate.apply (g : Gate) : Op → Gate × Bool
  | .beginHostIo => g.beginHostIo
  | .finishHostIo acceptedWrite => g.finishHostIo acceptedWrite
  | .syncBegin => (g, !g.quarantined)
  | .completeHostWrite syncSequence syncSucceeded => g.completeHostWrite syncSequence syncSucceeded
  | .beginVfsIo => g.beginVfsIo
  | .finishVfsIo => g.finishVfsIo
  | .beginEject => g.beginEject
  | .finishEject => g.finishEject
  | .beginLoad => g.beginLoad
  | .finishLoad => g.finishLoad
  | .beginAcquire => g.beginAcquire
  | .finishAcquire => g.finishAcquire
  | .beginRelease => g.beginRelease
  | .finishRelease => g.finishRelease
  | .quarantine => (g.quarantine, true)
  | .sessionInvalidated => (g.sessionInvalidated, true)

/-- An operation that opens a phase or an access. -/
def Op.begins : Op → Bool
  | .beginHostIo | .beginVfsIo | .beginEject | .beginLoad | .beginAcquire | .beginRelease => true
  | _ => false

/-- The second half of a transition. -/
def Op.finishesTransition : Op → Bool
  | .finishEject | .finishLoad | .finishAcquire | .finishRelease => true
  | _ => false

/-! ## What an operation does

Every operation that reports success is named with its guard and its effect; the others leave the
gate alone or close it. -/

/-- The cases of an operation. -/
inductive Effect (g : Gate) : Op → Gate → Bool → Prop
  | refused {op : Op} : Effect g op g false
  | closed {op : Op} (hop : op.begins = false ∧ op.finishesTransition = false) :
      Effect g op g.failClosed false
  | hostIoBegun (hw : g.hostWritable = true) :
      Effect g .beginHostIo { g with inFlightIo := g.inFlightIo + 1 } true
  | hostIoFinished {accepted : Bool} {pending : ℕ} (hio : 0 < g.inFlightIo) :
      Effect g (.finishHostIo accepted)
        { g with inFlightIo := g.inFlightIo - 1, pendingWriteSync := pending } true
  | syncBegun (hq : g.quarantined = false) : Effect g .syncBegin g true
  | writeCompleted {sequence : ℕ} {ok : Bool} {pending : ℕ} :
      Effect g (.completeHostWrite sequence ok) { g with pendingWriteSync := pending } true
  | vfsIoBegun (hp : g.pythonIoAllowed = true) :
      Effect g .beginVfsIo { g with inFlightIo := g.inFlightIo + 1 } true
  | vfsIoFinished (hio : 0 < g.inFlightIo) :
      Effect g .finishVfsIo { g with inFlightIo := g.inFlightIo - 1 } true
  | ejectBegun (ht : g.transitionPending = false) (hl : g.leaseHeld = false)
      (hq : g.quarantined = false) :
      Effect g .beginEject { g with ejected := true, transitionPending := true } true
  | ejectFinished (ht : g.transitionPending = true) (hl : g.leaseHeld = false)
      (hq : g.quarantined = false) (hd : g.ioDrained = true) :
      Effect g .finishEject
        { g with transitionPending := false, handoffReady := true, ejected := true } true
  | loadBegun (he : g.ejected = true) (hr : g.handoffReady = true)
      (ht : g.transitionPending = false) (hl : g.leaseHeld = false) (hq : g.quarantined = false)
      (hd : g.ioDrained = true) : Effect g .beginLoad { g with transitionPending := true } true
  | loadFinished (ht : g.transitionPending = true) (he : g.ejected = true)
      (hl : g.leaseHeld = false) (hq : g.quarantined = false) (hd : g.ioDrained = true) :
      Effect g .finishLoad
        { g with transitionPending := false, ejected := false, handoffReady := false } true
  | acquireBegun (he : g.ejected = true) (ht : g.transitionPending = false)
      (hl : g.leaseHeld = false) (hq : g.quarantined = false) :
      Effect g .beginAcquire { g with transitionPending := true } true
  | acquireFinished (ht : g.transitionPending = true) (hd : g.ioDrained = true) :
      Effect g .finishAcquire
        { g with
          transitionPending := false
          leaseHeld := true
          handoffReady := false
          managed := true
          ejected := true } true
  | releaseBegun (hl : g.leaseHeld = true) (ht : g.transitionPending = false)
      (hq : g.quarantined = false) : Effect g .beginRelease { g with transitionPending := true } true
  | releaseFinished (hl : g.leaseHeld = true) (ht : g.transitionPending = true)
      (hd : g.ioDrained = true) :
      Effect g .finishRelease
        { g with
          leaseHeld := false
          transitionPending := false
          handoffReady := true
          managed := true
          ejected := true } true
  | quarantined : Effect g .quarantine g.quarantine true
  | sessionLost : Effect g .sessionInvalidated g.sessionInvalidated true

theorem apply_effect (g : Gate) (op : Op) : Effect g op (g.apply op).1 (g.apply op).2 := by
  cases op with
  | beginHostIo =>
    simp only [Gate.apply, Gate.beginHostIo]
    split_ifs with h
    · exact .refused
    · simp only [Bool.or_eq_true, Bool.not_eq_true', not_or, Bool.not_eq_false] at h
      exact .hostIoBegun h.1
  | finishHostIo accepted =>
    simp only [Gate.apply, Gate.finishHostIo]
    split_ifs with h
    · exact .closed ⟨rfl, rfl⟩
    all_goals
      simp only [Bool.or_eq_true, beq_iff_eq, not_or] at h
      exact .hostIoFinished (Nat.pos_of_ne_zero h.1)
  | syncBegin =>
    simp only [Gate.apply]
    cases hq : g.quarantined with
    | false => exact .syncBegun hq
    | true => exact .refused
  | completeHostWrite sequence ok =>
    simp only [Gate.apply, Gate.completeHostWrite]
    split_ifs
    · exact .writeCompleted
    · exact .closed ⟨rfl, rfl⟩
    · exact .writeCompleted
    · exact .writeCompleted
  | beginVfsIo =>
    simp only [Gate.apply, Gate.beginVfsIo]
    split_ifs with h
    · exact .refused
    · simp only [Bool.or_eq_true, Bool.not_eq_true', not_or, Bool.not_eq_false] at h
      exact .vfsIoBegun h.1
  | finishVfsIo =>
    simp only [Gate.apply, Gate.finishVfsIo]
    split_ifs with h
    · exact .closed ⟨rfl, rfl⟩
    · exact .vfsIoFinished (Nat.pos_of_ne_zero (by simpa using h))
  | beginEject =>
    simp only [Gate.apply, Gate.beginEject]
    split_ifs with h
    · exact .refused
    · simp only [Bool.or_eq_true, not_or, Bool.not_eq_true] at h
      exact .ejectBegun h.1.1 h.1.2 h.2
  | finishEject =>
    simp only [Gate.apply, Gate.finishEject]
    split_ifs with h
    · exact .refused
    · simp only [Bool.or_eq_true, Bool.not_eq_true', not_or, Bool.not_eq_true,
        Bool.not_eq_false] at h
      exact .ejectFinished h.1.1.1 h.1.1.2 h.1.2 h.2
  | beginLoad =>
    simp only [Gate.apply, Gate.beginLoad]
    split_ifs with h
    · exact .refused
    · simp only [Gate.hostLoadAllowed, Bool.or_eq_true, Bool.not_eq_true', not_or,
        Bool.not_eq_false, Bool.and_eq_true] at h
      exact .loadBegun h.1.1.1 h.1.1.2 h.1.2.1.1 h.1.2.1.2 h.1.2.2 h.2
  | finishLoad =>
    simp only [Gate.apply, Gate.finishLoad]
    split_ifs with h
    · exact .refused
    · simp only [Bool.or_eq_true, Bool.not_eq_true', not_or, Bool.not_eq_true,
        Bool.not_eq_false] at h
      exact .loadFinished h.1.1.1.1 h.1.1.1.2 h.1.1.2 h.1.2 h.2
  | beginAcquire =>
    simp only [Gate.apply, Gate.beginAcquire]
    split_ifs with h
    · exact .refused
    · simp only [Bool.or_eq_true, Bool.not_eq_true', not_or, Bool.not_eq_true,
        Bool.not_eq_false] at h
      exact .acquireBegun h.1.1.1 h.1.1.2 h.1.2 h.2
  | finishAcquire =>
    simp only [Gate.apply, Gate.finishAcquire]
    split_ifs with h
    · exact .refused
    · simp only [Bool.or_eq_true, Bool.not_eq_true', not_or, Bool.not_eq_false] at h
      exact .acquireFinished h.1 h.2
  | beginRelease =>
    simp only [Gate.apply, Gate.beginRelease]
    split_ifs with h
    · exact .refused
    · simp only [Bool.or_eq_true, Bool.not_eq_true', not_or, Bool.not_eq_true,
        Bool.not_eq_false] at h
      exact .releaseBegun h.1.1 h.1.2 h.2
  | finishRelease =>
    simp only [Gate.apply, Gate.finishRelease]
    split_ifs with h
    · exact .refused
    · simp only [Bool.or_eq_true, Bool.not_eq_true', not_or, Bool.not_eq_false] at h
      exact .releaseFinished h.1.1 h.1.2 h.2
  | quarantine => exact .quarantined
  | sessionInvalidated => exact .sessionLost

end EspVision.StorageWriter
