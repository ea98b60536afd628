import EspVision.WriterRecord

/-!
# Calls that change the writer of a volume

`acquire`, `release`, eject and load take a transition in several steps: they begin it, wait for
the volume to drain, refresh it, store the new state and finish. Other calls, accesses and resets
come between any two of these steps. Everything here is about one compiled volume; the store lock
is shared between the volumes, which only delays a store.
-/
namespace EspVision.StorageWriter

open TransitionSystem

/-- What a call does; an eject and a load have read whether the gate is managed. The last one is
the store that follows a quarantine. -/
inductive Job
  | acquire (ids : LeaseIds)
  | release (ids : LeaseIds)
  | eject (managed : Bool)
  | load (managed : Bool)
  | quarantine
  deriving DecidableEq

/-- How far a call has come. From `begun` to `stored` it owns the transition. -/
inductive Stage
  /-- `writer_wait_quiescent` -/
  | begun
  /-- `writer_refresh` -/
  | quiet
  /-- `writer_store`, before it has the lock -/
  | refreshed
  /-- the state was allowed, the record is about to be written -/
  | admitted
  | written
  /-- the storage reported an error -/
  | unwritten
  | stored
  /-- `writer_quarantine`, before it has changed the gate -/
  | failed
  deriving DecidableEq

structure Task where
  job : Job
  stage : Stage
  deriving DecidableEq

/-- The state a job stores. -/
def Job.persist : Job → Persist
  | .acquire _ => .leased
  | .release _ => .handoff
  | .eject _ => .handoff
  | .load _ => .managedHost
  | .quarantine => .quarantine

def Job.ids : Job → LeaseIds
  | .acquire ids => ids
  | .release ids => ids
  | _ => ⟨[], [], []⟩

def Job.record (j : Job) : Record := .make j.persist j.ids

/-- An eject and a load of a gate that was never managed store nothing. -/
def Job.stores : Job → Bool
  | .eject managed => managed
  | .load managed => managed
  | _ => true

/-- The second half of the transition. -/
def Job.finish : Job → Gate → Gate × Bool
  | .acquire _, g => g.finishAcquire
  | .release _, g => g.finishRelease
  | .eject _, g => g.finishEject
  | .load _, g => g.finishLoad
  | .quarantine, g => (g, true)

/-- The volume with the calls under way; `calls` numbers them. -/
structure Writer where
  gate : Gate
  record : Record
  stored : Stored
  lock : Option ℕ := none
  tasks : ℕ → Option Task := fun _ => none
  calls : ℕ := 0

/-- The steps of calls, and what else happens to the volume. -/
inductive Label
  | begin (c : ℕ) (job : Job) (ok : Bool)
  | drained (c : ℕ)
  | refreshed (c : ℕ)
  /-- the volume does not drain, or its refresh fails -/
  | gaveUp (c : ℕ)
  | admitted (c : ℕ) (ok : Bool)
  /-- the record has been written, whether or not the storage then reports an error -/
  | wrote (c : ℕ) (job : Job) (ok : Bool)
  | notWritten (c : ℕ)
  | settled (c : ℕ) (ok : Bool)
  | finished (c : ℕ) (job : Job) (ok : Bool)
  | quarantined (c : ℕ)
  /-- a failed access calls `writer_quarantine` -/
  | ioFailed (c : ℕ)
  /-- `esp_vision_msc_writer_session_changed` -/
  | sessionChanged (c : ℕ) (current : Option (List UInt8))
  | io (op : Op) (ok : Bool)
  | reset (readable : Bool)

/-- The operations of the gate that are not part of a transition. -/
def Op.isIo : Op → Bool
  | .beginHostIo | .finishHostIo _ | .syncBegin | .completeHostWrite _ _ | .beginVfsIo
  | .finishVfsIo => true
  | _ => false

namespace Writer

variable (w : Writer)

def setTask (c : ℕ) (t : Option Task) : Writer := { w with tasks := Function.update w.tasks c t }

/-- The record in memory has these identifiers. -/
def leaseMatches (ids : LeaseIds) : Bool :=
  w.gate.leaseHeld && !w.gate.quarantined && cString w.record.operationId == ids.operationId &&
    cString w.record.leaseId == ids.leaseId && cString w.record.sessionId == ids.sessionId

/-- The first half of a transition, as `(admissible, gate, started)`. A load of a gate that the host
already writes returns before it begins. -/
def beginJob : Job → Bool × Gate × Bool
  | .acquire ids => (ids.valid, w.gate.beginAcquire)
  | .release ids => (ids.valid, if w.leaseMatches ids then w.gate.beginRelease else (w.gate, false))
  | .eject managed => (managed == w.gate.managed, w.gate.beginEject)
  | .load managed => (managed == w.gate.managed && !w.gate.hostWritable, w.gate.beginLoad)
  | .quarantine => (false, w.gate, false)

/-- A call starts. When it cannot begin its transition, an acquisition returns and the others
quarantine the volume. -/
def beginCall (job : Job) : Writer :=
  let started := w.beginJob job
  let task : Option Task :=
    if started.2.2 then some ⟨job, .begun⟩
    else match job with
      | .acquire _ => none
      | _ => some ⟨job, .failed⟩
  { w.setTask w.calls task with gate := started.2.1, calls := w.calls + 1 }

/-- `writer_store` under its lock, up to the write. -/
def accepted (c : ℕ) (job : Job) : Writer :=
  if storeStateAllowed w.gate job.persist then
    { w.setTask c (some ⟨job, .admitted⟩) with lock := some c }
  else if job = .quarantine then w.setTask c none
  else w.setTask c (some ⟨job, .failed⟩)

/-- The end of `writer_store`. -/
def settle (c : ℕ) (job : Job) (written : Bool) : Writer :=
  let w := { w with lock := none }
  if written && stillAllowed w.gate job.persist then
    { w.setTask c (if job = .quarantine then none else some ⟨job, .stored⟩) with
      record := job.record }
  else w.setTask c (if job = .quarantine then none else some ⟨job, .failed⟩)

/-- The volume after a reset. -/
def boot (readable : Bool) : Writer :=
  let loaded := loadRecord w.stored readable
  { gate := bootGate (loaded.bind fun r => Persist.ofCode r.state)
    record := bootRecord loaded
    stored := w.stored
    calls := w.calls }

/-- One step; `none` where it is not possible. -/
def step : Label → Option Writer
  | .begin c job ok =>
    if c = w.calls ∧ (w.beginJob job).1 = true ∧ ok = (w.beginJob job).2.2 then
      some (w.beginCall job)
    else none
  | .drained c =>
    match w.tasks c with
    | some ⟨job, .begun⟩ =>
      if w.gate.ioDrained then some (w.setTask c (some ⟨job, .quiet⟩)) else none
    | _ => none
  | .refreshed c =>
    match w.tasks c with
    | some ⟨job, .quiet⟩ =>
      some (w.setTask c (some ⟨job, if job.stores then .refreshed else .stored⟩))
    | _ => none
  | .gaveUp c =>
    match w.tasks c with
    | some ⟨job, .begun⟩ => some (w.setTask c (some ⟨job, .failed⟩))
    | some ⟨job, .quiet⟩ => some (w.setTask c (some ⟨job, .failed⟩))
    | _ => none
  | .admitted c ok =>
    match w.tasks c with
    | some ⟨job, .refreshed⟩ =>
      if w.lock = none ∧ ok = storeStateAllowed w.gate job.persist then some (w.accepted c job)
      else none
    | _ => none
  | .wrote c job ok =>
    if w.tasks c = some ⟨job, .admitted⟩ then
      some { w.setTask c (some ⟨job, if ok then .written else .unwritten⟩) with
        stored := .blob job.record }
    else none
  | .notWritten c =>
    match w.tasks c with
    | some ⟨job, .admitted⟩ => some (w.setTask c (some ⟨job, .unwritten⟩))
    | _ => none
  | .settled c ok =>
    match w.tasks c with
    | some ⟨job, .written⟩ =>
      if ok = stillAllowed w.gate job.persist then some (w.settle c job true) else none
    | some ⟨job, .unwritten⟩ => if ok = false then some (w.settle c job false) else none
    | _ => none
  | .finished c job ok =>
    if w.tasks c = some ⟨job, .stored⟩ ∧ ok = (job.finish w.gate).2 then
      some { w.setTask c (if ok then none else some ⟨job, .failed⟩) with
        gate := (job.finish w.gate).1 }
    else none
  | .quarantined c =>
    match w.tasks c with
    | some ⟨_, .failed⟩ =>
      some { w.setTask c (some ⟨.quarantine, .refreshed⟩) with gate := w.gate.quarantine }
    | _ => none
  | .ioFailed c =>
    if c = w.calls then
      some { w.setTask c (some ⟨.quarantine, .failed⟩) with calls := w.calls + 1 }
    else none
  | .sessionChanged c current =>
    if c = w.calls ∧ (w.gate.leaseHeld || w.gate.transitionPending) = true ∧
        current ≠ some (cString w.record.sessionId) then
      some { w.setTask c (some ⟨.quarantine, .refreshed⟩) with
        gate := w.gate.sessionInvalidated
        calls := w.calls + 1 }
    else none
  | .io op ok =>
    if op.isIo = true ∧ ok = (w.gate.apply op).2 then
      some { w with gate := (w.gate.apply op).1 }
    else none
  | .reset readable => some (w.boot readable)

end Writer

/-- Runs from any power-on, with anything in the storage. -/
def writer : System Writer Label where
  init w := ∃ stored readable,
    w = Writer.boot ⟨.init true false, bootRecord none, stored, none, fun _ => none, 0⟩ readable
  step w l w' := w.step l = some w'

end EspVision.StorageWriter
