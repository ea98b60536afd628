import EspVision.EventLog
import EspVision.PlainObject
import EspVision.TransitionSystem

/-!
# The queue of exclusive device operations (`OperationCoordinator` of `device_actions.js`)

The callbacks that the promises of an operation wait for are steps of their own: making an item
active and calling its operation, the result of the operation, the settling of the promise of its
`run` call and the cleanup behind it. Signals, calls and other tasks come in between as they like.
-/
namespace EspVision.OperationCoordinator
open EventLog TransitionSystem
open PlainObject (Text units)

/-- `DEVICE_ACTORS`. -/
def deviceActors : List Text := [units "agent"]

/-- The arguments of `run`; signals are numbered. -/
structure Request where
  actor : Text
  requestId : Text
  actionName : Text
  signal : Option ℕ
  deriving DecidableEq

/-- An item, by the number of its `run` call. -/
structure Item where
  call : ℕ
  request : Request
  deriving DecidableEq

/-- How far the active item is: its operation is to be called, was called, has settled, and its
promise has settled. -/
inductive Phase
  | marked
  | started
  | returned (ok : Bool)
  | delivered
  deriving DecidableEq

structure Active where
  item : Item
  phase : Phase
  deriving DecidableEq

inductive Event
  /-- The promise of a `run` call that is rejected at entry. -/
  | refused (call : ℕ)
  | started (item : Item)
  | returned (call : ℕ)
  | settled (call : ℕ) (ok : Bool)
  | signalAborted (signal : ℕ)
  | closed
  deriving DecidableEq

/-- `OperationCoordinator`, with the controllers and signals that are aborted, the abort listeners
on signals, and what happened so far. -/
structure Coordinator where
  queue : List Item := []
  active : Option Active := none
  closed : Bool := false
  calls : ℕ := 0
  aborted : List ℕ := []
  signals : List ℕ := []
  listeners : List (ℕ × ℕ) := []
  log : List Event := []
  deriving DecidableEq

namespace Coordinator

def removeListener (c : Coordinator) (call : ℕ) : List (ℕ × ℕ) :=
  c.listeners.filter fun l => l.2 ≠ call

/-- An item at the head of the queue whose controller is aborted. -/
def reject (c : Coordinator) (item : Item) (rest : List Item) : Coordinator :=
  { c with
    queue := rest
    listeners := c.removeListener item.call
    log := c.log ++ [.settled item.call false] }

def mark (c : Coordinator) (item : Item) (rest : List Item) : Coordinator :=
  { c with queue := rest, active := some ⟨item, .marked⟩ }

/-- The items of the queue, until one is made active. -/
def drainFrom (c : Coordinator) : List Item → Coordinator
  | [] => c
  | item :: rest =>
    if item.call ∈ c.aborted then (c.reject item rest).drainFrom rest else c.mark item rest

/-- `_drain`. -/
def drain (c : Coordinator) : Coordinator :=
  if c.active.isSome ∨ c.closed = true then c else c.drainFrom c.queue

def refuse (c : Coordinator) : Coordinator :=
  { c with calls := c.calls + 1, log := c.log ++ [.refused c.calls] }

def push (c : Coordinator) (request : Request) : Coordinator :=
  { c with
    queue := c.queue ++ [⟨c.calls, request⟩]
    calls := c.calls + 1
    listeners := c.listeners ++ (request.signal.map fun s => (s, c.calls)).toList }

/-- `run`; `none` when it throws. -/
def run (c : Coordinator) (request : Request) : Option Coordinator :=
  if !deviceActors.contains request.actor then none
  else if c.closed = true ∨ request.signal.any (c.signals.contains ·) then some c.refuse
  else some (c.push request).drain

/-- A signal is aborted, and its listeners abort their controllers. -/
def abort (c : Coordinator) (signal : ℕ) : Coordinator :=
  { c with
    signals := signal :: c.signals
    aborted := (c.listeners.filter fun l => l.1 = signal).map Prod.snd ++ c.aborted
    listeners := c.listeners.filter fun l => l.1 ≠ signal
    log := c.log ++ [.signalAborted signal] }

/-- `close`. -/
def close (c : Coordinator) : Coordinator :=
  { c with
    closed := true
    queue := []
    aborted := c.queue.map Item.call ++ (c.active.map fun a => a.item.call).toList ++ c.aborted
    listeners := c.listeners.filter fun l => l.2 ∉ c.queue.map Item.call
    log := c.log ++ .closed :: c.queue.map fun item => .settled item.call false }

/-- The active item in another phase. -/
def moveTo (c : Coordinator) (item : Item) (phase : Phase) (e : Event) : Coordinator :=
  { c with active := some ⟨item, phase⟩, log := c.log ++ [e] }

/-- The cleanup of the active item. -/
def release (c : Coordinator) (item : Item) : Coordinator :=
  { c with active := none, listeners := c.removeListener item.call }

end Coordinator

/-- What can happen: a call, an abort, and the steps of the active item. -/
inductive Step
  | run (request : Request)
  | abort (signal : ℕ)
  | close
  | start
  | settle (ok : Bool)
  | deliver
  | finish
  deriving DecidableEq

/-- One step; `none` where it cannot happen. -/
def Coordinator.next (c : Coordinator) : Step → Option Coordinator
  | .run request => c.run request
  | .abort signal => if signal ∈ c.signals then none else some (c.abort signal)
  | .close => some c.close
  | .start =>
    match c.active with
    | some ⟨item, .marked⟩ => some (c.moveTo item .started (.started item))
    | _ => none
  | .settle ok =>
    match c.active with
    | some ⟨item, .started⟩ => some (c.moveTo item (.returned ok) (.returned item.call))
    | _ => none
  | .deliver =>
    match c.active with
    | some ⟨item, .returned ok⟩ => some (c.moveTo item .delivered (.settled item.call ok))
    | _ => none
  | .finish =>
    match c.active with
    | some ⟨item, .delivered⟩ => some (c.release item).drain
    | _ => none

def coordinator : System Coordinator Step where
  init c := c = {}
  step c e c' := c.next e = some c'

/-! ## What happened -/

def startedCalls (log : List Event) : List ℕ := log.filterMap fun
  | .started item => some item.call
  | _ => none

def returnedCalls (log : List Event) : List ℕ := log.filterMap fun
  | .returned call => some call
  | _ => none

/-- The calls whose promise has settled. -/
def settledCalls (log : List Event) : List ℕ := log.filterMap fun
  | .refused call => some call
  | .settled call _ => some call
  | _ => none

/-- The active call whose promise has not settled. -/
def waiting : Option Active → List ℕ
  | some ⟨_, .delivered⟩ => []
  | some ⟨item, _⟩ => [item.call]
  | none => []

/-- The active call whose operation was not called. -/
def marked : Option Active → List ℕ
  | some ⟨item, .marked⟩ => [item.call]
  | _ => []

/-- The active call whose operation was called and has not settled. -/
def called : Option Active → List ℕ
  | some ⟨item, .started⟩ => [item.call]
  | _ => []

namespace Coordinator

/-- The items that are not done. -/
def pending (c : Coordinator) : List Item := (c.active.map Active.item).toList ++ c.queue

end Coordinator

end EspVision.OperationCoordinator
