import EspVision.MuxWorker
import EspVision.TransitionSystem

/-!
# The multiplexer and its users

Any task may submit, publish or cancel at any time, the worker visits its targets in any order, and
links come and go; each step is one critical section. A step that ends a submission answers it.
-/
namespace EspVision.MuxTx

open EvTransport EvMux EvSession Host TransitionSystem

/-- What happens to the links from outside. -/
inductive LinkChange
  | linkOpen (id : TransportId) (slot : ℕ)
  | linkClose (link : LinkRef)
  | linkAdvance (link : LinkRef)
  deriving DecidableEq

def LinkChange.apply (r : Registry) : LinkChange → Registry
  | .linkOpen id slot => ((r.linkOpen id slot).map Prod.fst).getD r
  | .linkClose link => r.linkClose link
  | .linkAdvance link => (r.linkAdvanceGeneration link).1

inductive Step
  | enqueue (o : SubmitOptions) (metadata payload : List UInt8) (ticket : Ticket)
      (look : PrepareLook)
  | reserve (t : Target)
  | allocate (t : Target)
  | refuse (t : Target)
  | fill (t : Target)
  | release (t : Target)
  | unreserve (t : Target)
  | clear (t : Target)
  | cancel (t : Target) (which : Cancel)
  | scan (t : Target)
  | submitSpecial (o : SubmitOptions) (metadata payload : List UInt8) (isLarge : Bool)
      (ticket : Ticket) (look : PrepareLook) (mutexTaken malloc : Bool)
  | publishObservers (metadata payload : List UInt8) (looks : Fin tcpLinks → ObserverLook)
      (malloc : Bool)
  | cancelSpecial (which : Cancel)
  | processTarget (t : Target) (look : WorkerLook)
  | afterwards (t : Target)
  | closeLink (t : Target)
  | complete (i : ℕ)
  | link (change : LinkChange)

/-- The answer of a step that ends a submission. -/
abbrev Reply := Option EspErr

namespace Mux

variable (s : Mux)

/-- The worker goes on with what follows its last visit: a completion, or the end of a session. -/
def afterwards (t : Target) : Option Mux :=
  match s.after t with
  | .complete c :: rest => some { s.setAfter t rest with completed := s.completed ++ [c] }
  | .failSession _ _ :: rest => some (s.setAfter t rest)
  | _ => none

/-- The worker closes a link after a visit. -/
def closeLink (t : Target) : Option Mux :=
  match s.after t with
  | .close link :: rest => some { s.setAfter t rest with registry := s.registry.linkClose link }
  | _ => none

/-- A cancelling task runs a completion. -/
def runDue (i : ℕ) : Option Mux :=
  if h : i < s.due.length then
    some { s with due := s.due.eraseIdx i, completed := s.completed ++ [s.due[i]] }
  else none

/-- The answer about the link of the chosen frame is the registry's. -/
def LinkAnswered (t : Target) (look : WorkerLook) : Prop :=
  ∀ p, s.chooseFrame t look = some p →
    look.linkIsCurrent = s.registry.linkIsCurrent (s.pickFrame t p).link

def next : Step → Option (Mux × Reply)
  | .enqueue o metadata payload ticket look => some (s.enqueue o metadata payload ticket look)
  | .reserve t => s.reserve t
  | .allocate t => (s.allocate t).map fun s' => (s', none)
  | .refuse t => (s.refuse t).map fun r => (r.1, some r.2)
  | .fill t => (s.fill t).map fun s' => (s', some espOk)
  | .release t => (s.release t).map fun s' => (s', none)
  | .unreserve t => (s.unreserve t).map fun s' => (s', none)
  | .clear t => (s.clear t).map fun s' => (s', none)
  | .cancel t which => (s.cancel t which).map fun s' => (s', none)
  | .scan t => (s.scan t).map fun s' => (s', none)
  | .submitSpecial o metadata payload isLarge ticket look mutexTaken malloc =>
    some (s.submitSpecial o metadata payload isLarge ticket look mutexTaken malloc)
  | .publishObservers metadata payload looks malloc =>
    some (s.publishObservers metadata payload looks malloc)
  | .cancelSpecial which => some (s.cancelSpecial which, none)
  | .processTarget t look => (s.processTarget t look).map fun s' => (s', none)
  | .afterwards t => (s.afterwards t).map fun s' => (s', none)
  | .closeLink t => (s.closeLink t).map fun s' => (s', none)
  | .complete i => (s.runDue i).map fun s' => (s', none)
  | .link change => some ({ s with registry := change.apply s.registry }, none)

/-- What a step may rely on. -/
def Promised : Step → Prop
  | .processTarget t look => s.LinkAnswered t look
  | _ => True

end Mux

/-- The multiplexer from its initialization on. -/
def mux : System Mux (Step × Reply) where
  init s := ∃ registry, s = { registry := registry }
  step s l t := s.Promised l.1 ∧ s.next l.1 = some (t, l.2)

/-! ## Runs that are computed -/

instance (s : Mux) (t : Target) (look : WorkerLook) : Decidable (s.LinkAnswered t look) :=
  inferInstanceAs (Decidable (∀ p ∈ s.chooseFrame t look, _))

/-- The step has what it relies on. -/
def Mux.promised (s : Mux) : Step → Bool
  | .processTarget t look => decide (s.LinkAnswered t look)
  | _ => true

theorem Mux.promised_of {s : Mux} {l : Step} (h : s.promised l = true) : s.Promised l := by
  cases l with
  | processTarget t look => exact of_decide_eq_true (p := s.LinkAnswered t look) h
  | _ => trivial

/-- The state behind a step that has what it relies on and gives the answer. -/
def Mux.follow (s : Mux) (l : Step × Reply) : Option Mux :=
  (s.next l.1).bind fun p => if s.promised l.1 ∧ p.2 = l.2 then some p.1 else none

theorem Mux.follow_step (s : Mux) (l : Step × Reply) (t : Mux) (h : s.follow l = some t) :
    mux.step s l t := by
  obtain ⟨p, hp, h⟩ := Option.bind_eq_some_iff.mp h
  split_ifs at h with hl
  obtain rfl := Option.some.inj h
  exact ⟨Mux.promised_of hl.1, hp.trans (by rw [← hl.2])⟩

/-- The state behind the steps. -/
def Mux.behind (s : Mux) (h : List (Step × Reply)) : Mux := (h.foldlM Mux.follow s).getD s

/-- The steps can be taken one after the other. -/
def Mux.CanFollow (s : Mux) (h : List (Step × Reply)) : Prop := (h.foldlM Mux.follow s).isSome = true

instance (s : Mux) (h : List (Step × Reply)) : Decidable (s.CanFollow h) :=
  inferInstanceAs (Decidable (_ = true))

theorem Mux.CanFollow.path {s : Mux} {h : List (Step × Reply)} (hc : s.CanFollow h) :
    Path mux s h (s.behind h) := by
  obtain ⟨t, ht⟩ := Option.isSome_iff_exists.mp hc
  rw [Mux.behind, ht]
  exact .of_foldlM Mux.follow_step ht

theorem Mux.CanFollow.step {s : Mux} {l : Step × Reply} (hc : s.CanFollow [l]) :
    mux.step s l (s.behind [l]) := by
  obtain _ | ⟨hstep, hrest⟩ := hc.path
  obtain _ | _ := hrest
  exact hstep

theorem Mux.CanFollow.reaches {registry : Registry} {h : List (Step × Reply)}
    (hc : Mux.CanFollow { registry := registry } h) :
    Reaches mux h (Mux.behind { registry := registry } h) := by
  have hinit : mux.init { registry := registry } := ⟨registry, rfl⟩
  exact (Reaches.init hinit).append hc.path

/-! ### Small runs -/

/-- Every slot is open in its first generation. -/
def allOpen : Registry := ⟨fun _ _ => ⟨1, true⟩, fun _ => true, none⟩

theorem one_lt_targetCount : 1 < targetCount := by decide

/-- The target of the USB link. -/
def usbTarget : Target := ⟨1, one_lt_targetCount⟩

/-- The targets of the first two TCP slots. -/
def firstTcp : Target := ⟨3, by decide⟩

def secondTcp : Target := ⟨4, by decide⟩

def usbLink : LinkRef := ⟨.usb, 0, 1⟩

def tcpLink (slot : ℕ) : LinkRef := ⟨.tcp, slot, 1⟩

/-- A submission with the metadata `{}` and one byte of payload, up to the reservation. -/
def offering (o : SubmitOptions) : List (Step × Reply) :=
  [(.enqueue o [0x7b, 0x7d] [0x41] 1 {}, none)]

/-- The same up to the frame in the queue. -/
def submission (o : SubmitOptions) (t : Target) : List (Step × Reply) :=
  offering o ++ [(Step.reserve t, none), (.allocate t, none), (.fill t, some espOk)]

/-- A visit in which the link takes `n` bytes. -/
def visit (t : Target) (n : ℕ) : Step × Reply :=
  (.processTarget t { io := { status := .progress, transferred := n } }, none)

/-- A frame for the USB link of which the link has taken 29 bytes, all but its metadata, its payload
and its end. -/
def usbBegun : List (Step × Reply) :=
  submission { link := usbLink, txClass := .control, completion := some 7 } usbTarget ++
    [visit usbTarget 29]

/-- What the frame carries. -/
def usbSubmission : Submission :=
  { link := usbLink, metadata := [0x7b, 0x7d], payload := [0x41], priority := 1, enqueueOrder := 1 }

/-- What the steps come to when every slot is open. -/
def ranTo (h : List (Step × Reply)) : Mux := Mux.behind { registry := allOpen } h

theorem ranTo_reaches {h : List (Step × Reply)}
    (hc : Mux.CanFollow { registry := allOpen } h) : Reaches mux h (ranTo h) := hc.reaches

end EspVision.MuxTx
