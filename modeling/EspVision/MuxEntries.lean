import EspVision.Ledger
import EspVision.MuxSystem

/-!
# The frames of all queues as one table

Whoever holds a queue's mutex works on one frame. The table gives each frame with the stage that
the work on it has reached; a step changes at most one entry of the table.
-/
namespace EspVision.MuxTx

open EvTransport EvMux EvSession Host TransitionSystem

/-- How far the work on a frame has come. -/
inductive Stage
  | rest | reserving | allocating | refusing | filling | releasing | unreserving | clearing
  deriving DecidableEq

/-- The frame that the holder works on, and the stage. -/
def Holder.work : Holder → Option (FrameSlot × Stage)
  | .free => none
  | .reserving k _ _ => some (k, .reserving)
  | .allocating k _ _ => some (k, .allocating)
  | .refusing k => some (k, .refusing)
  | .filling k _ _ => some (k, .filling)
  | .releasing k _ => some (k, .releasing)
  | .unreserving k _ => some (k, .unreserving)
  | .clearing k _ => some (k, .clearing)
  | .cancelling _ _ => none

def Holder.stageAt (h : Holder) (k : FrameSlot) : Stage :=
  match h.work with
  | none => .rest
  | some (j, st) => if j = k then st else .rest

/-- The holder works on no other frame. -/
def Holder.OnlyAt (h : Holder) (k : FrameSlot) : Prop := ∀ p, h.work = some p → p.1 = k

theorem stageAt_of_work {h : Holder} {k : FrameSlot} {st : Stage} (hw : h.work = some (k, st)) :
    h.stageAt k = st := by simp [Holder.stageAt, hw]

theorem stageAt_none {h : Holder} (hw : h.work = none) (k : FrameSlot) : h.stageAt k = .rest := by
  simp [Holder.stageAt, hw]

theorem Holder.OnlyAt.stageAt_ne {h : Holder} {j k : FrameSlot} (hk : h.OnlyAt k) (hj : j ≠ k) :
    h.stageAt j = .rest := by
  unfold Holder.stageAt
  cases hw : h.work with
  | none => rfl
  | some p =>
    have hp := hk p hw
    simp [hp, hj.symm]

theorem onlyAt_none {h : Holder} (hw : h.work = none) (k : FrameSlot) : h.OnlyAt k := by
  intro p hp
  rw [hw] at hp
  cases hp

theorem onlyAt_work {h : Holder} {k : FrameSlot} {st : Stage} (hw : h.work = some (k, st)) :
    h.OnlyAt k := by
  intro p hp
  rw [hw] at hp
  cases hp
  rfl

abbrev Place := Target × FrameSlot

/-- A frame and its stage. -/
abbrev Entry := Stage × Frame

def Queue.entry (q : Queue) (k : FrameSlot) : Entry := (q.holder.stageAt k, q.frames k)

namespace Mux

def entry (s : Mux) (i : Place) : Entry := (s.queues i.1).entry i.2

variable {s s' : Mux} {t : Target} {k : FrameSlot} {q : Queue}

@[simp] theorem setQueue_queues : (s.setQueue t q).queues = Function.update s.queues t q := rfl

@[simp] theorem setArena_queues {a : Arena} : (s.setArena t a).queues = s.queues := rfl

@[simp] theorem setAfter_queues {l : List Aftermath} : (s.setAfter t l).queues = s.queues := rfl

theorem setFrame_queues {f : Frame} : (s.setFrame t k f).queues =
    Function.update s.queues t
      { s.queues t with frames := Function.update (s.queues t).frames k f } := rfl

theorem setHolder_queues {h : Holder} : (s.setHolder t h).queues =
    Function.update s.queues t { s.queues t with holder := h } := rfl

theorem work_queues {f : Frame} {h : Holder} : ((s.setFrame t k f).setHolder t h).queues =
    Function.update s.queues t { s.queues t with
      frames := Function.update (s.queues t).frames k f, holder := h } := by
  simp [Mux.setHolder, Mux.setFrame]

/-- A holder goes on with the frame as it is. -/
theorem holder_queues {h : Holder} : (s.setHolder t h).queues =
    Function.update s.queues t { s.queues t with
      frames := Function.update (s.queues t).frames k (s.frame t k), holder := h } := by
  rw [show s.frame t k = (s.queues t).frames k from rfl, Function.update_eq_self]
  rfl

/-- One queue changes one frame and the stage of that frame. -/
theorem entry_update (hq : s'.queues = Function.update s.queues t q)
    (hold : (s.holder t).OnlyAt k) (hnew : q.holder.OnlyAt k)
    (hframes : ∀ j, j ≠ k → q.frames j = s.frame t j) :
    s'.entry = Function.update s.entry (t, k) (q.entry k) := by
  funext ⟨t', j⟩
  by_cases ht : t' = t
  · subst ht
    by_cases hj : j = k
    · subst hj
      rw [Function.update_self]
      simp only [entry, hq, Function.update_self]
    · rw [Function.update_of_ne (fun h => hj (Prod.mk.inj h).2)]
      simp only [entry, hq, Function.update_self, Queue.entry, hnew.stageAt_ne hj, hframes j hj]
      exact Prod.ext (hold.stageAt_ne hj).symm rfl
  · rw [Function.update_of_ne (fun h => ht (Prod.mk.inj h).1)]
    simp only [entry, hq, Function.update_of_ne ht]

/-- One queue changes nothing but its holder, who works on no frame before and after. -/
theorem entry_same (hq : s'.queues = Function.update s.queues t q)
    (hold : (s.holder t).work = none) (hnew : q.holder.work = none)
    (hframes : q.frames = (s.queues t).frames) : s'.entry = s.entry := by
  funext ⟨t', j⟩
  by_cases ht : t' = t
  · subst ht
    simp only [entry, hq, Function.update_self, Queue.entry, stageAt_none hnew, hframes]
    exact Prod.ext (stageAt_none hold j).symm rfl
  · simp only [entry, hq, Function.update_of_ne ht]

end Mux

end EspVision.MuxTx
