import EspVision.LinkRegistry
import EspVision.SessionContext

/-!
# Output scopes of the VM task (`ev_vm_output.c`)

Code that runs for a session pushes the session's identity, so that its output goes to that
session, and pops it when it is done. The handle of a push is a value with a counter, a reset
generation and a depth; it is compared here with an ideal stack, whose handles name a push.
-/
namespace EspVision.EvVmOutput
open EvTransport (nextGeneration nextGeneration_ne iterate_nextGeneration_ne)

/-- `ev_vm_output_origin_t`. -/
abbrev Origin := EvSession.Context

/-- `EV_VM_OUTPUT_SCOPE_DEPTH_MAX`. -/
def scopeDepthMax : ℕ := 4

/-- `ev_vm_output_scope_entry_t`. -/
structure Entry where
  cookie : UInt32 := 0
  origin : Origin := {}
  deriving DecidableEq

/-- `ev_vm_output_scope_t`. -/
structure Scope where
  cookie : UInt32 := 0
  resetGeneration : UInt32 := 0
  depth : ℕ := 0
  active : Bool := false
  deriving DecidableEq

/-- `ev_vm_output_task_state_t`. -/
structure TaskState where
  nextCookie : UInt32 := 0
  resetGeneration : UInt32 := 0
  scopeDepth : ℕ := 0
  replEditing : Bool := false
  replHasOrigin : Bool := false
  replOrigin : Origin := {}
  scopes : ℕ → Entry := fun _ => {}

/-! ## The calls -/

def isHexDigit (c : UInt8) : Bool := (0x30 ≤ c && c ≤ 0x39) || (0x61 ≤ c && c ≤ 0x66)

/-- `ev_vm_output_session_id_valid`. -/
def sessionIdValid (sessionId : List UInt8) : Bool :=
  sessionId.length == 32 && sessionId.all isHexDigit

/-- `ev_vm_output_origin_valid`. -/
def originValid (o : Origin) : Bool :=
  o.link.generation != 0 && o.vmEpoch != 0 && o.inputGeneration != 0 && sessionIdValid o.sessionId

/-- The counters skip zero. -/
def bump (n : UInt32) : UInt32 := if n + 1 = 0 then 1 else n + 1

namespace TaskState

variable (s : TaskState)

/-- `ev_vm_output_reset`. -/
def reset : TaskState := { resetGeneration := bump s.resetGeneration }

/-- `ev_vm_output_scope_push`, with the handle that it fills in and its answer. -/
def scopePush (origin : Origin) : TaskState × Scope × Bool :=
  if !originValid origin ∨ scopeDepthMax ≤ s.scopeDepth then (s, {}, false)
  else
    let depth := s.scopeDepth
    let cookie := bump s.nextCookie
    ({ s with
        nextCookie := cookie
        scopes := fun d => if d = depth then ⟨cookie, origin⟩ else s.scopes d
        scopeDepth := depth + 1 },
      ⟨cookie, s.resetGeneration, depth, true⟩, true)

/-- `ev_vm_output_scope_can_capture_thread`. -/
def scopeCanCaptureThread : Bool := s.scopeDepth < scopeDepthMax

/-- `ev_vm_output_scope_pop`, with what it leaves in the handle. -/
def scopePop (scope : Scope) : TaskState × Scope :=
  if !scope.active then (s, scope)
  else
    let used := { scope with active := false }
    if scope.resetGeneration ≠ s.resetGeneration then (s, used)
    else if scopeDepthMax ≤ scope.depth ∨ s.scopeDepth ≠ scope.depth + 1 ∨
        (s.scopes scope.depth).cookie ≠ scope.cookie then (s, used)
    else
      ({ s with
          scopes := fun d => if d = scope.depth then {} else s.scopes d
          scopeDepth := scope.depth }, used)

/-- `ev_vm_output_scope_snapshot`. -/
def scopeSnapshot : Option Origin :=
  if s.scopeDepth ≠ 0 then some (s.scopes (s.scopeDepth - 1)).origin
  else if s.replEditing ∧ s.replHasOrigin then some s.replOrigin
  else none

/-- `ev_vm_output_repl_read_begin`. -/
def replReadBegin : TaskState :=
  if s.scopeDepth ≠ 0 then s
  else { s with replOrigin := {}, replHasOrigin := false, replEditing := true }

/-- `ev_vm_output_repl_input_accept`. -/
def replInputAccept (origin : Origin) : TaskState × Bool :=
  if s.scopeDepth ≠ 0 then
    (s, originValid origin && (s.scopes (s.scopeDepth - 1)).origin == origin)
  else if !s.replEditing then (s, true)
  else if !originValid origin then (s, false)
  else if !s.replHasOrigin then ({ s with replOrigin := origin, replHasOrigin := true }, true)
  else (s, s.replOrigin == origin)

/-- `ev_vm_output_repl_read_complete`. -/
def replReadComplete : TaskState × Option Origin :=
  ({ s with replEditing := false, replHasOrigin := false, replOrigin := {} },
    if s.replEditing ∧ s.replHasOrigin then some s.replOrigin else none)

/-- `ev_vm_output_repl_read_abort`. -/
def replReadAbort : TaskState :=
  { s with replEditing := false, replHasOrigin := false, replOrigin := {} }

end TaskState

/-! ## Runs -/

/-- A call; handles are held in variables, which may be copied and used again. -/
inductive Op
  | push (v : ℕ) (origin : Origin)
  | pop (v : ℕ)
  | copy (v w : ℕ)
  | reset
  | replReadBegin
  | replInputAccept (origin : Origin)
  | replReadComplete
  | replReadAbort

/-- The task's state and its handles. -/
structure Task where
  state : TaskState := {}
  handles : ℕ → Scope := fun _ => {}

def Task.setHandle (t : Task) (v : ℕ) (scope : Scope) : ℕ → Scope :=
  fun k => if k = v then scope else t.handles k

def Task.step (t : Task) : Op → Task
  | .push v origin =>
    let r := t.state.scopePush origin
    ⟨r.1, t.setHandle v r.2.1⟩
  | .pop v =>
    let r := t.state.scopePop (t.handles v)
    ⟨r.1, t.setHandle v r.2⟩
  | .copy v w => ⟨t.state, t.setHandle w (t.handles v)⟩
  | .reset => ⟨t.state.reset, t.handles⟩
  | .replReadBegin => ⟨t.state.replReadBegin, t.handles⟩
  | .replInputAccept origin => ⟨(t.state.replInputAccept origin).1, t.handles⟩
  | .replReadComplete => ⟨t.state.replReadComplete.1, t.handles⟩
  | .replReadAbort => ⟨t.state.replReadAbort, t.handles⟩

def Task.run (t : Task) (ops : List Op) : Task := ops.foldl Task.step t

/-! ## The ideal stack -/

/-- A push: the number of resets so far, and its own number since the last of them. -/
structure Name where
  resets : ℕ
  push : ℕ
  deriving DecidableEq

/-- The scopes that were pushed since the last reset and not popped, outermost first, and what
each handle that was not used up names. -/
structure Ideal where
  resets : ℕ := 0
  pushes : ℕ := 0
  stack : List (ℕ × Origin) := []
  handles : ℕ → Option Name := fun _ => none

namespace Ideal

variable (i : Ideal)

/-- The name of the innermost scope. -/
def top : Option Name := i.stack.getLast?.map fun p => ⟨i.resets, p.1⟩

def setHandle (v : ℕ) (name : Option Name) : ℕ → Option Name :=
  fun k => if k = v then name else i.handles k

def step : Op → Ideal
  | .push v origin =>
    if originValid origin ∧ i.stack.length < scopeDepthMax then
      { i with
        pushes := i.pushes + 1
        stack := i.stack ++ [(i.pushes + 1, origin)]
        handles := i.setHandle v (some ⟨i.resets, i.pushes + 1⟩) }
    else { i with handles := i.setHandle v none }
  | .pop v =>
    -- a handle is used up, whichever scope it names
    { i with
      stack := if (i.handles v).isSome ∧ i.handles v = i.top then i.stack.dropLast else i.stack
      handles := i.setHandle v none }
  | .copy v w => { i with handles := i.setHandle w (i.handles v) }
  | .reset => { i with resets := i.resets + 1, pushes := 0, stack := [] }
  | _ => i

def run (ops : List Op) : Ideal := ops.foldl step i

/-- A handle that is popped is not as old as the counters can tell apart. -/
def Recent : Op → Prop
  | .pop v => ∀ name, i.handles v = some name → i.resets < name.resets + (2 ^ 32 - 1) ∧
    (name.resets = i.resets → i.pushes < name.push + (2 ^ 32 - 1))
  | _ => True

/-- Every pop of the run is of such a handle. -/
def RunRecent : Ideal → List Op → Prop
  | _, [] => True
  | i, op :: ops => i.Recent op ∧ RunRecent (i.step op) ops

end Ideal

/-! ## The counters -/

/-- The value of a counter that starts at zero after `n` steps. -/
def count (n : ℕ) : UInt32 := bump^[n] 0

theorem bump_count (n : ℕ) : bump (count n) = count (n + 1) :=
  (Function.iterate_succ_apply' bump n 0).symm

/-- Two values that are less than one turn apart tell the numbers apart. -/
theorem count_inj {a b : ℕ} (h : count a = count b) (hab : a ≤ b)
    (hlt : b < a + (2 ^ 32 - 1)) : a = b := by
  by_contra hne
  have hsplit : count b = nextGeneration^[b - a] (count a) := by
    have hb : b = b - a + a := by omega
    conv_lhs => rw [count, hb, Function.iterate_add_apply]
    rfl
  exact iterate_nextGeneration_ne (by omega) (by omega) (h.trans hsplit).symm

/-! ## The task and the ideal stack -/

/-- A handle and what it names: its depth is the place of the push, and whatever stands there now
was pushed then or later. -/
structure Names (i : Ideal) (scope : Scope) (name : Name) : Prop where
  resets : scope.resetGeneration = count name.resets
  cookie : scope.cookie = count name.push
  past : name.resets ≤ i.resets
  push : name.resets = i.resets → name.push ≤ i.pushes
  place : name.resets = i.resets → ∀ d p, i.stack[d]? = some p →
    (d = scope.depth → name.push ≤ p.1) ∧ (p.1 = name.push → d = scope.depth)

structure Sim (t : Task) (i : Ideal) : Prop where
  resets : t.state.resetGeneration = count i.resets
  cookie : t.state.nextCookie = count i.pushes
  depth : t.state.scopeDepth = i.stack.length
  bounded : i.stack.length ≤ scopeDepthMax
  scopes : ∀ d p, i.stack[d]? = some p → t.state.scopes d = ⟨count p.1, p.2⟩
  older : ∀ p ∈ i.stack, p.1 ≤ i.pushes
  active : ∀ v, (t.handles v).active = (i.handles v).isSome
  handles : ∀ v name, i.handles v = some name → Names i (t.handles v) name

theorem sim_boot : Sim {} {} where
  resets := rfl
  cookie := rfl
  depth := rfl
  bounded := by decide
  scopes _ _ h := by simp at h
  older _ h := by simp at h
  active _ := rfl
  handles _ _ h := by cases h

/-- A call that leaves the scopes and the handles. -/
lemma Sim.congr {t t' : Task} {i : Ideal} (h : Sim t i)
    (h1 : t'.state.resetGeneration = t.state.resetGeneration)
    (h2 : t'.state.nextCookie = t.state.nextCookie)
    (h3 : t'.state.scopeDepth = t.state.scopeDepth) (h4 : t'.state.scopes = t.state.scopes)
    (h5 : t'.handles = t.handles) : Sim t' i where
  resets := h1.trans h.resets
  cookie := h2.trans h.cookie
  depth := h3.trans h.depth
  bounded := h.bounded
  scopes d p hp := by rw [h4]; exact h.scopes d p hp
  older := h.older
  active v := by rw [h5]; exact h.active v
  handles v name hv := by rw [h5]; exact h.handles v name hv

/-- A handle that is set anew, the stack staying as it is. -/
lemma Sim.setHandle {t : Task} {i : Ideal} (h : Sim t i) (v : ℕ) (scope : Scope)
    (name : Option Name) (hactive : scope.active = name.isSome)
    (hnames : ∀ n, name = some n → Names i scope n) :
    Sim ⟨t.state, t.setHandle v scope⟩ { i with handles := i.setHandle v name } where
  resets := h.resets
  cookie := h.cookie
  depth := h.depth
  bounded := h.bounded
  scopes := h.scopes
  older := h.older
  active k := by
    simp only [Task.setHandle, Ideal.setHandle]
    split_ifs
    · exact hactive
    · exact h.active k
  handles k n hk := by
    simp only [Task.setHandle, Ideal.setHandle] at hk ⊢
    split_ifs at hk ⊢
    · obtain ⟨h1, h2, h3, h4, h5⟩ := hnames n hk
      exact ⟨h1, h2, h3, h4, h5⟩
    · obtain ⟨h1, h2, h3, h4, h5⟩ := h.handles k n hk
      exact ⟨h1, h2, h3, h4, h5⟩

theorem sim_push {t : Task} {i : Ideal} (h : Sim t i) (v : ℕ) (origin : Origin) :
    Sim (t.step (.push v origin)) (i.step (.push v origin)) ∧
      (t.state.scopePush origin).2.2 =
        decide (originValid origin = true ∧ i.stack.length < scopeDepthMax) := by
  have hiff : (!originValid origin) = true ∨ scopeDepthMax ≤ t.state.scopeDepth ↔
      ¬(originValid origin = true ∧ i.stack.length < scopeDepthMax) := by
    rw [h.depth]
    simp only [Bool.not_eq_true', not_and, not_lt]
    cases originValid origin <;> simp
  by_cases hok : originValid origin = true ∧ i.stack.length < scopeDepthMax
  · have hbad : ¬((!originValid origin) = true ∨ scopeDepthMax ≤ t.state.scopeDepth) :=
      fun hb => hiff.mp hb hok
    have hpush : t.state.scopePush origin =
        ({ t.state with
            nextCookie := count (i.pushes + 1)
            scopes := fun d =>
              if d = i.stack.length then ⟨count (i.pushes + 1), origin⟩ else t.state.scopes d
            scopeDepth := i.stack.length + 1 },
          ⟨count (i.pushes + 1), t.state.resetGeneration, i.stack.length, true⟩, true) := by
      unfold TaskState.scopePush
      rw [if_neg hbad]
      simp only [h.depth, h.cookie, bump_count]
    have hnew : ∀ d p, (i.stack ++ [(i.pushes + 1, origin)])[d]? = some p →
        (i.stack[d]? = some p ∧ d < i.stack.length) ∨
          (d = i.stack.length ∧ p = (i.pushes + 1, origin)) := by
      intro d p hp
      by_cases hd : d < i.stack.length
      · rw [List.getElem?_append_left hd] at hp
        exact .inl ⟨hp, hd⟩
      · rw [List.getElem?_append_right (by omega)] at hp
        have hd' : d = i.stack.length := by
          have hlt := (List.getElem?_eq_some_iff.mp hp).1
          simp only [List.length_singleton] at hlt
          omega
        subst hd'
        rw [Nat.sub_self] at hp
        exact .inr ⟨rfl, (Option.some.inj hp).symm⟩
    refine ⟨?_, by rw [hpush]; simp [hok]⟩
    simp only [Task.step, hpush, Ideal.step, if_pos hok]
    refine ⟨h.resets, rfl, by simp, by simp; omega, fun d p hp => ?_, fun p hp => ?_,
      fun k => ?_, fun k name hk => ?_⟩
    · rcases hnew d p hp with ⟨hold, hd⟩ | ⟨rfl, rfl⟩
      · simp only [if_neg (Nat.ne_of_lt hd)]
        exact h.scopes d p hold
      · simp
    · rcases List.mem_append.mp hp with hp | hp
      · exact Nat.le_succ_of_le (h.older p hp)
      · obtain rfl := List.mem_singleton.mp hp
        exact le_rfl
    · simp only [Task.setHandle, Ideal.setHandle]
      split_ifs
      · rfl
      · exact h.active k
    · simp only [Task.setHandle, Ideal.setHandle] at hk ⊢
      split_ifs at hk ⊢
      · obtain rfl := Option.some.inj hk
        refine ⟨h.resets, rfl, le_rfl, fun _ => le_rfl, fun _ d p hp => ?_⟩
        rcases hnew d p hp with ⟨hold, hd⟩ | ⟨rfl, rfl⟩
        · have hle := h.older p (List.mem_of_getElem? hold)
          exact ⟨fun he => absurd he (Nat.ne_of_lt hd), fun he => by
            simp only at he
            omega⟩
        · exact ⟨fun _ => le_rfl, fun _ => rfl⟩
      · obtain ⟨h1, h2, h3, h4, h5⟩ := h.handles k name hk
        refine ⟨h1, h2, h3, fun he => Nat.le_succ_of_le (h4 he), fun he d p hp => ?_⟩
        rcases hnew d p hp with ⟨hold, -⟩ | ⟨-, rfl⟩
        · exact h5 he d p hold
        · have hle := h4 he
          exact ⟨fun _ => Nat.le_succ_of_le hle, fun hpe => by
            simp only at hpe
            omega⟩
  · have hbad : (!originValid origin) = true ∨ scopeDepthMax ≤ t.state.scopeDepth := hiff.mpr hok
    have hpush : t.state.scopePush origin = (t.state, {}, false) := by
      unfold TaskState.scopePush
      rw [if_pos hbad]
    refine ⟨?_, by rw [hpush]; simp [hok]⟩
    simp only [Task.step, hpush, Ideal.step, if_neg hok]
    exact h.setHandle _ _ _ rfl fun n hn => by cases hn

/-- The guards of a pop hold of a handle with a name exactly when it names the innermost scope. -/
lemma Sim.pops_iff {t : Task} {i : Ideal} (h : Sim t i) {v : ℕ} {name : Name}
    (hv : i.handles v = some name) (hrecent : i.Recent (.pop v)) :
    ((t.handles v).resetGeneration = t.state.resetGeneration ∧
      (t.handles v).depth < scopeDepthMax ∧ t.state.scopeDepth = (t.handles v).depth + 1 ∧
      (t.state.scopes (t.handles v).depth).cookie = (t.handles v).cookie) ↔
      i.top = some name := by
  obtain ⟨hresets, hcookie, hpast, hpush, hplace⟩ := h.handles v name hv
  obtain ⟨hturn, hturn'⟩ := hrecent name hv
  rw [hresets, hcookie, h.resets, h.depth]
  constructor
  · rintro ⟨hgen, -, hlen, hsame⟩
    have hnow := count_inj hgen hpast hturn
    have hlt : (t.handles v).depth < i.stack.length := by omega
    have hget := List.getElem?_eq_getElem hlt
    rw [h.scopes _ _ hget] at hsame
    have hle := (hplace hnow _ _ hget).1 rfl
    have hold := h.older _ (List.getElem_mem hlt)
    have hnum := count_inj hsame.symm hle (by have := hturn' hnow; omega)
    have hlast : i.stack.getLast? = some i.stack[(t.handles v).depth] := by
      rw [List.getLast?_eq_getElem?, hlen, Nat.add_sub_cancel, hget]
    rw [Ideal.top, hlast, Option.map_some, ← hnow, ← hnum]
  · intro htop
    obtain ⟨p, hlast, rfl⟩ := Option.map_eq_some_iff.mp htop
    have hget : i.stack[i.stack.length - 1]? = some p := by
      rw [← List.getLast?_eq_getElem?, hlast]
    have hpos : 0 < i.stack.length := by
      have := (List.getElem?_eq_some_iff.mp hget).1
      omega
    have hdepth := (hplace rfl _ _ hget).2 rfl
    have hbounded := h.bounded
    refine ⟨rfl, by omega, by omega, ?_⟩
    rw [← hdepth, h.scopes _ _ hget]

/-- A pop whose handle is not that of the innermost scope leaves the state as it is. -/
lemma Sim.pop_unchanged {t : Task} {i : Ideal} (h : Sim t i) {v : ℕ}
    (hrecent : i.Recent (.pop v)) (hnot : ¬((i.handles v).isSome ∧ i.handles v = i.top)) :
    t.state.scopePop (t.handles v) = (t.state, { t.handles v with active := false }) := by
  have hactive := h.active v
  unfold TaskState.scopePop
  cases hv : i.handles v with
  | none =>
    rw [hv, Option.isSome_none] at hactive
    rw [if_pos (by simp [hactive])]
    rw [← hactive]
  | some name =>
    rw [hv, Option.isSome_some] at hactive
    rw [if_neg (by simp [hactive])]
    have hfails := mt (h.pops_iff hv hrecent).mp fun htop => hnot ⟨by simp [hv], by rw [hv, htop]⟩
    dsimp only
    split_ifs with hgen hguard
    · rfl
    · rfl
    · push Not at hgen hguard
      exact absurd ⟨hgen, hguard.1, hguard.2.1, hguard.2.2⟩ hfails

lemma Sim.pop_top {t : Task} {i : Ideal} (h : Sim t i) {v : ℕ} {name : Name}
    (hv : i.handles v = some name) (hrecent : i.Recent (.pop v)) (htop : i.top = some name) :
    t.state.scopePop (t.handles v) =
      ({ t.state with
          scopes := fun d => if d = i.stack.length - 1 then {} else t.state.scopes d
          scopeDepth := i.stack.length - 1 },
        { t.handles v with active := false }) := by
  obtain ⟨hgen, hmax, hdepth, hsame⟩ := (h.pops_iff hv hrecent).mpr htop
  have hactive : (t.handles v).active = true := by rw [h.active v, hv, Option.isSome_some]
  have hplace : (t.handles v).depth = i.stack.length - 1 := by
    have := h.depth
    omega
  unfold TaskState.scopePop
  rw [if_neg (by simp [hactive])]
  dsimp only
  rw [if_neg (by simp [hgen]), if_neg (by simp [hmax, hdepth, hsame]), hplace]

theorem sim_pop {t : Task} {i : Ideal} (h : Sim t i) (v : ℕ) (hrecent : i.Recent (.pop v)) :
    Sim (t.step (.pop v)) (i.step (.pop v)) := by
  by_cases hpop : (i.handles v).isSome ∧ i.handles v = i.top
  · obtain ⟨name, hv⟩ := Option.isSome_iff_exists.mp hpop.1
    have hpos : 0 < i.stack.length := by
      refine List.length_pos_iff.mpr fun he => ?_
      have htop := hpop.2
      rw [hv, Ideal.top, he] at htop
      cases htop
    have hkeep : ∀ d p, i.stack.dropLast[d]? = some p →
        i.stack[d]? = some p ∧ d ≠ i.stack.length - 1 := by
      intro d p hp
      rw [List.getElem?_dropLast] at hp
      split_ifs at hp with hd
      exact ⟨hp, Nat.ne_of_lt hd⟩
    have hmid : Sim ⟨(t.state.scopePop (t.handles v)).1, t.handles⟩
        { i with stack := i.stack.dropLast } := by
      rw [h.pop_top hv hrecent (hpop.2.symm.trans hv)]
      refine ⟨h.resets, h.cookie, List.length_dropLast.symm, ?_, fun d p hp => ?_,
        fun p hp => h.older p (List.dropLast_subset _ hp), h.active, fun k name hk => ?_⟩
      · exact (List.length_dropLast.trans_le (Nat.sub_le _ _)).trans h.bounded
      · obtain ⟨hold, hd⟩ := hkeep d p hp
        simp only [if_neg hd]
        exact h.scopes d p hold
      · obtain ⟨h1, h2, h3, h4, h5⟩ := h.handles k name hk
        exact ⟨h1, h2, h3, h4, fun he d p hp => h5 he d p (hkeep d p hp).1⟩
    have hset := hmid.setHandle v { t.handles v with active := false } none rfl (by simp)
    have hi : i.step (.pop v) =
        { i with stack := i.stack.dropLast, handles := i.setHandle v none } := by
      simp only [Ideal.step, if_pos hpop]
    have ht : (t.state.scopePop (t.handles v)).2 = { t.handles v with active := false } := by
      rw [h.pop_top hv hrecent (hpop.2.symm.trans hv)]
    rw [hi]
    simp only [Task.step, ht]
    exact hset
  · have hset := h.setHandle v { t.handles v with active := false } none rfl (by simp)
    have hi : i.step (.pop v) = { i with handles := i.setHandle v none } := by
      simp only [Ideal.step, if_neg hpop]
    rw [hi]
    simp only [Task.step, h.pop_unchanged hrecent hpop]
    exact hset

lemma sim_reset {t : Task} {i : Ideal} (h : Sim t i) : Sim (t.step .reset) (i.step .reset) where
  resets := by
    simp only [Task.step, TaskState.reset, Ideal.step, h.resets, bump_count]
  cookie := rfl
  depth := rfl
  bounded := Nat.zero_le _
  scopes _ _ hp := by simp [Ideal.step] at hp
  older _ hp := by simp [Ideal.step] at hp
  active := h.active
  handles v name hv := by
    obtain ⟨h1, h2, h3, -, -⟩ := h.handles v name hv
    have hne : name.resets ≠ i.resets + 1 := by omega
    exact ⟨h1, h2, Nat.le_succ_of_le h3, fun he => absurd he hne, fun he => absurd he hne⟩

theorem sim_step {t : Task} {i : Ideal} (h : Sim t i) (op : Op) (hrecent : i.Recent op) :
    Sim (t.step op) (i.step op) := by
  cases op with
  | push v origin => exact (sim_push h v origin).1
  | pop v => exact sim_pop h v hrecent
  | copy v w => exact h.setHandle _ _ _ (h.active v) (h.handles v)
  | reset => exact sim_reset h
  | replReadBegin =>
    refine h.congr ?_ ?_ ?_ ?_ rfl <;>
      simp only [Task.step, TaskState.replReadBegin] <;> split_ifs <;> rfl
  | replInputAccept origin =>
    refine h.congr ?_ ?_ ?_ ?_ rfl <;>
      simp only [Task.step, TaskState.replInputAccept] <;> split_ifs <;> rfl
  | replReadComplete => exact h.congr rfl rfl rfl rfl rfl
  | replReadAbort => exact h.congr rfl rfl rfl rfl rfl

theorem sim_run (ops : List Op) {t : Task} {i : Ideal} (h : Sim t i) (hr : i.RunRecent ops) :
    Sim (t.run ops) (i.run ops) := by
  induction ops generalizing t i with
  | nil => exact h
  | cons op ops ih => exact ih (sim_step h op hr.1) hr.2

/-- The snapshot of a task that agrees with an ideal stack. -/
lemma Sim.snapshot {t : Task} {i : Ideal} (h : Sim t i) :
    t.state.scopeSnapshot = match i.stack.getLast? with
      | some p => some p.2
      | none => if t.state.replEditing ∧ t.state.replHasOrigin then some t.state.replOrigin
        else none := by
  have hdepth := h.depth
  unfold TaskState.scopeSnapshot
  cases hlast : i.stack.getLast? with
  | none =>
    rw [List.getLast?_eq_none_iff] at hlast
    rw [if_neg (by simp [hdepth, hlast])]
  | some p =>
    have hget : i.stack[i.stack.length - 1]? = some p := by
      rw [← List.getLast?_eq_getElem?, hlast]
    have hpos := (List.getElem?_eq_some_iff.mp hget).1
    rw [if_pos (by omega), hdepth, h.scopes _ _ hget]

/-! ## Every sequence of calls -/

/-- The snapshot is the innermost scope of the ideal stack, a pop whose handle is not that of this
scope changes nothing but the handle, a push succeeds up to the capacity, and the live scopes keep
their origins. -/
theorem scope_stack (ops : List Op) (h : Ideal.RunRecent {} ops) :
    (Task.run {} ops).state.scopeSnapshot =
      (match (Ideal.run {} ops).stack.getLast? with
        | some p => some p.2
        | none =>
          if (Task.run {} ops).state.replEditing ∧ (Task.run {} ops).state.replHasOrigin then
            some (Task.run {} ops).state.replOrigin
          else none) ∧
      (∀ v, (Ideal.run {} ops).Recent (.pop v) →
        ¬(((Ideal.run {} ops).handles v).isSome ∧
          (Ideal.run {} ops).handles v = (Ideal.run {} ops).top) →
        ((Task.run {} ops).step (.pop v)).state = (Task.run {} ops).state) ∧
      (∀ origin, ((Task.run {} ops).state.scopePush origin).2.2 =
        decide (originValid origin = true ∧ (Ideal.run {} ops).stack.length < scopeDepthMax)) ∧
      (Task.run {} ops).state.scopeDepth = (Ideal.run {} ops).stack.length ∧
      ∀ d p, (Ideal.run {} ops).stack[d]? = some p →
        ((Task.run {} ops).state.scopes d).origin = p.2 := by
  have hsim := sim_run ops sim_boot h
  refine ⟨hsim.snapshot, fun v hrecent hnot => ?_, fun origin => (sim_push hsim 0 origin).2,
    hsim.depth, fun d p hp => by rw [hsim.scopes d p hp]⟩
  simp only [Task.step, hsim.pop_unchanged hrecent hnot]

/-- The session with the input generation `n`. -/
def sampleOrigin (n : UInt32) : Origin where
  link := ⟨.usj, 0, 1⟩
  sessionId := List.replicate 32 0x61
  vmEpoch := 1
  inputGeneration := n

/-- The outer handle is popped first, and again behind the inner one. -/
def crossed : List Op :=
  [.reset, .push 0 (sampleOrigin 1), .push 1 (sampleOrigin 2), .pop 0, .pop 1, .pop 0]

lemma crossed_recent : Ideal.RunRecent {} crossed := by
  simp [crossed, Ideal.RunRecent, Ideal.Recent, Ideal.step, Ideal.setHandle, Ideal.top,
    originValid, sampleOrigin, sessionIdValid, isHexDigit, scopeDepthMax]

theorem scope_stack_crossed :
    Ideal.RunRecent {} crossed ∧ (Task.run {} crossed).state.scopeDepth =
      (Ideal.run {} crossed).stack.length :=
  ⟨crossed_recent, (scope_stack crossed crossed_recent).2.2.2.1⟩

/-! ## What the calls do not keep -/

lemma run_append (t : Task) (a b : List Op) : t.run (a ++ b) = (t.run a).run b :=
  List.foldl_append

lemma run_resets (t : Task) (n : ℕ) :
    t.run (List.replicate (n + 1) .reset) =
      ⟨{ resetGeneration := bump^[n + 1] t.state.resetGeneration }, t.handles⟩ := by
  induction n generalizing t with
  | zero => rfl
  | succ n ih => exact ih (t.step .reset)

/-- The reset counter comes back to where it was. -/
lemma bump_turn : bump^[2 ^ 32 - 2 + 1] 1 = 1 := by
  have h := EvTransport.toNat_iterate_nextGeneration (g := 1) (by decide) (2 ^ 32 - 2 + 1)
  refine UInt32.toNat_inj.mp (Eq.trans h ?_)
  decide

/-- A first scope is pushed, the task is reset as often as the counter has values, and the handle
is popped behind the push of another scope. -/
def turned : List Op :=
  [Op.reset, .push 0 (sampleOrigin 1)] ++ List.replicate (2 ^ 32 - 2 + 1) Op.reset ++
    [Op.push 1 (sampleOrigin 2), .pop 0]

/-- An inner pop uses its handle up, so that the scope stays when the handle is popped again as
the innermost one; and a handle from before `2 ^ 32 - 1` resets pops another scope. -/
theorem pop_of_inner_not_noop :
    (Task.run {} [.reset, .push 0 (sampleOrigin 1), .push 1 (sampleOrigin 2), .pop 1,
        .pop 0]).state.scopeSnapshot = none ∧
      (Task.run {} crossed).state.scopeSnapshot = some (sampleOrigin 1) ∧
      (Task.run {} turned).state.scopeSnapshot = none := by
  refine ⟨by decide +kernel, by decide +kernel, ?_⟩
  set t := Task.run {} [.reset, .push 0 (sampleOrigin 1)] with ht
  have hgen : t.state.resetGeneration = 1 := by rw [ht]; decide +kernel
  have hhandle : t.handles 0 = ⟨1, 1, 0, true⟩ := by rw [ht]; decide +kernel
  rw [turned, run_append, run_append, ← ht, run_resets, hgen, bump_turn]
  simp only [Task.run, List.foldl_cons, List.foldl_nil, Task.step, Task.setHandle, hhandle]
  decide +kernel

end EspVision.EvVmOutput
