import Mathlib.Data.List.Basic
import Mathlib.Tactic

/-!
# Labelled transition systems and their histories

A run is recorded as the list of its labels, oldest first. Invariants may speak
of that list as well as of the state, so a property of "what has happened so
far" is proved by the same one-step induction as a property of the state.
-/
namespace EspVision.TransitionSystem

/-- Initial states and a labelled step relation. -/
structure System (σ : Type*) (ι : Type*) where
  init : σ → Prop
  step : σ → ι → σ → Prop

variable {σ ι : Type*} {S : System σ ι}

/-- `Reaches S h s`: some run from an initial state has labels `h` and ends in `s`. -/
inductive Reaches (S : System σ ι) : List ι → σ → Prop
  | init {s : σ} : S.init s → Reaches S [] s
  | snoc {h : List ι} {s t : σ} {l : ι} :
      Reaches S h s → S.step s l t → Reaches S (h ++ [l]) t

/-- A finite path between two states, with its labels oldest first. -/
inductive Path (S : System σ ι) : σ → List ι → σ → Prop
  | nil (s : σ) : Path S s [] s
  | cons {s t u : σ} {l : ι} {ls : List ι} : S.step s l t → Path S t ls u → Path S s (l :: ls) u

theorem Reaches.append {h ls : List ι} {s t : σ} (hr : Reaches S h s) (hp : Path S s ls t) :
    Reaches S (h ++ ls) t := by
  induction hp generalizing h with
  | nil s => simpa using hr
  | cons hstep _ ih => simpa using ih (hr.snoc hstep)

theorem Path.append {ls ms : List ι} {s t u : σ} (hp : Path S s ls t) (hq : Path S t ms u) :
    Path S s (ls ++ ms) u := by
  induction hp with
  | nil s => exact hq
  | cons hstep _ ih => exact Path.cons hstep (ih hq)

/-- Where a step function gives the steps, taking labels one after the other is a path. -/
theorem Path.of_foldlM {next : σ → ι → Option σ} (hs : ∀ s l t, next s l = some t → S.step s l t)
    {ls : List ι} {s t : σ} (h : ls.foldlM next s = some t) : Path S s ls t := by
  induction ls generalizing s with
  | nil =>
    obtain rfl := Option.some.inj h
    exact .nil s
  | cons l ls ih =>
    rw [List.foldlM_cons] at h
    obtain ⟨u, hu, h⟩ := Option.bind_eq_some_iff.mp h
    exact .cons (hs _ _ _ hu) (ih h)

/-- A run can be cut anywhere. -/
theorem Reaches.split {h ls : List ι} {t : σ} (hr : Reaches S (h ++ ls) t) :
    ∃ s, Reaches S h s ∧ Path S s ls t := by
  induction ls using List.reverseRecOn generalizing t with
  | nil => exact ⟨t, by simpa using hr, .nil t⟩
  | append_singleton ls l ih =>
    rw [← List.append_assoc] at hr
    generalize hm : h ++ ls ++ [l] = m at hr
    cases hr with
    | init _ => simp at hm
    | @snoc h' s' _ l' hr' hstep =>
      obtain ⟨rfl, hl⟩ := List.append_inj' hm rfl
      obtain rfl := List.singleton_inj.mp hl
      obtain ⟨s, hs, hp⟩ := ih hr'
      exact ⟨s, hs, hp.append (.cons hstep (.nil _))⟩

/-- The step that a label of a run stands for. -/
theorem Reaches.cut {h ls : List ι} {l : ι} {u : σ} (hr : Reaches S (h ++ l :: ls) u) :
    ∃ s t, Reaches S h s ∧ S.step s l t ∧ Path S t ls u := by
  obtain ⟨s, hs, hp⟩ := hr.split
  obtain _ | ⟨hstep, hp⟩ := hp
  exact ⟨s, _, hs, hstep, hp⟩

/-- A set of states that no step leaves is not left along a path, and every label of the path
has what its step has. -/
theorem Path.closed {P : σ → Prop} {Q : ι → Prop} (hs : ∀ s l t, P s → S.step s l t → P t ∧ Q l)
    {s t : σ} {ls : List ι} (hp : Path S s ls t) (h : P s) : P t ∧ ∀ l ∈ ls, Q l := by
  induction hp with
  | nil s => exact ⟨h, by simp⟩
  | cons hstep _ ih =>
    obtain ⟨hP, hQ⟩ := hs _ _ _ h hstep
    obtain ⟨ht, hall⟩ := ih hP
    refine ⟨ht, fun l hl => ?_⟩
    rcases List.mem_cons.mp hl with rfl | hl
    · exact hQ
    · exact hall l hl

/-- An invariant that holds initially and is kept by every step holds of every run. -/
theorem Reaches.invariant {I : List ι → σ → Prop} (h0 : ∀ s, S.init s → I [] s)
    (hs : ∀ h s l t, Reaches S h s → I h s → S.step s l t → I (h ++ [l]) t)
    {h : List ι} {s : σ} (hr : Reaches S h s) : I h s := by
  induction hr with
  | init hi => exact h0 _ hi
  | snoc hr hstep ih => exact hs _ _ _ _ hr ih hstep

/-- The same rule for an invariant of the state alone. -/
theorem Reaches.stateInvariant {I : σ → Prop} (h0 : ∀ s, S.init s → I s)
    (hs : ∀ s l t, I s → S.step s l t → I t)
    {h : List ι} {s : σ} (hr : Reaches S h s) : I s :=
  hr.invariant (I := fun _ s => I s) h0 fun _ _ _ _ _ hi hstep => hs _ _ _ hi hstep

/-- Restrict the steps of a system to those that meet a condition. -/
def System.restrict (S : System σ ι) (ok : σ → ι → Prop) : System σ ι where
  init := S.init
  step s l t := ok s l ∧ S.step s l t

/-- A system with more steps has more runs. -/
theorem Reaches.mono {T : System σ ι} (h0 : ∀ s, S.init s → T.init s)
    (hs : ∀ s l t, S.step s l t → T.step s l t) {h : List ι} {s : σ} (hr : Reaches S h s) :
    Reaches T h s := by
  induction hr with
  | init hi => exact .init (h0 _ hi)
  | snoc _ hstep ih => exact ih.snoc (hs _ _ _ hstep)

/-- A restricted run is a run. -/
theorem Reaches.of_restrict {ok : σ → ι → Prop} {h : List ι} {s : σ}
    (hr : Reaches (S.restrict ok) h s) : Reaches S h s := by
  refine Reaches.mono (S := S.restrict ok) (T := S) (fun _ hi => hi) ?_ hr
  rintro s l t ⟨-, hstep⟩
  exact hstep

/-- A run of the big system is a run of a part of it, the labels the part does not
see being dropped. -/
theorem Reaches.project {τ κ : Type*} {T : System τ κ} (f : σ → τ) (g : ι → Option κ)
    (h0 : ∀ s, S.init s → T.init (f s))
    (hs : ∀ s l t, S.step s l t →
      match g l with
      | some k => T.step (f s) k (f t)
      | none => f t = f s)
    {h : List ι} {s : σ} (hr : Reaches S h s) : Reaches T (h.filterMap g) (f s) := by
  induction hr with
  | init hi => exact .init (h0 _ hi)
  | @snoc h s t l _ hstep ih =>
    have hl := hs _ _ _ hstep
    cases hg : g l with
    | none =>
      simp only [hg] at hl
      simpa [List.filterMap_append, hg, hl] using ih
    | some k =>
      simp only [hg] at hl
      simpa [List.filterMap_append, hg] using ih.snoc hl

end EspVision.TransitionSystem
