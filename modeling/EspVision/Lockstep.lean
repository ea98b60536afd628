import Mathlib.Data.Nat.Notation
import Mathlib.Logic.Basic

/-!
# Two programs in lockstep

A program reads, may fail, and keeps a log of what it has passed. Two programs run alike when
they log the same and either both return related values or both fail in a way that is `fine`:
the failures that are not (a read outside the data, a loop that does not come to its end) are
then excluded for both.
-/
namespace EspVision.Lockstep

/-- A program that logs `μ`, fails with `ε` and returns `α`. -/
def Prog (μ ε α : Type) : Type := List μ → List μ × Except ε α

variable {μ ε α β γ δ : Type}

instance : Monad (Prog μ ε) where
  pure a := fun log => (log, .ok a)
  bind x f := fun log =>
    match x log with
    | (log, .ok a) => f a log
    | (log, .error e) => (log, .error e)

/-- Stop with `e`. -/
def fail (e : ε) : Prog μ ε α := fun log => (log, .error e)

/-- Stop with `e` if the condition holds. -/
def failIf (e : ε) (c : Prop) [Decidable c] : Prog μ ε Unit := if c then fail e else pure ()

/-- Add to the log. -/
def visit (m : μ) : Prog μ ε Unit := fun log => (log ++ [m], .ok ())

@[simp] theorem pure_bind (a : α) (f : α → Prog μ ε β) : (pure a >>= f) = f a := rfl

@[simp] theorem fail_bind (e : ε) (f : α → Prog μ ε β) : ((fail e : Prog μ ε α) >>= f) = fail e :=
  rfl

@[simp] theorem bind_pure (x : Prog μ ε α) : (x >>= pure) = x := by
  funext log
  change (match x log with
    | (log, .ok a) => (log, .ok a)
    | (log, .error e) => (log, .error e)) = x log
  rcases x log with ⟨l, e | a⟩ <;> rfl

theorem bind_assoc (x : Prog μ ε α) (f : α → Prog μ ε β) (g : β → Prog μ ε γ) :
    (x >>= f >>= g) = x >>= fun a => f a >>= g := by
  funext log
  change (match (match x log with
      | (log, .ok a) => f a log
      | (log, .error e) => (log, .error e)) with
    | (log, .ok b) => g b log
    | (log, .error e) => (log, .error e)) =
    match x log with
      | (log, .ok a) => (match f a log with
        | (log, .ok b) => g b log
        | (log, .error e) => (log, .error e))
      | (log, .error e) => (log, .error e)
  rcases x log with ⟨l, e | a⟩ <;> rfl

/-- Repeat `body` until it gives a result, `fuel` times at most; then stop with `e`. -/
def whileFuel {σ : Type} (e : ε) (body : σ → Prog μ ε (σ ⊕ α)) : ℕ → σ → Prog μ ε α
  | 0, _ => fail e
  | fuel + 1, s => do
    match ← body s with
    | .inl s => whileFuel e body fuel s
    | .inr a => pure a

theorem failIf_bind_of (e : ε) {c : Prop} [Decidable c] (h : c) (f : Unit → Prog μ ε β) :
    (failIf e c >>= f) = fail e := by
  rw [failIf, if_pos h, fail_bind]

theorem failIf_bind_of_not (e : ε) {c : Prop} [Decidable c] (h : ¬c) (f : Unit → Prog μ ε β) :
    (failIf e c >>= f) = f () := by
  rw [failIf, if_neg h, pure_bind]

theorem whileFuel_succ {σ : Type} (e : ε) (body : σ → Prog μ ε (σ ⊕ α)) (fuel : ℕ) (s : σ) :
    whileFuel e body (fuel + 1) s = body s >>= Sum.elim (whileFuel e body fuel) pure := by
  rw [whileFuel]
  congr 1
  funext r
  cases r <;> rfl

/-- Both outcomes are values in `R`, or both are a failure that is `fine`. -/
def Same (fine : ε → Prop) (R : α → β → Prop) : Except ε α → Except ε β → Prop
  | .ok a, .ok b => R a b
  | .error e, .error e' => fine e ∧ fine e'
  | _, _ => False

/-- From every log the two programs come to the same log and to the same outcome. -/
def Alike (fine : ε → Prop) (R : α → β → Prop) (x : Prog μ ε α) (y : Prog μ ε β) : Prop :=
  ∀ log, (x log).1 = (y log).1 ∧ Same fine R (x log).2 (y log).2

namespace Alike

variable {fine : ε → Prop} {R : α → β → Prop} {S : γ → δ → Prop}

theorem pure {a : α} {b : β} (h : R a b) :
    Alike fine R (Pure.pure a : Prog μ ε α) (Pure.pure b) :=
  fun _ => ⟨rfl, h⟩

theorem fail {e e' : ε} (h : fine e) (h' : fine e') :
    Alike fine R (fail e : Prog μ ε α) (Lockstep.fail e') :=
  fun _ => ⟨rfl, h, h'⟩

theorem bind {x : Prog μ ε α} {y : Prog μ ε β} {f : α → Prog μ ε γ} {g : β → Prog μ ε δ}
    (hxy : Alike fine R x y) (hfg : ∀ a b, R a b → Alike fine S (f a) (g b)) :
    Alike fine S (x >>= f) (y >>= g) := by
  intro log
  obtain ⟨hlog, hout⟩ := hxy log
  change (match x log with
      | (log, .ok a) => f a log
      | (log, .error e) => (log, .error e)).1 =
      (match y log with
      | (log, .ok a) => g a log
      | (log, .error e) => (log, .error e)).1 ∧
    Same fine S (match x log with
      | (log, .ok a) => f a log
      | (log, .error e) => (log, .error e)).2
      (match y log with
      | (log, .ok a) => g a log
      | (log, .error e) => (log, .error e)).2
  rcases hx : x log with ⟨l, e | a⟩ <;> rcases hy : y log with ⟨l', e' | b⟩ <;>
    rw [hx, hy] at hlog hout
  · exact ⟨hlog, hout⟩
  · exact hout.elim
  · exact hout.elim
  · obtain rfl : l = l' := hlog
    exact hfg a b hout l

/-- The same step to the log on both sides. -/
theorem visit {m : μ} {f : Unit → Prog μ ε γ} {g : Unit → Prog μ ε δ}
    (h : Alike fine S (f ()) (g ())) :
    Alike fine S (Lockstep.visit m >>= f) (Lockstep.visit m >>= g) :=
  fun log => h (log ++ [m])

theorem mono {R' : α → β → Prop} {x : Prog μ ε α} {y : Prog μ ε β} (h : Alike fine R x y)
    (hR : ∀ a b, R a b → R' a b) : Alike fine R' x y := by
  intro log
  obtain ⟨hlog, hout⟩ := h log
  refine ⟨hlog, ?_⟩
  rcases hx : (x log).2 with e | a <;> rcases hy : (y log).2 with e' | b <;>
    rw [hx, hy] at hout
  · exact hout
  · exact hout
  · exact hout
  · exact hR a b hout

/-- A check that stands for the same condition on both sides. -/
theorem check {c d : Prop} [Decidable c] [Decidable d] {e e' : ε} {f : Unit → Prog μ ε γ}
    {g : Unit → Prog μ ε δ} (he : fine e) (he' : fine e') (hcd : c ↔ d)
    (h : ¬c → Alike fine S (f ()) (g ())) :
    Alike fine S (failIf e c >>= f) (failIf e' d >>= g) := by
  by_cases hc : c
  · rw [failIf_bind_of e hc, failIf_bind_of e' (hcd.mp hc)]
    exact Alike.fail he he'
  · rw [failIf_bind_of_not e hc, failIf_bind_of_not e' (hcd.not.mp hc)]
    exact h hc

/-- A check on the left alone, for what the right side refuses as well. -/
theorem check_left {c : Prop} [Decidable c] {e : ε} {f : Unit → Prog μ ε γ} {y : Prog μ ε δ}
    (hc : c → Alike fine S (Lockstep.fail e) y) (h : ¬c → Alike fine S (f ()) y) :
    Alike fine S (failIf e c >>= f) y := by
  by_cases h' : c
  · rw [failIf_bind_of e h']
    exact hc h'
  · rw [failIf_bind_of_not e h']
    exact h h'

/-- A check on the right alone. -/
theorem check_right {c : Prop} [Decidable c] {e : ε} {x : Prog μ ε γ} {g : Unit → Prog μ ε δ}
    (hc : c → Alike fine S x (Lockstep.fail e)) (h : ¬c → Alike fine S x (g ())) :
    Alike fine S x (failIf e c >>= g) := by
  by_cases h' : c
  · rw [failIf_bind_of e h']
    exact hc h'
  · rw [failIf_bind_of_not e h']
    exact h h'

end Alike

end EspVision.Lockstep
