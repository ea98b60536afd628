import Mathlib.Algebra.BigOperators.Group.Finset.Basic
import Mathlib.Algebra.Order.BigOperators.Group.Finset
import Mathlib.Tactic

/-!
# Sums over entries that change one at a time

An account is what the entries of a table amount to, each entry having a weight. When one entry
changes, the account changes by the difference of the two weights; the difference is written with
both weights on the side where they are added.
-/
namespace EspVision.Ledger

variable {ι α M : Type*} [Fintype ι]

section Sum

variable [AddCommMonoid M]

/-- What the entries amount to. -/
def total (w : ι → α → M) (f : ι → α) : M := ∑ i, w i (f i)

variable {w v : ι → α → M} {f g : ι → α} {i : ι} {x : α}

theorem total_zero (h : ∀ i, w i (f i) = 0) : total w f = 0 := Finset.sum_eq_zero fun i _ => h i

variable [DecidableEq ι]

theorem total_update : total w (Function.update f i x) + w i (f i) = total w f + w i x := by
  have hsplit : ∀ g : ι → α, total w g = w i (g i) + ∑ j ∈ Finset.univ.erase i, w j (g j) :=
    fun g => (Finset.add_sum_erase _ _ (Finset.mem_univ i)).symm
  have hrest : ∑ j ∈ Finset.univ.erase i, w j (Function.update f i x j) =
      ∑ j ∈ Finset.univ.erase i, w j (f j) :=
    Finset.sum_congr rfl fun j hj => by rw [Function.update_of_ne (Finset.ne_of_mem_erase hj)]
  rw [hsplit, hsplit f, hrest, Function.update_self]
  abel

/-- An entry of the same weight. -/
theorem total_update_same (h : w i x = w i (f i)) : total w (Function.update f i x) = total w f :=
  Finset.sum_congr rfl fun j _ => by
    by_cases hj : j = i
    · subst hj
      rw [Function.update_self, h]
    · rw [Function.update_of_ne hj]

/-- An entry that weighed nothing. -/
theorem total_update_new (h : w i (f i) = 0) :
    total w (Function.update f i x) = total w f + w i x := by
  rw [← total_update (f := f) (x := x), h, add_zero]

/-- An entry that weighs nothing any more. -/
theorem total_update_gone (h : w i x = 0) :
    total w (Function.update f i x) + w i (f i) = total w f := by
  rw [total_update, h, add_zero]

/-- One entry and the others. -/
theorem total_eq_add (i : ι) : ∃ rest, total w f = w i (f i) + rest :=
  ⟨_, (Finset.add_sum_erase _ (fun j => w j (f j)) (Finset.mem_univ i)).symm⟩

/-- Two entries and the others. -/
theorem total_eq_add_add {j : ι} (h : j ≠ i) :
    ∃ rest, total w f = w i (f i) + w j (f j) + rest := by
  refine ⟨∑ k ∈ (Finset.univ.erase i).erase j, w k (f k), ?_⟩
  unfold total
  rw [← Finset.add_sum_erase _ (fun k => w k (f k)) (Finset.mem_univ i),
    ← Finset.add_sum_erase _ (fun k => w k (f k)) (Finset.mem_erase.mpr ⟨h, Finset.mem_univ j⟩),
    add_assoc]

/-- What one row of a table amounts to. -/
theorem total_row {κ : Type*} [Fintype κ] (w : α → M) (f : ι × κ → α) (i : ι) :
    total (fun (p : ι × κ) x => if p.1 = i then w x else 0) f = ∑ k, w (f (i, k)) := by
  unfold total
  rw [Fintype.sum_prod_type, Finset.sum_eq_single i]
  · exact Finset.sum_congr rfl fun k _ => if_pos rfl
  · exact fun j _ hj => Finset.sum_eq_zero fun k _ => if_neg hj
  · exact fun hi => absurd (Finset.mem_univ i) hi

end Sum

section Count

variable {w v : ι → α → ℕ} {f : ι → α}

theorem le_total (i : ι) : w i (f i) ≤ total w f :=
  Finset.single_le_sum (f := fun j => w j (f j)) (fun _ _ => Nat.zero_le _) (Finset.mem_univ i)

theorem total_le_total (h : ∀ i, w i (f i) ≤ v i (f i)) : total w f ≤ total v f :=
  Finset.sum_le_sum fun i _ => h i

end Count

end EspVision.Ledger
