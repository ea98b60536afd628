import Mathlib.Data.List.Basic
import Mathlib.Data.List.Induction

/-!
# Logs whose events are justified

A rule says which event may come behind which log. A log is justified when every event in it was
allowed where it came. Some events come in pairs: one opens what the other closes.
-/
namespace EspVision.EventLog

variable {ε : Type*} {ok : List ε → ε → Prop} {log : List ε}

/-- Every event of the log was allowed behind the events in front of it. -/
def Justified (ok : List ε → ε → Prop) (log : List ε) : Prop :=
  ∀ before e rest, log = before ++ e :: rest → ok before e

theorem justified_nil : Justified ok [] := by
  intro before e rest h
  cases before <;> cases h

theorem Justified.snoc (h : Justified ok log) {e : ε} (he : ok log e) :
    Justified ok (log ++ [e]) := by
  intro before x rest heq
  rcases List.eq_nil_or_concat rest with rfl | ⟨rest, y, rfl⟩
  · obtain ⟨rfl, hx⟩ := List.append_inj' heq rfl
    obtain rfl : e = x := by simpa using hx
    exact he
  · rw [List.concat_eq_append, ← List.cons_append, ← List.append_assoc] at heq
    obtain ⟨hlog, -⟩ := List.append_inj' heq rfl
    exact h before x rest hlog

/-- Events that are always allowed. -/
theorem Justified.append (h : Justified ok log) {log' : List ε}
    (hall : ∀ e ∈ log', ∀ before, ok before e) : Justified ok (log ++ log') := by
  induction log' using List.reverseRecOn with
  | nil => simpa using h
  | append_singleton log' e ih =>
    rw [← List.append_assoc]
    exact (ih fun x hx => hall x (List.mem_append_left _ hx)).snoc (hall e (by simp) _)

theorem Justified.of_append {log' : List ε} (h : Justified ok (log ++ log')) :
    Justified ok log :=
  fun before e rest heq => h before e (rest ++ log') (by rw [heq]; simp)

theorem Justified.last {e : ε} (h : Justified ok (log ++ [e])) : ok log e := h log e [] rfl

/-- The event came behind a log with this property. -/
def Behind (F : List ε → Prop) (e : ε) (log : List ε) : Prop :=
  ∃ before rest, log = before ++ e :: rest ∧ F before

theorem Behind.here {F : List ε → Prop} {e : ε} (h : F log) : Behind F e (log ++ [e]) :=
  ⟨log, [], rfl, h⟩

theorem Behind.snoc {F : List ε → Prop} {e : ε} (h : Behind F e log) (x : ε) :
    Behind F e (log ++ [x]) := by
  obtain ⟨before, rest, rfl, hF⟩ := h
  exact ⟨before, rest ++ [x], by simp, hF⟩

theorem Behind.mem {F : List ε → Prop} {e : ε} (h : Behind F e log) : e ∈ log := by
  obtain ⟨before, rest, rfl, -⟩ := h
  simp

/-! ## Pairs of events -/

section Pairs

variable (opens closes : ε → Bool)

/-- One event more: whether something is open now. -/
def pairStep (isOpen : Option Bool) (e : ε) : Option Bool :=
  match isOpen with
  | none => none
  | some isOpen =>
    if opens e then (if isOpen then none else some true)
    else if closes e then (if isOpen then some false else none)
    else some isOpen

/-- Whether something is open after the log; `none` once it was opened while it was open, or
closed while it was not. -/
def openAfter (log : List ε) : Option Bool := log.foldl (pairStep opens closes) (some false)

/-- Everything opened is closed once behind it, and everything closed was opened once in front
of it. -/
structure Paired (log : List ε) : Prop where
  closed : ∀ before e rest, log = before ++ e :: rest → opens e → ∃ between c behind,
    rest = between ++ c :: behind ∧ closes c ∧ ∀ x ∈ between, ¬ opens x ∧ ¬ closes x
  opened : ∀ before c rest, log = before ++ c :: rest → closes c → opens c ∨ ∃ front e between,
    before = front ++ e :: between ∧ opens e ∧ ∀ x ∈ between, ¬ opens x ∧ ¬ closes x

variable {opens closes}

@[simp] theorem openAfter_nil : openAfter opens closes [] = some false := rfl

theorem openAfter_snoc (log : List ε) (e : ε) :
    openAfter opens closes (log ++ [e]) = pairStep opens closes (openAfter opens closes log) e := by
  rw [openAfter, List.foldl_append]
  rfl

theorem foldl_pairStep_none (log : List ε) :
    log.foldl (pairStep opens closes) none = none := by
  induction log with
  | nil => rfl
  | cons e log ih => exact ih

/-- What is open is closed by the first event of the pair that comes. -/
theorem closed_behind {rest : List ε}
    (h : rest.foldl (pairStep opens closes) (some true) = some false) :
    ∃ between c behind, rest = between ++ c :: behind ∧ closes c ∧
      ∀ x ∈ between, ¬ opens x ∧ ¬ closes x := by
  induction rest with
  | nil => cases h
  | cons e rest ih =>
    rw [List.foldl_cons] at h
    by_cases ho : opens e
    · rw [pairStep, if_pos ho, if_pos rfl, foldl_pairStep_none] at h
      cases h
    by_cases hc : closes e
    · exact ⟨[], e, rest, rfl, hc, fun _ hx => absurd hx List.not_mem_nil⟩
    · rw [pairStep, if_neg ho, if_neg hc] at h
      obtain ⟨between, c, behind, rfl, hclose, hquiet⟩ := ih h
      refine ⟨e :: between, c, behind, rfl, hclose, fun x hx => ?_⟩
      rcases List.mem_cons.mp hx with rfl | hx
      · exact ⟨ho, hc⟩
      · exact hquiet x hx

/-- What is open was opened by the last event of the pair. -/
theorem opened_before {before : List ε} (h : openAfter opens closes before = some true) :
    ∃ front e between, before = front ++ e :: between ∧ opens e ∧
      ∀ x ∈ between, ¬ opens x ∧ ¬ closes x := by
  induction before using List.reverseRecOn with
  | nil => cases h
  | append_singleton before e ih =>
    rw [openAfter_snoc] at h
    by_cases ho : opens e
    · exact ⟨before, e, [], rfl, ho, fun _ hx => absurd hx List.not_mem_nil⟩
    rcases hs : openAfter opens closes before with - | isOpen <;>
      rw [hs, pairStep] at h
    · cases h
    rw [if_neg ho] at h
    by_cases hc : closes e
    · rw [if_pos hc] at h
      split_ifs at h
      cases h
    · rw [if_neg hc] at h
      obtain ⟨front, e', between, rfl, hopen, hquiet⟩ := ih (hs.trans h)
      refine ⟨front, e', between ++ [e], by simp, hopen, fun x hx => ?_⟩
      rcases List.mem_append.mp hx with hx | hx
      · exact hquiet x hx
      · rw [List.mem_singleton.mp hx]
        exact ⟨ho, hc⟩

theorem paired_of_openAfter {log : List ε} (h : openAfter opens closes log = some false) :
    Paired opens closes log := by
  have hsplit : ∀ before e rest, log = before ++ e :: rest →
      rest.foldl (pairStep opens closes)
        (pairStep opens closes (openAfter opens closes before) e) = some false := by
    rintro before e rest rfl
    rwa [openAfter, List.foldl_append, List.foldl_cons] at h
  refine ⟨fun before e rest hlog ho => ?_, fun before c rest hlog hc => ?_⟩
  · have hrest := hsplit before e rest hlog
    rcases hs : openAfter opens closes before with - | isOpen
    · rw [hs, pairStep, foldl_pairStep_none] at hrest
      cases hrest
    · rw [hs, pairStep, if_pos ho] at hrest
      cases isOpen
      · exact closed_behind hrest
      · rw [if_pos rfl, foldl_pairStep_none] at hrest
        cases hrest
  · by_cases ho : opens c
    · exact .inl ho
    refine .inr (opened_before ?_)
    have hrest := hsplit before c rest hlog
    rcases hs : openAfter opens closes before with - | isOpen
    · rw [hs, pairStep, foldl_pairStep_none] at hrest
      cases hrest
    · rw [hs, pairStep, if_neg ho, if_pos hc] at hrest
      cases isOpen
      · rw [if_neg Bool.false_ne_true, foldl_pairStep_none] at hrest
        cases hrest
      · rfl

end Pairs

end EspVision.EventLog
