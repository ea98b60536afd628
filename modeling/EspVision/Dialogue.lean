import Mathlib.Data.Nat.Notation
import Mathlib.Logic.Basic

/-!
# Programs that call an untrusted partner

A program keeps a state, calls a partner and may fail. A call succeeds with any value or fails
with any error, and the partner may let that depend on everything that was called before. The
calls are logged with their answers, so that what a program does is read off its log.
-/
namespace EspVision.Dialogue

/-! ## Programs -/

/-- A call and how it was answered. -/
structure Event {κ : Type} (V : κ → Type) (ε : Type) where
  call : κ
  answer : Except ε (V call)

variable {κ : Type} {V : κ → Type} {σ ε α β : Type}

instance [DecidableEq κ] [∀ c, DecidableEq (Except ε (V c))] : DecidableEq (Event V ε)
  | ⟨c, x⟩, ⟨d, y⟩ =>
    if h : c = d then
      match d, h, y with
      | _, rfl, y => decidable_of_iff (x = y) (by simp)
    else isFalse fun he => h (congrArg Event.call he)

/-- The call failed. -/
def Event.Failed (e : Event V ε) : Prop := ∃ err, e.answer = .error err

instance (e : Event V ε) : Decidable e.Failed :=
  match h : e.answer with
  | .error err => isTrue ⟨err, h⟩
  | .ok _ => isFalse fun ⟨_, h'⟩ => nomatch h.symm.trans h'

/-- How the partner answers, after the calls so far. -/
def Partner {κ : Type} (V : κ → Type) (ε : Type) : Type :=
  List (Event V ε) → (c : κ) → Except ε (V c)

/-- The state of the program and the calls so far. -/
structure World (σ : Type) {κ : Type} (V : κ → Type) (ε : Type) where
  state : σ
  log : List (Event V ε) := []

/-- A program that returns an `α` or fails with an `ε`. -/
def Prog (σ : Type) {κ : Type} (V : κ → Type) (ε α : Type) : Type :=
  Partner V ε → World σ V ε → World σ V ε × Except ε α

instance : Monad (Prog σ V ε) where
  pure a := fun _ w => (w, .ok a)
  bind p f := fun env w =>
    match p env w with
    | (w, .ok a) => f a env w
    | (w, .error e) => (w, .error e)

/-- Fail with `e`. -/
def fail (e : ε) : Prog σ V ε α := fun _ w => (w, .error e)

/-- Fail with `e` if the condition holds. -/
def failIf (c : Prop) [Decidable c] (e : ε) : Prog σ V ε Unit := if c then fail e else pure ()

/-- The value of a computation without calls. -/
def lift (x : Except ε α) : Prog σ V ε α := fun _ w => (w, x)

/-- One call of the partner. -/
def call (c : κ) : Prog σ V ε (V c) := fun env w =>
  ({ w with log := w.log ++ [⟨c, env w.log c⟩] }, env w.log c)

def getState : Prog σ V ε σ := fun _ w => (w, .ok w.state)

def update (f : σ → σ) : Prog σ V ε Unit := fun _ w => ({ w with state := f w.state }, .ok ())

/-- `try` and `catch`. -/
def attempt (p : Prog σ V ε α) (handler : ε → Prog σ V ε α) : Prog σ V ε α := fun env w =>
  match p env w with
  | (w, .ok a) => (w, .ok a)
  | (w, .error e) => handler e env w

/-- `try` and `finally`: the second program runs in either case, and its failure counts. -/
def andFinally (p : Prog σ V ε α) (last : Prog σ V ε Unit) : Prog σ V ε α := fun env w =>
  match p env w with
  | (w, r) =>
    match last env w with
    | (w, .ok ()) => (w, r)
    | (w, .error e) => (w, .error e)

/-- What one turn of a waiting loop comes to. -/
inductive Turn (α : Type)
  | found (a : α)
  | again
  | quit
  deriving DecidableEq

/-- Take turns until one is the last; `none` when the fuel is used up. -/
def waitFor (turn : Prog σ V ε (Turn α)) : ℕ → Prog σ V ε (Option (Option α))
  | 0 => pure none
  | fuel + 1 => turn >>= fun
    | .found a => pure (some (some a))
    | .quit => pure (some none)
    | .again => waitFor turn fuel

/-! ## Triples -/

/-- `Q` of what a program returns, `X` where it fails. -/
def Ends (Q : α → World σ V ε → Prop) (X : World σ V ε → Prop) : World σ V ε × Except ε α → Prop
  | (w, .ok a) => Q a w
  | (w, .error _) => X w

/-- From `P` the program returns to `Q` or fails into `X`, whatever the partner does. -/
def Triple (P : World σ V ε → Prop) (p : Prog σ V ε α) (Q : α → World σ V ε → Prop)
    (X : World σ V ε → Prop) : Prop :=
  ∀ env w, P w → Ends Q X (p env w)

theorem bind_apply (p : Prog σ V ε α) (f : α → Prog σ V ε β) (env : Partner V ε)
    (w : World σ V ε) :
    (p >>= f) env w = match p env w with
      | (w, .ok a) => f a env w
      | (w, .error e) => (w, .error e) := rfl

theorem bind_assoc {γ : Type} (p : Prog σ V ε α) (f : α → Prog σ V ε β)
    (g : β → Prog σ V ε γ) : p >>= f >>= g = p >>= fun a => f a >>= g := by
  funext env w
  simp only [bind_apply]
  rcases p env w with ⟨w', e | a⟩ <;> rfl

namespace Triple

variable {P N : World σ V ε → Prop} {Q M : α → World σ V ε → Prop} {X Y : World σ V ε → Prop}

theorem conseq {p : Prog σ V ε α} (h : Triple N p M Y) (hP : ∀ w, P w → N w)
    (hQ : ∀ a w, M a w → Q a w) (hX : ∀ w, Y w → X w) : Triple P p Q X := by
  intro env w hw
  have hends := h env w (hP w hw)
  rcases hr : p env w with ⟨w', e | a⟩ <;> rw [hr] at hends
  · exact hX w' hends
  · exact hQ a w' hends

theorem pre {p : Prog σ V ε α} (h : Triple N p Q X) (hP : ∀ w, P w → N w) : Triple P p Q X :=
  h.conseq hP (fun _ _ => id) fun _ => id

theorem post {p : Prog σ V ε α} (h : Triple P p M X) (hQ : ∀ a w, M a w → Q a w) :
    Triple P p Q X :=
  h.conseq (fun _ => id) hQ fun _ => id

theorem pure {a : α} (h : ∀ w, P w → Q a w) : Triple P (Pure.pure a : Prog σ V ε α) Q X :=
  fun _ w hw => h w hw

theorem fail {e : ε} (h : ∀ w, P w → X w) : Triple P (fail e : Prog σ V ε α) Q X :=
  fun _ w hw => h w hw

theorem lift {x : Except ε α} (hQ : ∀ a w, x = .ok a → P w → Q a w)
    (hX : ∀ w, P w → X w) : Triple P (lift x : Prog σ V ε α) Q X := by
  intro env w hw
  cases x with
  | error e => exact hX w hw
  | ok a => exact hQ a w rfl hw

theorem bind {p : Prog σ V ε α} {f : α → Prog σ V ε β} {R : β → World σ V ε → Prop}
    (hp : Triple P p Q X) (hf : ∀ a, Triple (Q a) (f a) R X) : Triple P (p >>= f) R X := by
  intro env w hw
  have hends := hp env w hw
  rw [bind_apply]
  rcases hr : p env w with ⟨w', e | a⟩ <;> rw [hr] at hends
  · exact hends
  · exact hf a env w' hends

theorem failIf {c : Prop} [Decidable c] {e : ε} {Q : Unit → World σ V ε → Prop}
    (hQ : ∀ w, ¬c → P w → Q () w) (hX : ∀ w, P w → X w) :
    Triple P (failIf c e : Prog σ V ε Unit) Q X := by
  unfold Dialogue.failIf
  by_cases hc : c
  · rw [if_pos hc]
    exact fail hX
  · rw [if_neg hc]
    exact pure fun w hw => hQ w hc hw

theorem call {c : κ} {Q : V c → World σ V ε → Prop}
    (hQ : ∀ a w, P w → Q a { w with log := w.log ++ [⟨c, .ok a⟩] })
    (hX : ∀ e w, P w → X { w with log := w.log ++ [⟨c, .error e⟩] }) :
    Triple P (call c : Prog σ V ε (V c)) Q X := by
  intro env w hw
  show Ends Q X ({ w with log := w.log ++ [⟨c, env w.log c⟩] }, env w.log c)
  cases env w.log c with
  | error e => exact hX e w hw
  | ok a => exact hQ a w hw

theorem getState {Q : σ → World σ V ε → Prop} (h : ∀ w, P w → Q w.state w) :
    Triple P (getState : Prog σ V ε σ) Q X :=
  fun _ w hw => h w hw

theorem update {f : σ → σ} {Q : Unit → World σ V ε → Prop}
    (h : ∀ w, P w → Q () { w with state := f w.state }) :
    Triple P (update f : Prog σ V ε Unit) Q X :=
  fun _ w hw => h w hw

theorem attempt {p : Prog σ V ε α} {handler : ε → Prog σ V ε α}
    (hp : Triple P p Q Y) (hh : ∀ e, Triple Y (handler e) Q X) :
    Triple P (attempt p handler) Q X := by
  intro env w hw
  have hends := hp env w hw
  unfold Dialogue.attempt
  rcases hr : p env w with ⟨w', e | a⟩ <;> rw [hr] at hends
  · exact hh e env w' hends
  · exact hends

theorem andFinally {p : Prog σ V ε α} {last : Prog σ V ε Unit} (hp : Triple P p M Y)
    (hQ : ∀ a, Triple (M a) last (fun _ => Q a) X) (hX : Triple Y last (fun _ => X) X) :
    Triple P (andFinally p last) Q X := by
  intro env w hw
  have hends := hp env w hw
  unfold Dialogue.andFinally
  rcases hr : p env w with ⟨w', e | a⟩ <;> rw [hr] at hends
  · have hlast := hX env w' hends
    rcases hl : last env w' with ⟨w'', e' | ⟨⟩⟩ <;> rw [hl] at hlast <;> simp only [hl] <;>
      exact hlast
  · have hlast := hQ a env w' hends
    rcases hl : last env w' with ⟨w'', e' | ⟨⟩⟩ <;> rw [hl] at hlast <;> simp only [hl] <;>
      exact hlast

/-- Two facts about one program. -/
theorem and {p : Prog σ V ε α} (h : Triple P p Q X) (h' : Triple N p M Y) :
    Triple (fun w => P w ∧ N w) p (fun a w => Q a w ∧ M a w) fun w => X w ∧ Y w := by
  intro env w hw
  have h1 := h env w hw.1
  have h2 := h' env w hw.2
  rcases hr : p env w with ⟨w', e | a⟩ <;> rw [hr] at h1 h2 <;> exact ⟨h1, h2⟩

end Triple

/-! ## Assertions that calls keep -/

/-- However a call of this kind is answered, the assertion stays. -/
def KeptBy (H : κ → Prop) (R : World σ V ε → Prop) : Prop :=
  ∀ w e, H e.call → R w → R { w with log := w.log ++ [e] }

/-- The call succeeded with this value. -/
def succeeded (c : κ) (v : V c) : Event V ε := ⟨c, .ok v⟩

section Steps

variable {H : κ → Prop} {G R : World σ V ε → Prop} {Q : β → World σ V ε → Prop}
  {X : World σ V ε → Prop}

lemma KeptBy.and (hG : KeptBy H G) (hR : KeptBy H R) : KeptBy H fun w => G w ∧ R w :=
  fun w e he h => ⟨hG w e he h.1, hR w e he h.2⟩

lemma KeptBy.mem (x : Event V ε) : KeptBy (σ := σ) H fun w => x ∈ w.log :=
  fun _ _ _ h => List.mem_append_left _ h

/-- A call of the kind, with its value kept in mind. -/
theorem KeptBy.ask {c : κ} (hG : KeptBy H G) (hX : ∀ w, G w → X w) (hc : H c) :
    Triple G (call c) (fun v w => G w ∧ succeeded c v ∈ w.log) X :=
  .call (fun _ _ hw => ⟨hG _ _ hc hw, by simp [succeeded]⟩) fun _ _ hw => hX _ (hG _ _ hc hw)

/-- A call whose value does not matter. -/
theorem KeptBy.skip {c : κ} (hG : KeptBy H G) (hX : ∀ w, G w → X w) (hc : H c)
    {f : V c → Prog σ V ε β} (next : ∀ v, Triple G (f v) Q X) : Triple G (call c >>= f) Q X :=
  .bind (hG.ask hX hc) fun v => (next v).pre fun _ hw => hw.1

/-- A call whose value is kept in mind. -/
theorem KeptBy.keep {c : κ} (hG : KeptBy H G) (hX : ∀ w, G w → X w) (hc : H c)
    {f : V c → Prog σ V ε β}
    (next : ∀ v, Triple (fun w => G w ∧ succeeded c v ∈ w.log) (f v) Q X) :
    Triple G (call c >>= f) Q X :=
  .bind (hG.ask hX hc) next

/-- A pure check that gave a value. -/
theorem Triple.given {x : Except ε α} {f : α → Prog σ V ε β} (hX : ∀ w, G w → X w)
    (next : ∀ a, x = .ok a → Triple G (f a) Q X) : Triple G (Dialogue.lift x >>= f) Q X :=
  .bind (Q := fun a w => x = .ok a ∧ G w) (.lift (fun _ _ ha hw => ⟨ha, hw⟩) hX)
    fun a env w hw => next a hw.1 env w hw.2

/-- A condition that did not fail. -/
theorem Triple.passed {c : Prop} [Decidable c] {e : ε} {f : Unit → Prog σ V ε β}
    (hX : ∀ w, G w → X w) (next : ¬c → Triple G (f ()) Q X) :
    Triple G (Dialogue.failIf c e >>= f) Q X :=
  .bind (Q := fun _ w => ¬c ∧ G w) (.failIf (fun _ hc hw => ⟨hc, hw⟩) hX)
    fun _ env w hw => next hw.1 env w hw.2

/-- The state is read. -/
theorem Triple.reading {f : σ → Prog σ V ε β}
    (next : ∀ s, Triple (fun w => G w ∧ w.state = s) (f s) Q X) :
    Triple G (Dialogue.getState >>= f) Q X :=
  .bind (Q := fun s w => G w ∧ w.state = s) (.getState fun _ hw => ⟨hw, rfl⟩) next

end Steps

/-- A waiting loop: what every turn makes of the assertion for the turns so far. -/
theorem Triple.waitFor {turn : Prog σ V ε (Turn α)} {I : ℕ → World σ V ε → Prop}
    {Q : Option α → World σ V ε → Prop} {X : World σ V ε → Prop}
    (hturn : ∀ k, Triple (I k) turn (fun
      | .found a => Q (some a)
      | .quit => Q none
      | .again => I (k + 1)) X) (k fuel : ℕ) :
    Triple (I k) (Dialogue.waitFor turn fuel) (fun
      | none => I (k + fuel)
      | some found => Q found) X := by
  induction fuel generalizing k with
  | zero => exact .pure fun _ hw => hw
  | succ fuel ih =>
    refine .bind (hturn k) fun t => ?_
    cases t with
    | found a => exact .pure fun _ hw => hw
    | quit => exact .pure fun _ hw => hw
    | again =>
      refine (ih (k + 1)).post fun found w hw => ?_
      cases found with
      | none => exact (Nat.add_right_comm k 1 fuel ▸ hw : I (k + fuel + 1) w)
      | some found => exact hw

/-! ## Careful programs -/

/-- The program only adds calls to the log, and when it returns none of them failed. -/
def Careful (p : Prog σ V ε α) : Prop :=
  ∀ env w, ∃ calls, (p env w).1.log = w.log ++ calls ∧
    ∀ a, (p env w).2 = .ok a → ∀ e ∈ calls, ¬ e.Failed

namespace Careful

theorem pure (a : α) : Careful (Pure.pure a : Prog σ V ε α) :=
  fun _ w => ⟨[], (List.append_nil _).symm, fun _ _ _ he => by cases he⟩

theorem fail (e : ε) : Careful (fail e : Prog σ V ε α) :=
  fun _ w => ⟨[], (List.append_nil _).symm, fun _ h => by cases h⟩

theorem lift (x : Except ε α) : Careful (lift x : Prog σ V ε α) :=
  fun _ w => ⟨[], (List.append_nil _).symm, fun _ _ _ he => by cases he⟩

theorem failIf (c : Prop) [Decidable c] (e : ε) : Careful (failIf c e : Prog σ V ε Unit) := by
  unfold Dialogue.failIf
  by_cases hc : c
  · rw [if_pos hc]
    exact fail e
  · rw [if_neg hc]
    exact pure ()

theorem call (c : κ) : Careful (call c : Prog σ V ε (V c)) := by
  refine fun env w => ⟨_, rfl, fun a ha e he => ?_⟩
  rw [List.mem_singleton.mp he]
  rintro ⟨err, herr⟩
  exact nomatch (show Except.ok a = Except.error err from ha.symm.trans herr)

theorem getState : Careful (getState : Prog σ V ε σ) :=
  fun _ w => ⟨[], (List.append_nil _).symm, fun _ _ _ he => by cases he⟩

theorem update (f : σ → σ) : Careful (update f : Prog σ V ε Unit) :=
  fun _ w => ⟨[], (List.append_nil _).symm, fun _ _ _ he => by cases he⟩

theorem bind {p : Prog σ V ε α} {f : α → Prog σ V ε β} (hp : Careful p)
    (hf : ∀ a, Careful (f a)) : Careful (p >>= f) := by
  intro env w
  obtain ⟨calls, hlog, hfine⟩ := hp env w
  rw [bind_apply]
  rcases hr : p env w with ⟨w', e | a⟩ <;> rw [hr] at hlog hfine
  · exact ⟨calls, hlog, fun _ h => by cases h⟩
  · obtain ⟨more, hmore, hfine'⟩ := hf a env w'
    refine ⟨calls ++ more, by rw [← List.append_assoc, ← hlog]; exact hmore, fun b hb e he => ?_⟩
    rcases List.mem_append.mp he with he | he
    · exact hfine a rfl e he
    · exact hfine' b hb e he

/-- A careful program that returns leaves a log without failures, if it found one. -/
theorem triple {p : Prog σ V ε α} (hp : Careful p) (before : List (Event V ε)) :
    Triple (fun w => ∃ calls, w.log = before ++ calls ∧ ∀ e ∈ calls, ¬ e.Failed) p
      (fun _ w => ∃ calls, w.log = before ++ calls ∧ ∀ e ∈ calls, ¬ e.Failed) fun _ => True := by
  rintro env w ⟨calls, hw, hfine⟩
  obtain ⟨more, hmore, hfine'⟩ := hp env w
  rcases hr : p env w with ⟨w', e | a⟩ <;> rw [hr] at hmore hfine'
  · trivial
  · refine ⟨calls ++ more, by rw [hmore, hw, List.append_assoc], fun e he => ?_⟩
    rcases List.mem_append.mp he with he | he
    · exact hfine e he
    · exact hfine' a rfl e he

end Careful

end EspVision.Dialogue
