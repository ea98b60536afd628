import EspVision.TransitionSystem

/-!
# A task among others

A task is a program of atomic actions on a state that it shares with the rest of a system. Before
each of its actions the rest may take any number of steps, as far as the place where the task
stands lets it. A triple says what holds after a program that starts where its precondition holds,
whatever the rest does in between.
-/
namespace EspVision.TaskProgram

open TransitionSystem Relation

/-! ## Programs -/

/-- A program of atomic actions on `σ` that returns an `α`. Each action draws an outcome from `ω`;
`κ` names the places where a task can stand. -/
inductive Prog (σ ω κ : Type) : Type → Type 1
  | ret {α : Type} (a : α) : Prog σ ω κ α
  | act {α β : Type} (place : κ) (run : ω → σ → β × σ) (next : β → Prog σ ω κ α) : Prog σ ω κ α
  | loop {α β : Type} (place : κ) (body : Prog σ ω κ (Option β)) (next : β → Prog σ ω κ α) :
      Prog σ ω κ α

variable {σ ω κ ε α β : Type}

/-- One program after the other. -/
def Prog.bind {α β : Type} : Prog σ ω κ α → (α → Prog σ ω κ β) → Prog σ ω κ β
  | .ret a, g => g a
  | .act place run next, g => .act place run fun b => (next b).bind g
  | .loop place body next, g => .loop place body fun b => (next b).bind g

instance : Monad (Prog σ ω κ) where
  pure := .ret
  bind := .bind

/-- A single action. -/
def atomic (place : κ) (run : ω → σ → α × σ) : Prog σ ω κ α := .act place run .ret

/-- An action without an outcome that changes the state. -/
def update (place : κ) (f : σ → σ) : Prog σ ω κ Unit := atomic place fun _ s => ((), f s)

/-- Repeat the body until it gives a value. -/
def repeatUntil (place : κ) (body : Prog σ ω κ (Option α)) : Prog σ ω κ α :=
  .loop place body .ret

/-- Repeat the body forever. -/
def forever (place : κ) (body : Prog σ ω κ Unit) : Prog σ ω κ Empty :=
  .loop place (body.bind fun _ => .ret none) .ret

/-- Run the program if the condition holds, and answer `false` else. -/
def onlyIf (c : Bool) (p : Prog σ ω κ Bool) : Prog σ ω κ Bool := if c then p else pure false

/-- The place where a task with this program stands. -/
def Prog.place : Prog σ ω κ α → Option κ
  | .ret _ => none
  | .act place _ _ | .loop place _ _ => some place

/-- The next step of the task. -/
def Prog.step : Prog σ ω κ α → ω → σ → Option (Prog σ ω κ α × σ)
  | .ret _, _, _ => none
  | .act _ run next, o, s => some (next (run o s).1, (run o s).2)
  | .loop place body next, _, s =>
    some (body.bind fun
      | none => .loop place body next
      | some b => next b, s)

/-- Who moves next. -/
inductive Move (ε ω : Type)
  | other (e : ε)
  | task (o : ω)
  deriving DecidableEq

/-- One step of the whole: of the task, or of the rest as `env` says. -/
def next (env : ε → σ → Option σ) (c : Prog σ ω κ α × σ) :
    Move ε ω → Option (Prog σ ω κ α × σ)
  | .other e => (env e c.2).map fun s => (c.1, s)
  | .task o => c.1.step o c.2

/-- A task that never ends among others. While the task stands at `l`, the rest takes only steps
that are `ok` there. -/
def among (p : Prog σ ω κ Empty) (init : σ → Prop) (env : ε → σ → Option σ)
    (ok : κ → ε → σ → Prop) : System (Prog σ ω κ Empty × σ) (Move ε ω) where
  init c := c.1 = p ∧ init c.2
  step c m c' :=
    next env c m = some c' ∧ ∀ e l, m = .other e → c.1.place = some l → ok l e c.2

/-- What the rest may do while the task stands at `l`. -/
def Interferes (env : ε → σ → Option σ) (ok : κ → ε → σ → Prop) (l : κ) (s t : σ) : Prop :=
  ∃ e, ok l e s ∧ env e s = some t

/-! ## Triples -/

section Logic

variable (E : κ → σ → σ → Prop) (A : κ → σ → Prop)

/-- Whatever the rest does, `A` holds where the task stands, and `Q` when it returns. -/
def wp {α : Type} : Prog σ ω κ α → (α → σ → Prop) → σ → Prop
  | .ret a, Q, s => Q a s
  | .act l run next, Q, s =>
    ∀ t, ReflTransGen (E l) s t → A l t ∧ ∀ o, wp (next (run o t).1) Q (run o t).2
  | .loop l body next, Q, s =>
    ∃ J : σ → Prop, J s ∧ (∀ s t, J s → E l s t → J t) ∧ ∀ s, J s → A l s ∧
      wp body (fun b t => match b with
        | none => J t
        | some b => wp (next b) Q t) s

/-- From `P` the program gets to `Q`. -/
def Triple (P : σ → Prop) (p : Prog σ ω κ α) (Q : α → σ → Prop) : Prop :=
  ∀ s, P s → wp E A p Q s

variable {E A}

theorem wp_mono {α : Type} {p : Prog σ ω κ α} {Q R : α → σ → Prop} (h : ∀ a s, Q a s → R a s)
    {s : σ} (hp : wp E A p Q s) : wp E A p R s := by
  induction p generalizing s with
  | ret a => exact h a s hp
  | act l run next ih =>
    intro t ht
    obtain ⟨ha, hn⟩ := hp t ht
    exact ⟨ha, fun o => ih _ h (hn o)⟩
  | loop l body next ihb ihn =>
    obtain ⟨J, hJ, hstable, hbody⟩ := hp
    refine ⟨J, hJ, hstable, fun s hs => ⟨(hbody s hs).1, ihb (fun b t hb => ?_) (hbody s hs).2⟩⟩
    cases b with
    | none => exact hb
    | some b => exact ihn b h hb

theorem wp_bind {α β : Type} {p : Prog σ ω κ α} {g : α → Prog σ ω κ β} {Q : β → σ → Prop} {s : σ}
    (hp : wp E A p (fun a => wp E A (g a) Q) s) : wp E A (p.bind g) Q s := by
  induction p generalizing s with
  | ret a => exact hp
  | act l run next ih =>
    intro t ht
    obtain ⟨ha, hn⟩ := hp t ht
    exact ⟨ha, fun o => ih _ (hn o)⟩
  | loop l body next ihb ihn =>
    obtain ⟨J, hJ, hstable, hbody⟩ := hp
    refine ⟨J, hJ, hstable, fun s hs => ⟨(hbody s hs).1, wp_mono (fun b t hb => ?_) (hbody s hs).2⟩⟩
    cases b with
    | none => exact hb
    | some b => exact ihn b hb

/-- A step of the rest does no harm. -/
theorem wp_other {p : Prog σ ω κ α} {Q : α → σ → Prop} {s t : σ} {l : κ} (hl : p.place = some l)
    (hst : E l s t) (hp : wp E A p Q s) : wp E A p Q t := by
  cases p with
  | ret a => simp [Prog.place] at hl
  | act l' run next =>
    obtain rfl := Option.some.inj hl
    exact fun u hu => hp u (.head hst hu)
  | loop l' body next =>
    obtain rfl := Option.some.inj hl
    obtain ⟨J, hJ, hstable, hbody⟩ := hp
    exact ⟨J, hstable s t hJ hst, hstable, hbody⟩

/-- A step of the task goes on with the rest of its program. -/
theorem wp_task {p q : Prog σ ω κ α} {Q : α → σ → Prop} {s t : σ} {o : ω}
    (hstep : p.step o s = some (q, t)) (hp : wp E A p Q s) : wp E A q Q t := by
  cases p with
  | ret a => cases hstep
  | act l run next =>
    obtain ⟨rfl, rfl⟩ := Prod.mk.inj (Option.some.inj hstep)
    exact (hp s .refl).2 o
  | loop l body next =>
    obtain ⟨rfl, rfl⟩ := Prod.mk.inj (Option.some.inj hstep)
    obtain ⟨J, hJ, hstable, hbody⟩ := hp
    refine wp_bind (wp_mono (fun b t hb => ?_) (hbody s hJ).2)
    cases b with
    | none => exact ⟨J, hb, hstable, hbody⟩
    | some b => exact hb

/-- Where the task stands, `A` holds. -/
theorem wp_place {p : Prog σ ω κ α} {Q : α → σ → Prop} {s : σ} {l : κ} (hl : p.place = some l)
    (hp : wp E A p Q s) : A l s := by
  cases p with
  | ret a => simp [Prog.place] at hl
  | act l' run next =>
    obtain rfl := Option.some.inj hl
    exact (hp s .refl).1
  | loop l' body next =>
    obtain rfl := Option.some.inj hl
    obtain ⟨J, hJ, -, hbody⟩ := hp
    exact (hbody s hJ).1

/-- Two facts about one program. -/
theorem wp_and {α : Type} {A' : κ → σ → Prop} {p : Prog σ ω κ α} {Q R : α → σ → Prop} {s : σ}
    (hp : wp E A p Q s) (hq : wp E A' p R s) :
    wp E (fun l s => A l s ∧ A' l s) p (fun a s => Q a s ∧ R a s) s := by
  induction p generalizing s with
  | ret a => exact ⟨hp, hq⟩
  | act l run next ih =>
    intro t ht
    exact ⟨⟨(hp t ht).1, (hq t ht).1⟩, fun o => ih _ ((hp t ht).2 o) ((hq t ht).2 o)⟩
  | loop l body next ihb ihn =>
    obtain ⟨J, hJ, hstable, hbody⟩ := hp
    obtain ⟨K, hK, hstable', hbody'⟩ := hq
    refine ⟨fun s => J s ∧ K s, ⟨hJ, hK⟩,
      fun s t h hst => ⟨hstable s t h.1 hst, hstable' s t h.2 hst⟩,
      fun s hs => ⟨⟨(hbody s hs.1).1, (hbody' s hs.2).1⟩, ?_⟩⟩
    refine wp_mono (fun b t hb => ?_) (ihb (hbody s hs.1).2 (hbody' s hs.2).2)
    cases b with
    | none => exact hb
    | some b => exact ihn b hb.1 hb.2

/-- A weaker statement about the places. -/
theorem wp_weaken {α : Type} {A' : κ → σ → Prop} (h : ∀ l s, A l s → A' l s)
    {p : Prog σ ω κ α} {Q : α → σ → Prop} {s : σ} (hp : wp E A p Q s) : wp E A' p Q s := by
  induction p generalizing s with
  | ret a => exact hp
  | act l run next ih =>
    exact fun t ht => ⟨h _ _ (hp t ht).1, fun o => ih _ ((hp t ht).2 o)⟩
  | loop l body next ihb ihn =>
    obtain ⟨J, hJ, hstable, hbody⟩ := hp
    refine ⟨J, hJ, hstable, fun s hs => ⟨h _ _ (hbody s hs).1, ihb (wp_mono (fun b t hb => ?_)
      (hbody s hs).2)⟩⟩
    cases b with
    | none => exact hb
    | some b => exact ihn b hb

/-! ### Rules -/

variable {P R : σ → Prop} {Q : α → σ → Prop}

theorem Triple.pre {p : Prog σ ω κ α} (h : ∀ s, P s → R s) (hp : Triple E A R p Q) :
    Triple E A P p Q :=
  fun s hs => hp s (h s hs)

theorem Triple.post {p : Prog σ ω κ α} {Q' : α → σ → Prop} (hp : Triple E A P p Q)
    (h : ∀ a s, Q a s → Q' a s) : Triple E A P p Q' :=
  fun s hs => wp_mono h (hp s hs)

theorem Triple.and {A' : κ → σ → Prop} {P' : σ → Prop} {Q' : α → σ → Prop} {p : Prog σ ω κ α}
    (hp : Triple E A P p Q) (hq : Triple E A' P' p Q') :
    Triple E (fun l s => A l s ∧ A' l s) (fun s => P s ∧ P' s) p fun a s => Q a s ∧ Q' a s :=
  fun s hs => wp_and (hp s hs.1) (hq s hs.2)

theorem Triple.weaken {A' : κ → σ → Prop} {p : Prog σ ω κ α} (h : ∀ l s, A l s → A' l s)
    (hp : Triple E A P p Q) : Triple E A' P p Q :=
  fun s hs => wp_weaken h (hp s hs)

theorem Triple.pure {a : α} (h : ∀ s, P s → Q a s) :
    Triple E A P (Pure.pure a : Prog σ ω κ α) Q := h

theorem Triple.bind {p : Prog σ ω κ β} {g : β → Prog σ ω κ α} {M : β → σ → Prop}
    (hp : Triple E A P p M) (hg : ∀ b, Triple E A (M b) (g b) Q) :
    Triple E A P (p >>= g) Q :=
  fun s hs => wp_bind (wp_mono (fun b t hb => hg b t hb) (hp s hs))

theorem Triple.atomic {l : κ} {run : ω → σ → α × σ} (hs : ∀ s t, P s → E l s t → P t)
    (h : ∀ s, P s → A l s ∧ ∀ o, Q (run o s).1 (run o s).2) :
    Triple E A P (atomic l run) Q := by
  intro s hP t ht
  refine h t ?_
  induction ht with
  | refl => exact hP
  | tail _ hstep ih => exact hs _ _ ih hstep

theorem Triple.update {l : κ} {f : σ → σ} {Q : Unit → σ → Prop} (hs : ∀ s t, P s → E l s t → P t)
    (h : ∀ s, P s → A l s ∧ Q () (f s)) : Triple E A P (update (ω := ω) l f) Q :=
  Triple.atomic (α := Unit) hs fun s hP => ⟨(h s hP).1, fun _ => (h s hP).2⟩

theorem Triple.repeatUntil {l : κ} {body : Prog σ ω κ (Option α)}
    (hs : ∀ s t, P s → E l s t → P t) (ha : ∀ s, P s → A l s)
    (hb : Triple E A P body fun b s => match b with
      | none => P s
      | some b => Q b s) : Triple E A P (repeatUntil l body) Q :=
  fun _ hP => ⟨P, hP, hs, fun s hP => ⟨ha s hP, hb s hP⟩⟩

theorem Triple.forever {l : κ} {body : Prog σ ω κ Unit} {Q : Empty → σ → Prop}
    (hs : ∀ s t, P s → E l s t → P t) (ha : ∀ s, P s → A l s)
    (hb : Triple E A P body fun _ => P) : Triple E A P (forever l body) Q :=
  fun _ hP => ⟨P, hP, hs, fun s hP => ⟨ha s hP, wp_bind (hb s hP)⟩⟩

/-! ### Invariants -/

variable (A) in
/-- Every action of the program keeps `I`, and `I` gives `A` wherever the program stands. -/
def Keeps (I : σ → Prop) {α : Type} : Prog σ ω κ α → Prop
  | .ret _ => True
  | .act l run next => (∀ s, I s → A l s ∧ ∀ o, I (run o s).2) ∧ ∀ b, Keeps I (next b)
  | .loop l body next => (∀ s, I s → A l s) ∧ Keeps I body ∧ ∀ b, Keeps I (next b)

variable {I : σ → Prop}

theorem Keeps.pure (a : α) : Keeps A I (Pure.pure a : Prog σ ω κ α) := trivial

theorem Keeps.bind {α β : Type} {p : Prog σ ω κ α} {g : α → Prog σ ω κ β} (hp : Keeps A I p)
    (hg : ∀ a, Keeps A I (g a)) : Keeps A I (p >>= g) := by
  change Keeps A I (p.bind g)
  induction p with
  | ret a => exact hg a
  | act l run next ih => exact ⟨hp.1, fun b => ih b (hp.2 b) hg⟩
  | loop l body next ihb ihn => exact ⟨hp.1, hp.2.1, fun b => ihn b (hp.2.2 b) hg⟩

theorem Keeps.atomic {l : κ} {run : ω → σ → α × σ} (h : ∀ s, I s → A l s ∧ ∀ o, I (run o s).2) :
    Keeps A I (atomic l run) := ⟨h, fun _ => trivial⟩

theorem Keeps.update {l : κ} {f : σ → σ} (h : ∀ s, I s → A l s ∧ I (f s)) :
    Keeps A I (update (ω := ω) l f) :=
  .atomic fun s hs => ⟨(h s hs).1, fun _ => (h s hs).2⟩

theorem Keeps.repeatUntil {l : κ} {body : Prog σ ω κ (Option α)} (ha : ∀ s, I s → A l s)
    (hb : Keeps A I body) : Keeps A I (repeatUntil l body) := ⟨ha, hb, fun _ => trivial⟩

/-- What every action keeps and the rest does not break holds throughout. -/
theorem Keeps.triple {α : Type} {p : Prog σ ω κ α} (hE : ∀ l s t, I s → E l s t → I t)
    (hp : Keeps A I p) : Triple E A I p fun _ => I := by
  induction p with
  | ret a => exact fun s hs => hs
  | act l run next ih =>
    intro s hs t ht
    have hI : I t := by
      induction ht with
      | refl => exact hs
      | tail _ hstep ih => exact hE _ _ _ ih hstep
    obtain ⟨ha, hrun⟩ := hp.1 t hI
    exact ⟨ha, fun o => ih _ (hp.2 _) _ (hrun o)⟩
  | loop l body next ihb ihn =>
    refine fun s hs => ⟨I, hs, hE l, fun t ht => ⟨hp.1 t ht, wp_mono (fun b u hu => ?_)
      (ihb hp.2.1 t ht)⟩⟩
    cases b with
    | none => exact hu
    | some b => exact ihn b (hp.2.2 b) u hu

/-! ### Frames -/

/-- Every action of the program is a step in `R`. -/
def Every (R : σ → σ → Prop) {α : Type} : Prog σ ω κ α → Prop
  | .ret _ => True
  | .act _ run next => (∀ o s, R s (run o s).2) ∧ ∀ b, Every R (next b)
  | .loop _ body next => Every R body ∧ ∀ b, Every R (next b)

variable {S : σ → σ → Prop}

theorem Every.mono {R : σ → σ → Prop} (h : ∀ s t, S s t → R s t) {α : Type} {p : Prog σ ω κ α}
    (hp : Every S p) : Every R p := by
  induction p with
  | ret a => trivial
  | act l run next ih => exact ⟨fun o s => h _ _ (hp.1 o s), fun b => ih b (hp.2 b)⟩
  | loop l body next ihb ihn => exact ⟨ihb hp.1, fun b => ihn b (hp.2 b)⟩

theorem Every.pure (a : α) : Every S (Pure.pure a : Prog σ ω κ α) := trivial

theorem Every.bind {α β : Type} {p : Prog σ ω κ α} {g : α → Prog σ ω κ β} (hp : Every S p)
    (hg : ∀ a, Every S (g a)) : Every S (p >>= g) := by
  change Every S (p.bind g)
  induction p with
  | ret a => exact hg a
  | act l run next ih => exact ⟨hp.1, fun b => ih b (hp.2 b) hg⟩
  | loop l body next ihb ihn => exact ⟨hp.1, fun b => ihn b (hp.2 b) hg⟩

theorem Every.atomic {l : κ} {run : ω → σ → α × σ} (h : ∀ o s, S s (run o s).2) :
    Every S (atomic l run) := ⟨h, fun _ => trivial⟩

theorem Every.update {l : κ} {f : σ → σ} (h : ∀ s, S s (f s)) :
    Every S (update (ω := ω) l f) := ⟨fun _ => h, fun _ => trivial⟩

theorem Every.repeatUntil {l : κ} {body : Prog σ ω κ (Option α)} (hb : Every S body) :
    Every S (repeatUntil l body) := ⟨hb, fun _ => trivial⟩

theorem Every.onlyIf {c : Bool} {p : Prog σ ω κ Bool} (hp : Every S p) :
    Every S (onlyIf c p) := by
  cases c
  · trivial
  · exact hp

theorem Every.forever {l : κ} {body : Prog σ ω κ Unit} (hb : Every S body) :
    Every S (forever l body) :=
  ⟨Every.bind (g := fun _ => Prog.ret none) hb fun _ => trivial, fun _ => trivial⟩

/-- The next step of the program is in `S`, and so are those of the rest. -/
theorem Every.step (hrefl : ∀ s, S s s) {p q : Prog σ ω κ α} {o : ω} {s t : σ} (hp : Every S p)
    (h : p.step o s = some (q, t)) : S s t ∧ Every S q := by
  cases p with
  | ret a => cases h
  | act l run next =>
    obtain ⟨rfl, rfl⟩ := Prod.mk.inj (Option.some.inj h)
    exact ⟨hp.1 o s, hp.2 _⟩
  | loop l body next =>
    obtain ⟨rfl, rfl⟩ := Prod.mk.inj (Option.some.inj h)
    refine ⟨hrefl s, Every.bind hp.1 fun b => ?_⟩
    cases b with
    | none => exact hp
    | some b => exact hp.2 b

/-- What the steps in `R` keep, the program keeps. -/
theorem Every.keeps {α : Type} {p : Prog σ ω κ α} (ha : ∀ l s, I s → A l s)
    (hI : ∀ s t, I s → S s t → I t) (hp : Every S p) : Keeps A I p := by
  induction p with
  | ret a => trivial
  | act l run next ih =>
    exact ⟨fun s hs => ⟨ha l s hs, fun o => hI _ _ hs (hp.1 o s)⟩, fun b => ih b (hp.2 b)⟩
  | loop l body next ihb ihn => exact ⟨ha l, ihb hp.1, fun b => ihn b (hp.2 b)⟩

end Logic

/-! ## Runs -/

/-- The move is one that the place of the task lets the rest make. -/
def Move.fine (ok : κ → ε → σ → Prop) (c : Prog σ ω κ α × σ) : Move ε ω → Prop
  | .other e => ∀ l, c.1.place = some l → ok l e c.2
  | .task _ => True

instance (ok : κ → ε → σ → Prop) [∀ l e s, Decidable (ok l e s)] (c : Prog σ ω κ α × σ)
    (m : Move ε ω) : Decidable (m.fine ok c) :=
  match m with
  | .other e =>
    match h : c.1.place with
    | none => .isTrue fun _ hl => by cases h.symm.trans hl
    | some l => decidable_of_iff (ok l e c.2)
      ⟨fun ho _ hl => Option.some.inj (h.symm.trans hl) ▸ ho, fun hall => hall l h⟩
  | .task _ => .isTrue trivial

/-- One step of a task that never ends among others, computed. -/
def nextFine (env : ε → σ → Option σ) (ok : κ → ε → σ → Prop) [∀ l e s, Decidable (ok l e s)]
    (c : Prog σ ω κ α × σ) (m : Move ε ω) : Option (Prog σ ω κ α × σ) :=
  if m.fine ok c then next env c m else none

/-- A computed run. -/
theorem reaches_of_foldlM {p : Prog σ ω κ Empty} {init : σ → Prop} {env : ε → σ → Option σ}
    {ok : κ → ε → σ → Prop} [∀ l e s, Decidable (ok l e s)] {ms : List (Move ε ω)} {s : σ}
    {c : Prog σ ω κ Empty × σ} (h0 : init s) (h : ms.foldlM (nextFine env ok) (p, s) = some c) :
    Reaches (among p init env ok) ms c := by
  refine (Reaches.init (S := among p init env ok) ⟨rfl, h0⟩).append
    (.of_foldlM (fun c m c' hn => ?_) h)
  unfold nextFine at hn
  split_ifs at hn with hm
  refine ⟨hn, fun e l he hl => ?_⟩
  subst he
  exact hm l hl

/-- Where every step of the program and of the rest is in `S`, so is a path. -/
theorem Every.of_path {p₀ : Prog σ ω κ Empty} {init : σ → Prop} {env : ε → σ → Option σ}
    {ok : κ → ε → σ → Prop} {S : σ → σ → Prop} (hrefl : ∀ s, S s s)
    (htrans : ∀ s t u, S s t → S t u → S s u) (henv : ∀ e s t, env e s = some t → S s t)
    {c c' : Prog σ ω κ Empty × σ} {ms : List (Move ε ω)} (hp : Every S c.1)
    (hpath : Path (among p₀ init env ok) c ms c') : S c.2 c'.2 ∧ Every S c'.1 := by
  induction hpath with
  | nil c => exact ⟨hrefl _, hp⟩
  | @cons c d c' m ms hstep _ ih =>
    obtain ⟨p, s⟩ := c
    obtain ⟨q, t⟩ := d
    have hone : S s t ∧ Every S q := by
      cases m with
      | other e =>
        obtain ⟨u, hu, heq⟩ := Option.map_eq_some_iff.mp hstep.1
        obtain ⟨rfl, rfl⟩ := Prod.mk.inj heq
        exact ⟨henv e s _ hu, hp⟩
      | task o => exact hp.step hrefl hstep.1
    obtain ⟨hs, hq⟩ := ih hone.2
    exact ⟨htrans _ _ _ hone.1 hs, hq⟩

theorem Every.of_reaches {p : Prog σ ω κ Empty} {init : σ → Prop} {env : ε → σ → Option σ}
    {ok : κ → ε → σ → Prop} {S : σ → σ → Prop} (hrefl : ∀ s, S s s) (hp : Every S p)
    {h : List (Move ε ω)} {c : Prog σ ω κ Empty × σ} (hr : Reaches (among p init env ok) h c) :
    Every S c.1 := by
  refine hr.stateInvariant (I := fun c => Every S c.1) ?_ ?_
  · rintro ⟨q, s⟩ ⟨rfl, -⟩
    exact hp
  rintro ⟨q, s⟩ m ⟨q', t⟩ hq ⟨hnext, -⟩
  cases m with
  | other e =>
    obtain ⟨u, -, heq⟩ := Option.map_eq_some_iff.mp hnext
    obtain ⟨rfl, -⟩ := Prod.mk.inj heq
    exact hq
  | task o => exact (hq.step hrefl hnext).2

/-- A triple of the whole program speaks of every state that a run reaches. -/
theorem Triple.of_reaches {p : Prog σ ω κ Empty} {init : σ → Prop} {env : ε → σ → Option σ}
    {ok : κ → ε → σ → Prop} {A : κ → σ → Prop} {Q : Empty → σ → Prop}
    (hp : Triple (Interferes env ok) A init p Q) {h : List (Move ε ω)}
    {c : Prog σ ω κ Empty × σ} (hr : Reaches (among p init env ok) h c) :
    wp (Interferes env ok) A c.1 Q c.2 := by
  refine hr.stateInvariant (I := fun c => wp (Interferes env ok) A c.1 Q c.2) ?_ ?_
  · rintro ⟨q, s⟩ ⟨rfl, hs⟩
    exact hp s hs
  rintro ⟨q, s⟩ m ⟨q', t⟩ hwp ⟨hnext, hok⟩
  cases m with
  | other e =>
    obtain ⟨u, hu, heq⟩ := Option.map_eq_some_iff.mp hnext
    obtain ⟨rfl, rfl⟩ := Prod.mk.inj heq
    cases hl : q.place with
    | none =>
      cases q with
      | ret a => exact a.elim
      | _ => simp [Prog.place] at hl
    | some l => exact wp_other hl ⟨e, hok e l rfl hl, hu⟩ hwp
  | task o => exact wp_task hnext hwp

/-- `A` holds wherever the task stands, in every run. -/
theorem Triple.place_of_reaches {p : Prog σ ω κ Empty} {init : σ → Prop} {env : ε → σ → Option σ}
    {ok : κ → ε → σ → Prop} {A : κ → σ → Prop} {Q : Empty → σ → Prop}
    (hp : Triple (Interferes env ok) A init p Q) {h : List (Move ε ω)}
    {c : Prog σ ω κ Empty × σ} (hr : Reaches (among p init env ok) h c) {l : κ}
    (hl : c.1.place = some l) : A l c.2 :=
  wp_place hl (hp.of_reaches hr)

end EspVision.TaskProgram
