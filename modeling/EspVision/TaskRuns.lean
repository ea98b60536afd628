import EspVision.TaskProgram

/-!
# What a task can do

Triples say what holds whatever the rest does. Here the outcomes of the actions and the steps of the
rest are chosen, so that a run gets where it is wanted.
-/
namespace EspVision.TaskProgram

open TransitionSystem Relation

variable {σ ω κ ε α β : Type}

theorem Prog.bind_assoc {α β γ : Type} (p : Prog σ ω κ α) (f : α → Prog σ ω κ β)
    (g : β → Prog σ ω κ γ) : (p.bind f).bind g = p.bind fun a => (f a).bind g := by
  induction p with
  | ret a => rfl
  | act l run next ih => exact congrArg (Prog.act l run) (funext fun b => ih b f)
  | loop l body next ihb ihn => exact congrArg (Prog.loop l body) (funext fun b => ihn b f)

lemma Prog.place_bind {p : Prog σ ω κ α} {l : κ} (h : p.place = some l)
    (g : α → Prog σ ω κ β) : (p.bind g).place = some l := by
  cases p with
  | ret a => cases h
  | act l' run next => exact h
  | loop l' body next => exact h

lemma Prog.step_bind {p q : Prog σ ω κ α} {o : ω} {s t : σ} (h : p.step o s = some (q, t))
    (g : α → Prog σ ω κ β) : (p.bind g).step o s = some (q.bind g, t) := by
  cases p with
  | ret a => cases h
  | act l run next =>
    obtain ⟨rfl, rfl⟩ := Prod.mk.inj (Option.some.inj h)
    rfl
  | loop l body next =>
    obtain ⟨rfl, rfl⟩ := Prod.mk.inj (Option.some.inj h)
    rw [Prog.bind_assoc]
    refine congrArg (fun q => some (q, s)) (congrArg body.bind (funext fun b => ?_))
    cases b <;> rfl

section Leads

variable (env : ε → σ → Option σ) (ok : κ → ε → σ → Prop)

/-- One move of a task that has not returned, or of the rest. -/
inductive Moves : Prog σ ω κ α × σ → Prog σ ω κ α × σ → Prop
  | other {p : Prog σ ω κ α} {s t : σ} {e : ε} {l : κ} :
      p.place = some l → ok l e s → env e s = some t → Moves (p, s) (p, t)
  | task {p q : Prog σ ω κ α} {s t : σ} {o : ω} : p.step o s = some (q, t) → Moves (p, s) (q, t)

/-- The moves can be chosen so that the one leads to the other. -/
abbrev Leads : Prog σ ω κ α × σ → Prog σ ω κ α × σ → Prop := ReflTransGen (Moves env ok)

/-- From `P` the program can get to `Q`. -/
def Able (P : σ → Prop) (p : Prog σ ω κ α) (Q : α → σ → Prop) : Prop :=
  ∀ s, P s → ∃ a t, Leads env ok (p, s) (.ret a, t) ∧ Q a t

variable {env ok}

theorem Leads.bind {p q : Prog σ ω κ α} {s t : σ} (h : Leads env ok (p, s) (q, t))
    (g : α → Prog σ ω κ β) : Leads env ok (p.bind g, s) (q.bind g, t) := by
  refine ReflTransGen.lift (fun c : Prog σ ω κ α × σ => (c.1.bind g, c.2)) (fun c d hmove => ?_) _ _ h
  cases hmove with
  | other hl hok he => exact .other (Prog.place_bind hl g) hok he
  | task hstep => exact .task (Prog.step_bind hstep g)

/-- What a task that never ends is led to is on a path of the whole. -/
theorem Leads.path {p₀ : Prog σ ω κ Empty} {init : σ → Prop} {c c' : Prog σ ω κ Empty × σ}
    (h : Leads env ok c c') : ∃ ms, Path (among p₀ init env ok) c ms c' := by
  induction h using ReflTransGen.head_induction_on with
  | refl => exact ⟨[], .nil c'⟩
  | head hmove _ ih =>
    obtain ⟨ms, hpath⟩ := ih
    cases hmove with
    | @other p s t e l hl hok he =>
      refine ⟨.other e :: ms, .cons ⟨?_, fun e' l' he' hl' => ?_⟩ hpath⟩
      · simp [next, he]
      · obtain rfl := Move.other.inj he'
        obtain rfl := Option.some.inj (hl.symm.trans hl')
        exact hok
    | @task p q s t o hstep => exact ⟨.task o :: ms, .cons ⟨hstep, nofun⟩ hpath⟩

/-! ### Rules -/

variable {P R : σ → Prop} {Q : α → σ → Prop}

theorem Able.pre {p : Prog σ ω κ α} (h : ∀ s, P s → R s) (hp : Able env ok R p Q) :
    Able env ok P p Q := fun s hs => hp s (h s hs)

theorem Able.post {p : Prog σ ω κ α} {Q' : α → σ → Prop} (hp : Able env ok P p Q)
    (h : ∀ a s, Q a s → Q' a s) : Able env ok P p Q' := fun s hs => by
  obtain ⟨a, t, hleads, hq⟩ := hp s hs
  exact ⟨a, t, hleads, h a t hq⟩

theorem Able.pure {a : α} (h : ∀ s, P s → Q a s) :
    Able env ok P (Pure.pure a : Prog σ ω κ α) Q := fun s hs => ⟨a, s, .refl, h s hs⟩

theorem Able.bind {p : Prog σ ω κ β} {g : β → Prog σ ω κ α} {M : β → σ → Prop}
    (hp : Able env ok P p M) (hg : ∀ b, Able env ok (M b) (g b) Q) :
    Able env ok P (p >>= g) Q := fun s hs => by
  obtain ⟨b, t, hleads, hm⟩ := hp s hs
  obtain ⟨a, u, hleads', hq⟩ := hg b t hm
  exact ⟨a, u, (hleads.bind g).trans hleads', hq⟩

/-- An action with this outcome. -/
theorem Able.atomic (o : ω) {l : κ} {run : ω → σ → α × σ}
    (h : ∀ s, P s → Q (run o s).1 (run o s).2) : Able env ok P (atomic l run) Q := fun s hs =>
  ⟨(run o s).1, (run o s).2, .single (.task (o := o) rfl), h s hs⟩

/-- A step of the rest, with the task before its next action. -/
theorem Able.other (e : ε) {p : Prog σ ω κ α} {l : κ} (hl : p.place = some l)
    (he : ∀ s, P s → ok l e s ∧ ∃ t, env e s = some t ∧ R t) (hp : Able env ok R p Q) :
    Able env ok P p Q := fun s hs => by
  obtain ⟨hok, t, ht, hr⟩ := he s hs
  obtain ⟨a, u, hleads, hq⟩ := hp t hr
  exact ⟨a, u, .head (.other hl hok ht) hleads, hq⟩

/-- Once more around. -/
theorem Able.around (o : ω) {l : κ} {body : Prog σ ω κ Unit} {Q : σ → Prop}
    (hp : Able env ok P body fun _ => Q) {s : σ} (hs : P s) :
    ∃ t, Leads env ok (forever l body, s) (forever l body, t) ∧ Q t := by
  obtain ⟨a, t, hleads, hq⟩ := hp s hs
  refine ⟨t, .head (.task (o := o) rfl) ?_, hq⟩
  exact (hleads.bind _).bind _

end Leads

end EspVision.TaskProgram
