import EspVision.NetworkService
import EspVision.TransitionSystem

/-!
# Network operations, abstractly

What the service is for, seen from outside: one operation at a time is accepted, waits until its
response has been sent or the deadline has come, is executed, and completes. An id is not accepted
again right after itself.
-/
namespace EspVision.NetworkService

open TransitionSystem

/-- The operation that there is. -/
inductive Phase
  | idle
  | queued (request : NetworkRequest) (deadline : ℕ) (released : Bool)
  | running (request : NetworkRequest)
  deriving DecidableEq

def Phase.request : Phase → Option NetworkRequest
  | .idle => none
  | .queued r _ _ | .running r => some r

/-- The present operation and the last one that completed. -/
structure Protocol where
  phase : Phase := .idle
  last : Option NetworkRequest := none
  deriving DecidableEq

/-- What may happen, and what it leads to. -/
inductive Protocol.Step : Protocol → Entry → Protocol → Prop
  | accepted {p : Protocol} (r : NetworkRequest) (deadline : ℕ) :
      p.phase = .idle → (∀ q, p.last = some q → q.id ≠ r.id) →
      Step p (.accepted r deadline) { p with phase := .queued r deadline false }
  | responseSent {p : Protocol} (r : NetworkRequest) (deadline : ℕ) (released : Bool) :
      p.phase = .queued r deadline released →
      Step p (.responseSent r.id) { p with phase := .queued r deadline true }
  | responseUnknown {p : Protocol} (id : List UInt8) : Step p (.responseSent id) p
  | executed {p : Protocol} (r : NetworkRequest) (deadline : ℕ) (released : Bool) (time : ℕ) :
      p.phase = .queued r deadline released → released = true ∨ deadline ≤ time →
      Step p (.executed r time) { p with phase := .running r }
  | committed {p : Protocol} (r : NetworkRequest) (record : Record) (verdict : Verdict) :
      p.phase = .running r → Step p (.committed r record verdict) p
  | completed {p : Protocol} (report : Report) :
      p.phase = .running report.request →
      Step p (.completed report) { phase := .idle, last := some report.request }

/-- The protocol from the start on. -/
def protocol : System Protocol Entry where
  init p := p = {}
  step := Protocol.Step

variable {h : List Entry} {p : Protocol}

/-- A last entry is either the one that is looked for, or comes after it. -/
lemma snoc_eq {α : Type} {h a b : List α} {l e : α} (heq : h ++ [l] = a ++ e :: b) :
    (b = [] ∧ e = l ∧ a = h) ∨ ∃ b', b = b' ++ [l] ∧ h = a ++ e :: b' := by
  rcases List.eq_nil_or_concat b with rfl | ⟨b', x, rfl⟩
  · obtain ⟨rfl, hx⟩ := List.append_inj' heq rfl
    exact .inl ⟨rfl, (List.singleton_inj.mp hx).symm, rfl⟩
  · rw [List.concat_eq_append, ← List.cons_append, ← List.append_assoc] at heq
    obtain ⟨rfl, hx⟩ := List.append_inj' heq rfl
    obtain rfl := List.singleton_inj.mp hx
    exact .inr ⟨b', List.concat_eq_append, rfl⟩

/-- Every entry is as `P` says after the entries before it. -/
def Told (P : List Entry → Entry → Prop) (log : List Entry) : Prop :=
  ∀ a e b, log = a ++ e :: b → P a e

lemma Told.nil (P : List Entry → Entry → Prop) : Told P [] := fun a e b h => by simp at h

lemma Told.snoc {P : List Entry → Entry → Prop} {log : List Entry} {e : Entry} (h : Told P log)
    (he : P log e) : Told P (log ++ [e]) := by
  intro a e' b heq
  rcases snoc_eq heq with ⟨-, rfl, rfl⟩ | ⟨b', -, rfl⟩
  · exact he
  · exact h a e' b' rfl

/-- An accepted operation is the present one until it completes. -/
theorem accepted_present (hr : Reaches protocol h p) :
    ∀ a r d b, h = a ++ .accepted r d :: b →
      p.phase.request = some r ∨ ∃ report, .completed report ∈ b ∧ report.request = r := by
  apply hr.invariant
  · intro p hp a r d b hh
    simp at hh
  intro h p l q hr ih hstep a r d b hh
  rcases snoc_eq hh with ⟨rfl, rfl, rfl⟩ | ⟨b', rfl, rfl⟩
  · cases hstep with
    | accepted => exact .inl rfl
  · rcases ih a r d b' rfl with hp | ⟨report, hmem, hreq⟩
    · cases hstep with
      | accepted r' d' hidle => simp [hidle, Phase.request] at hp
      | responseSent r' d' rel hq =>
        rw [hq] at hp
        exact .inl hp
      | responseUnknown => exact .inl hp
      | executed r' d' rel t hq =>
        rw [hq] at hp
        exact .inl hp
      | committed => exact .inl hp
      | completed report hrun =>
        rw [hrun] at hp
        exact .inr ⟨report, by simp, Option.some.inj hp⟩
    · exact .inr ⟨report, by simp [hmem], hreq⟩

/-- What is queued was accepted last, and has been released only after that. -/
theorem queued_since (hr : Reaches protocol h p) :
    ∀ r d released, p.phase = .queued r d released →
      ∃ a b, h = a ++ .accepted r d :: b ∧ (∀ q e, .accepted q e ∉ b) ∧
        (released = true → .responseSent r.id ∈ b) := by
  apply hr.invariant
  · rintro p rfl r d released hp
    cases hp
  intro h p l q hr ih hstep r d released hq
  cases hstep with
  | accepted r' d' =>
    obtain ⟨rfl, rfl, rfl⟩ := Phase.queued.inj hq
    exact ⟨h, [], rfl, by simp, by simp⟩
  | responseSent r' d' rel hphase =>
    obtain ⟨rfl, rfl, rfl⟩ := Phase.queued.inj hq
    obtain ⟨a, b, rfl, hb, -⟩ := ih _ _ _ hphase
    exact ⟨a, b ++ [.responseSent r'.id], by simp, by simpa using hb, by simp⟩
  | responseUnknown id =>
    obtain ⟨a, b, rfl, hb, hrel⟩ := ih _ _ _ hq
    exact ⟨a, b ++ [.responseSent id], by simp, by simpa using hb,
      fun h => List.mem_append_left _ (hrel h)⟩
  | executed => cases hq
  | committed r' record v hrun => simp [hrun] at hq
  | completed => cases hq

/-- An operation that has been executed is running, or the last one to complete, unless another
id was accepted since. -/
theorem executed_since (hr : Reaches protocol h p) :
    ∀ a r t b, h = a ++ .executed r t :: b →
      p.phase = .running r ∨ (p.phase = .idle ∧ p.last = some r) ∨
        ∃ q d, .accepted q d ∈ b ∧ q.id ≠ r.id := by
  apply hr.invariant
  · intro p hp a r t b hh
    simp at hh
  intro h p l q hr ih hstep a r t b hh
  rcases snoc_eq hh with ⟨rfl, rfl, rfl⟩ | ⟨b', rfl, rfl⟩
  · cases hstep with
    | executed => exact .inl rfl
  · rcases ih a r t b' rfl with hrun | ⟨hidle, hlast⟩ | ⟨q', d, hmem, hne⟩
    · cases hstep with
      | accepted r' d' hidle => simp [hidle] at hrun
      | responseSent r' d' rel hq => simp [hq] at hrun
      | responseUnknown => exact .inl hrun
      | executed r' d' rel t' hq => simp [hq] at hrun
      | committed => exact .inl hrun
      | completed report hrun' =>
        rw [hrun'] at hrun
        exact .inr (.inl ⟨rfl, by rw [Phase.running.inj hrun]⟩)
    · cases hstep with
      | accepted r' d' _ hne => exact .inr (.inr ⟨r', d', by simp, (hne r hlast).symm⟩)
      | responseSent r' d' rel hq => simp [hq] at hidle
      | responseUnknown => exact .inr (.inl ⟨hidle, hlast⟩)
      | executed r' d' rel t' hq => simp [hq] at hidle
      | committed r' record v hrun => simp [hrun] at hidle
      | completed report hrun => simp [hrun] at hidle
    · exact .inr (.inr ⟨q', d, by simp [hmem], hne⟩)

/-- The last operation that was accepted is the present one, or the last one to complete. -/
theorem last_accepted (hr : Reaches protocol h p) :
    ∀ a r d b, h = a ++ .accepted r d :: b → (∀ q e, .accepted q e ∉ b) →
      p.phase.request = some r ∨ (p.phase = .idle ∧ p.last = some r) := by
  apply hr.invariant
  · intro p hp a r d b hh
    simp at hh
  intro h p l q hr ih hstep a r d b hh hb
  rcases snoc_eq hh with ⟨rfl, rfl, rfl⟩ | ⟨b', rfl, rfl⟩
  · cases hstep with
    | accepted => exact .inl rfl
  · have hb' : ∀ q e, .accepted q e ∉ b' := fun q e hm => hb q e (List.mem_append_left _ hm)
    rcases ih a r d b' rfl hb' with hp | ⟨hidle, hlast⟩
    · cases hstep with
      | accepted r' d' => exact absurd (by simp) (hb r' d')
      | responseSent r' d' rel hq =>
        rw [hq] at hp
        exact .inl hp
      | responseUnknown => exact .inl hp
      | executed r' d' rel t hq =>
        rw [hq] at hp
        exact .inl hp
      | committed => exact .inl hp
      | completed report hrun =>
        rw [hrun] at hp
        exact .inr ⟨rfl, hp⟩
    · cases hstep with
      | accepted r' d' => exact absurd (by simp) (hb r' d')
      | responseSent r' d' rel hq => simp [hq] at hidle
      | responseUnknown => exact .inr ⟨hidle, hlast⟩
      | executed r' d' rel t hq => simp [hq] at hidle
      | committed r' record v hrun => simp [hrun] at hidle
      | completed report hrun => simp [hrun] at hidle

/-! ## What the entries tell -/

/-- Between two operations that are accepted the first one completes. -/
theorem accepted_serial (hr : Reaches protocol h p) {a b c : List Entry} {r r' : NetworkRequest}
    {d d' : ℕ} (hh : h = a ++ .accepted r d :: (b ++ .accepted r' d' :: c)) :
    ∃ report, .completed report ∈ b ∧ report.request = r := by
  have hcut : h = (a ++ .accepted r d :: b) ++ .accepted r' d' :: c := by simpa using hh
  obtain ⟨q, q', hq, hstep, -⟩ := Reaches.cut (hcut ▸ hr)
  rcases accepted_present hq a r d b rfl with hp | hdone
  · cases hstep with
    | accepted _ _ hidle => simp [hidle, Phase.request] at hp
  · exact hdone

/-- Between two executions of one id another id is accepted. -/
theorem executed_once (hr : Reaches protocol h p) {a b c : List Entry} {r r' : NetworkRequest}
    {t t' : ℕ} (hh : h = a ++ .executed r t :: (b ++ .executed r' t' :: c)) :
    ∃ q d, .accepted q d ∈ b ∧ q.id ≠ r.id := by
  have hcut : h = (a ++ .executed r t :: b) ++ .executed r' t' :: c := by simpa using hh
  obtain ⟨q, q', hq, hstep, -⟩ := Reaches.cut (hcut ▸ hr)
  cases hstep with
  | executed _ d rel _ hqueued =>
    rcases executed_since hq a r t b rfl with hrun | ⟨hidle, -⟩ | hother
    · simp [hqueued] at hrun
    · simp [hqueued] at hidle
    · exact hother

/-- An operation is executed after it was accepted, and after its response was sent or its
deadline. -/
theorem executed_due (hr : Reaches protocol h p) {a c : List Entry} {r : NetworkRequest} {t : ℕ}
    (hh : h = a ++ .executed r t :: c) :
    ∃ a₁ a₂ d, a = a₁ ++ .accepted r d :: a₂ ∧ (∀ q e, .accepted q e ∉ a₂) ∧
      (.responseSent r.id ∈ a₂ ∨ d ≤ t) := by
  obtain ⟨q, q', hq, hstep, -⟩ := Reaches.cut (hh ▸ hr)
  cases hstep with
  | executed _ d rel _ hqueued hdue =>
    obtain ⟨a₁, a₂, rfl, hnone, hrel⟩ := queued_since hq r d rel hqueued
    exact ⟨a₁, a₂, d, rfl, hnone, hdue.imp hrel id⟩

end EspVision.NetworkService
