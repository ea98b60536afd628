import EspVision.NetworkFrame
import EspVision.NetworkProtocol
import EspVision.NetworkRequest

/-!
# The operation slot refines the protocol

Whatever the host, the event task and Python do, what the service records is a run of the abstract
protocol, and the slot shows where that run stands. None of them touches the records of the worker.
-/
namespace EspVision.NetworkService

open TransitionSystem

/-! ## Refinement -/

/-- What stays of a request once it has completed. -/
def NetworkRequest.key (r : NetworkRequest) : NetworkRequest where
  id := r.id
  action := r.action
  parameterHash := r.parameterHash

/-- The slot shows the present operation and the last one. -/
structure Agrees (p : Protocol) (c : Core) : Prop where
  present : match p.phase with
    | .idle => c.hasOperation = false ∧ c.activeRequest = {}
    | .queued r d released =>
      c.hasOperation = true ∧ c.activeRequest = r ∧
        c.operation = { id := r.id, action := r.action, state := .queued } ∧
        c.replyDeadline = d ∧ c.replyReleased = released
    | .running r =>
      c.hasOperation = true ∧ c.activeRequest = r ∧
        c.operation = { id := r.id, action := r.action, state := .running }
  last : match p.last with
    | none => c.hasLastOperation = false
    | some q =>
      c.hasLastOperation = true ∧ c.lastRequest = q.key ∧ c.lastOperation.id = q.id ∧
        c.lastOperation.action = q.action ∧
        (c.lastOperation.state = .succeeded ∨ c.lastOperation.state = .failed)

/-- The record is a run of the protocol that stands in a phase with `f`; an operation and a Python
mutation exclude each other; what was accepted is a well-formed request; and of the last request
only its key is kept. -/
structure Follows (sha256 : List UInt8 → List UInt8) (f : Phase → Prop) (c : Core) : Prop where
  run : ∃ p, Reaches protocol c.log p ∧ Agrees p c ∧ f p.phase
  apart : c.hasOperation = true → c.pythonMutationActive = false
  made : ∀ r d, .accepted r d ∈ c.log → c.started = true ∧ r.WellFormed sha256
  keyed : c.lastRequest = c.lastRequest.key

variable {sha256 : List UInt8 → List UInt8} {f g : Phase → Prop} {s t : Service} {c : Core}

lemma Follows.mono (h : Follows sha256 f c) (hfg : ∀ phase, f phase → g phase) :
    Follows sha256 g c := by
  obtain ⟨p, hr, ha, hf⟩ := h.run
  exact { h with run := ⟨p, hr, ha, hfg _ hf⟩ }

/-- A change that the slot does not show. -/
lemma Follows.of_eq (h : Follows sha256 f s.core) (heq : t.core = s.core) :
    Follows sha256 f t.core := heq ▸ h

lemma phase_idle {p : Protocol} (ha : Agrees p c) (h : c.hasOperation = false) :
    p.phase = .idle := by
  have hp := ha.present
  cases hph : p.phase with
  | idle => rfl
  | queued r d rel =>
    rw [hph] at hp
    exact absurd (h.symm.trans hp.1) (by decide)
  | running r =>
    rw [hph] at hp
    exact absurd (h.symm.trans hp.1) (by decide)

lemma request_of_operation {p : Protocol} (ha : Agrees p c) (h : c.hasOperation = true) :
    p.phase.request = some c.activeRequest := by
  have hp := ha.present
  cases hph : p.phase with
  | idle =>
    rw [hph] at hp
    exact absurd (h.symm.trans hp.1) (by decide)
  | queued r d rel =>
    rw [hph] at hp
    rw [hp.2.1, Phase.request]
  | running r =>
    rw [hph] at hp
    rw [hp.2.1, Phase.request]

/-! ## The rest of the system -/

/-- What the rest does to the phase does not leave `f`. -/
structure Calm (f : Phase → Prop) : Prop where
  accepted : f .idle → ∀ r d, f (.queued r d false)
  released : ∀ r d rel, f (.queued r d rel) → f (.queued r d true)

/-- What `submit` does when it accepts. -/
def Service.accept (s : Service) (r : NetworkRequest) : Service :=
  { s with
    activeRequest := r
    operation := { id := r.id, action := r.action, state := .queued }
    hasOperation := true
    replyReleased := false
    replyDeadline := s.clock + ackTimeoutMs * 1000
    }.record (.accepted r (s.clock + ackTimeoutMs * 1000))

/-- A request is accepted only by an idle service, and not after one with the same id. -/
lemma submit_cases (s : Service) (r : NetworkRequest) :
    (s.submit r).2 = s ∨
      ((s.submit r).2 = s.accept r ∧ s.started = true ∧ s.pythonMutationActive = false ∧
        s.hasOperation = false ∧ (s.hasLastOperation = true → r.id ≠ s.lastRequest.id)) := by
  by_cases hs : s.started = true
  swap
  · exact .inl (by simp [Service.submit, hs])
  by_cases hp : s.pythonMutationActive = true
  · exact .inl (by simp [Service.submit, hs, hp])
  cases hm : s.operationMatch r with
  | new =>
    by_cases hc : r.action = .enable ∧ r.enabled ≠ 0 ∧ s.persisted.configured = 0
    · exact .inl (by simp [Service.submit, hs, hp, hm, hc])
    have hop : s.hasOperation = false := by
      by_contra hop
      rw [Bool.not_eq_false] at hop
      unfold Service.operationMatch at hm
      rw [if_pos hop] at hm
      split_ifs at hm
    refine .inr ⟨?_, hs, by simpa using hp, hop, fun hl hid => ?_⟩
    · unfold Service.submit
      rw [if_neg (by simp [hs]), if_neg hp, hm]
      dsimp only
      rw [if_neg hc]
      rfl
    · unfold Service.operationMatch at hm
      rw [if_neg (by simp [hop]), if_pos ⟨hl, hid⟩] at hm
      split_ifs at hm
  | _ => exact .inl (by simp [Service.submit, hs, hp, hm])

lemma accept_follows (hf : Calm f) (h : Follows sha256 f s.core) {r : NetworkRequest}
    (hmade : r.WellFormed sha256) (hs : s.started = true)
    (hp : s.pythonMutationActive = false) (hop : s.hasOperation = false)
    (hid : s.hasLastOperation = true → r.id ≠ s.lastRequest.id) :
    Follows sha256 f (s.accept r).core := by
  obtain ⟨p, hr, ha, hfp⟩ := h.run
  have hidle := phase_idle ha hop
  refine {
    run := ⟨_, hr.snoc (.accepted r (s.clock + ackTimeoutMs * 1000) hidle fun q hq => ?_),
      ⟨⟨rfl, rfl, rfl, rfl, rfl⟩, ha.last⟩, hf.accepted (hidle ▸ hfp) _ _⟩
    apart := fun _ => hp
    made := fun q d hq => ?_
    keyed := h.keyed }
  · have hl := ha.last
    rw [hq] at hl
    have hkey : s.lastRequest = q.key := hl.2.1
    intro he
    refine hid hl.1 ?_
    rw [hkey]
    exact he.symm
  · rcases List.mem_append.mp hq with hq | hq
    · exact h.made q d hq
    · obtain ⟨rfl, -⟩ := Entry.accepted.inj (List.mem_singleton.mp hq)
      exact ⟨hs, hmade⟩

lemma responseSent_follows (hf : Calm f) (h : Follows sha256 f s.core) (id : List UInt8) :
    Follows sha256 f (s.rpcResponseSent id).core := by
  unfold Service.rpcResponseSent
  by_cases hhex : (!lowerHexOperationId id) = true
  · rw [if_pos hhex]
    exact h
  rw [if_neg hhex]
  obtain ⟨p, hr, ha, hfp⟩ := h.run
  have hmade : ∀ r d, .accepted r d ∈ s.core.log ++ [.responseSent id] →
      s.core.started = true ∧ r.WellFormed sha256 := fun r d hm =>
    h.made r d (by simpa using hm)
  by_cases hq : ∃ r d rel, p.phase = .queued r d rel ∧ id = r.id
  · obtain ⟨r, d, rel, hq, rfl⟩ := hq
    have hp := ha.present
    rw [hq] at hp
    obtain ⟨hop, hreq, hoper, hd, hrel⟩ := hp
    have hcond : (s.hasOperation && s.operation.state == .queued && r.id == s.operation.id) =
        true := by
      have hop' : s.hasOperation = true := hop
      have hoper' : s.operation = { id := r.id, action := r.action, state := .queued } := hoper
      simp [hop', hoper']
    refine ⟨⟨_, hr.snoc (.responseSent r d rel hq), ⟨⟨hop, hreq, hoper, hd, ?_⟩, ha.last⟩,
      hf.released _ _ _ (hq ▸ hfp)⟩, h.apart, hmade, h.keyed⟩
    exact if_pos hcond
  · have hcond : (s.hasOperation && s.operation.state == .queued && id == s.operation.id) =
        false := by
      by_contra hc
      simp only [Bool.not_eq_false, Bool.and_eq_true, beq_iff_eq] at hc
      obtain ⟨⟨hop, hstate⟩, hid⟩ := hc
      have hp := ha.present
      cases hph : p.phase with
      | idle =>
        rw [hph] at hp
        exact absurd (hop.symm.trans hp.1) (by decide)
      | queued r d rel =>
        rw [hph] at hp
        have hoper : s.operation = { id := r.id, action := r.action, state := .queued } := hp.2.2.1
        exact hq ⟨r, d, rel, hph, by rw [hid, hoper]⟩
      | running r =>
        rw [hph] at hp
        have hoper : s.operation = { id := r.id, action := r.action, state := .running } := hp.2.2
        rw [hoper] at hstate
        cases hstate
    refine ⟨⟨p, hr.snoc (.responseUnknown id), ?_, hfp⟩, h.apart, hmade, h.keyed⟩
    have hrel : (if (s.hasOperation && s.operation.state == .queued && id == s.operation.id) = true
        then true else s.replyReleased) = s.replyReleased := by
      rw [hcond]
      rfl
    refine ⟨?_, ha.last⟩
    have hp := ha.present
    cases hph : p.phase with
    | idle =>
      rw [hph] at hp
      exact hp
    | queued r d rel =>
      rw [hph] at hp
      exact ⟨hp.1, hp.2.1, hp.2.2.1, hp.2.2.2.1, hrel.trans hp.2.2.2.2⟩
    | running r =>
      rw [hph] at hp
      exact hp

/-- Python changes its gate at most, and opens it only while there is no operation. -/
lemma python_core {call : PythonCall} (h : s.python call = some t) :
    t.core = s.core ∨ t.core = { s.core with pythonMutationActive := false } ∨
      (s.hasOperation = false ∧ t.core = { s.core with pythonMutationActive := true }) := by
  unfold Service.python at h
  cases call with
  | mutationBegin =>
    dsimp only at h
    split_ifs at h with hbusy
    · obtain rfl := Option.some.inj h
      exact .inl rfl
    · obtain rfl := Option.some.inj h
      refine .inr (.inr ⟨?_, rfl⟩)
      simp only [Bool.or_eq_true, not_or, Bool.not_eq_true] at hbusy
      exact hbusy.1.1
  | mutationCancel | mutationEnd =>
    dsimp only at h
    split_ifs at h
    obtain rfl := Option.some.inj h
    exact .inr (.inl rfl)
  | setConnectRequested requested =>
    dsimp only at h
    split_ifs at h <;> obtain rfl := Option.some.inj h <;> exact .inl rfl
  | setStaActive active =>
    dsimp only at h
    split_ifs at h <;> obtain rfl := Option.some.inj h <;> exact .inl rfl
  | _ =>
    dsimp only at h
    split_ifs at h
    obtain rfl := Option.some.inj h
    exact .inl rfl

/-- A closed gate is no harm, and an open one none without an operation. -/
lemma Follows.gate (h : Follows sha256 f c) {b : Bool}
    (hb : c.hasOperation = true → b = false) :
    Follows sha256 f { c with pythonMutationActive := b } := by
  obtain ⟨p, hr, ha, hfp⟩ := h.run
  exact ⟨⟨p, hr, ⟨ha.present, ha.last⟩, hfp⟩, hb, h.made, h.keyed⟩

/-- A step of the rest keeps the refinement. -/
theorem other_follows (hf : Calm f) (h : Follows sha256 f s.core) {e : Other}
    (hstep : s.other sha256 e = some t) : Follows sha256 f t.core := by
  cases e with
  | elapse us =>
    obtain rfl := Option.some.inj hstep
    exact h
  | post p =>
    simp only [Service.other] at hstep
    split_ifs at hstep
    obtain rfl := Option.some.inj hstep
    exact h
  | deliver =>
    simp only [Service.other] at hstep
    cases hp : s.posted with
    | nil =>
      rw [hp] at hstep
      cases hstep
    | cons p rest =>
      rw [hp] at hstep
      obtain rfl := Option.some.inj hstep
      exact h.of_eq ((handleEvent_core _ p).trans rfl)
  | start =>
    obtain rfl := Option.some.inj hstep
    obtain ⟨p, hr, ha, hfp⟩ := h.run
    exact ⟨⟨p, hr, ⟨ha.present, ha.last⟩, hfp⟩, h.apart, fun r d hm => ⟨rfl, (h.made r d hm).2⟩,
      h.keyed⟩
  | rpc text capacity hashed =>
    obtain rfl := Option.some.inj hstep
    unfold Service.rpcHandle
    cases hreq : requestOf sha256 text capacity hashed with
    | error response => exact h
    | ok r =>
      dsimp only
      rcases submit_cases s r with heq | ⟨heq, hs, hp, hop, hid⟩
      · rw [heq]
        exact h
      · rw [heq]
        exact accept_follows hf h (requestOf_wellFormed hreq) hs hp hop hid
  | responseSent id =>
    obtain rfl := Option.some.inj hstep
    exact responseSent_follows hf h id
  | python call =>
    rcases python_core hstep with heq | heq | ⟨hop, heq⟩
    · exact h.of_eq heq
    · rw [heq]
      exact h.gate fun _ => rfl
    · rw [heq]
      exact h.gate fun hop' => absurd (hop'.symm.trans hop) (by decide)

/-! ## Python -/

/-- Python is out, and is kept out. -/
structure Claimed (s : Service) : Prop where
  inactive : s.pythonMutationActive = false
  claim : s.hasOperation = true ∨ s.connectInProgress = true

/-- A claim keeps a Python change from beginning. -/
lemma Claimed.python (h : Claimed s) (call : PythonCall) :
    s.python call = if call = .mutationBegin then some s else none := by
  unfold Service.python
  cases call with
  | mutationBegin =>
    have hbusy : (s.hasOperation || s.pythonMutationActive || s.connectInProgress) = true := by
      rcases h.claim with hc | hc <;> simp [hc]
    dsimp only
    rw [if_pos hbusy, if_pos rfl]
  | _ => simp [h.inactive]

/-! ## The records of the worker -/

/-- The entry is one of the worker. -/
def Entry.ofWorker : Entry → Bool
  | .executed .. | .committed .. | .completed _ => true
  | _ => false

/-- What only the operations of the worker change: the record in memory and in the storage, what
the worker has done, and what is known of the present operation. -/
structure Records where
  persisted : Record
  stored : Stored
  done : List Entry
  before : Record × Stored
  verdict : Verdict

def Core.records (c : Core) : Records where
  persisted := c.persisted
  stored := c.stored
  done := c.log.filter Entry.ofWorker
  before := c.before
  verdict := c.verdict

/-- The rest does not touch the records. -/
theorem other_records {e : Other} (hstep : s.other sha256 e = some t) :
    t.core.records = s.core.records := by
  cases e with
  | elapse us =>
    obtain rfl := Option.some.inj hstep
    rfl
  | post p =>
    simp only [Service.other] at hstep
    split_ifs at hstep
    obtain rfl := Option.some.inj hstep
    rfl
  | deliver =>
    simp only [Service.other] at hstep
    cases hp : s.posted with
    | nil =>
      rw [hp] at hstep
      cases hstep
    | cons p rest =>
      rw [hp] at hstep
      obtain rfl := Option.some.inj hstep
      exact congrArg Core.records ((handleEvent_core _ p).trans rfl)
  | start =>
    obtain rfl := Option.some.inj hstep
    rfl
  | rpc text capacity hashed =>
    obtain rfl := Option.some.inj hstep
    unfold Service.rpcHandle
    cases requestOf sha256 text capacity hashed with
    | error response => rfl
    | ok r =>
      dsimp only
      rcases submit_cases s r with heq | ⟨heq, -⟩
      · rw [heq]
      · rw [heq]
        simp [Core.records, Service.core, Service.accept, Service.record, Entry.ofWorker]
  | responseSent id =>
    obtain rfl := Option.some.inj hstep
    unfold Service.rpcResponseSent
    by_cases hhex : (!lowerHexOperationId id) = true
    · rw [if_pos hhex]
    · rw [if_neg hhex]
      simp [Core.records, Service.core, Service.record, Entry.ofWorker]
  | python call =>
    rcases python_core hstep with heq | heq | ⟨-, heq⟩ <;> rw [heq] <;> rfl

end EspVision.NetworkService
