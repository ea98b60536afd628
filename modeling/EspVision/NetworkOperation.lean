import EspVision.NetworkRun

/-!
# Network operations (`network_service.c`)

The protocol of the operations in every run of the whole service, whatever the host, the event
task and Python do between any two actions of the worker.
-/
namespace EspVision.NetworkService

open TaskProgram TransitionSystem

variable {sha256 : List UInt8 → List UInt8} {f : Phase → Prop} {s : Service}

/-- The refinement holds wherever the worker stands. -/
def Refines (sha256 : List UInt8 → List UInt8) (_ : Place) (s : Service) : Prop :=
  Follows sha256 (fun _ => True) s.core

/-- The service refines the protocol in every run. -/
theorem network_refines {h : List (Move Other Outcome)} {c : Task Empty × Service}
    (hr : Reaches (network sha256 fun _ _ _ => True) h c) :
    Follows sha256 (fun _ => True) c.2.core := by
  have hplace : ∀ f l s, During sha256 f (fun _ => True) s → Refines sha256 l s :=
    fun f l s hs => hs.follows.mono fun _ _ => trivial
  have hspec : WorkerSpec sha256 (fun _ _ _ => True) (Refines sha256) (fun _ => True)
      (fun _ _ => True) := {
    idle := fun f s => hplace f {} s
    begun := fun _ _ _ _ => trivial
    perform := fun r => Careless.perform_triple
      ⟨hplace _, fun _ _ _ _ => trivial, fun _ _ _ _ => trivial⟩
    initial := framed_triple calm_outside (hplace _) connectInitially_framed
    reconnect := framed_triple calm_outside (hplace _) tryReconnect_framed }
  obtain ⟨l, -, h⟩ := hspec.of_reaches (fun _ h => h) (fun _ _ => trivial) hr
  exact h

/-! ## The protocol of network operations -/

/-- The request is the last one that was accepted. -/
def LastAccepted (log : List Entry) (r : NetworkRequest) : Prop :=
  ∃ a d b, log = a ++ .accepted r d :: b ∧ ∀ q e, .accepted q e ∉ b

/-- What is recorded of the operation that was accepted last. -/
def Service.recorded (s : Service) : Operation :=
  if s.hasOperation then s.operation else s.lastOperation

/-- A repeated id is answered from the record, or refused, and changes nothing. -/
lemma submit_repeated (hsha : Function.Injective sha256)
    (h : Follows sha256 (fun _ => True) s.core) {r q : NetworkRequest}
    (hlast : LastAccepted s.trace.log r) (hq : q.WellFormed sha256) (hid : q.id = r.id) :
    s.submit q = (if s.pythonMutationActive then
        .error ⟨"NETWORK_BUSY", "A Python WLAN change is active"⟩
      else if q.SameParameters r then .accepted s.recorded false
      else .error ⟨"INVALID_ARGUMENT", "operationId was already used with different parameters"⟩,
      s) ∧
    s.recorded.id = r.id ∧ s.recorded.action = r.action := by
  obtain ⟨a, d, b, hlog, hb⟩ := hlast
  obtain ⟨p, hr, ha, -⟩ := h.run
  obtain ⟨hstart, hr'⟩ := h.made r d (by
    change _ ∈ s.trace.log
    rw [hlog]
    simp)
  have hstart' : s.started = true := hstart
  have hsame : ∀ k : NetworkRequest, k.id = r.id → k.action = r.action →
      k.parameterHash = r.parameterHash →
      (q.action = k.action ∧ q.parameterHash = k.parameterHash ↔ q.SameParameters r) :=
    fun k _ ha hh => by rw [ha, hh]; exact fingerprint_iff hsha hq hr'
  unfold Service.submit
  rw [if_neg (by simp [hstart'])]
  rcases last_accepted hr a r d b hlog hb with hp | ⟨hidle, hl⟩
  · -- the operation is there
    have hop : s.hasOperation = true := by
      by_contra hop
      rw [phase_idle ha (Bool.eq_false_iff.mpr hop)] at hp
      cases hp
    have hreq : s.activeRequest = r :=
      Option.some.inj ((request_of_operation ha hop).symm.trans hp)
    have hrec : s.recorded = s.operation := if_pos hop
    have hoper : s.operation.id = r.id ∧ s.operation.action = r.action := by
      have hpres := ha.present
      cases hph : p.phase with
      | idle =>
        rw [hph] at hp
        cases hp
      | queued r' d' rel =>
        rw [hph] at hp hpres
        obtain rfl := Option.some.inj hp
        have hoper : s.operation = _ := hpres.2.2.1
        exact ⟨by rw [hoper], by rw [hoper]⟩
      | running r' =>
        rw [hph] at hp hpres
        obtain rfl := Option.some.inj hp
        have hoper : s.operation = _ := hpres.2.2
        exact ⟨by rw [hoper], by rw [hoper]⟩
    refine ⟨?_, hrec ▸ hoper⟩
    by_cases hpy : s.pythonMutationActive = true
    · rw [if_pos hpy, if_pos hpy]
    · rw [if_neg hpy, if_neg hpy]
      by_cases hs : q.SameParameters r
      · have hm : s.operationMatch q = .duplicateActive := by
          unfold Service.operationMatch
          rw [if_pos hop, hreq, if_neg (by simp [hid]), if_pos ((hsame r rfl rfl rfl).mpr hs)]
        rw [hm, if_pos hs, hrec]
      · have hm : s.operationMatch q = .idConflict := by
          unfold Service.operationMatch
          rw [if_pos hop, hreq, if_neg (by simp [hid]),
            if_neg fun h => hs ((hsame r rfl rfl rfl).mp h)]
        rw [hm, if_neg hs]
  · -- it has completed
    have hop : s.hasOperation = false := by
      have hpres := ha.present
      rw [hidle] at hpres
      exact hpres.1
    have hlast := ha.last
    rw [hl] at hlast
    obtain ⟨hhas, hkey, hlid, hlact, -⟩ := hlast
    have hhas' : s.hasLastOperation = true := hhas
    have hkey' : s.lastRequest = r.key := hkey
    have hrec : s.recorded = s.lastOperation := if_neg (by simp [hop])
    refine ⟨?_, by rw [hrec]; exact ⟨hlid, hlact⟩⟩
    by_cases hpy : s.pythonMutationActive = true
    · rw [if_pos hpy, if_pos hpy]
    · rw [if_neg hpy, if_neg hpy]
      by_cases hs : q.SameParameters r
      · have hm : s.operationMatch q = .duplicateLast := by
          unfold Service.operationMatch
          rw [if_neg (by simp [hop]), hkey', if_pos ⟨hhas', hid⟩,
            if_pos ((hsame r.key rfl rfl rfl).mpr hs)]
        rw [hm, if_pos hs, hrec]
      · have hm : s.operationMatch q = .idConflict := by
          unfold Service.operationMatch
          rw [if_neg (by simp [hop]), hkey', if_pos ⟨hhas', hid⟩,
            if_neg fun h => hs ((hsame r.key rfl rfl rfl).mp h)]
        rw [hm, if_neg hs]

/-- **The protocol of network operations.** In every run: between two operations that are accepted
the first one completes; an operation and a Python mutation do not coexist; between two executions
of one id another id is accepted; a request with the id of the operation accepted last changes
nothing, and is refused while Python is at work, answered from the record if its parameters are the
same, and refused if they are not; an execution starts after the response was sent or the deadline
has come; and without an operation no credentials remain. -/
theorem network_operation_protocol (hsha : Function.Injective sha256)
    {h : List (Move Other Outcome)} {c : Task Empty × Service}
    (hr : Reaches (network sha256 fun _ _ _ => True) h c) :
    (∀ a r d b r' d' e, c.2.trace.log = a ++ .accepted r d :: (b ++ .accepted r' d' :: e) →
      ∃ report, .completed report ∈ b ∧ report.request = r) ∧
    (c.2.hasOperation = true → c.2.pythonMutationActive = false) ∧
    (∀ a r t b r' t' e, c.2.trace.log = a ++ .executed r t :: (b ++ .executed r' t' :: e) →
      ∃ q d, .accepted q d ∈ b ∧ q.id ≠ r.id) ∧
    (∀ r, LastAccepted c.2.trace.log r → ∀ text capacity hashed q,
      requestOf sha256 text capacity hashed = .ok q → q.id = r.id →
      c.2.rpcHandle sha256 text capacity hashed = (some (if c.2.pythonMutationActive then
          .error ⟨"NETWORK_BUSY", "A Python WLAN change is active"⟩
        else if q.SameParameters r then .accepted c.2.recorded false
        else .error
          ⟨"INVALID_ARGUMENT", "operationId was already used with different parameters"⟩), c.2) ∧
      c.2.recorded.id = r.id ∧ c.2.recorded.action = r.action) ∧
    (∀ a r t e, c.2.trace.log = a ++ .executed r t :: e →
      ∃ a₁ a₂ d, a = a₁ ++ .accepted r d :: a₂ ∧ (∀ q e, .accepted q e ∉ a₂) ∧
        (.responseSent r.id ∈ a₂ ∨ d ≤ t)) ∧
    (c.2.hasOperation = false → c.2.activeRequest = {}) ∧ c.2.lastRequest = c.2.lastRequest.key := by
  have hf := network_refines hr
  obtain ⟨p, hp, ha, -⟩ := hf.run
  refine ⟨fun a r d b r' d' e hlog => accepted_serial hp hlog, hf.apart,
    fun a r t b r' t' e hlog => executed_once hp hlog, fun r hlast text capacity hashed q hq hid => ?_,
    fun a r t e hlog => executed_due hp hlog, fun hop => ?_, hf.keyed⟩
  · obtain ⟨hsubmit, hrec⟩ := submit_repeated hsha hf hlast (requestOf_wellFormed hq) hid
    refine ⟨?_, hrec⟩
    unfold Service.rpcHandle
    rw [hq]
    dsimp only
    rw [hsubmit]
  · have hpres := ha.present
    rw [phase_idle ha hop] at hpres
    exact hpres.2

/-! ## A run of the service -/

/-- An operation id. -/
def sampleId : List UInt8 :=
  [0x30, 0x31, 0x32, 0x33, 0x34, 0x35, 0x36, 0x37, 0x38, 0x39, 0x61, 0x62, 0x63, 0x64, 0x65, 0x66,
    0x30, 0x31, 0x32, 0x33, 0x34, 0x35, 0x36, 0x37, 0x38, 0x39, 0x61, 0x62, 0x63, 0x64, 0x65, 0x66]

/-- The request to disable the network, under the sample id. -/
def disableText : List UInt8 :=
  [0x7b, 0x22, 0x61, 0x63, 0x74, 0x69, 0x6f, 0x6e, 0x22, 0x3a, 0x22, 0x6e, 0x65, 0x74, 0x77, 0x6f,
    0x72, 0x6b, 0x2e, 0x65, 0x6e, 0x61, 0x62, 0x6c, 0x65, 0x22, 0x2c, 0x22, 0x6f, 0x70, 0x65, 0x72,
    0x61, 0x74, 0x69, 0x6f, 0x6e, 0x49, 0x64, 0x22, 0x3a, 0x22, 0x30, 0x31, 0x32, 0x33, 0x34, 0x35,
    0x36, 0x37, 0x38, 0x39, 0x61, 0x62, 0x63, 0x64, 0x65, 0x66, 0x30, 0x31, 0x32, 0x33, 0x34, 0x35,
    0x36, 0x37, 0x38, 0x39, 0x61, 0x62, 0x63, 0x64, 0x65, 0x66, 0x22, 0x2c, 0x22, 0x65, 0x6e, 0x61,
    0x62, 0x6c, 0x65, 0x64, 0x22, 0x3a, 0x66, 0x61, 0x6c, 0x73, 0x65, 0x7d]

/-- The network is disabled at the request of the host, and Python begins a change. -/
def repeating : List (Move Other Outcome) :=
  ([.other .start, .other (.rpc disableText 1024 true), .other (.responseSent sampleId)] :
    List (Move Other Outcome)) ++ (List.replicate 15 (.task {}) : List (Move Other Outcome)) ++
    ([.other (.python .mutationBegin)] : List (Move Other Outcome))

/-- Where a run from boot takes the system. -/
def runFrom (ok : Place → Other → Service → Prop) [∀ l e s, Decidable (ok l e s)] (s : Service)
    (ms : List (Move Other Outcome)) : Option (Task Empty × Service) :=
  ms.foldlM (nextFine (Service.other id) ok) (networkWorker, s)

lemma reaches_of_runFrom {ok : Place → Other → Service → Prop} [∀ l e s, Decidable (ok l e s)]
    {d : Defaults} {stored : Stored} {a : BootAnswers} {ms : List (Move Other Outcome)}
    {c : Task Empty × Service} (h : runFrom ok (.boot d stored a) ms = some c) :
    Reaches (network id ok) ms c :=
  reaches_of_foldlM ⟨_, _, _, rfl⟩ h

/-- The request and the report of a log that one request has written. -/
def onlyRequest : List Entry → Option (NetworkRequest × Report)
  | [.accepted r _, .responseSent _, .executed _ _, .committed _ _ _, .completed report] =>
    some (r, report)
  | _ => none

lemma onlyRequest_eq {log : List Entry} {r : NetworkRequest} {report : Report}
    (h : onlyRequest log = some (r, report)) : ∃ d i e t q record v,
      log = [.accepted r d, .responseSent i, .executed e t, .committed q record v,
        .completed report] := by
  unfold onlyRequest at h
  split at h
  · obtain ⟨rfl, rfl⟩ := Prod.mk.inj (Option.some.inj h)
    exact ⟨_, _, _, _, _, _, _, rfl⟩
  · cases h

/-- The protocol in a run in which an operation has completed and a Python change is active. -/
theorem network_operation_protocol_repeating :
    ∃ c : Task Empty × Service, Reaches (network id fun _ _ _ => True) repeating c ∧
      c.2.pythonMutationActive = true ∧ c.2.hasOperation = false ∧ c.2.activeRequest = {} := by
  obtain ⟨c, hc⟩ := Option.isSome_iff_exists.mp
    (show (runFrom (fun _ _ _ => True) (.boot {} .absent {}) repeating).isSome = true by decide +kernel)
  have hview : ((runFrom (fun _ _ _ => True) (.boot {} .absent {}) repeating).map fun c =>
      (c.2.pythonMutationActive, c.2.hasOperation)) = some (true, false) := by decide +kernel
  rw [hc] at hview
  obtain ⟨hpy, hop⟩ := Prod.mk.inj (Option.some.inj hview)
  have hr := reaches_of_runFrom hc
  exact ⟨c, hr, hpy, hop,
    ((network_operation_protocol Function.injective_id hr).2.2.2.2.2).1 hop⟩

/-- While a Python change is active, the id of an operation that has succeeded is refused when it
is repeated with the same parameters, instead of being answered from the record. -/
theorem repeated_request_refused :
    ∃ (c : Task Empty × Service) (r : NetworkRequest),
      Reaches (network id fun _ _ _ => True) repeating c ∧ LastAccepted c.2.trace.log r ∧
      requestOf id disableText 1024 true = .ok r ∧ c.2.recorded.state = .succeeded ∧
      (c.2.rpcHandle id disableText 1024 true).1 =
        some (.error ⟨"NETWORK_BUSY", "A Python WLAN change is active"⟩) := by
  obtain ⟨c, hc⟩ := Option.isSome_iff_exists.mp
    (show (runFrom (fun _ _ _ => True) (.boot {} .absent {}) repeating).isSome = true by decide +kernel)
  have hview : ((runFrom (fun _ _ _ => True) (.boot {} .absent {}) repeating).bind fun c =>
      (onlyRequest c.2.trace.log).map fun e =>
        decide (requestOf id disableText 1024 true = .ok e.1 ∧ c.2.recorded.state = .succeeded ∧
          (c.2.rpcHandle id disableText 1024 true).1 =
            some (.error ⟨"NETWORK_BUSY", "A Python WLAN change is active"⟩))) = some true := by
    decide +kernel
  rw [hc, Option.bind_some] at hview
  obtain ⟨⟨r, report⟩, honly, hview⟩ := Option.map_eq_some_iff.mp hview
  obtain ⟨hreq, hstate, hbusy⟩ := of_decide_eq_true hview
  obtain ⟨d, i, e, t, q, record, v, hlog⟩ := onlyRequest_eq honly
  exact ⟨c, r, reaches_of_runFrom hc,
    ⟨[], d, [.responseSent i, .executed e t, .committed q record v, .completed report], hlog,
      by simp⟩, hreq, hstate, hbusy⟩

end EspVision.NetworkService
