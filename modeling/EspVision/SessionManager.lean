import EspVision.LinkRegistry

/-!
# Session manager (`ev_session`)

Every function below is one section under the session lock. The argument
`linkCurrent` is the answer `ev_transport_link_is_current` gave to the caller
before it took the lock, so a link may be retired between that answer and the
section. `acquire` asks a second time after its section; that part is
`acquireReturn`. C strings are lists of non-zero bytes, the empty list being the
cleared buffer; the change callback and its reason are not part of this state.
-/
namespace EspVision.EvSession
open EvTransport

/-- `ev_session_state_t`. -/
inductive Phase
  | free | owned | releasing
  deriving DecidableEq

/-- `ev_session_result_t`. -/
inductive Result
  | ok | busy | sessionRequired | notOwner | vmBusy | vmEpochMismatch | staleLink
  | invalidArgument
  deriving DecidableEq

def idHexLen : ℕ := 32
def nonceHexLen : ℕ := 32
/-- `EV_SESSION_LEASE_MS`. -/
def leaseMs : UInt32 := 15000

/-- `ev_session_state_data_t`. -/
structure State where
  phase : Phase := .free
  ownerLink : LinkRef := {}
  sessionId : List UInt8 := []
  clientNonce : List UInt8 := []
  lastActivityMs : UInt32 := 0
  vmEpoch : UInt32 := 1
  inputGeneration : UInt32 := 1
  transitionId : UInt32 := 0
  handshakeComplete : Bool := false
  vmReady : Bool := false
  noOwnerRoute : TransportId := .usj

/-- The board's default and fallback sinks, already looked up by name. -/
structure Config where
  defaultSink : Option TransportId
  fallbackSink : Option TransportId

/-- The four words `ev_session_make_id` draws from the hardware generator. -/
structure RandomWords where
  w0 : UInt32
  w1 : UInt32
  w2 : UInt32
  w3 : UInt32
  deriving DecidableEq

def hexDigit (n : UInt32) : UInt8 :=
  if n < 10 then 48 + n.toUInt8 else 87 + n.toUInt8

/-- `%08x`. -/
def hex8 (w : UInt32) : List UInt8 :=
  [(28 : UInt32), 24, 20, 16, 12, 8, 4, 0].map fun shift => hexDigit ((w >>> shift) &&& 15)

/-- `ev_session_make_id`. -/
def makeId (r : RandomWords) : List UInt8 := hex8 r.w0 ++ hex8 r.w1 ++ hex8 r.w2 ++ hex8 r.w3

@[simp] theorem makeId_length (r : RandomWords) : (makeId r).length = idHexLen := rfl

@[simp] theorem makeId_ne_nil (r : RandomWords) : makeId r ≠ [] := by simp [makeId, hex8]

/-- `ev_session_hex_nonce_valid`. -/
def hexNonceValid (nonce : List UInt8) : Bool :=
  nonce.length = nonceHexLen && nonce.all fun c => (48 ≤ c && c ≤ 57) || (97 ≤ c && c ≤ 102)

/-- `ev_session_next_counter`. -/
def nextCounter (counter : UInt32) : UInt32 :=
  if counter + 1 = 0 then 1 else counter + 1

/-- `ev_session_bump_input_generation_locked`. -/
def bumpInputGeneration (s : State) : State :=
  { s with inputGeneration := nextCounter s.inputGeneration }

/-- `ev_session_snapshot_t`. -/
structure Snapshot where
  phase : Phase
  hasOwner : Bool
  ownerLink : LinkRef
  sessionId : List UInt8
  clientNonce : List UInt8
  leaseRemainingMs : UInt32
  vmEpoch : UInt32
  inputGeneration : UInt32
  transitionId : UInt32
  handshakeComplete : Bool
  vmReady : Bool
  userRoute : TransportId
  debugRoute : TransportId
  userRouteSlot : ℕ
  debugRouteSlot : ℕ
  deriving DecidableEq

/-- `ev_session_snapshot_locked`. -/
def State.snapshot (s : State) (now : UInt32) : Snapshot :=
  let owned := s.phase ≠ .free
  { phase := s.phase
    hasOwner := owned
    ownerLink := if owned then s.ownerLink else {}
    sessionId := if owned then s.sessionId else []
    clientNonce := if owned then s.clientNonce else []
    leaseRemainingMs := if owned then
        (if leaseMs ≤ now - s.lastActivityMs then 0 else leaseMs - (now - s.lastActivityMs))
      else 0
    vmEpoch := s.vmEpoch
    inputGeneration := s.inputGeneration
    transitionId := s.transitionId
    handshakeComplete := s.handshakeComplete
    vmReady := s.vmReady
    userRoute := if owned then s.ownerLink.transportId else s.noOwnerRoute
    debugRoute := if owned then s.ownerLink.transportId else s.noOwnerRoute
    userRouteSlot := if owned then s.ownerLink.slot else 0
    debugRouteSlot := if owned then s.ownerLink.slot else 0 }

/-- `ev_session_init0`; the epoch is drawn at random and zero is avoided. -/
def init0 (cfg : Config) (epoch : UInt32) : State :=
  { vmEpoch := if epoch = 0 then 1 else epoch
    noOwnerRoute := cfg.defaultSink.getD .usj }

/-- How the locked section of `ev_session_acquire` leaves the call. -/
inductive AcquireOutcome
  | refused (r : Result)
  | granted (id : List UInt8)
  | refreshed
  deriving DecidableEq

/-- The state written when `acquire` finds the manager FREE. -/
def State.grant (s : State) (link : LinkRef) (nonce : List UInt8) (now : UInt32)
    (id : List UInt8) : State :=
  bumpInputGeneration
    { s with
      phase := .owned
      ownerLink := link
      clientNonce := nonce
      sessionId := id
      lastActivityMs := now
      handshakeComplete := false
      transitionId := nextCounter s.transitionId }

/-- `ev_session_acquire` up to the end of its locked section. -/
def acquire (s : State) (link : LinkRef) (nonce : List UInt8) (now : UInt32)
    (random : RandomWords) (linkCurrent : Bool) : State × AcquireOutcome :=
  if !hexNonceValid nonce then (s, .refused .invalidArgument)
  else if !linkCurrent then (s, .refused .staleLink)
  else if s.phase = .free then
    (s.grant link nonce now (makeId random), .granted (makeId random))
  else if s.phase = .owned ∧ link = s.ownerLink ∧ nonce = s.clientNonce then
    ({ s with lastActivityMs := now }, .refreshed)
  else (s, .refused .busy)

/-- `ev_session_check_owner_locked`. -/
def checkOwnerLocked (s : State) (link : LinkRef) (sessionId : Option (List UInt8)) : Result :=
  if s.phase = .free ∨ s.phase = .releasing then .sessionRequired
  else if link ≠ s.ownerLink ∨ sessionId ≠ some s.sessionId then .notOwner
  else if !s.handshakeComplete then .sessionRequired
  else .ok

/-- `ev_session_keepalive`. -/
def keepalive (s : State) (link : LinkRef) (sessionId : Option (List UInt8)) (now : UInt32)
    (linkCurrent : Bool) : State × Result :=
  if sessionId = none then (s, .sessionRequired)
  else if !linkCurrent then (s, .staleLink)
  else match checkOwnerLocked s link sessionId with
    | .ok => ({ s with lastActivityMs := now }, .ok)
    | r => (s, r)

/-- The VM part of `ev_session_authorize`, reached when the owner check passed. -/
def checkVm (s : State) (vmRelated : Bool) (vmEpoch : Option UInt32) : Result :=
  if !vmRelated then .ok
  else match vmEpoch with
    | none => .vmEpochMismatch
    | some e => if e ≠ s.vmEpoch then .vmEpochMismatch else if !s.vmReady then .vmBusy else .ok

/-- `ev_session_authorize`; `vmEpoch` is `none` when the caller has no epoch. -/
def authorize (s : State) (link : LinkRef) (sessionId : Option (List UInt8)) (vmRelated : Bool)
    (vmEpoch : Option UInt32) (now : UInt32) (linkCurrent : Bool) : State × Result :=
  if !linkCurrent then (s, .staleLink)
  else match checkOwnerLocked s link sessionId with
    | .ok => match checkVm s vmRelated vmEpoch with
      | .ok =>
        if !s.handshakeComplete then (s, .sessionRequired)
        else ({ s with lastActivityMs := now }, .ok)
      | r => (s, r)
    | r => (s, r)

/-- `ev_session_release_prepare`. -/
def releasePrepare (s : State) (link : LinkRef) (sessionId : Option (List UInt8))
    (linkCurrent : Bool) : State × Result :=
  if sessionId = none then (s, .sessionRequired)
  else if !linkCurrent then (s, .staleLink)
  else if s.phase = .free ∨ s.phase = .releasing then (s, .sessionRequired)
  else if link ≠ s.ownerLink ∨ sessionId ≠ some s.sessionId then (s, .notOwner)
  else (bumpInputGeneration { s with phase := .releasing }, .ok)

/-- The state after an owner is cleared, by `ev_session_clear_owner` or `ev_session_tick`. -/
def State.freed (cfg : Config) (s : State) : State :=
  let bumped := bumpInputGeneration
    { s with
      sessionId := []
      clientNonce := []
      ownerLink := {}
      phase := .free
      handshakeComplete := false }
  { bumped with
    noOwnerRoute := cfg.fallbackSink.getD (cfg.defaultSink.getD s.noOwnerRoute)
    transitionId := nextCounter s.transitionId }

/-- Serial generations are rotated before the manager becomes FREE. -/
def rotated (link : LinkRef) : Option LinkRef :=
  if link.transportId = .usj ∨ link.transportId = .uart then some link else none

/-- The guard of `ev_session_clear_owner`. -/
def clearOwnerAllowed (s : State) (link : LinkRef) (requireReleasing : Bool)
    (sessionId : Option (List UInt8)) : Bool :=
  s.phase ≠ .free && link = s.ownerLink && (!requireReleasing || s.phase = .releasing) &&
    (sessionId = none || sessionId = some s.sessionId)

/-- `ev_session_clear_owner`: the flag it returns, and the link whose generation is advanced. -/
def clearOwner (cfg : Config) (s : State) (link : LinkRef) (requireReleasing : Bool)
    (sessionId : Option (List UInt8)) : State × Bool × Option LinkRef :=
  if clearOwnerAllowed s link requireReleasing sessionId then
    (s.freed cfg, true, rotated link)
  else (s, false, none)

/-- `ev_session_hello_complete`. -/
def helloComplete (cfg : Config) (s : State) (link : LinkRef) (sessionId : List UInt8)
    (txSucceeded : Bool) : State × Bool × Option LinkRef :=
  if !txSucceeded then clearOwner cfg s link false (some sessionId)
  else if s.phase ≠ .owned ∨ link ≠ s.ownerLink ∨ sessionId ≠ s.sessionId then (s, false, none)
  else ({ s with handshakeComplete := true }, true, none)

/-- `ev_session_release_finish`. -/
def releaseFinish (cfg : Config) (s : State) (link : LinkRef)
    (sessionId : Option (List UInt8)) : State × Bool × Option LinkRef :=
  clearOwner cfg s link true sessionId

/-- `ev_session_link_lost`. -/
def linkLost (cfg : Config) (s : State) (link : LinkRef) : State × Bool × Option LinkRef :=
  clearOwner cfg s link false none

/-- `ev_session_acquire` after its locked section: a link retired meanwhile is given up. -/
def acquireReturn (cfg : Config) (s : State) (link : LinkRef) (linkCurrent : Bool) :
    State × Result × Bool × Option LinkRef :=
  if linkCurrent then (s, .ok, false, none)
  else ((linkLost cfg s link).1, .staleLink, (linkLost cfg s link).2)

/-- `ev_session_tick`. -/
def tick (cfg : Config) (s : State) (now : UInt32) : State × Bool × Option LinkRef :=
  if s.phase ≠ .owned ∨ now - s.lastActivityMs < leaseMs then (s, false, none)
  else (s.freed cfg, true, rotated s.ownerLink)

/-- `ev_session_vm_epoch_advance`. -/
def vmEpochAdvance (s : State) : State :=
  bumpInputGeneration { s with vmEpoch := nextCounter s.vmEpoch }

/-- `ev_session_set_vm_ready`. -/
def setVmReady (s : State) (ready : Bool) : State := { s with vmReady := ready }

/-- `ev_session_output_ready`. -/
def outputReady (s : State) (link : LinkRef) (sessionId : List UInt8) (linkCurrent : Bool) : Bool :=
  linkCurrent && s.phase = .owned && s.handshakeComplete && link = s.ownerLink &&
    sessionId = s.sessionId

/-! ## What one call can do -/

@[simp] theorem bumpInputGeneration_phase (s : State) :
    (bumpInputGeneration s).phase = s.phase := rfl

@[simp] theorem grant_phase (s : State) (link : LinkRef) (nonce : List UInt8) (now : UInt32)
    (id : List UInt8) : (s.grant link nonce now id).phase = .owned := rfl

@[simp] theorem freed_phase (cfg : Config) (s : State) : (s.freed cfg).phase = .free := rfl

@[simp] theorem freed_handshakeComplete (cfg : Config) (s : State) :
    (s.freed cfg).handshakeComplete = false := rfl

theorem checkOwnerLocked_ok {s : State} {link : LinkRef} {sessionId : Option (List UInt8)} :
    checkOwnerLocked s link sessionId = .ok ↔
      s.phase = .owned ∧ link = s.ownerLink ∧ sessionId = some s.sessionId ∧
        s.handshakeComplete = true := by
  unfold checkOwnerLocked
  cases s.phase <;> by_cases hl : link = s.ownerLink <;>
    by_cases hi : sessionId = some s.sessionId <;> cases s.handshakeComplete <;> simp [hl, hi]

theorem checkVm_ok {s : State} {vmRelated : Bool} {vmEpoch : Option UInt32} :
    checkVm s vmRelated vmEpoch = .ok ↔
      (vmRelated = true → vmEpoch = some s.vmEpoch ∧ s.vmReady = true) := by
  unfold checkVm
  cases vmRelated with
  | false => simp
  | true =>
    cases vmEpoch with
    | none => simp
    | some e => by_cases he : e = s.vmEpoch <;> cases s.vmReady <;> simp [he]

/-- A keepalive either refreshes the activity of the checked owner or changes nothing. -/
theorem keepalive_cases (s : State) (link : LinkRef) (sessionId : Option (List UInt8))
    (now : UInt32) (linkCurrent : Bool) :
    (keepalive s link sessionId now linkCurrent = ({ s with lastActivityMs := now }, .ok) ∧
        linkCurrent = true ∧ checkOwnerLocked s link sessionId = .ok) ∨
      ((keepalive s link sessionId now linkCurrent).1 = s ∧
        (keepalive s link sessionId now linkCurrent).2 ≠ .ok) := by
  unfold keepalive
  by_cases hn : sessionId = none
  · simp [hn]
  · cases linkCurrent with
    | false => simp [hn]
    | true => cases hc : checkOwnerLocked s link sessionId <;> simp [hn]

/-- An authorization either refreshes the activity of the checked owner or changes nothing. -/
theorem authorize_cases (s : State) (link : LinkRef) (sessionId : Option (List UInt8))
    (vmRelated : Bool) (vmEpoch : Option UInt32) (now : UInt32) (linkCurrent : Bool) :
    (authorize s link sessionId vmRelated vmEpoch now linkCurrent =
        ({ s with lastActivityMs := now }, .ok) ∧ linkCurrent = true ∧
        checkOwnerLocked s link sessionId = .ok ∧ checkVm s vmRelated vmEpoch = .ok) ∨
      ((authorize s link sessionId vmRelated vmEpoch now linkCurrent).1 = s ∧
        (authorize s link sessionId vmRelated vmEpoch now linkCurrent).2 ≠ .ok) := by
  unfold authorize
  cases linkCurrent with
  | false => simp
  | true =>
    cases hc : checkOwnerLocked s link sessionId with
    | ok =>
      have hh := (checkOwnerLocked_ok.mp hc).2.2.2
      cases hv : checkVm s vmRelated vmEpoch <;> simp [hh]
    | _ => simp

/-- The locked section of `acquire` grants, refreshes or refuses without a change. -/
theorem acquire_cases (s : State) (link : LinkRef) (nonce : List UInt8) (now : UInt32)
    (random : RandomWords) (linkCurrent : Bool) :
    (s.phase = .free ∧ linkCurrent = true ∧
        acquire s link nonce now random linkCurrent =
          (s.grant link nonce now (makeId random), .granted (makeId random))) ∨
      (s.phase = .owned ∧ link = s.ownerLink ∧ nonce = s.clientNonce ∧ linkCurrent = true ∧
        acquire s link nonce now random linkCurrent =
          ({ s with lastActivityMs := now }, .refreshed)) ∨
      ∃ r, acquire s link nonce now random linkCurrent = (s, .refused r) := by
  unfold acquire
  cases hexNonceValid nonce with
  | false => simp
  | true =>
    cases linkCurrent with
    | false => simp
    | true =>
      by_cases hf : s.phase = .free
      · simp [hf]
      · by_cases ho : s.phase = .owned ∧ link = s.ownerLink ∧ nonce = s.clientNonce
        · obtain ⟨hp, rfl, rfl⟩ := ho
          simp [hp]
        · simp [hf, ho]

/-- `release_prepare` moves the checked owner to RELEASING or changes nothing. -/
theorem releasePrepare_cases (s : State) (link : LinkRef) (sessionId : Option (List UInt8))
    (linkCurrent : Bool) :
    (s.phase = .owned ∧ link = s.ownerLink ∧ sessionId = some s.sessionId ∧
        releasePrepare s link sessionId linkCurrent =
          (bumpInputGeneration { s with phase := .releasing }, .ok)) ∨
      ((releasePrepare s link sessionId linkCurrent).1 = s ∧
        (releasePrepare s link sessionId linkCurrent).2 ≠ .ok) := by
  unfold releasePrepare
  by_cases hn : sessionId = none
  · simp [hn]
  · cases linkCurrent with
    | false => simp [hn]
    | true =>
      by_cases hl : link = s.ownerLink <;> by_cases hi : sessionId = some s.sessionId <;>
        cases hp : s.phase <;> simp [hl, hi, hn]

/-- Clearing an owner frees the session of exactly the given link, or changes nothing. -/
theorem clearOwner_cases (cfg : Config) (s : State) (link : LinkRef) (requireReleasing : Bool)
    (sessionId : Option (List UInt8)) :
    (clearOwnerAllowed s link requireReleasing sessionId = true ∧
        clearOwner cfg s link requireReleasing sessionId = (s.freed cfg, true, rotated link)) ∨
      clearOwner cfg s link requireReleasing sessionId = (s, false, none) := by
  unfold clearOwner
  cases clearOwnerAllowed s link requireReleasing sessionId <;> simp

theorem clearOwnerAllowed_iff {s : State} {link : LinkRef} {requireReleasing : Bool}
    {sessionId : Option (List UInt8)} :
    clearOwnerAllowed s link requireReleasing sessionId = true ↔
      s.phase ≠ .free ∧ link = s.ownerLink ∧
        (requireReleasing = true → s.phase = .releasing) ∧
        (sessionId = none ∨ sessionId = some s.sessionId) := by
  cases requireReleasing <;> simp [clearOwnerAllowed, and_assoc]

/-- `hello_complete` finishes the handshake of the owner, frees it after a failed
transmission, or changes nothing. -/
theorem helloComplete_cases (cfg : Config) (s : State) (link : LinkRef) (sessionId : List UInt8)
    (txSucceeded : Bool) :
    (txSucceeded = true ∧ s.phase = .owned ∧ link = s.ownerLink ∧ sessionId = s.sessionId ∧
        helloComplete cfg s link sessionId txSucceeded =
          ({ s with handshakeComplete := true }, true, none)) ∨
      (txSucceeded = false ∧ s.phase ≠ .free ∧ link = s.ownerLink ∧ sessionId = s.sessionId ∧
        helloComplete cfg s link sessionId txSucceeded = (s.freed cfg, true, rotated link)) ∨
      helloComplete cfg s link sessionId txSucceeded = (s, false, none) := by
  cases txSucceeded with
  | false =>
    rcases clearOwner_cases cfg s link false (some sessionId) with ⟨ha, hc⟩ | hc
    · obtain ⟨hp, hl, -, hi⟩ := clearOwnerAllowed_iff.mp ha
      simp only [reduceCtorEq, Option.some.injEq, false_or] at hi
      right; left
      exact ⟨rfl, hp, hl, hi, by simpa [helloComplete] using hc⟩
    · simp [helloComplete, hc]
  | true =>
    by_cases h : s.phase = .owned ∧ link = s.ownerLink ∧ sessionId = s.sessionId
    · obtain ⟨hp, rfl, rfl⟩ := h
      simp [helloComplete, hp]
    · have h' : s.phase ≠ .owned ∨ link ≠ s.ownerLink ∨ sessionId ≠ s.sessionId := by tauto
      right; right
      simp only [helloComplete, Bool.not_true, Bool.false_eq_true, if_false, if_pos h']

/-- The lease tick frees an owned session or changes nothing. -/
theorem tick_cases (cfg : Config) (s : State) (now : UInt32) :
    (s.phase = .owned ∧ leaseMs ≤ now - s.lastActivityMs ∧
        tick cfg s now = (s.freed cfg, true, rotated s.ownerLink)) ∨
      tick cfg s now = (s, false, none) := by
  by_cases h : s.phase ≠ .owned ∨ now - s.lastActivityMs < leaseMs
  · right; simp only [tick, if_pos h]
  · left
    simp only [not_or, not_not, UInt32.not_lt] at h
    refine ⟨h.1, h.2, ?_⟩
    simp only [tick]
    rw [if_neg (by simp [h.1, h.2])]

end EspVision.EvSession
