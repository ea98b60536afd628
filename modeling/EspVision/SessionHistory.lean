import EspVision.SessionManager
import EspVision.TransitionSystem

/-!
# Runs of the session manager

The session functions are called by several tasks in any order. A run is the
list of locked sections with their replies; `acquire` contributes two events,
its locked section and the second look at the link before it returns. The
answers about which links are current are arguments, so links may be retired
between any two sections.
-/
namespace EspVision.EvSession
open EvTransport TransitionSystem

/-- One locked section with the arguments of its caller. -/
inductive Op
  | acquire (link : LinkRef) (nonce : List UInt8) (now : UInt32) (random : RandomWords)
      (linkCurrent : Bool)
  | acquireReturn (link : LinkRef) (linkCurrent : Bool)
  | keepalive (link : LinkRef) (sessionId : Option (List UInt8)) (now : UInt32)
      (linkCurrent : Bool)
  | authorize (link : LinkRef) (sessionId : Option (List UInt8)) (vmRelated : Bool)
      (vmEpoch : Option UInt32) (now : UInt32) (linkCurrent : Bool)
  | helloComplete (link : LinkRef) (sessionId : List UInt8) (txSucceeded : Bool)
  | releasePrepare (link : LinkRef) (sessionId : Option (List UInt8)) (linkCurrent : Bool)
  | releaseFinish (link : LinkRef) (sessionId : Option (List UInt8))
  | linkLost (link : LinkRef)
  | tick (now : UInt32)
  | vmEpochAdvance
  | setVmReady (ready : Bool)

/-- What a section answers; `returned` also tells whether `link_lost` cleared the owner. -/
inductive Reply
  | acquired (o : AcquireOutcome)
  | returned (r : Result) (cleared : Bool)
  | result (r : Result)
  | flag (b : Bool)
  | none
  deriving DecidableEq

structure Event where
  op : Op
  reply : Reply

/-- Run one section. -/
def Op.apply (cfg : Config) (s : State) : Op → State × Reply
  | .acquire link nonce now random cur =>
    let r := EvSession.acquire s link nonce now random cur
    (r.1, .acquired r.2)
  | .acquireReturn link cur =>
    let r := EvSession.acquireReturn cfg s link cur
    (r.1, .returned r.2.1 r.2.2.1)
  | .keepalive link id now cur =>
    let r := EvSession.keepalive s link id now cur
    (r.1, .result r.2)
  | .authorize link id vm epoch now cur =>
    let r := EvSession.authorize s link id vm epoch now cur
    (r.1, .result r.2)
  | .helloComplete link id tx =>
    let r := EvSession.helloComplete cfg s link id tx
    (r.1, .flag r.2.1)
  | .releasePrepare link id cur =>
    let r := EvSession.releasePrepare s link id cur
    (r.1, .result r.2)
  | .releaseFinish link id =>
    let r := EvSession.releaseFinish cfg s link id
    (r.1, .flag r.2.1)
  | .linkLost link =>
    let r := EvSession.linkLost cfg s link
    (r.1, .flag r.2.1)
  | .tick now =>
    let r := EvSession.tick cfg s now
    (r.1, .flag r.2.1)
  | .vmEpochAdvance => (EvSession.vmEpochAdvance s, .none)
  | .setVmReady ready => (EvSession.setVmReady s ready, .none)

/-- The link and the new id of an `acquire` that found the manager FREE. -/
def Event.granted : Event → Option (LinkRef × List UInt8)
  | ⟨.acquire link _ _ _ _, .acquired (.granted id)⟩ => some (link, id)
  | _ => none

/-- The link and id of a successful `hello_complete`. -/
def Event.helloDone : Event → Option (LinkRef × List UInt8)
  | ⟨.helloComplete link id true, .flag true⟩ => some (link, id)
  | _ => none

/-- The clock argument of an `acquire`, `keepalive` or `authorize` that was accepted. -/
def Event.activity : Event → Option UInt32
  | ⟨.acquire _ _ now _ _, .acquired (.granted _)⟩ => some now
  | ⟨.acquire _ _ now _ _, .acquired .refreshed⟩ => some now
  | ⟨.keepalive _ _ now _, .result .ok⟩ => some now
  | ⟨.authorize _ _ _ _ now _, .result .ok⟩ => some now
  | _ => none

/-- A granted release, a cleared owner or an expired lease. -/
def Event.ends : Event → Bool
  | ⟨.releasePrepare _ _ _, .result .ok⟩ => true
  | ⟨.acquireReturn _ _, .returned _ true⟩ => true
  | ⟨.helloComplete _ _ false, .flag true⟩ => true
  | ⟨.releaseFinish _ _, .flag true⟩ => true
  | ⟨.linkLost _, .flag true⟩ => true
  | ⟨.tick _, .flag true⟩ => true
  | _ => false

/-- The manager together with the acquires that have not looked at their link again. -/
structure Sessions where
  state : State
  returning : List LinkRef := []

/-- The acquires in flight after an event. -/
def Event.returning (e : Event) (pending : List LinkRef) : List LinkRef :=
  match e with
  | ⟨.acquire link _ _ _ _, .acquired (.granted _)⟩ => link :: pending
  | ⟨.acquire link _ _ _ _, .acquired .refreshed⟩ => link :: pending
  | ⟨.acquireReturn link _, _⟩ => pending.erase link
  | _ => pending

/-- An `acquire` returns only after its locked section. -/
def Op.enabled (s : Sessions) : Op → Prop
  | .acquireReturn link _ => link ∈ s.returning
  | _ => True

/-- Any task may run any section next. -/
def sessions (cfg : Config) : System Sessions Event where
  init s := ∃ epoch, s = { state := init0 cfg epoch }
  step s e t := e.op.enabled s ∧ e.op.apply cfg s.state = (t.state, e.reply) ∧
    t.returning = e.returning s.returning

instance (s : Sessions) (op : Op) : Decidable (op.enabled s) := by
  cases op <;> simp only [Op.enabled] <;> infer_instance

/-- The event and the state that a section produces. -/
def Sessions.next (cfg : Config) (s : Sessions) (op : Op) : Event × Sessions :=
  let r := op.apply cfg s.state
  (⟨op, r.2⟩, ⟨r.1, Event.returning ⟨op, r.2⟩ s.returning⟩)

/-- Run sections one after the other. -/
def Sessions.run (cfg : Config) (s : Sessions) : List Op → List Event × Sessions
  | [] => ([], s)
  | op :: ops =>
    let r := (s.next cfg op).2.run cfg ops
    ((s.next cfg op).1 :: r.1, r.2)

/-- Every section of the list can run when its turn comes. -/
def Sessions.allEnabled (cfg : Config) (s : Sessions) : List Op → Bool
  | [] => true
  | op :: ops => decide (op.enabled s) && (s.next cfg op).2.allEnabled cfg ops

theorem Sessions.run_path {cfg : Config} {ops : List Op} {s : Sessions}
    (h : s.allEnabled cfg ops = true) : Path (sessions cfg) s (s.run cfg ops).1 (s.run cfg ops).2 := by
  induction ops generalizing s with
  | nil => exact .nil s
  | cons op ops ih =>
    simp only [allEnabled, Bool.and_eq_true, decide_eq_true_eq] at h
    exact .cons ⟨h.1, rfl, rfl⟩ (ih h.2)

/-- The run of a list of sections from power-on. -/
def bootRun (cfg : Config) (epoch : UInt32) (ops : List Op) : List Event × Sessions :=
  Sessions.run cfg { state := init0 cfg epoch } ops

theorem reaches_bootRun {cfg : Config} {epoch : UInt32} {ops : List Op}
    (h : Sessions.allEnabled cfg { state := init0 cfg epoch } ops = true) :
    Reaches (sessions cfg) (bootRun cfg epoch ops).1 (bootRun cfg epoch ops).2 := by
  simpa [bootRun] using (Reaches.init ⟨epoch, rfl⟩ : Reaches (sessions cfg) [] _).append
    (Sessions.run_path h)

/-! ## The effect of one section -/

/-- All that one section can do to the stored session. -/
inductive Effect (cfg : Config) (s : State) (e : Event) (t : State) : Prop
  | granted (link : LinkRef) (nonce : List UInt8) (now : UInt32) (id : List UInt8)
      (hs : s.phase = .free) (ht : t = s.grant link nonce now id)
      (hg : e.granted = some (link, id)) (ha : e.activity = some now)
  | freed (hs : s.phase ≠ .free) (ht : t = s.freed cfg)
      (hg : e.granted = none) (he : e.ends = true) (ha : e.activity = none)
  | releasing (hs : s.phase = .owned)
      (ht : t = bumpInputGeneration { s with phase := .releasing })
      (hg : e.granted = none) (he : e.ends = true) (ha : e.activity = none)
  | completed (hs : s.phase = .owned) (ht : t = { s with handshakeComplete := true })
      (hd : e.helloDone = some (s.ownerLink, s.sessionId))
      (hg : e.granted = none) (he : e.ends = false) (ha : e.activity = none)
  | refreshed (now : UInt32) (hs : s.phase = .owned) (ht : t = { s with lastActivityMs := now })
      (hg : e.granted = none) (he : e.ends = false) (ha : e.activity = some now)
  | advanced (ht : t = vmEpochAdvance s)
      (hg : e.granted = none) (he : e.ends = false) (ha : e.activity = none)
  | ready (b : Bool) (ht : t = setVmReady s b)
      (hg : e.granted = none) (he : e.ends = false) (ha : e.activity = none)
  | same (ht : t = s) (hg : e.granted = none) (he : e.ends = false) (ha : e.activity = none)

/-- The sections that clear an owner are FREE afterwards or change nothing. -/
lemma clearOwner_effect (cfg : Config) (s : State) (link : LinkRef) (requireReleasing : Bool)
    (sessionId : Option (List UInt8)) (e : Bool → Event) (hg : ∀ b, (e b).granted = none)
    (hends : ∀ b, (e b).ends = b) (ha : ∀ b, (e b).activity = none) :
    Effect cfg s (e (clearOwner cfg s link requireReleasing sessionId).2.1)
      (clearOwner cfg s link requireReleasing sessionId).1 := by
  rcases clearOwner_cases cfg s link requireReleasing sessionId with ⟨hal, hc⟩ | hc
  · simp only [hc]
    exact .freed (clearOwnerAllowed_iff.mp hal).1 rfl (hg _) (hends _) (ha _)
  · simp only [hc]
    exact .same rfl (hg _) (hends _) (ha _)

/-- Every section has one of the listed effects. -/
theorem apply_effect (cfg : Config) {s t : State} {op : Op} {r : Reply}
    (h : op.apply cfg s = (t, r)) : Effect cfg s ⟨op, r⟩ t := by
  cases op <;> simp only [Op.apply, Prod.mk.injEq] at h <;> obtain ⟨rfl, rfl⟩ := h
  case acquire link nonce now random cur =>
    rcases acquire_cases s link nonce now random cur with
      ⟨hf, -, ha⟩ | ⟨ho, -, -, -, ha⟩ | ⟨r, ha⟩ <;> simp only [ha]
    · exact .granted link nonce now (makeId random) hf rfl rfl rfl
    · exact .refreshed now ho rfl rfl rfl rfl
    · exact .same rfl rfl rfl rfl
  case acquireReturn link cur =>
    cases cur with
    | true => exact .same rfl rfl rfl rfl
    | false =>
      exact clearOwner_effect cfg s link false none
        (fun b => ⟨.acquireReturn link false, .returned .staleLink b⟩) (fun _ => rfl)
        (fun b => by cases b <;> rfl) (fun _ => rfl)
  case keepalive link id now cur =>
    rcases keepalive_cases s link id now cur with ⟨hk, -, hc⟩ | ⟨hk, hne⟩
    · simp only [hk]
      exact .refreshed now (checkOwnerLocked_ok.mp hc).1 rfl rfl rfl rfl
    · rw [hk]
      cases hr : (EvSession.keepalive s link id now cur).2 <;>
        first | exact .same rfl rfl rfl rfl | exact absurd hr hne
  case authorize link id vm epoch now cur =>
    rcases authorize_cases s link id vm epoch now cur with ⟨hk, -, hc, -⟩ | ⟨hk, hne⟩
    · simp only [hk]
      exact .refreshed now (checkOwnerLocked_ok.mp hc).1 rfl rfl rfl rfl
    · rw [hk]
      cases hr : (EvSession.authorize s link id vm epoch now cur).2 <;>
        first | exact .same rfl rfl rfl rfl | exact absurd hr hne
  case helloComplete link id tx =>
    rcases helloComplete_cases cfg s link id tx with
      ⟨rfl, hp, rfl, rfl, hc⟩ | ⟨rfl, hp, -, -, hc⟩ | hc <;> simp only [hc]
    · exact .completed hp rfl rfl rfl rfl rfl
    · exact .freed hp rfl rfl rfl rfl
    · cases tx <;> exact .same rfl rfl rfl rfl
  case releasePrepare link id cur =>
    rcases releasePrepare_cases s link id cur with ⟨hp, -, -, hk⟩ | ⟨hk, hne⟩
    · simp only [hk]
      exact .releasing hp rfl rfl rfl rfl
    · rw [hk]
      cases hr : (EvSession.releasePrepare s link id cur).2 <;>
        first | exact .same rfl rfl rfl rfl | exact absurd hr hne
  case releaseFinish link id =>
    exact clearOwner_effect cfg s link true id (fun b => ⟨.releaseFinish link id, .flag b⟩)
      (fun _ => rfl) (fun b => by cases b <;> rfl) (fun _ => rfl)
  case linkLost link =>
    exact clearOwner_effect cfg s link false none (fun b => ⟨.linkLost link, .flag b⟩)
      (fun _ => rfl) (fun b => by cases b <;> rfl) (fun _ => rfl)
  case tick now =>
    rcases tick_cases cfg s now with ⟨hp, -, hk⟩ | hk <;> simp only [hk]
    · exact .freed (by simp [hp]) rfl rfl rfl rfl
    · exact .same rfl rfl rfl rfl
  case vmEpochAdvance => exact .advanced rfl rfl rfl rfl
  case setVmReady ready => exact .ready ready rfl rfl rfl rfl

/-! ## What the history says about the owner -/

/-- The latest `acquire` that found the manager FREE gave `link` the id `id`; nothing has
ended that session since, and with `hello` its handshake has completed. -/
def LiveGrant (h : List Event) (link : LinkRef) (id : List UInt8) (hello : Bool) : Prop :=
  ∃ before e after, h = before ++ e :: after ∧ e.granted = some (link, id) ∧
    (∀ x ∈ after, x.granted = none ∧ x.ends = false) ∧
    (hello = true → ∃ x ∈ after, x.helloDone = some (link, id))

lemma LiveGrant.snoc {h : List Event} {link : LinkRef} {id : List UInt8} {hello hello' : Bool}
    {e : Event} (hl : LiveGrant h link id hello) (hg : e.granted = none) (he : e.ends = false)
    (hd : hello' = true → hello = true ∨ e.helloDone = some (link, id)) :
    LiveGrant (h ++ [e]) link id hello' := by
  obtain ⟨before, g, after, rfl, hgr, hafter, hhello⟩ := hl
  refine ⟨before, g, after ++ [e], by simp, hgr, ?_, ?_⟩
  · intro x hx
    rcases List.mem_append.mp hx with hx | hx
    · exact hafter x hx
    · obtain rfl : x = e := by simpa using hx
      exact ⟨hg, he⟩
  · intro hh
    rcases hd hh with hd | hd
    · obtain ⟨x, hx, hxd⟩ := hhello hd
      exact ⟨x, by simp [hx], hxd⟩
    · exact ⟨e, by simp, hd⟩

/-- The stored owner of a run is its live grant. -/
def OwnerRecorded (h : List Event) (s : State) : Prop :=
  s.phase = .owned → LiveGrant h s.ownerLink s.sessionId s.handshakeComplete

theorem ownerRecorded_step {cfg : Config} {h : List Event} {s t : State} {e : Event}
    (hi : OwnerRecorded h s) (he : Effect cfg s e t) : OwnerRecorded (h ++ [e]) t := by
  intro hp
  cases he with
  | granted link nonce now id _ ht hg =>
    subst ht
    exact ⟨h, e, [], by simp, hg, by simp, by simp [State.grant, bumpInputGeneration]⟩
  | freed _ ht => simp [ht] at hp
  | releasing _ ht => simp [ht] at hp
  | completed hs ht hd hg hends =>
    subst ht
    exact (hi hs).snoc hg hends fun _ => .inr hd
  | refreshed now hs ht hg hends =>
    subst ht
    exact (hi hs).snoc hg hends .inl
  | advanced ht hg hends =>
    subst ht
    exact (hi hp).snoc hg hends .inl
  | ready b ht hg hends =>
    subst ht
    exact (hi hp).snoc hg hends .inl
  | same ht hg hends =>
    subst ht
    exact (hi hp).snoc hg hends .inl

/-- In every run the stored owner is the live grant of the history. -/
theorem ownerRecorded_of_reaches {cfg : Config} {h : List Event} {s : Sessions}
    (hr : Reaches (sessions cfg) h s) : OwnerRecorded h s.state := by
  refine hr.invariant (I := fun h s => OwnerRecorded h s.state) ?_ ?_
  · rintro s ⟨epoch, rfl⟩ hp
    simp [init0] at hp
  · rintro h s e t - hi ⟨-, ha, -⟩
    exact ownerRecorded_step hi (apply_effect cfg ha)

/-! ## Authorization -/

/-- What an OK answer to `link` and `sessionId` says about the history and the state. -/
def AuthorizedBy (h : List Event) (s : State) (link : LinkRef) (sessionId : Option (List UInt8)) :
    Prop :=
  s.phase = .owned ∧ link = s.ownerLink ∧ sessionId = some s.sessionId ∧
    LiveGrant h link s.sessionId true

lemma authorizedBy_of_checkOwner {h : List Event} {s : State} {link : LinkRef}
    {sessionId : Option (List UInt8)} (hi : OwnerRecorded h s)
    (hc : checkOwnerLocked s link sessionId = .ok) : AuthorizedBy h s link sessionId := by
  obtain ⟨hp, hl, hid, hh⟩ := checkOwnerLocked_ok.mp hc
  refine ⟨hp, hl, hid, ?_⟩
  have hlive := hi hp
  rwa [hh, ← hl] at hlive

/-- Exclusivity and authorization over every run: an OK `authorize` or `keepalive` names the
live grant, and a call that is not OK leaves the session alone, a hello that loses its link
before it returns excepted. -/
theorem session_exclusive (cfg : Config) {h : List Event} {s : Sessions}
    (hr : Reaches (sessions cfg) h s) (link : LinkRef) (sessionId : Option (List UInt8))
    (now : UInt32) (linkCurrent vmRelated : Bool) (vmEpoch : Option UInt32)
    (nonce : List UInt8) (random : RandomWords) :
    ((authorize s.state link sessionId vmRelated vmEpoch now linkCurrent).2 = .ok →
        AuthorizedBy h s.state link sessionId ∧
          (vmRelated = true → vmEpoch = some s.state.vmEpoch ∧ s.state.vmReady = true)) ∧
      ((keepalive s.state link sessionId now linkCurrent).2 = .ok →
        AuthorizedBy h s.state link sessionId) ∧
      ((authorize s.state link sessionId vmRelated vmEpoch now linkCurrent).2 ≠ .ok →
        (authorize s.state link sessionId vmRelated vmEpoch now linkCurrent).1 = s.state) ∧
      ((keepalive s.state link sessionId now linkCurrent).2 ≠ .ok →
        (keepalive s.state link sessionId now linkCurrent).1 = s.state) ∧
      (∀ r, (acquire s.state link nonce now random linkCurrent).2 = .refused r →
        (acquire s.state link nonce now random linkCurrent).1 = s.state) ∧
      ((acquireReturn cfg s.state link linkCurrent).2.1 ≠ .ok →
        (acquireReturn cfg s.state link linkCurrent).1 = s.state ∨
          (linkCurrent = false ∧ s.state.phase ≠ .free ∧ link = s.state.ownerLink ∧
            (acquireReturn cfg s.state link linkCurrent).1 = s.state.freed cfg)) := by
  have hi := ownerRecorded_of_reaches hr
  have hauth := authorize_cases s.state link sessionId vmRelated vmEpoch now linkCurrent
  have hkeep := keepalive_cases s.state link sessionId now linkCurrent
  refine ⟨?_, ?_, ?_, ?_, ?_, ?_⟩
  · intro hok
    rcases hauth with ⟨-, -, hc, hv⟩ | ⟨-, hne⟩
    · exact ⟨authorizedBy_of_checkOwner hi hc, checkVm_ok.mp hv⟩
    · exact absurd hok hne
  · intro hok
    rcases hkeep with ⟨-, -, hc⟩ | ⟨-, hne⟩
    · exact authorizedBy_of_checkOwner hi hc
    · exact absurd hok hne
  · intro hne
    rcases hauth with ⟨hok, -, -, -⟩ | ⟨hs, -⟩
    · simp [hok] at hne
    · exact hs
  · intro hne
    rcases hkeep with ⟨hok, -, -⟩ | ⟨hs, -⟩
    · simp [hok] at hne
    · exact hs
  · intro r hrf
    rcases acquire_cases s.state link nonce now random linkCurrent with
      ⟨-, -, ha⟩ | ⟨-, -, -, -, ha⟩ | ⟨r', ha⟩
    · simp [ha] at hrf
    · simp [ha] at hrf
    · simp [ha]
  · intro hne
    cases linkCurrent with
    | true => simp [acquireReturn] at hne
    | false =>
      rcases clearOwner_cases cfg s.state link false none with ⟨hal, hc⟩ | hc
      · obtain ⟨hp, hl, -, -⟩ := clearOwnerAllowed_iff.mp hal
        exact .inr ⟨rfl, hp, hl, by simp [acquireReturn, linkLost, hc]⟩
      · exact .inl (by simp [acquireReturn, linkLost, hc])

def noSinks : Config := ⟨none, none⟩
def usbLink : LinkRef := ⟨.usb, 0, 1⟩
def someNonce : List UInt8 := List.replicate nonceHexLen 97
def someWords : RandomWords := ⟨1, 2, 3, 4⟩

/-- A hello, its acknowledgement and an interpreter that became ready. -/
def greeted : List Event × Sessions :=
  bootRun noSinks 7 [.acquire usbLink someNonce 0 someWords true, .acquireReturn usbLink true,
    .helloComplete usbLink (makeId someWords) true, .setVmReady true]

theorem session_exclusive_greeted :
    (authorize greeted.2.state usbLink (some (makeId someWords)) true (some 7) 20 true).2 = .ok ∧
      AuthorizedBy greeted.1 greeted.2.state usbLink (some (makeId someWords)) := by
  have hok : (authorize greeted.2.state usbLink (some (makeId someWords)) true (some 7) 20
      true).2 = .ok := by decide
  have h := session_exclusive noSinks (h := greeted.1) (s := greeted.2) (reaches_bootRun rfl)
    usbLink (some (makeId someWords)) 20 true true (some 7) someNonce someWords
  exact ⟨hok, (h.1 hok).1⟩

/-- A repeated hello whose link is retired before it returns answers STALE_LINK, and the
stored session is gone. -/
theorem repeated_hello_loses_session :
    Reaches (sessions noSinks) greeted.1 greeted.2 ∧
      greeted.2.state.ownerLink = usbLink ∧ greeted.2.state.sessionId = makeId someWords ∧
      ∃ t, acquire greeted.2.state usbLink someNonce 30 someWords true = (t, .refreshed) ∧
        (acquireReturn noSinks t usbLink false).2.1 = .staleLink ∧
        (acquireReturn noSinks t usbLink false).1.ownerLink ≠ usbLink ∧
        (acquireReturn noSinks t usbLink false).1.sessionId = [] := by
  refine ⟨reaches_bootRun rfl, rfl, rfl, _, rfl, ?_⟩
  decide

end EspVision.EvSession
