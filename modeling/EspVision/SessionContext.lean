import EspVision.SessionHistory

/-!
# Session contexts and the input generation

Code that works for a session outside the session lock remembers five values of
it, its context, and compares them later. The input generation changes whenever
one of the other four does, so while fewer than `2 ^ 32` changes have happened a
remembered context whose generation is current is the current context.
-/
namespace EspVision.EvSession
open EvTransport TransitionSystem

/-- The session values a received or a produced frame is bound to. -/
structure Context where
  link : LinkRef := {}
  sessionId : List UInt8 := []
  vmEpoch : UInt32 := 0
  inputGeneration : UInt32 := 0
  transitionId : UInt32 := 0
  deriving DecidableEq

def State.context (s : State) : Context :=
  ⟨s.ownerLink, s.sessionId, s.vmEpoch, s.inputGeneration, s.transitionId⟩

/-! ## The generation counter -/

/-- The counter after `n` changes: it starts at one and skips zero. -/
def generationAfter (n : ℕ) : UInt32 := UInt32.ofNat (n % 4294967295 + 1)

lemma generationAfter_toNat (n : ℕ) : (generationAfter n).toNat = n % 4294967295 + 1 := by
  have hlt := Nat.mod_lt n (show 0 < 4294967295 by omega)
  rw [generationAfter, UInt32.toNat_ofNat']
  exact Nat.mod_eq_of_lt (by omega)

theorem nextCounter_generationAfter (n : ℕ) :
    nextCounter (generationAfter n) = generationAfter (n + 1) := by
  have hn := generationAfter_toNat n
  have hn' := generationAfter_toNat (n + 1)
  have hlt := Nat.mod_lt n (show 0 < 4294967295 by omega)
  have hsum : (generationAfter n + 1).toNat = (n % 4294967295 + 2) % 4294967296 := by
    rw [UInt32.toNat_add, hn]
    rfl
  unfold nextCounter
  apply UInt32.toNat_inj.mp
  split_ifs with hz
  · have hz' : (generationAfter n + 1).toNat = 0 := by rw [hz]; rfl
    rw [hn']
    show 1 = _
    omega
  · have hz' : (generationAfter n + 1).toNat ≠ 0 := fun h => hz (UInt32.toNat_inj.mp h)
    rw [hn']
    omega

/-- One turn of the counter takes `2 ^ 32 - 1` changes. -/
theorem generationAfter_inj {n m : ℕ} (hn : 1 ≤ n) (hnm : n ≤ m) (hm : m < 2 ^ 32)
    (h : generationAfter n = generationAfter m) : n = m := by
  have ht := congrArg UInt32.toNat h
  rw [generationAfter_toNat, generationAfter_toNat] at ht
  have hm' : m < 4294967296 := hm
  omega

/-! ## Counting the changes -/

/-- The session manager and the number of generation changes it has made. -/
structure Counted where
  sessions : Sessions
  changes : ℕ := 0

def Counted.state (s : Counted) : State := s.sessions.state

/-- Run one section of the session manager. -/
def Counted.call (cfg : Config) (s : Counted) (op : Op) : Counted × Event :=
  let r := s.sessions.next cfg op
  (⟨r.2, if r.2.state.inputGeneration = s.state.inputGeneration then s.changes
    else s.changes + 1⟩, r.1)

/-- What one section does to the values others remember: it moves the generation on, or keeps
them, the handshake included. -/
inductive Moved (s t : Counted) : Prop
  | changed (hc : t.changes = s.changes + 1)
      (hg : t.state.inputGeneration = nextCounter s.state.inputGeneration)
  | kept (hc : t.changes = s.changes) (hx : t.state.context = s.state.context)
      (hp : t.state.phase = s.state.phase)
      (hh : s.state.handshakeComplete = true → t.state.handshakeComplete = true)

lemma nextCounter_ne (g : UInt32) : nextCounter g ≠ g := nextGeneration_ne g

lemma moved_of_effect {cfg : Config} {s t : Counted} {e : Event}
    (he : Effect cfg s.state e t.state)
    (hch : t.changes = if t.state.inputGeneration = s.state.inputGeneration then s.changes
      else s.changes + 1) : Moved s t := by
  have changed (hg : t.state.inputGeneration = nextCounter s.state.inputGeneration) :
      Moved s t := by
    refine .changed ?_ hg
    rw [hch, hg, if_neg (nextCounter_ne _)]
  have kept (hx : t.state.context = s.state.context) (hp : t.state.phase = s.state.phase)
      (hh : s.state.handshakeComplete = true → t.state.handshakeComplete = true) :
      Moved s t := by
    have hg : t.state.inputGeneration = s.state.inputGeneration :=
      congrArg Context.inputGeneration hx
    exact .kept (by rw [hch, if_pos hg]) hx hp hh
  cases he with
  | granted link nonce now id hs ht => exact changed (by rw [ht]; rfl)
  | freed hs ht => exact changed (by rw [ht]; rfl)
  | releasing hs ht => exact changed (by rw [ht]; rfl)
  | advanced ht => exact changed (by rw [ht]; rfl)
  | completed hs ht => exact kept (by rw [ht]; rfl) (by rw [ht]) (fun _ => by rw [ht])
  | refreshed now hs ht => exact kept (by rw [ht]; rfl) (by rw [ht]) (by rw [ht]; exact id)
  | ready b ht => exact kept (by rw [ht]; rfl) (by rw [ht]; rfl) (by rw [ht]; exact id)
  | same ht => exact kept (by rw [ht]) (by rw [ht]) (by rw [ht]; exact id)

theorem call_moved (cfg : Config) (s : Counted) (op : Op) : Moved s (s.call cfg op).1 :=
  moved_of_effect (apply_effect cfg (rfl : op.apply cfg s.state = _)) rfl

/-- The number of changes determines the generation, and power-on has made none. -/
def Counted.Numbered (s : Counted) : Prop :=
  s.state.inputGeneration = generationAfter s.changes ∧ (s.state.phase ≠ .free → 1 ≤ s.changes)

theorem numbered_init (cfg : Config) (epoch : UInt32) :
    Counted.Numbered ⟨{ state := init0 cfg epoch }, 0⟩ := ⟨rfl, fun h => absurd rfl h⟩

theorem Counted.Numbered.call {s : Counted} (h : s.Numbered) (cfg : Config) (op : Op) :
    (s.call cfg op).1.Numbered := by
  obtain ⟨hg, hf⟩ := h
  rcases call_moved cfg s op with ⟨hc, hg'⟩ | ⟨hc, hx, hp, -⟩
  · refine ⟨?_, fun _ => by omega⟩
    rw [hg', hg, hc, nextCounter_generationAfter]
  · have hgen : (s.call cfg op).1.state.inputGeneration = s.state.inputGeneration :=
      congrArg Context.inputGeneration hx
    refine ⟨by rw [hgen, hg, hc], fun h => ?_⟩
    rw [hc]
    exact hf (hp ▸ h)

/-! ## Remembered contexts -/

/-- `c` was the context of an owner whose handshake was complete, and it still is unless the
generation has changed since. -/
def Counted.Remembers (s : Counted) (c : Context) : Prop :=
  ∃ n, 1 ≤ n ∧ n ≤ s.changes ∧ c.inputGeneration = generationAfter n ∧
    (n = s.changes → c = s.state.context ∧ s.state.phase = .owned ∧
      s.state.handshakeComplete = true)

theorem Counted.Remembers.moved {s t : Counted} {c : Context} (h : s.Remembers c)
    (hm : Moved s t) : t.Remembers c := by
  obtain ⟨n, h1, hn, hg, hcur⟩ := h
  rcases hm with ⟨hc, -⟩ | ⟨hc, hx, hp, hh⟩
  · exact ⟨n, h1, by omega, hg, fun h => absurd h (by omega)⟩
  · refine ⟨n, h1, by omega, hg, fun h => ?_⟩
    obtain ⟨hctx, howned, hdone⟩ := hcur (by omega)
    exact ⟨by rw [hx]; exact hctx, by rw [hp]; exact howned, hh hdone⟩

/-- A remembered context whose generation is current is the current context. -/
theorem Counted.Remembers.current {s : Counted} {c : Context} (h : s.Remembers c)
    (hnum : s.Numbered) (hfew : s.changes < 2 ^ 32)
    (hgen : c.inputGeneration = s.state.inputGeneration) :
    c = s.state.context ∧ s.state.phase = .owned ∧ s.state.handshakeComplete = true := by
  obtain ⟨n, h1, hn, hg, hcur⟩ := h
  refine hcur (generationAfter_inj h1 hn hfew ?_)
  rw [← hg, hgen, hnum.1]

/-- The current context of an owner with a complete handshake is remembered. -/
theorem Counted.Numbered.remembers {s : Counted} (h : s.Numbered) (hp : s.state.phase = .owned)
    (hh : s.state.handshakeComplete = true) : s.Remembers s.state.context :=
  ⟨s.changes, h.2 (by simp [hp]), le_rfl, h.1, fun _ => ⟨rfl, hp, hh⟩⟩

/-! ## Authorization by context -/

/-- The context a caller takes from the snapshot of a successful call on `link`. -/
def Snapshot.contextOn (snap : Snapshot) (link : LinkRef) : Context :=
  ⟨link, snap.sessionId, snap.vmEpoch, snap.inputGeneration, snap.transitionId⟩

/-- The check before and after queueing: authorize as VM input with the values of `c`, then
compare the generation and the transition of the snapshot. -/
def Counted.reauthorize (cfg : Config) (s : Counted) (c : Context) (now : UInt32)
    (linkCurrent : Bool) : Counted × Event × Bool :=
  let r := s.call cfg (.authorize c.link (some c.sessionId) true (some c.vmEpoch) now linkCurrent)
  let snap := r.1.state.snapshot now
  (r.1, r.2, r.2.reply = .result .ok ∧ snap.inputGeneration = c.inputGeneration ∧
    snap.transitionId = c.transitionId)

lemma authorize_call_state (cfg : Config) (s : Counted) (link : LinkRef)
    (id : Option (List UInt8)) (vm : Bool) (epoch : Option UInt32) (now : UInt32) (cur : Bool) :
    (s.call cfg (.authorize link id vm epoch now cur)).1.state =
        (authorize s.state link id vm epoch now cur).1 ∧
      (s.call cfg (.authorize link id vm epoch now cur)).2.reply =
        .result (authorize s.state link id vm epoch now cur).2 := ⟨rfl, rfl⟩

/-- An authorization keeps the context, the phase and the flags. -/
theorem authorize_keeps (s : State) (link : LinkRef) (id : Option (List UInt8)) (vm : Bool)
    (epoch : Option UInt32) (now : UInt32) (cur : Bool) :
    (authorize s link id vm epoch now cur).1.context = s.context ∧
      (authorize s link id vm epoch now cur).1.phase = s.phase ∧
      (authorize s link id vm epoch now cur).1.handshakeComplete = s.handshakeComplete ∧
      (authorize s link id vm epoch now cur).1.vmReady = s.vmReady := by
  rcases authorize_cases s link id vm epoch now cur with ⟨hk, -⟩ | ⟨hk, -⟩ <;> rw [hk] <;>
    exact ⟨rfl, rfl, rfl, rfl⟩

/-- What an OK answer to an authorization says. -/
theorem authorize_ok {s : State} {link : LinkRef} {id : Option (List UInt8)} {vm : Bool}
    {epoch : Option UInt32} {now : UInt32} {cur : Bool}
    (h : (authorize s link id vm epoch now cur).2 = .ok) :
    cur = true ∧ s.phase = .owned ∧ link = s.ownerLink ∧ id = some s.sessionId ∧
      s.handshakeComplete = true ∧ (vm = true → epoch = some s.vmEpoch ∧ s.vmReady = true) := by
  rcases authorize_cases s link id vm epoch now cur with ⟨-, hcur, hc, hv⟩ | ⟨-, hne⟩
  · obtain ⟨hp, hl, hid, hh⟩ := checkOwnerLocked_ok.mp hc
    exact ⟨hcur, hp, hl, hid, hh, checkVm_ok.mp hv⟩
  · exact absurd h hne

lemma snapshot_context {s : State} (hp : s.phase = .owned) {link : LinkRef}
    (hl : link = s.ownerLink) (now : UInt32) : (s.snapshot now).contextOn link = s.context := by
  simp [Snapshot.contextOn, State.snapshot, State.context, hp, hl]

/-- The check passes exactly on the current context of a ready owner with a current link. -/
theorem reauthorize_iff (cfg : Config) (s : Counted) (c : Context) (now : UInt32) (cur : Bool) :
    (s.reauthorize cfg c now cur).2.2 = true ↔
      cur = true ∧ c = s.state.context ∧ s.state.phase = .owned ∧
        s.state.handshakeComplete = true ∧ s.state.vmReady = true := by
  obtain ⟨hst, hrep⟩ := authorize_call_state cfg s c.link (some c.sessionId) true (some c.vmEpoch)
    now cur
  obtain ⟨hctx, -, -, -⟩ := authorize_keeps s.state c.link (some c.sessionId) true
    (some c.vmEpoch) now cur
  have hgen := congrArg Context.inputGeneration hctx
  have htr := congrArg Context.transitionId hctx
  simp only [State.context] at hgen htr
  simp only [Counted.reauthorize, hst, hrep, State.snapshot, hgen, htr, decide_eq_true_eq,
    Reply.result.injEq]
  constructor
  · rintro ⟨hok, hg, ht⟩
    obtain ⟨hcur, hp, hl, hid, hh, hv⟩ := authorize_ok hok
    obtain ⟨hep, hr⟩ := hv rfl
    refine ⟨hcur, ?_, hp, hh, hr⟩
    obtain ⟨link, sessionId, vmEpoch, inputGeneration, transitionId⟩ := c
    simp_all [State.context]
  · rintro ⟨rfl, rfl, hp, hh, hr⟩
    refine ⟨?_, rfl, rfl⟩
    simp [authorize, checkOwnerLocked, checkVm, State.context, hp, hh, hr]

theorem reauthorize_moved (cfg : Config) (s : Counted) (c : Context) (now : UInt32) (cur : Bool) :
    Moved s (s.reauthorize cfg c now cur).1 := call_moved cfg s _

/-- The check changes neither the context nor the readiness. -/
theorem reauthorize_keeps (cfg : Config) (s : Counted) (c : Context) (now : UInt32)
    (cur : Bool) :
    (s.reauthorize cfg c now cur).1.state.context = s.state.context ∧
      (s.reauthorize cfg c now cur).1.state.vmReady = s.state.vmReady := by
  obtain ⟨hst, -⟩ := authorize_call_state cfg s c.link (some c.sessionId) true (some c.vmEpoch)
    now cur
  obtain ⟨hctx, -, -, hready⟩ := authorize_keeps s.state c.link (some c.sessionId) true
    (some c.vmEpoch) now cur
  exact ⟨by rw [← hctx, ← hst]; rfl, by rw [← hready, ← hst]; rfl⟩

end EspVision.EvSession
