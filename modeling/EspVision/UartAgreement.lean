import EspVision.UartNegotiation

/-!
# The two ends agree on the speed

A response that acknowledges a commit is true for as long as its session lasts: the device keeps
the negotiation of that session until the session is over. The requests of an earlier attempt are
of a session that is over by the time that the next attempt begins.
-/
namespace EspVision.UartBaud

open EvTransport EvSession TransitionSystem

/-! ## What the device keeps -/

/-- Ids stay granted, and no session that is over comes back. -/
structure Device.Forward (d d' : Device) : Prop where
  ids : ∀ id ∈ d.ids, id ∈ d'.ids
  current : ∀ id ∈ d.ids, d'.Current id → d.Current id

lemma Device.Forward.over {d d' : Device} (h : d.Forward d') {id : Id} (ho : d.Over id) :
    d'.Over id :=
  ⟨h.ids id ho.1, fun hc => ho.2 (h.current id ho.1 hc)⟩

lemma SessionStep.forward {d d' : Device} (h : SessionStep d d') : d.Forward d' :=
  ⟨fun _ hid => h.ids hid, fun _ hid hc => (h.current hid hc).1⟩

/-- While the session is current, the negotiation is its own, a probe has been answered, and the
token and the speed are these. -/
def Device.Settled (d : Device) (id : Id) (token : Token) (rate : UInt32) : Prop :=
  d.Current id → d.bound = id ∧ d.baud.probed = true ∧ d.baud.token = token ∧
    d.baud.requested = rate

/-- The step leaves the negotiation of the bound session alone, unless that session is over. -/
structure Device.Holds (d d' : Device) : Prop extends d.Forward d' where
  bound : d.Current d.bound → d'.bound = d.bound ∧ d'.baud.token = d.baud.token ∧
    d'.baud.requested = d.baud.requested ∧ (d.baud.probed = true → d'.baud.probed = true)

lemma Device.Holds.settled {d d' : Device} (h : d.Holds d') {id : Id} (hid : id ∈ d.ids)
    {token : Token} {rate : UInt32} (hs : d.Settled id token rate) : d'.Settled id token rate := by
  intro hc
  have hc' := h.current id hid hc
  obtain ⟨rfl, hp, rfl, rfl⟩ := hs hc'
  obtain ⟨hb, ht, hr, hpr⟩ := h.bound hc'
  exact ⟨hb, hpr hp, ht, hr⟩

lemma SessionStep.holds {d d' : Device} (h : SessionStep d d') : d.Holds d' := by
  obtain ⟨hbaud, -, hbound, -⟩ := h.fields
  exact { h.forward with bound := fun _ => by rw [hbaud, hbound]; exact ⟨rfl, rfl, rfl, id⟩ }

lemma Completed.holds {d d' : Device} (h : Completed d d') : d.Holds d' := by
  cases h <;> exact ⟨⟨fun _ => id, fun _ _ => id⟩, fun _ => ⟨rfl, rfl, rfl, id⟩⟩

lemma decide_holds (d : Device) (session : Snapshot) (now : UInt32) :
    d.Holds (d.decide session now) := by
  unfold Device.decide
  by_cases hidle : d.baud.phase = .idle
  · rw [if_pos hidle]
    exact ⟨⟨fun _ => id, fun _ _ => id⟩, fun _ => ⟨rfl, rfl, rfl, id⟩⟩
  · rw [if_neg hidle]
    refine ⟨⟨fun _ => id, fun _ _ => id⟩, fun _ => ⟨rfl, ?_⟩⟩
    dsimp only
    split_ifs <;> exact ⟨rfl, rfl, id⟩

lemma poll_holds {cfg : Config} {d : Device} (hi : d.Inv) (now : UInt32) (result : SetResult) :
    d.Holds (d.poll cfg now result) := by
  have hsame : ∀ d' : Device, d'.session = d.session → d'.granted = d.granted →
      d'.bound = d.bound → d'.baud.token = d.baud.token →
      d'.baud.requested = d.baud.requested → d'.baud.probed = d.baud.probed → d.Holds d' := by
    intro d' hs hg hb ht hr hp
    refine ⟨⟨fun id hid => ?_, fun id _ hc => ?_⟩, fun _ => ⟨hb, ht, hr, fun h => hp ▸ h⟩⟩
    · simpa [Device.ids, hg] using hid
    · simpa [Device.Current, hs] using hc
  have hst := hi.stage
  unfold Device.StageOk at hst
  unfold Device.poll
  cases hstage : d.stage with
  | rest => exact hsame _ rfl rfl rfl rfl rfl rfl
  | sampled session now => exact decide_holds d session now
  | decided restore same requested link =>
    have hkeep : SessionStep d { d with session :=
        if (restore && same) = true then (linkLost cfg d.session link).1 else d.session } := by
      refine .keep _ ?_
      split_ifs
      · exact (linkLost_keeps cfg d.session link).1
      · exact Keeps.refl _
    exact ⟨⟨hkeep.holds.ids, hkeep.holds.current⟩, hkeep.holds.bound⟩
  | setting restore requested =>
    cases result <;> exact hsame _ rfl rfl rfl rfl rfl rfl
  | failed => exact hsame _ rfl rfl rfl rfl rfl rfl
  | finishing restore =>
    rw [hstage] at hst
    cases restore with
    | true =>
      -- the session that the negotiation was bound to is over
      exact ⟨⟨fun _ => id, fun _ _ => id⟩, fun hc => absurd hc hst.2.2⟩
    | false =>
      refine hsame _ rfl rfl rfl ?_ ?_ ?_ <;>
        simp only [Device.finish, Bool.false_eq_true, if_false] <;> split_ifs <;> rfl

/-- A request that is accepted is of the current session. It starts the negotiation of a session
that had none, or leaves the negotiation alone. -/
lemma Accepted.holds {d d' : Device} {id : Id} {c : Call} {a : Arrival} {p : Payload}
    (h : Accepted d id c a d' p) (hid : d.Current id)
    (ht : d'.session = { d.session with lastActivityMs := a.now })
    (hnew : (∃ baudRate, c.method = .prepare baudRate) → d.bound ≠ id) : d.Holds d' := by
  have hcur : ∀ i, d'.Current i → d.Current i := fun i hc => by
    simpa [Device.Current, ht] using hc
  have hbound : ∀ (e : Device), e.bound = d.bound → e.baud.token = d.baud.token →
      e.baud.requested = d.baud.requested → (d.baud.probed = true → e.baud.probed = true) →
      e.granted = d.granted → (∀ i, e.Current i → d.Current i) → d.Holds e := by
    intro e h1 h2 h3 h4 h5 h6
    refine ⟨⟨fun i hi => ?_, fun i _ => h6 i⟩, fun _ => ⟨h1, h2, h3, h4⟩⟩
    simpa [Device.ids, h5] using hi
  cases h with
  | prepare baudRate now' t hm hphase =>
    obtain ⟨acks, phase, heq, -⟩ := acknowledge_eq { d with
      session := t
      baud := ⟨.prepareAck, baudRate, now', false, c.token⟩
      link := a.link
      bound := id
      paused := true } c a.taken
    rw [heq] at hcur ⊢
    exact ⟨⟨fun _ => fun h => h, fun i _ => hcur i⟩, fun hc =>
      absurd (hc.2.symm.trans hid.2) (hnew ⟨baudRate, hm⟩)⟩
  | probe data t hm hb htoken hphase =>
    exact hbound _ rfl rfl rfl (fun _ => rfl) rfl hcur
  | commit t baud hm hb htoken hprobed hbaud =>
    obtain ⟨acks, phase, heq, -⟩ := acknowledge_eq { d with session := t, baud := baud } c a.taken
    rw [heq] at hcur ⊢
    rcases hbaud with ⟨-, rfl⟩ | ⟨-, rfl⟩ <;>
      exact hbound _ rfl rfl rfl (fun h => h) rfl hcur

/-! ## The invariant of the composition -/

/-- The request asks to prepare a speed. -/
def Call.isPrepare (c : Call) : Bool :=
  match c.method with
  | .prepare _ => true
  | _ => false

/-- Two requests that prepare are of different sessions. -/
def Request.Apart (m m' : Request) : Prop :=
  m.call.isPrepare = true → m'.call.isPrepare = true → m.id ≠ m'.id

/-- Nothing of this session is on the wire or in the device's negotiation, and every session
that something on the wire is of is over. -/
def Joint.Clean (s : Joint) (id : Id) : Prop :=
  (∀ m ∈ s.requests, s.device.Over m.id ∧ m.id ≠ id) ∧ s.device.bound ≠ id

/-- The lengths of the probes that an attempt has left to send, with the one in flight. -/
def Progress.left (o : Options) : Progress → List ℕ
  | .preparing _ | .switching => o.probeLengths
  | .verified lengths => lengths
  | .probing _ data lengths => data.length :: lengths
  | .committing _ _ => []

/-- The host's port has the speed that is tried. -/
def Progress.tuned : Progress → Bool
  | .preparing _ | .switching => false
  | _ => true

/-- Every probe so far was echoed exactly, with the token of the attempt. -/
def Attempt.Echoed (a : Attempt) : Prop := ∀ e ∈ a.echoes, e.token = a.token ∧ e.data = e.sent

/-- What the phase of the host says of both ends. -/
def Joint.HostOk (o : Options) (s : Joint) : Prop :=
  match s.host.phase with
  | .greeting => ∀ id, (s.host.nonce, id) ∈ s.device.granted → s.Clean id
  | .holding => ∃ id, s.host.sessionId = some id ∧ s.Clean id
  | .trying a p => s.host.latest = some a.token ∧ a.Echoed ∧
      a.echoes.map (·.sent.length) ++ p.left o = o.probeLengths ∧
      (p.tuned = true → s.host.rate = a.baudRate)
  | .selected a => ∃ id, s.host.sessionId = some id ∧ s.device.Settled id a.token a.baudRate ∧
      s.host.latest = some a.token ∧ a.Echoed ∧
      a.echoes.map (·.sent.length) = o.probeLengths ∧ s.host.rate = a.baudRate
  | .recovering | .stopped => True

structure Joint.Inv (o : Options) (s : Joint) : Prop where
  device : s.device.Inv
  known : ∀ m ∈ s.requests, m.id ∈ s.device.ids
  unbound : ∀ m ∈ s.requests, m.call.isPrepare = true → m.id ≠ s.device.bound
  apart : s.requests.Pairwise Request.Apart
  latest : ∀ m ∈ s.requests, s.host.latest = some m.call.token ∨ s.device.Over m.id
  held : ∀ id, s.host.sessionId = some id → id ∈ s.device.ids
  settled : ∀ r ∈ s.responses, ∀ token rate timeoutMs delayMs,
    r.payload = .committed token rate timeoutMs delayMs →
      r.id ∈ s.device.ids ∧ s.device.Settled r.id token rate
  host : s.HostOk o

variable {cfg : Config} {o : Options} {s : Joint}

lemma Joint.Inv.ne_nil (hi : s.Inv o) {id : Id} (hid : id ∈ s.device.ids) : id ≠ [] :=
  fun h => hi.device.named (h ▸ hid)

lemma mem_ids_of_granted {d : Device} {nonce : List UInt8} {id : Id}
    (h : (nonce, id) ∈ d.granted) : id ∈ d.ids :=
  List.mem_map.mpr ⟨_, h, rfl⟩

/-! ### Steps of the device's own -/

lemma Joint.Clean.device {id : Id} (h : s.Clean id) {d' : Device} (hf : s.device.Forward d')
    (hb : d'.bound = s.device.bound ∨ d'.bound = []) (hid : id ≠ []) :
    ({ s with device := d' } : Joint).Clean id := by
  refine ⟨fun m hm => ⟨hf.over (h.1 m hm).1, (h.1 m hm).2⟩, ?_⟩
  rcases hb with hb | hb
  · exact hb ▸ h.2
  · exact fun he => hid (he.symm.trans hb)

/-- A step that handles no request keeps the invariant. -/
lemma inv_device (hi : s.Inv o) {d' : Device} (hd : d'.Inv) (hh : s.device.Holds d')
    (hb : d'.bound = s.device.bound ∨ d'.bound = [])
    (hg : ∀ g ∈ d'.granted, g ∈ s.device.granted ∨
      (g.2 ∉ s.device.ids ∧ ∀ i ∈ s.device.ids, ¬d'.Current i)) :
    ({ s with device := d' } : Joint).Inv o := by
  refine {
    device := hd
    known := fun m hm => hh.ids _ (hi.known m hm)
    unbound := fun m hm hp => ?_
    apart := hi.apart
    latest := fun m hm => (hi.latest m hm).imp_right hh.over
    held := fun id hid => hh.ids id (hi.held id hid)
    settled := fun r hr token rate timeoutMs delayMs hp => ?_
    host := ?_ }
  · rcases hb with hb | hb
    · exact hb ▸ hi.unbound m hm hp
    · exact hb ▸ hi.ne_nil (hi.known m hm)
  · obtain ⟨hid, hs⟩ := hi.settled r hr token rate timeoutMs delayMs hp
    exact ⟨hh.ids _ hid, hh.settled hid hs⟩
  · have hok := hi.host
    unfold Joint.HostOk at hok ⊢
    dsimp only
    cases hphase : s.host.phase with
    | greeting =>
      rw [hphase] at hok
      intro id hmem
      rcases hg _ hmem with hold | ⟨hnew, hcur⟩
      · exact (hok id hold).device hh.toForward hb (hi.ne_nil (mem_ids_of_granted hold))
      · refine ⟨fun m hm => ⟨⟨hh.ids _ (hi.known m hm), hcur _ (hi.known m hm)⟩, ?_⟩, ?_⟩
        · exact fun he => hnew (he ▸ hi.known m hm)
        · intro he
          have hne : d'.bound ≠ [] := fun hb' =>
            hd.named (hb' ▸ he ▸ mem_ids_of_granted hmem)
          rcases hb with hb | hb
          · exact hnew (he ▸ hb ▸ hi.device.bound (hb ▸ hne))
          · exact hne hb
    | holding =>
      rw [hphase] at hok
      obtain ⟨id, hid, hclean⟩ := hok
      exact ⟨id, hid, hclean.device hh.toForward hb (hi.ne_nil (hi.held id hid))⟩
    | trying a p =>
      rw [hphase] at hok
      exact hok
    | selected a =>
      rw [hphase] at hok
      obtain ⟨id, hid, hs, hrest⟩ := hok
      exact ⟨id, hid, hh.settled (hi.held id hid) hs, hrest⟩
    | recovering => trivial
    | stopped => trivial

lemma inv_joint_session (hi : s.Inv o) {d' : Device} (h : SessionStep s.device d') :
    ({ s with device := d' } : Joint).Inv o := by
  refine inv_device hi (inv_session hi.device h) h.holds (.inl h.fields.2.2.1) ?_
  cases h with
  | grant t nonce id hfree hnew hid hphase ht =>
    intro g hmem
    rcases List.mem_append.mp hmem with hold | hlast
    · exact .inl hold
    · obtain rfl := List.mem_singleton.mp hlast
      refine .inr ⟨hnew, fun i hmem' hc => ?_⟩
      exact hnew (ht ▸ hc.2 ▸ hmem')
  | keep t ht => exact fun g hmem => .inl hmem

lemma inv_joint_completed (hi : s.Inv o) {acks : List Ack} {d' : Device}
    (h : Completed { s.device with acks := acks } d') :
    ({ s with device := d' } : Joint).Inv o := by
  have hi' : ({ s.device with acks := acks } : Device).Inv :=
    { hi.device with stage := hi.device.stage }
  have hh := h.holds
  refine inv_device hi (inv_completed hi' h) ⟨⟨hh.ids, hh.current⟩, hh.bound⟩ ?_ ?_ <;>
    cases h <;> first | exact .inl rfl | exact fun g hg => .inl hg

lemma poll_fields (cfg : Config) (d : Device) (now : UInt32) (result : SetResult) :
    ((d.poll cfg now result).bound = d.bound ∨ (d.poll cfg now result).bound = []) ∧
      (d.poll cfg now result).granted = d.granted := by
  unfold Device.poll
  cases d.stage with
  | rest => exact ⟨.inl rfl, rfl⟩
  | sampled session now =>
    unfold Device.decide
    dsimp only
    split_ifs <;> exact ⟨.inl rfl, rfl⟩
  | decided restore same requested link => exact ⟨.inl rfl, rfl⟩
  | setting restore requested => cases result <;> exact ⟨.inl rfl, rfl⟩
  | failed => exact ⟨.inl rfl, rfl⟩
  | finishing restore =>
    cases restore with
    | true => exact ⟨.inr rfl, rfl⟩
    | false => exact ⟨.inl rfl, rfl⟩

lemma inv_joint_poll (hi : s.Inv o) (now : UInt32) (result : SetResult) :
    ({ s with device := s.device.poll cfg now result } : Joint).Inv o := by
  obtain ⟨hb, hg⟩ := poll_fields cfg s.device now result
  exact inv_device hi (inv_poll hi.device now result) (poll_holds hi.device now result) hb
    fun g hmem => .inl (hg ▸ hmem)

/-! ### The wire -/

lemma pairwise_eraseIdx {α : Type*} {R : α → α → Prop} (hsymm : ∀ x y, R x y → R y x)
    {l : List α} (h : l.Pairwise R) {k : ℕ} {m : α} (hk : l[k]? = some m) :
    ∀ x ∈ l.eraseIdx k, R m x := by
  induction l generalizing k with
  | nil => simp at hk
  | cons y l ih =>
    obtain ⟨hy, hl⟩ := List.pairwise_cons.mp h
    cases k with
    | zero =>
      obtain rfl : y = m := by simpa using hk
      exact hy
    | succ k =>
      have hk' : l[k]? = some m := by simpa using hk
      intro x hx
      rw [List.eraseIdx_cons_succ] at hx
      rcases List.mem_cons.mp hx with rfl | hx
      · exact hsymm _ _ (hy m (List.mem_of_getElem? hk'))
      · exact ih hl hk' x hx

/-- Frames that get lost leave the invariant. -/
lemma inv_fewer (hi : s.Inv o) {requests : List Request} {responses : List Response}
    (hreq : requests.Sublist s.requests) (hresp : ∀ r ∈ responses, r ∈ s.responses) :
    ({ s with requests := requests, responses := responses } : Joint).Inv o := by
  have hmem : ∀ m ∈ requests, m ∈ s.requests := fun m hm => hreq.subset hm
  have hclean : ∀ id, s.Clean id →
      ({ s with requests := requests, responses := responses } : Joint).Clean id :=
    fun id hc => ⟨fun m hm => hc.1 m (hmem m hm), hc.2⟩
  refine {
    device := hi.device
    known := fun m hm => hi.known m (hmem m hm)
    unbound := fun m hm => hi.unbound m (hmem m hm)
    apart := hi.apart.sublist hreq
    latest := fun m hm => hi.latest m (hmem m hm)
    held := hi.held
    settled := fun r hr => hi.settled r (hresp r hr)
    host := ?_ }
  have hok := hi.host
  unfold Joint.HostOk at hok ⊢
  dsimp only
  cases hphase : s.host.phase with
  | greeting =>
    rw [hphase] at hok
    exact fun id hid => hclean id (hok id hid)
  | holding =>
    rw [hphase] at hok
    obtain ⟨id, hid, hc⟩ := hok
    exact ⟨id, hid, hclean id hc⟩
  | trying a p => rw [hphase] at hok; exact hok
  | selected a => rw [hphase] at hok; exact hok
  | recovering => trivial
  | stopped => trivial

/-! ### A request is handled -/

lemma Accepted.bound {d d' : Device} {id : Id} {c : Call} {a : Arrival} {p : Payload}
    (h : Accepted d id c a d' p) : d'.granted = d.granted ∧
      (d'.bound = d.bound ∨ c.isPrepare = true ∧ d'.bound = id) := by
  cases h with
  | prepare baudRate now' t hm hphase =>
    unfold Device.acknowledge
    rw [hm]
    cases a.taken <;> exact ⟨rfl, .inr ⟨by simp [Call.isPrepare, hm], rfl⟩⟩
  | probe data t hm hb htoken hphase => exact ⟨rfl, .inl rfl⟩
  | commit t baud hm hb htoken hprobed hbaud =>
    unfold Device.acknowledge
    rw [hm]
    cases a.taken <;> exact ⟨rfl, .inl rfl⟩

/-- What an acknowledged commit says is so. -/
lemma Accepted.settled {d d' : Device} {id : Id} {c : Call} {a : Arrival} {token : Token}
    {rate timeoutMs delayMs : UInt32}
    (h : Accepted d id c a d' (.committed token rate timeoutMs delayMs)) :
    d.Settled id token rate := by
  generalize hp : Payload.committed token rate timeoutMs delayMs = p at h
  cases h with
  | prepare => exact absurd hp (by simp)
  | probe => exact absurd hp (by simp)
  | commit t baud hm hb htoken hprobed hbaud =>
    obtain ⟨rfl, rfl, -, -⟩ := Payload.committed.inj hp
    exact fun _ => ⟨hb, hprobed, htoken, rfl⟩

lemma Joint.Inv.holds (hi : s.Inv o) {m : Request} (hm : m ∈ s.requests) {a : Arrival}
    {d' : Device} {p : Payload} (hacc : Accepted s.device m.id m.call a d' p)
    (hid : s.device.Current m.id)
    (ht : d'.session = { s.device.session with lastActivityMs := a.now }) :
    s.device.Holds d' := by
  refine hacc.holds hid ht fun hprep => (hi.unbound m hm ?_).symm
  obtain ⟨baudRate, hb⟩ := hprep
  simp [Call.isPrepare, hb]

/-- The device accepts a request: its session is current, so the host is in the attempt that the
request belongs to. -/
lemma inv_accept (hi : s.Inv o) {k : ℕ} {m : Request} (hk : s.requests[k]? = some m) {a : Arrival}
    {d' : Device} {p : Payload} (hacc : Accepted s.device m.id m.call a d' p)
    (hid : s.device.Current m.id)
    (ht : d'.session = { s.device.session with lastActivityMs := a.now }) (hd : d'.Inv) :
    ({ s with device := d', requests := s.requests.eraseIdx k } : Joint).Inv o := by
  have hm : m ∈ s.requests := List.mem_of_getElem? hk
  have hsub : (s.requests.eraseIdx k).Sublist s.requests := List.eraseIdx_sublist _ _
  have hh := hi.holds hm hacc hid ht
  have hdirty : ∀ id, ¬s.Clean id := fun id hc => (hc.1 m hm).1.2 hid
  refine {
    device := hd
    known := fun x hx => hh.ids _ (hi.known x (hsub.subset hx))
    unbound := fun x hx hp => ?_
    apart := hi.apart.sublist hsub
    latest := fun x hx => (hi.latest x (hsub.subset hx)).imp_right hh.over
    held := fun id hid => hh.ids id (hi.held id hid)
    settled := fun r hr token rate timeoutMs delayMs hp => ?_
    host := ?_ }
  · rcases hacc.bound.2 with hb | ⟨hprep, hb⟩
    · exact hb ▸ hi.unbound x (hsub.subset hx) hp
    · have hapart := pairwise_eraseIdx (fun x y h hy hx => (h hx hy).symm) hi.apart hk x hx
      exact hb ▸ (hapart hprep hp).symm
  · obtain ⟨hid', hs⟩ := hi.settled r hr token rate timeoutMs delayMs hp
    exact ⟨hh.ids _ hid', hh.settled hid' hs⟩
  · have hok := hi.host
    unfold Joint.HostOk at hok ⊢
    dsimp only
    cases hphase : s.host.phase with
    | greeting =>
      rw [hphase] at hok
      intro id hmem
      exact absurd (hok id (hacc.bound.1 ▸ hmem)) (hdirty id)
    | holding =>
      rw [hphase] at hok
      obtain ⟨id, -, hc⟩ := hok
      exact absurd hc (hdirty id)
    | trying a p => rw [hphase] at hok; exact hok
    | selected a =>
      rw [hphase] at hok
      obtain ⟨id, hid', hs, hrest⟩ := hok
      exact ⟨id, hid', hh.settled (hi.held id hid') hs, hrest⟩
    | recovering => trivial
    | stopped => trivial

lemma inv_deliver (hi : s.Inv o) (hrest : s.device.stage = .rest) {k : ℕ} {m : Request}
    (hk : s.requests[k]? = some m) {a : Arrival} {d' : Device} {p : Payload}
    (h : Handled s.device m.id m.call a d' p) {responses : List Response}
    (hresp : ∀ r ∈ responses, r ∈ s.responses ∨ r = ⟨m.seq, m.id, p⟩) :
    ({ s with
      device := d'
      requests := s.requests.eraseIdx k
      responses := responses } : Joint).Inv o := by
  have hm : m ∈ s.requests := List.mem_of_getElem? hk
  have hsub : (s.requests.eraseIdx k).Sublist s.requests := List.eraseIdx_sublist _ _
  have hd := inv_handled hi.device hrest h
  -- the state before the answer is on the wire
  have hbase : ({ s with device := d', requests := s.requests.eraseIdx k } : Joint).Inv o := by
    cases h with
    | refused f t ht =>
      exact inv_joint_session (inv_fewer hi hsub fun _ h => h) (.keep t ht)
    | accepted hacc hid hlink ht => exact inv_accept hi hk hacc hid ht hd
  refine { hbase with settled := fun r hr token rate timeoutMs delayMs hp => ?_, host := hbase.host }
  rcases hresp r hr with hold | rfl
  · exact hbase.settled r hold token rate timeoutMs delayMs hp
  · cases h with
    | refused f t ht => exact absurd hp (by simp)
    | accepted hacc hid hlink ht =>
      obtain rfl : p = _ := hp
      have hh := hi.holds hm hacc hid ht
      exact ⟨hh.ids _ (hi.known m hm), hh.settled (hi.known m hm) hacc.settled⟩

/-! ### The host -/

/-- The host does something and sends nothing. -/
lemma inv_host (hi : s.Inv o) {h : Host} (hlatest : h.latest = s.host.latest)
    (hheld : ∀ id, h.sessionId = some id → id ∈ s.device.ids)
    (hok : ({ s with host := h } : Joint).HostOk o) : ({ s with host := h } : Joint).Inv o :=
  { hi with latest := fun m hm => hlatest ▸ hi.latest m hm, held := hheld, host := hok }

/-- The host sends a request: the first of an attempt in a clean session, or a later one. -/
lemma inv_send (hi : s.Inv o) {id : Id} (hid : s.host.sessionId = some id) {c : Call} {h : Host}
    {q : ℕ} {tokens : List Token} (hlatest : h.latest = some c.token)
    (hsession : h.sessionId = s.host.sessionId)
    (hnew : s.Clean id ∨ (c.isPrepare = false ∧ s.host.latest = some c.token))
    (hok : ({ s with
      host := h, requests := s.requests ++ [⟨q, id, c⟩], tokens := tokens } : Joint).HostOk o) :
    ({ s with
      host := h, requests := s.requests ++ [⟨q, id, c⟩], tokens := tokens } : Joint).Inv o := by
  have hmem : ∀ m ∈ s.requests ++ [⟨q, id, c⟩], m ∈ s.requests ∨ m = ⟨q, id, c⟩ := fun m hm => by
    simpa using hm
  refine {
    device := hi.device
    known := fun m hm => ?_
    unbound := fun m hm hp => ?_
    apart := ?_
    latest := fun m hm => ?_
    held := fun i hheld => hi.held i (hsession ▸ hheld)
    settled := hi.settled
    host := hok }
  · rcases hmem m hm with hm | rfl
    · exact hi.known m hm
    · exact hi.held id hid
  · rcases hmem m hm with hm | rfl
    · exact hi.unbound m hm hp
    · rcases hnew with hc | ⟨hprep, -⟩
      · exact hc.2.symm
      · exact absurd (hprep.symm.trans hp) (by decide)
  · refine List.pairwise_append.mpr ⟨hi.apart, List.pairwise_singleton _ _, ?_⟩
    intro m hm m' hm' hp hp'
    obtain rfl := List.mem_singleton.mp hm'
    rcases hnew with hc | ⟨hprep, -⟩
    · exact (hc.1 m hm).2
    · exact absurd (hprep.symm.trans hp') (by decide)
  · rcases hmem m hm with hm | rfl
    · rcases hnew with hc | ⟨-, hsame⟩
      · exact .inr (hc.1 m hm).1
      · exact (hi.latest m hm).imp_left fun hl => hlatest.trans (hsame.symm.trans hl)
    · exact .inl hlatest

lemma fresh_notMem {d : Device} {nonce : List UInt8} (h : d.fresh nonce = true) (id : Id) :
    (nonce, id) ∉ d.granted := by
  simp only [Device.fresh, Bool.and_eq_true, Bool.not_eq_true', List.contains_eq_mem,
    decide_eq_false_iff_not, List.mem_map, not_exists, not_and] at h
  exact fun hm => h.2 _ hm rfl

/-- The host goes on with a response that passes its tests, and recovers from any other. -/
lemma hostOk_judge (hi : s.Inv o) {r : Response} (hr : r ∈ s.responses)
    (hid : s.host.sessionId = some r.id) {a : Attempt} {p : Progress}
    (hok : s.host.latest = some a.token ∧ a.Echoed ∧
      a.echoes.map (·.sent.length) ++ p.left o = o.probeLengths ∧
      (p.tuned = true → s.host.rate = a.baudRate)) :
    ({ s with host := { s.host with phase := a.judge o p r.payload } } : Joint).HostOk o := by
  obtain ⟨hlatest, hecho, hlens, hrate⟩ := hok
  have hrecover : ({ s with host := { s.host with phase := .recovering } } : Joint).HostOk o :=
    trivial
  cases p with
  | preparing seq =>
    cases hp : r.payload with
    | prepared token baudRate timeoutMs delayMs =>
      simp only [Attempt.judge]
      split_ifs
      · exact ⟨hlatest, hecho, hlens, fun ht => absurd ht (by decide)⟩
      · exact hrecover
    | _ => exact hrecover
  | probing seq data lengths =>
    cases hp : r.payload with
    | probed token data' baudRate =>
      simp only [Attempt.judge]
      split_ifs with hsame
      · refine ⟨hlatest, fun e he => ?_, ?_, fun _ => hrate rfl⟩
        · rcases List.mem_append.mp he with he | he
          · exact hecho e he
          · obtain rfl := List.mem_singleton.mp he
            exact hsame
        · simpa [Progress.left] using hlens
      · exact hrecover
    | _ => exact hrecover
  | committing seq retried =>
    cases hp : r.payload with
    | committed token baudRate timeoutMs delayMs =>
      simp only [Attempt.judge]
      split_ifs with hsame
      · obtain ⟨-, hset⟩ := hi.settled r hr token baudRate timeoutMs delayMs hp
        obtain ⟨rfl, rfl⟩ := hsame
        exact ⟨r.id, hid, hset, hlatest, hecho, by simpa [Progress.left] using hlens, hrate rfl⟩
      · exact hrecover
    | _ => exact hrecover
  | switching => exact hrecover
  | verified lengths => exact hrecover

lemma inv_receive (hi : s.Inv o) {r : Response} (hr : r ∈ s.responses) :
    ({ s with host := s.host.receive o r } : Joint).Inv o := by
  unfold Host.receive
  cases hphase : s.host.phase with
  | trying a p =>
    dsimp only
    by_cases hwait : p.awaits = some r.seq ∧ s.host.sessionId = some r.id
    · rw [if_pos hwait]
      refine inv_host hi rfl hi.held ?_
      have hok := hi.host
      unfold Joint.HostOk at hok
      rw [hphase] at hok
      exact hostOk_judge hi hr hwait.2 hok
    · rw [if_neg hwait]
      exact hi
  | _ => exact hi

lemma inv_nextHost (hi : s.Inv o) {t : Joint} {a : Action} (h : s.nextHost o a = some t) :
    t.Inv o := by
  have hok := hi.host
  unfold Joint.HostOk at hok
  cases a with
  | startLoop =>
    simp only [Joint.nextHost] at h
    split_ifs at h with hcond
    obtain rfl := Option.some.inj h
    rw [hcond.1] at hok
    refine inv_host hi rfl hi.held ?_
    unfold Joint.HostOk
    dsimp only
    rw [hcond.1]
    exact hok
  | begin token =>
    simp only [Joint.nextHost] at h
    split at h
    · rename_i baudRate queue id hphase hqueue hid
      split_ifs at h
      obtain rfl := Option.some.inj h
      rw [hphase] at hok
      obtain ⟨id', hid', hclean⟩ := hok
      obtain rfl : id' = id := Option.some.inj (hid'.symm.trans hid)
      exact inv_send hi hid rfl rfl (.inl hclean)
        ⟨rfl, fun e he => absurd he (by simp), rfl, fun ht => by simp [Progress.tuned] at ht⟩
    · exact absurd h (by simp)
  | switched =>
    simp only [Joint.nextHost] at h
    split at h
    · rename_i a hphase
      obtain rfl := Option.some.inj h
      rw [hphase] at hok
      exact inv_host hi rfl hi.held ⟨hok.1, hok.2.1, hok.2.2.1, fun _ => rfl⟩
    · exact absurd h (by simp)
  | probe data =>
    simp only [Joint.nextHost] at h
    split at h
    · rename_i a n lengths id hphase hid
      split_ifs at h with hlen
      obtain rfl := Option.some.inj h
      rw [hphase] at hok
      refine inv_send hi hid hok.1 rfl (.inr ⟨rfl, hok.1⟩)
        ⟨hok.1, hok.2.1, ?_, fun _ => hok.2.2.2 rfl⟩
      simpa [Progress.left, hlen] using hok.2.2.1
    · exact absurd h (by simp)
  | commit =>
    simp only [Joint.nextHost] at h
    split at h
    · rename_i a id hphase hid
      obtain rfl := Option.some.inj h
      rw [hphase] at hok
      exact inv_send hi hid hok.1 rfl (.inr ⟨rfl, hok.1⟩)
        ⟨hok.1, hok.2.1, hok.2.2.1, fun _ => hok.2.2.2 rfl⟩
    · exact absurd h (by simp)
  | timeout =>
    simp only [Joint.nextHost] at h
    split at h
    · rename_i a seq id hphase hid
      obtain rfl := Option.some.inj h
      rw [hphase] at hok
      exact inv_send hi hid hok.1 rfl (.inr ⟨rfl, hok.1⟩)
        ⟨hok.1, hok.2.1, hok.2.2.1, fun _ => hok.2.2.2 rfl⟩
    · obtain rfl := Option.some.inj h
      exact inv_host hi rfl hi.held trivial
    · exact absurd h (by simp)
  | failed =>
    simp only [Joint.nextHost] at h
    split at h
    · obtain rfl := Option.some.inj h
      exact inv_host hi rfl hi.held trivial
    · exact absurd h (by simp)
  | aborted =>
    obtain rfl := Option.some.inj h
    exact inv_host hi rfl hi.held trivial
  | recovered nonce =>
    simp only [Joint.nextHost] at h
    split_ifs at h with hcond
    obtain rfl := Option.some.inj h
    refine inv_host hi rfl (fun _ hid => absurd hid (by simp)) ?_
    exact fun id hmem => absurd hmem (fresh_notMem hcond.2 id)
  | adopted id =>
    simp only [Joint.nextHost] at h
    split_ifs at h with hcond
    obtain rfl := Option.some.inj h
    rw [hcond.1] at hok
    refine inv_host hi rfl (fun i hid => ?_) ⟨id, rfl, hok id hcond.2⟩
    exact Option.some.inj hid ▸ mem_ids_of_granted hcond.2
  | reconnected nonce =>
    simp only [Joint.nextHost] at h
    split_ifs at h with hcond
    obtain rfl := Option.some.inj h
    refine inv_host hi rfl (fun _ hid => absurd hid (by simp)) ?_
    exact fun id hmem => absurd hmem (fresh_notMem hcond id)
  | receive k =>
    obtain ⟨r, hr, rfl⟩ := Option.map_eq_some_iff.mp h
    have hi' := inv_receive hi (List.mem_of_getElem? hr)
    exact inv_fewer hi' (List.Sublist.refl _) fun x hx => (List.eraseIdx_sublist _ _).subset hx
  | _ => exact absurd h (by simp [Joint.nextHost])

theorem inv_next (hi : s.Inv o) {t : Joint} {a : Action} (h : s.next cfg o a = some t) :
    t.Inv o := by
  cases a with
  | loseRequest k =>
    obtain rfl := Option.some.inj h
    exact inv_fewer hi (List.eraseIdx_sublist _ _) fun _ hr => hr
  | loseResponse k =>
    obtain rfl := Option.some.inj h
    exact inv_fewer hi (List.Sublist.refl _) fun x hx => (List.eraseIdx_sublist _ _).subset hx
  | deliver k a =>
    simp only [Joint.next] at h
    split at h
    · exact absurd h (by simp)
    · rename_i m hk
      by_cases hrest : s.device.stage = .rest
      · rw [if_pos hrest] at h
        obtain rfl := Option.some.inj h
        refine inv_deliver hi hrest hk (handle_handled s.device m.id m.call a) fun r hr => ?_
        by_cases htaken : a.taken = true
        · rw [if_pos htaken] at hr
          simpa using hr
        · rw [if_neg htaken] at hr
          exact .inl hr
      · rw [if_neg hrest] at h
        exact absurd h (by simp)
  | session op =>
    obtain ⟨d', hd, rfl⟩ := Option.map_eq_some_iff.mp h
    exact inv_joint_session hi (runSession_step hd)
  | complete k success now =>
    obtain ⟨ack, -, rfl⟩ := Option.map_eq_some_iff.mp h
    exact inv_joint_completed hi (txComplete_completed _ ack success now)
  | poll now result =>
    obtain rfl := Option.some.inj h
    exact inv_joint_poll hi now result
  | _ =>
    simp only [Joint.next] at h
    exact inv_nextHost hi h

lemma inv_boot (cfg : Config) (epoch : UInt32) :
    ({ session := init0 cfg epoch } : Device).Inv where
  granted := fun hp => absurd rfl hp
  bound := fun hb => absurd rfl hb
  named := by simp [Device.ids]
  owner := fun hc => absurd rfl hc.1
  rated := fun hs => by simp [Phase.switched] at hs
  fresh := fun hp => by simp at hp
  kept := fun hp => by simp at hp
  running := fun ha => by simp at ha
  stage := trivial

theorem inv_of_reaches {h : List Action} (hr : Reaches (negotiation cfg o) h s) : s.Inv o := by
  refine hr.stateInvariant (I := Joint.Inv o) ?_ fun _ _ _ hi hstep => inv_next hi hstep
  rintro s ⟨epoch, nonce, rfl⟩
  exact {
    device := inv_boot cfg epoch
    known := fun m hm => absurd hm (by simp)
    unbound := fun m hm => absurd hm (by simp)
    apart := .nil
    latest := fun m hm => absurd hm (by simp)
    held := fun id hid => absurd hid (by simp)
    settled := fun r hr => absurd hr (by simp)
    host := fun id hmem => absurd hmem (by simp) }

end EspVision.UartBaud
