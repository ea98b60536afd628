import EspVision.UartAgreement

/-!
# A selected speed and a commit that is repeated

What the two ends hold in every state of every run, once the host has taken the acknowledgement
of a commit, and what a commit does that comes a second time. The acknowledgement of a repeated
commit is a response like any other: when the multiplexer has no room for it, the device gives up
the speed that both ends had agreed on.
-/
namespace EspVision.UartBaud

open EvTransport EvSession TransitionSystem

/-! ## A repeated commit -/

/-- The step leaves the negotiation, the hardware and the session alone; an authorized request
refreshes the activity of its session. -/
structure Device.Unmoved (d d' : Device) : Prop where
  baud : d'.baud = d.baud
  link : d'.link = d.link
  bound : d'.bound = d.bound
  rate : d'.rate = d.rate
  paused : d'.paused = d.paused
  stage : d'.stage = d.stage
  session : ∃ now, d'.session = { d.session with lastActivityMs := now }

lemma Device.Unmoved.refl (d : Device) : d.Unmoved d :=
  ⟨rfl, rfl, rfl, rfl, rfl, rfl, d.session.lastActivityMs, rfl⟩

/-- The request commits what has been committed. -/
def Device.Repeats (d : Device) (c : Call) : Prop :=
  c.method = .commit ∧ c.token = d.baud.token ∧
    (d.baud.phase = .commitAck ∨ d.baud.phase = .active)

/-- The checks that a commit passes before its response is made. -/
def Device.acceptsCommit (d : Device) (id : Id) (c : Call) (a : Arrival) : Bool :=
  a.linkCurrent && checkOwnerLocked d.session a.link (some id) == .ok &&
    c.refused a.link == none && d.fromBound a.link id && (d.baud.commit c.token).isSome

/-- The device with the activity of its session refreshed. -/
def Device.refreshed (d : Device) (now : UInt32) : Device :=
  { d with session := { d.session with lastActivityMs := now } }

lemma Device.refreshed_unmoved (d : Device) (now : UInt32) : d.Unmoved (d.refreshed now) :=
  ⟨rfl, rfl, rfl, rfl, rfl, rfl, now, rfl⟩

/-- In phase ACTIVE a repeated commit that is accepted leaves the state machine as it is. -/
lemma commit_of_active {b b' : Baud} {token : Token} (hp : b.phase = .active)
    (h : b.commit token = some b') : b' = b := by
  unfold Baud.commit at h
  split_ifs at h with hok hactive
  · exact absurd hp hactive
  · exact (Option.some.inj h).symm

/-- No commit is accepted before the acknowledgement of the first one has completed. -/
lemma commit_of_waiting {b : Baud} {token : Token} (hp : b.phase = .commitAck) :
    b.commit token = none := by
  simp [Baud.commit, Baud.matching, hp]

lemma Device.Repeats.active {d : Device} {id : Id} {c : Call} {a : Arrival} (hr : d.Repeats c)
    (h : d.acceptsCommit id c a = true) : d.baud.phase = .active := by
  rcases hr.2.2 with hp | hp
  · simp [Device.acceptsCommit, commit_of_waiting hp] at h
  · exact hp

/-- An accepted repeat refreshes the session, and its acknowledgement is all that is left. -/
lemma handle_accepted_repeat {d : Device} {id : Id} {c : Call} {a : Arrival} (hr : d.Repeats c)
    (h : d.acceptsCommit id c a = true) :
    (d.handle id c a).1 = (d.refreshed a.now).acknowledge c a.taken := by
  have hactive := hr.active h
  simp only [Device.acceptsCommit, Bool.and_eq_true, beq_iff_eq] at h
  obtain ⟨⟨⟨⟨hcur, howner⟩, hok⟩, hfrom⟩, hsome⟩ := h
  obtain ⟨baud, hbaud⟩ := Option.isSome_iff_exists.mp hsome
  obtain rfl := commit_of_active hactive hbaud
  have hauth : authorize d.session a.link (some id) false none a.now a.linkCurrent =
      ({ d.session with lastActivityMs := a.now }, .ok) := by
    obtain ⟨-, -, -, hhello⟩ := checkOwnerLocked_ok.mp howner
    simp [authorize, hcur, howner, checkVm, hhello]
  have hfrom' : (d.refreshed a.now).fromBound a.link id = true := hfrom
  have hbaud' : (d.refreshed a.now).baud.commit c.token = some (d.refreshed a.now).baud := hbaud
  have hacc : (d.refreshed a.now).accept a.link id c a.now = some (d.refreshed a.now) := by
    simp [Device.accept, hr.1, hfrom', hbaud']
  unfold Device.handle
  rw [hauth]
  dsimp only
  change ((d.refreshed a.now).sendUartBaud a.link id c a.now a.taken).1 = _
  simp [Device.sendUartBaud, hok, hacc]

/-- A commit that is not accepted changes nothing. -/
lemma handle_refused_commit {d : Device} {id : Id} {c : Call} {a : Arrival}
    (hm : c.method = .commit) (h : d.acceptsCommit id c a = false) :
    d.Unmoved (d.handle id c a).1 := by
  unfold Device.handle
  rcases authorize_cases d.session a.link (some id) false none a.now a.linkCurrent with
    ⟨hauth, hcur, howner, -⟩ | ⟨hsame, hne⟩
  · rw [hauth]
    dsimp only
    change d.Unmoved ((d.refreshed a.now).sendUartBaud a.link id c a.now a.taken).1
    unfold Device.sendUartBaud
    cases hok : c.refused a.link with
    | some f => exact d.refreshed_unmoved a.now
    | none =>
      have hnone : (d.refreshed a.now).accept a.link id c a.now = none := by
        simp only [Device.acceptsCommit, hcur, howner, hok, beq_self_eq_true, Bool.and_self,
          Bool.true_and] at h
        simp only [Device.accept, hm]
        split_ifs with hfrom
        · have hfrom' : d.fromBound a.link id = true := hfrom
          rw [hfrom', Bool.true_and, Option.isSome_eq_false_iff, Option.isNone_iff_eq_none] at h
          exact Option.map_eq_none_iff.mpr h
        · rfl
      simp only [hnone]
      exact d.refreshed_unmoved a.now
  · cases hauth : authorize d.session a.link (some id) false none a.now a.linkCurrent with
    | mk t r =>
      rw [hauth] at hsame hne
      obtain rfl : t = d.session := hsame
      cases r with
      | ok => exact absurd rfl hne
      | _ => exact Device.Unmoved.refl d

/-- A repeated commit changes nothing, unless it is accepted and its acknowledgement is not taken
by the multiplexer. -/
lemma repeat_unmoved_iff {d : Device} {id : Id} {c : Call} {a : Arrival} (hr : d.Repeats c) :
    d.Unmoved (d.handle id c a).1 ↔ (d.acceptsCommit id c a = true → a.taken = true) := by
  cases hacc : d.acceptsCommit id c a with
  | false => exact ⟨fun _ h => absurd h (by simp), fun _ => handle_refused_commit hr.1 hacc⟩
  | true =>
    rw [handle_accepted_repeat hr hacc]
    unfold Device.acknowledge
    rw [hr.1]
    cases htaken : a.taken with
    | true => exact ⟨fun _ _ => rfl, fun _ => ⟨rfl, rfl, rfl, rfl, rfl, rfl, a.now, rfl⟩⟩
    | false =>
      -- phase RESTORE takes the place of phase ACTIVE
      refine ⟨fun h => ?_, fun h => absurd (h rfl) (by simp)⟩
      have hphase : Phase.restore = d.baud.phase := congrArg Baud.phase h.baud
      rw [hr.active hacc] at hphase
      exact absurd hphase (by decide)

/-- The completion of a commit that does not wait for it changes nothing. -/
lemma commit_completion_unmoved {d : Device} (hi : d.Inv) (acks : List Ack) {token : Token}
    (hwait : ¬(d.baud.phase = .commitAck ∧ d.baud.token = token)) (success : Bool) (now : UInt32) :
    d.Unmoved (({ d with acks := acks } : Device).txComplete (.commit token) success now) := by
  have hbaud : d.baud.commitComplete token success = d.baud := if_neg hwait
  refine ⟨hbaud, rfl, rfl, rfl, ?_, rfl, d.session.lastActivityMs, rfl⟩
  simp only [Device.txComplete, hbaud]
  split_ifs with hactive
  · exact (hi.running hactive).symm
  · rfl

/-! ## A request of an earlier attempt -/

variable {cfg : Config} {o : Options} {s t : Joint}

/-- What the device accepts is of the host's latest attempt. -/
lemma accepted_latest (hi : s.Inv o) {m : Request} (hm : m ∈ s.requests) (a : Arrival) :
    (∃ f, (s.device.handle m.id m.call a).2 = .error f) ∨
      s.host.latest = some m.call.token := by
  have hh := handle_handled s.device m.id m.call a
  generalize s.device.handle m.id m.call a = r at hh
  obtain ⟨d', p⟩ := r
  cases hh with
  | refused f => exact .inl ⟨f, rfl⟩
  | accepted hacc hid => exact .inr ((hi.latest m hm).resolve_right fun h => h.2 hid)

/-! ## The acknowledgement that the host takes -/

/-- Only the acknowledgement of a commit makes the host select a speed. -/
lemma judge_selected {a b : Attempt} {p : Progress} {payload : Payload}
    (h : a.judge o p payload = .selected b) :
    ∃ timeoutMs delayMs, payload = .committed b.token b.baudRate timeoutMs delayMs := by
  unfold Attempt.judge at h
  split at h
  · split_ifs at h
  · split_ifs at h
  · rename_i token rate timeoutMs delayMs
    split_ifs at h with hsame
    obtain rfl := HostPhase.selected.inj h
    exact ⟨timeoutMs, delayMs, by rw [hsame.1, hsame.2]⟩
  · exact absurd h (by simp)

/-- A host that selects a speed has taken the acknowledgement of its own commit. -/
lemma receive_selected {h : Host} {r : Response} {a : Attempt}
    (hs : (h.receive o r).phase = .selected a) (hn : h.phase ≠ .selected a) :
    h.sessionId = some r.id ∧
      ∃ timeoutMs delayMs, r.payload = .committed a.token a.baudRate timeoutMs delayMs := by
  unfold Host.receive at hs
  cases hphase : h.phase with
  | trying b p =>
    rw [hphase] at hs
    dsimp only at hs
    by_cases hwait : p.awaits = some r.seq ∧ h.sessionId = some r.id
    · rw [if_pos hwait] at hs
      exact ⟨hwait.2, judge_selected hs⟩
    · rw [if_neg hwait] at hs
      exact absurd hs hn
  | _ =>
    rw [hphase] at hs
    exact absurd hs hn

lemma next_receive {k : ℕ} {r : Response} (hk : s.responses[k]? = some r)
    (h : s.next cfg o (.receive k) = some t) : t.host = s.host.receive o r := by
  simp only [Joint.next, Joint.nextHost, hk, Option.map_some, Option.some.injEq] at h
  exact h ▸ rfl

/-- The speed that the host has selected is the device's for as long as the session lasts, and
every probe of its attempt was echoed. -/
lemma selected_agreed (hi : s.Inv o) {a : Attempt} {id : Id} (hp : s.host.phase = .selected a)
    (hid : s.host.sessionId = some id) :
    (s.device.Current id → s.device.rate = a.baudRate) ∧ s.host.rate = a.baudRate ∧
      a.Echoed ∧ a.echoes.map (·.sent.length) = o.probeLengths := by
  have hok := hi.host
  unfold Joint.HostOk at hok
  rw [hp] at hok
  obtain ⟨id', hid', hset, -, hecho, hlens, hrate⟩ := hok
  obtain rfl : id' = id := Option.some.inj (hid'.symm.trans hid)
  refine ⟨fun hc => ?_, hrate, hecho, hlens⟩
  obtain ⟨hb, hprobed, -, hreq⟩ := hset hc
  rw [← hreq]
  exact hi.device.kept hprobed (hb ▸ hc)

/-- **The two ends agree on the speed.** In every state of every run: while the session of a host
that has selected a speed is current, the device runs at that speed, and every probe of the
attempt was echoed exactly; the acknowledgement that selects is of the attempt's own token and
speed; what the device accepts is of the latest attempt; and a repeated commit changes nothing
exactly when it is refused or its acknowledgement is taken. -/
theorem uart_baud_agreement {h : List Action} (hr : Reaches (negotiation cfg o) h s) :
    (∀ a id, s.host.phase = .selected a → s.host.sessionId = some id →
      (s.device.Current id → s.device.rate = a.baudRate) ∧ s.host.rate = a.baudRate ∧
        a.Echoed ∧ a.echoes.map (·.sent.length) = o.probeLengths) ∧
    (∀ k r a t, s.responses[k]? = some r → s.next cfg o (.receive k) = some t →
      t.host.phase = .selected a → s.host.phase ≠ .selected a →
        s.host.sessionId = some r.id ∧
          ∃ timeoutMs delayMs, r.payload = .committed a.token a.baudRate timeoutMs delayMs) ∧
    (∀ m ∈ s.requests, ∀ a, (∃ f, (s.device.handle m.id m.call a).2 = .error f) ∨
      s.host.latest = some m.call.token) ∧
    (∀ k m a t, s.requests[k]? = some m → s.device.Repeats m.call →
      s.next cfg o (.deliver k a) = some t →
        (s.device.Unmoved t.device ↔
          (s.device.acceptsCommit m.id m.call a = true → a.taken = true))) ∧
    (∀ k token success now t, s.device.acks[k]? = some (.commit token) →
      ¬(s.device.baud.phase = .commitAck ∧ s.device.baud.token = token) →
      s.next cfg o (.complete k success now) = some t → s.device.Unmoved t.device) := by
  have hi := inv_of_reaches hr
  refine ⟨fun a id => selected_agreed hi, fun k r a t hk hstep hs hn => ?_,
    fun m hm a => accepted_latest hi hm a, fun k m a t hk hrep hstep => ?_,
    fun k token success now t hk hwait hstep => ?_⟩
  · rw [next_receive hk hstep] at hs
    exact receive_selected hs hn
  · simp only [Joint.next, hk] at hstep
    split_ifs at hstep
    all_goals
      obtain rfl := Option.some.inj hstep
      exact repeat_unmoved_iff hrep
  · simp only [Joint.next, hk, Option.map_some, Option.some.injEq] at hstep
    subst hstep
    exact commit_completion_unmoved hi.device (s.device.acks.eraseIdx k) hwait success now

/-! ## A run -/

/-- Take actions one after the other. -/
def Joint.run (cfg : Config) (o : Options) (s : Joint) : List Action → Option Joint
  | [] => some s
  | a :: as => (s.next cfg o a).bind fun t => t.run cfg o as

lemma Joint.run_path {as : List Action} {s t : Joint} (h : s.run cfg o as = some t) :
    Path (negotiation cfg o) s as t := by
  induction as generalizing s with
  | nil =>
    obtain rfl := Option.some.inj h
    exact .nil s
  | cons a as ih =>
    obtain ⟨u, hs, h⟩ := Option.bind_eq_some_iff.mp h
    exact .cons hs (ih h)

lemma reaches_run {epoch : UInt32} {nonce : List UInt8} {as : List Action}
    (h : Joint.run cfg o
      { device := { session := init0 cfg epoch }, host := { nonce := nonce } } as = some s) :
    Reaches (negotiation cfg o) as s := by
  have h₀ : Reaches (negotiation cfg o) []
      { device := { session := init0 cfg epoch }, host := { nonce := nonce } } :=
    .init ⟨epoch, nonce, rfl⟩
  simpa using h₀.append (Joint.run_path h)

def uartLink : LinkRef := ⟨.uart, 0, 1⟩
def shortProbes : Options := { candidates := [2000000, 115200], probeBytes := 32, timeoutMs := 5000 }
def someToken : Token := List.replicate 32 0x61
def someProbe : List UInt8 := List.replicate 32 0x62

/-- Five stages of the poll, from one time on. -/
def wholePoll (now : UInt32) : List Action := List.replicate 5 (.poll now .ok)

/-- A request goes over and its response comes back. -/
def exchange (now : UInt32) : List Action := [.deliver 0 ⟨uartLink, now, true, true⟩, .receive 0]

/-- A host switches to the first speed, probes it and sends the commit. -/
def committing : List Action :=
  [Action.session (.acquire uartLink someNonce 0 someWords true),
    .session (.helloComplete uartLink (makeId someWords) true), .adopted (makeId someWords),
    .startLoop, .begin someToken] ++ exchange 10 ++ [Action.complete 0 true 20] ++ wholePoll 200 ++
  [Action.switched, .probe someProbe] ++ exchange 210 ++ [Action.probe someProbe] ++
  exchange 220 ++ [Action.commit]

/-- The acknowledgement of the commit is lost, and the host sends the commit again. -/
def recommitting : List Action :=
  committing ++ [Action.deliver 0 ⟨uartLink, 230, true, true⟩, .complete 0 true 240, .loseResponse 0,
    .timeout]

def fromStart (as : List Action) : Option Joint :=
  Joint.run noSinks shortProbes
    { device := { session := init0 noSinks 7 }, host := { nonce := someNonce } } as

/-- A selected speed at both ends. -/
theorem uart_baud_agreement_selected :
    ∃ s a, Reaches (negotiation noSinks shortProbes) (committing ++ exchange 230) s ∧
      s.host.phase = .selected a ∧ s.device.Current (makeId someWords) ∧
      s.device.rate = 2000000 ∧ s.host.rate = a.baudRate := by
  obtain ⟨s, hs⟩ := Option.isSome_iff_exists.mp
    (show (fromStart (committing ++ exchange 230)).isSome = true by decide +kernel)
  have hview : ((fromStart (committing ++ exchange 230)).map fun s =>
      (s.host.phase, s.host.sessionId, decide (s.device.Current (makeId someWords)))) =
      some (.selected ⟨someToken, 2000000,
        [⟨someProbe, someToken, someProbe⟩, ⟨someProbe, someToken, someProbe⟩]⟩,
        some (makeId someWords), true) := by decide +kernel
  rw [hs] at hview
  obtain ⟨hphase, hview⟩ := Prod.ext_iff.mp (Option.some.inj hview)
  obtain ⟨hid, hcur⟩ := Prod.ext_iff.mp hview
  have hc : s.device.Current (makeId someWords) := of_decide_eq_true hcur
  obtain ⟨hrate, hhost, -, -⟩ := (uart_baud_agreement (reaches_run hs)).1 _ _ hphase hid
  exact ⟨s, _, reaches_run hs, hphase, hc, hrate hc, hhost⟩

/-- Both ends run at the new speed and only the acknowledgement is lost. The multiplexer has no
room for the acknowledgement of the repeated commit: the device drops the session and goes back to
the baseline speed, while the host still waits at the new one. -/
theorem repeated_commit_rolls_back :
    ∃ s t u, Reaches (negotiation noSinks shortProbes) recommitting s ∧
      s.device.baud.phase = .active ∧ s.device.rate = s.host.rate ∧
      (∃ m, s.requests[0]? = some m ∧ s.device.Repeats m.call) ∧
      s.next noSinks shortProbes (.deliver 0 ⟨uartLink, 250, true, false⟩) = some t ∧
      t.device.baud.phase = .restore ∧ ¬s.device.Unmoved t.device ∧
      t.run noSinks shortProbes (wholePoll 300) = some u ∧
      u.device.session.phase = .free ∧ u.device.rate = baseline ∧ u.host.rate = 2000000 := by
  obtain ⟨s, hs⟩ := Option.isSome_iff_exists.mp
    (show (fromStart recommitting).isSome = true by decide +kernel)
  have hview : (fromStart recommitting).bind (fun s => s.requests[0]?.bind fun m =>
      (s.next noSinks shortProbes (.deliver 0 ⟨uartLink, 250, true, false⟩)).bind fun t =>
        (t.run noSinks shortProbes (wholePoll 300)).map fun u =>
          decide (s.device.baud.phase = .active ∧ s.device.rate = s.host.rate ∧
            (m.call.method = .commit ∧ m.call.token = s.device.baud.token) ∧
            t.device.baud.phase = .restore ∧ u.device.session.phase = .free ∧
            u.device.rate = baseline ∧ u.host.rate = 2000000)) = some true := by decide +kernel
  rw [hs, Option.bind_some] at hview
  obtain ⟨m, hm, hview⟩ := Option.bind_eq_some_iff.mp hview
  obtain ⟨t, ht, hview⟩ := Option.bind_eq_some_iff.mp hview
  obtain ⟨u, hu, hview⟩ := Option.map_eq_some_iff.mp hview
  obtain ⟨hactive, hrate, ⟨hcommit, htoken⟩, hrestore, hend⟩ := of_decide_eq_true hview
  refine ⟨s, t, u, reaches_run hs, hactive, hrate, ⟨m, hm, hcommit, htoken, .inr hactive⟩, ht,
    hrestore, fun h => ?_, hu, hend⟩
  rw [h.baud, hactive] at hrestore
  exact absurd hrestore (by decide)

end EspVision.UartBaud
