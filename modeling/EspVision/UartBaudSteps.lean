import EspVision.UartBaud

/-!
# What each step of the UART negotiation can do

A session that has been granted and is not current any more never comes back. A negotiation is
bound to one session, and the hardware leaves its speed only after that session is over.
-/
namespace EspVision.UartBaud

open EvTransport EvSession

/-! ## Sessions -/

/-- The owned or releasing session has this id. -/
def Device.Current (d : Device) (id : Id) : Prop :=
  d.session.phase ≠ .free ∧ d.session.sessionId = id

instance (d : Device) (id : Id) : Decidable (d.Current id) := by
  unfold Device.Current
  infer_instance

/-- The ids granted so far. -/
def Device.ids (d : Device) : List Id := d.granted.map (·.2)

/-- The session has been granted and is not current any more. -/
def Device.Over (d : Device) (id : Id) : Prop := id ∈ d.ids ∧ ¬d.Current id

/-- A session that is there afterwards was there before. -/
def Keeps (s t : EvSession.State) : Prop :=
  t.phase ≠ .free → s.phase ≠ .free ∧ t.sessionId = s.sessionId ∧ t.ownerLink = s.ownerLink

lemma Keeps.refl (s : EvSession.State) : Keeps s s := fun h => ⟨h, rfl, rfl⟩

lemma keeps_of_free {s t : EvSession.State} (h : t.phase = .free) : Keeps s t :=
  fun hne => absurd h hne

/-- What a section of the session manager does to the device. -/
inductive SessionStep (d : Device) : Device → Prop
  | grant (t : EvSession.State) (nonce : List UInt8) (id : Id) (hfree : d.session.phase = .free)
      (hnew : id ∉ d.ids) (hid : id ≠ []) (hphase : t.phase ≠ .free) (ht : t.sessionId = id) :
      SessionStep d { d with session := t, granted := d.granted ++ [(nonce, id)] }
  | keep (t : EvSession.State) (ht : Keeps d.session t) : SessionStep d { d with session := t }

lemma keeps_of_effect {cfg : Config} {s t : EvSession.State} {e : Event}
    (h : Effect cfg s e t) (hg : e.granted = none) : Keeps s t := by
  cases h with
  | granted link nonce now id hs ht hg' => exact absurd (hg.symm.trans hg') (by simp)
  | freed hs ht => exact keeps_of_free (by rw [ht]; rfl)
  | releasing hs ht => exact fun _ => ⟨by simp [hs], by rw [ht]; rfl, by rw [ht]; rfl⟩
  | completed hs ht => exact fun _ => ⟨by simp [hs], by rw [ht], by rw [ht]⟩
  | refreshed now hs ht => exact fun _ => ⟨by simp [hs], by rw [ht], by rw [ht]⟩
  | advanced ht => exact fun hp => ⟨by rw [ht] at hp; exact hp, by rw [ht]; rfl, by rw [ht]; rfl⟩
  | ready b ht => exact fun hp => ⟨by rw [ht] at hp; exact hp, by rw [ht]; rfl, by rw [ht]; rfl⟩
  | same ht => exact ht ▸ Keeps.refl s

theorem runSession_step {cfg : Config} {d d' : Device} {op : Op}
    (h : d.runSession cfg op = some d') : SessionStep d d' := by
  have heff : Effect cfg d.session ⟨op, (op.apply cfg d.session).2⟩ (op.apply cfg d.session).1 :=
    apply_effect cfg rfl
  cases op with
  | acquire link nonce now random cur =>
    rcases acquire_cases d.session link nonce now random cur with
      ⟨hf, -, ha⟩ | ⟨ho, -, -, -, ha⟩ | ⟨r, ha⟩
    · simp only [Device.runSession, Op.apply, ha] at h
      by_cases hin : makeId random ∈ d.granted.map (·.2)
      · rw [if_pos (List.contains_iff_mem.mpr hin)] at h
        exact absurd h (by simp)
      · rw [if_neg (mt List.contains_iff_mem.mp hin)] at h
        obtain rfl := Option.some.inj h
        exact .grant _ nonce _ hf hin (makeId_ne_nil random) (by simp) rfl
    · simp only [Device.runSession, Op.apply, ha, Option.some.injEq] at h
      subst h
      exact .keep _ fun _ => ⟨by simp [ho], rfl, rfl⟩
    · simp only [Device.runSession, Op.apply, ha, Option.some.injEq] at h
      subst h
      exact .keep _ (Keeps.refl _)
  | _ =>
    simp only [Device.runSession, Option.some.injEq] at h
    subst h
    exact .keep _ (keeps_of_effect heff rfl)

section Over

variable {d d' : Device}

lemma SessionStep.current (h : SessionStep d d') {id : Id} (hid : id ∈ d.ids)
    (hc : d'.Current id) : d.Current id ∧ d'.session.ownerLink = d.session.ownerLink := by
  cases h with
  | grant t nonce id' hfree hnew _ _ ht => exact absurd hid (hc.2 ▸ ht ▸ hnew)
  | keep t ht =>
    obtain ⟨hp, hs, hl⟩ := ht hc.1
    exact ⟨⟨hp, hs ▸ hc.2⟩, hl⟩

lemma SessionStep.ids (h : SessionStep d d') {id : Id} (hid : id ∈ d.ids) : id ∈ d'.ids := by
  cases h with
  | grant t nonce id' =>
    simp only [Device.ids, List.map_append, List.mem_append]
    exact .inl hid
  | keep t => exact hid

end Over

/-! ## Requests -/

/-- What a request that is accepted does, and on what condition. -/
inductive Accepted (d : Device) (id : Id) (c : Call) (a : Arrival) : Device → Payload → Prop
  | prepare (baudRate now' : UInt32) (t : EvSession.State) (hm : c.method = .prepare baudRate)
      (hphase : d.baud.phase = .idle ∨ d.baud.phase = .active) :
      Accepted d id c a
        ({ d with
          session := t
          baud := ⟨.prepareAck, baudRate, now', false, c.token⟩
          link := a.link
          bound := id
          paused := true }.acknowledge c a.taken)
        (.prepared c.token baudRate timeoutMs switchDelayMs)
  | probe (data : List UInt8) (t : EvSession.State) (hm : c.method = .probe data)
      (hbound : d.bound = id) (htoken : d.baud.token = c.token)
      (hphase : d.baud.phase = .probing ∨ d.baud.phase = .active) :
      Accepted d id c a { d with session := t, baud := { d.baud with probed := true } }
        (.probed c.token data d.baud.requested)
  | commit (t : EvSession.State) (baud : Baud) (hm : c.method = .commit) (hbound : d.bound = id)
      (htoken : d.baud.token = c.token) (hprobed : d.baud.probed = true)
      (hbaud : (d.baud.phase = .active ∧ baud = d.baud) ∨
        (d.baud.phase = .probing ∧ baud = { d.baud with phase := .commitAck })) :
      Accepted d id c a ({ d with session := t, baud := baud }.acknowledge c a.taken)
        (.committed c.token d.baud.requested timeoutMs switchDelayMs)

/-- A request is refused and changes at most the activity of the session, or it is accepted, and
then its session is current. -/
inductive Handled (d : Device) (id : Id) (c : Call) (a : Arrival) : Device → Payload → Prop
  | refused (f : Fault) (t : EvSession.State) (ht : Keeps d.session t) :
      Handled d id c a { d with session := t } (.error f)
  | accepted {d' : Device} {p : Payload} (h : Accepted d id c a d' p) (hid : d.Current id)
      (hlink : a.link = d.session.ownerLink)
      (ht : d'.session = { d.session with lastActivityMs := a.now }) : Handled d id c a d' p

lemma matching_iff {s : Baud} {token : Token} :
    s.matching token = true ↔ (s.phase = .probing ∨ s.phase = .active) ∧ s.token = token := by
  simp [Baud.matching]

lemma acknowledge_session (d : Device) (c : Call) (taken : Bool) :
    (d.acknowledge c taken).session = d.session := by
  unfold Device.acknowledge
  cases c.method <;> cases taken <;> rfl

theorem sendUartBaud_accepted {d : Device} {id : Id} {c : Call} {a : Arrival}
    (t : EvSession.State) :
    let r := { d with session := t }.sendUartBaud a.link id c a.now a.taken
    (∃ f, r = ({ d with session := t }, .error f)) ∨
      (Accepted d id c a r.1 r.2 ∧ r.1.session = t) := by
  intro r
  cases hr : c.refused a.link with
  | some f => exact .inl ⟨f, by simp [r, Device.sendUartBaud, hr]⟩
  | none =>
    cases hacc : { d with session := t }.accept a.link id c a.now with
    | none => exact .inl ⟨.invalidState, by simp [r, Device.sendUartBaud, hr, hacc]⟩
    | some d' =>
      have hres : r = (d'.acknowledge c a.taken, d'.response c) := by
        simp [r, Device.sendUartBaud, hr, hacc]
      right
      rw [hres]
      cases hm : c.method with
      | prepare baudRate =>
        simp only [Device.accept, hm, Option.map_eq_some_iff] at hacc
        obtain ⟨baud, hprep, rfl⟩ := hacc
        unfold Baud.prepare at hprep
        split_ifs at hprep with hcond
        obtain rfl := Option.some.inj hprep
        simp only [not_or, not_and_or, not_not] at hcond
        refine ⟨?_, acknowledge_session _ _ _⟩
        simp only [Device.response, hm]
        exact .prepare baudRate a.now t hm hcond.1
      | probe data =>
        simp only [Device.accept, hm] at hacc
        split_ifs at hacc with hcond
        obtain rfl := Option.some.inj hacc
        simp only [Device.fromBound, Bool.and_eq_true, beq_iff_eq, matching_iff] at hcond
        refine ⟨?_, acknowledge_session _ _ _⟩
        simp only [Device.response, Device.acknowledge, hm]
        exact .probe data t hm hcond.1.2.symm hcond.2.2 hcond.2.1
      | commit =>
        simp only [Device.accept, hm] at hacc
        split_ifs at hacc with hcond
        obtain ⟨baud, hcommit, rfl⟩ := Option.map_eq_some_iff.mp hacc
        unfold Baud.commit at hcommit
        split_ifs at hcommit with hok hactive
        all_goals
          obtain rfl := Option.some.inj hcommit
          simp only [Bool.or_eq_true, Bool.not_eq_true', not_or, Bool.not_eq_false,
            matching_iff] at hok
          simp only [Device.fromBound, Bool.and_eq_true, beq_iff_eq] at hcond
          refine ⟨?_, acknowledge_session _ _ _⟩
          simp only [Device.response, hm]
        · exact .commit t _ hm hcond.2.symm hok.1.2 hok.2
            (.inr ⟨hok.1.1.resolve_right hactive, rfl⟩)
        · exact .commit t _ hm hcond.2.symm hok.1.2 hok.2 (.inl ⟨not_not.mp hactive, rfl⟩)

theorem handle_handled (d : Device) (id : Id) (c : Call) (a : Arrival) :
    Handled d id c a (d.handle id c a).1 (d.handle id c a).2 := by
  rcases authorize_cases d.session a.link (some id) false none a.now a.linkCurrent with
    ⟨hauth, -, howner, -⟩ | ⟨hsame, hne⟩
  · obtain ⟨hphase, hlink, hid, -⟩ := checkOwnerLocked_ok.mp howner
    have hh : d.handle id c a =
        Device.sendUartBaud { d with session := { d.session with lastActivityMs := a.now } }
          a.link id c a.now a.taken := by
      simp [Device.handle, hauth]
    rw [hh]
    rcases @sendUartBaud_accepted d id c a
        { d.session with lastActivityMs := a.now } with ⟨f, hf⟩ | ⟨hacc, hs⟩
    · rw [hf]
      exact .refused f _ fun hp => ⟨hp, rfl, rfl⟩
    · exact .accepted hacc ⟨by simp [hphase], (Option.some.inj hid).symm⟩ hlink hs
  · cases hauth : authorize d.session a.link (some id) false none a.now a.linkCurrent with
    | mk t r =>
      rw [hauth] at hsame hne
      subst hsame
      cases r with
      | ok => exact absurd rfl hne
      | _ =>
        simp only [Device.handle, hauth]
        exact .refused _ _ (Keeps.refl _)

/-! ## The invariant of the device -/

/-- What the stage of the poll says of the negotiation. -/
def Device.StageOk (d : Device) : Prop :=
  match d.stage with
  | .rest | .failed => True
  | .sampled session _ => d.Current d.bound → d.sameOwner session = true
  | .decided restore same requested link =>
    link = d.link ∧
      if restore then d.baud.phase = .restore ∧ requested = baseline ∧
        (d.Current d.bound → same = true)
      else d.baud.phase = .waitSwitch ∧ requested = d.baud.requested
  | .setting restore requested =>
    if restore then d.baud.phase = .restore ∧ requested = baseline ∧ ¬d.Current d.bound
    else d.baud.phase = .waitSwitch ∧ requested = d.baud.requested
  | .finishing restore =>
    if restore then d.baud.phase = .restore ∧ d.rate = baseline ∧ ¬d.Current d.bound
    else d.baud.phase = .waitSwitch ∧ d.rate = d.baud.requested

/-- The hardware is switched and a probe may be answered. -/
def Phase.switched : Phase → Bool
  | .probing | .commitAck | .active => true
  | _ => false

/-- The session that is there has been granted; the bound session comes from the bound link; the
hardware has the requested speed in every switched phase, and after a probe as long as the bound
session is current; and ordinary output runs in phase ACTIVE. -/
structure Device.Inv (d : Device) : Prop where
  granted : d.session.phase ≠ .free → d.session.sessionId ∈ d.ids
  bound : d.bound ≠ [] → d.bound ∈ d.ids
  named : [] ∉ d.ids
  owner : d.Current d.bound → d.session.ownerLink = d.link
  rated : d.baud.phase.switched = true → d.rate = d.baud.requested
  fresh : d.baud.probed = true → d.baud.phase.switched = true ∨ d.baud.phase = .restore
  kept : d.baud.probed = true → d.Current d.bound → d.rate = d.baud.requested
  running : d.baud.phase = .active → d.paused = false
  stage : d.StageOk

lemma Device.Inv.current_mem {d : Device} (hi : d.Inv) {id : Id} (hc : d.Current id) :
    id ∈ d.ids := hc.2 ▸ hi.granted hc.1

/-- No section of the session manager makes the bound session current. -/
lemma SessionStep.current_bound {d d' : Device} (h : SessionStep d d') (hi : d.Inv)
    (hc : d'.Current d.bound) :
    d.Current d.bound ∧ d'.session.ownerLink = d.session.ownerLink := by
  by_cases hb : d.bound = []
  · cases h with
    | grant t nonce id _ _ hid _ ht => exact absurd (ht.symm.trans (hc.2.trans hb)) hid
    | keep t ht =>
      obtain ⟨hp, hs, hl⟩ := ht hc.1
      exact ⟨⟨hp, hs ▸ hc.2⟩, hl⟩
  · exact h.current (hi.bound hb) hc

lemma SessionStep.fields {d d' : Device} (h : SessionStep d d') :
    d'.baud = d.baud ∧ d'.link = d.link ∧ d'.bound = d.bound ∧ d'.rate = d.rate ∧
      d'.paused = d.paused ∧ d'.stage = d.stage ∧ d'.acks = d.acks := by
  cases h <;> exact ⟨rfl, rfl, rfl, rfl, rfl, rfl, rfl⟩

lemma stageOk_of_current {d d' : Device} (h : d.StageOk) (hbaud : d'.baud = d.baud)
    (hlink : d'.link = d.link) (hbound : d'.bound = d.bound) (hrate : d'.rate = d.rate)
    (hstage : d'.stage = d.stage) (hc : d'.Current d.bound → d.Current d.bound) : d'.StageOk := by
  have hsame : ∀ session, d'.sameOwner session = d.sameOwner session := fun session => by
    simp [Device.sameOwner, hlink, hbound]
  unfold Device.StageOk at h ⊢
  rw [hstage, hbaud, hlink, hbound, hrate]
  cases hst : d.stage with
  | rest => trivial
  | failed => trivial
  | sampled session now =>
    rw [hst] at h
    intro hcur
    rw [hsame]
    exact h (hc hcur)
  | decided restore same requested link =>
    rw [hst] at h
    obtain ⟨hl, h⟩ := h
    refine ⟨hl, ?_⟩
    cases restore with
    | false => exact h
    | true => exact ⟨h.1, h.2.1, fun hcur => h.2.2 (hc hcur)⟩
  | setting restore requested =>
    rw [hst] at h
    cases restore with
    | false => exact h
    | true => exact ⟨h.1, h.2.1, fun hcur => h.2.2 (hc hcur)⟩
  | finishing restore =>
    rw [hst] at h
    cases restore with
    | false => exact h
    | true => exact ⟨h.1, h.2.1, fun hcur => h.2.2 (hc hcur)⟩

theorem inv_session {d d' : Device} (hi : d.Inv) (h : SessionStep d d') : d'.Inv := by
  obtain ⟨hbaud, hlink, hbound, hrate, hpaused, hstage, -⟩ := h.fields
  have hids : ∀ id ∈ d.ids, id ∈ d'.ids := fun id hid => h.ids hid
  refine {
    granted := ?_
    bound := fun hb => ?_
    named := ?_
    owner := fun hc => ?_
    rated := by rw [hbaud, hrate]; exact hi.rated
    fresh := by rw [hbaud]; exact hi.fresh
    kept := fun hp hc => ?_
    running := by rw [hbaud, hpaused]; exact hi.running
    stage := stageOk_of_current hi.stage hbaud hlink hbound hrate hstage
      fun hc => (h.current_bound hi hc).1 }
  · cases h with
    | grant t nonce id _ _ _ _ ht =>
      intro _
      simp [Device.ids, ht]
    | keep t ht =>
      intro hp
      rw [(ht hp).2.1]
      exact hi.granted (ht hp).1
  · rw [hbound] at hb ⊢
    exact hids _ (hi.bound hb)
  · cases h with
    | grant t nonce id _ _ hid =>
      simp only [Device.ids, List.map_append, List.map_cons, List.map_nil, List.mem_append,
        List.mem_singleton, not_or]
      exact ⟨hi.named, hid.symm⟩
    | keep t => exact hi.named
  · rw [hbound] at hc
    obtain ⟨hc, hl⟩ := h.current_bound hi hc
    rw [hl, hlink]
    exact hi.owner hc
  · rw [hbaud] at hp ⊢
    rw [hbound] at hc
    rw [hrate]
    exact hi.kept hp (h.current_bound hi hc).1

/-! ### Completions -/

/-- A completed acknowledgement moves the phase that waited for it, and nothing else. -/
inductive Completed (d : Device) : Device → Prop
  | same : Completed d d
  | resumed (h : d.baud.phase = .active) : Completed d { d with paused := false }
  | prepared (success : Bool) (now : UInt32) (h : d.baud.phase = .prepareAck) :
      Completed d { d with
        baud := { d.baud with phase := if success then .waitSwitch else .restore, sinceMs := now } }
  | active (h : d.baud.phase = .commitAck) :
      Completed d { d with baud := { d.baud with phase := .active }, paused := false }
  | restored (h : d.baud.phase = .commitAck) :
      Completed d { d with baud := { d.baud with phase := .restore } }

theorem txComplete_completed (d : Device) (ack : Ack) (success : Bool) (now : UInt32) :
    Completed d (d.txComplete ack success now) := by
  cases ack with
  | prepare token =>
    by_cases h : d.baud.phase = .prepareAck ∧ d.baud.token = token
    · have heq : d.baud.prepareComplete token success now =
          { d.baud with phase := if success then .waitSwitch else .restore, sinceMs := now } :=
        if_pos h
      simp only [Device.txComplete, heq]
      exact .prepared success now h.1
    · have heq : d.baud.prepareComplete token success now = d.baud := if_neg h
      simp only [Device.txComplete, heq]
      exact .same
  | commit token =>
    by_cases h : d.baud.phase = .commitAck ∧ d.baud.token = token
    · have heq : d.baud.commitComplete token success =
          { d.baud with phase := if success then .active else .restore } := if_pos h
      simp only [Device.txComplete, heq]
      cases success with
      | true => exact .active h.1
      | false => exact .restored h.1
    · have heq : d.baud.commitComplete token success = d.baud := if_neg h
      simp only [Device.txComplete, heq]
      by_cases hp : d.baud.phase = .active
      · rw [if_pos hp]
        exact .resumed hp
      · rw [if_neg hp]
        exact .same

/-- A stage that has decided fixes the phase: no completion waits in it. -/
lemma stageOk_of_waiting {d d' : Device} (h : d.StageOk)
    (hphase : d.baud.phase ≠ .restore ∧ d.baud.phase ≠ .waitSwitch)
    (hsession : d'.session = d.session) (hlink : d'.link = d.link) (hbound : d'.bound = d.bound)
    (hstage : d'.stage = d.stage) : d'.StageOk := by
  have hcur : ∀ id, d'.Current id ↔ d.Current id := fun id => by
    simp [Device.Current, hsession]
  have hsame : ∀ session, d'.sameOwner session = d.sameOwner session := fun session => by
    simp [Device.sameOwner, hlink, hbound]
  unfold Device.StageOk at h ⊢
  rw [hstage]
  cases hst : d.stage with
  | rest => trivial
  | failed => trivial
  | sampled session now =>
    rw [hst] at h
    intro hc
    rw [hsame]
    exact h ((hcur _).mp (hbound ▸ hc))
  | decided restore same requested link =>
    rw [hst] at h
    cases restore with
    | false => exact absurd h.2.1 hphase.2
    | true => exact absurd h.2.1 hphase.1
  | setting restore requested =>
    rw [hst] at h
    cases restore with
    | false => exact absurd h.1 hphase.2
    | true => exact absurd h.1 hphase.1
  | finishing restore =>
    rw [hst] at h
    cases restore with
    | false => exact absurd h.1 hphase.2
    | true => exact absurd h.1 hphase.1

theorem inv_completed {d d' : Device} (hi : d.Inv) (h : Completed d d') : d'.Inv := by
  cases h with
  | same => exact hi
  | resumed hp =>
    exact { hi with
      running := fun _ => rfl
      stage := stageOk_of_current hi.stage rfl rfl rfl rfl rfl id }
  | prepared success now hp =>
    refine { hi with rated := fun hs => ?_, fresh := fun hpr => ?_, running := fun ha => ?_,
                     stage := ?_ }
    · cases success <;> simp [Phase.switched] at hs
    · have := hi.fresh hpr
      simp [hp, Phase.switched] at this
    · cases success <;> simp at ha
    · exact stageOk_of_waiting hi.stage (by simp [hp]) rfl rfl rfl rfl
  | active hp =>
    refine { hi with rated := fun _ => hi.rated (by simp [hp, Phase.switched])
                     fresh := fun _ => .inl rfl, running := fun _ => rfl, stage := ?_ }
    exact stageOk_of_waiting hi.stage (by simp [hp]) rfl rfl rfl rfl
  | restored hp =>
    refine { hi with rated := fun hs => ?_, fresh := fun _ => .inr rfl
                     running := fun ha => ?_, stage := ?_ }
    · simp [Phase.switched] at hs
    · simp at ha
    · exact stageOk_of_waiting hi.stage (by simp [hp]) rfl rfl rfl rfl

/-! ### The poll -/

lemma linkLost_keeps (cfg : Config) (s : EvSession.State) (link : LinkRef) :
    Keeps s (linkLost cfg s link).1 ∧
      ((linkLost cfg s link).1.phase ≠ .free → link ≠ s.ownerLink) := by
  by_cases hall : clearOwnerAllowed s link false none = true
  · have hc : (linkLost cfg s link).1 = s.freed cfg := by simp [linkLost, clearOwner, hall]
    rw [hc]
    exact ⟨keeps_of_free rfl, fun hp => absurd rfl hp⟩
  · have hc : (linkLost cfg s link).1 = s := by simp [linkLost, clearOwner, hall]
    rw [hc]
    refine ⟨Keeps.refl s, fun hp hl => hall ?_⟩
    exact clearOwnerAllowed_iff.mpr ⟨hp, hl, by simp, .inl rfl⟩

theorem inv_decide {d : Device} (hi : d.Inv) {session : Snapshot} {now : UInt32}
    (hst : d.Current d.bound → d.sameOwner session = true) : (d.decide session now).Inv := by
  unfold Device.decide
  by_cases hidle : d.baud.phase = .idle
  · rw [if_pos hidle]
    exact { hi with stage := trivial }
  rw [if_neg hidle]
  by_cases hre : (!d.sameOwner session || d.baud.expired now) = true
  · simp only [hre, if_true, decide_true, Bool.not_true, Bool.false_and, Bool.false_eq_true,
      if_false]
    exact { hi with
      rated := fun hs => by simp [Phase.switched] at hs
      fresh := fun _ => .inr rfl
      running := fun ha => by simp at ha
      stage := ⟨rfl, rfl, rfl, hst⟩ }
  · simp only [hre, if_false, Bool.false_eq_true]
    by_cases hphase : d.baud.phase = .restore
    · simp only [hphase, decide_true, Bool.not_true, Bool.false_and, Bool.false_eq_true, if_false,
        if_true]
      exact { hi with
        running := fun ha => by simp [hphase] at ha
        stage := ⟨rfl, hphase, rfl, hst⟩ }
    · simp only [hphase, decide_false, Bool.not_false, Bool.true_and, if_false]
      by_cases hdue : d.baud.switchDue now = true
      · simp only [hdue, Bool.not_true, Bool.false_eq_true, if_false]
        have hw : d.baud.phase = .waitSwitch := by
          simp only [Baud.switchDue, Bool.and_eq_true, decide_eq_true_eq] at hdue
          exact hdue.1
        exact { hi with stage := ⟨rfl, hw, rfl⟩ }
      · simp only [hdue, Bool.not_false, if_true]
        exact { hi with stage := trivial }

theorem inv_finish {d : Device} (hi : d.Inv) {restore : Bool}
    (hst : if restore then d.baud.phase = .restore ∧ d.rate = baseline ∧ ¬d.Current d.bound
      else d.baud.phase = .waitSwitch ∧ d.rate = d.baud.requested) : (d.finish restore).Inv := by
  cases restore with
  | true =>
    refine {
      granted := hi.granted
      bound := fun hb => absurd rfl hb
      named := hi.named
      owner := fun hc => absurd (hi.current_mem hc) hi.named
      rated := fun hs => by simp [Device.finish, Phase.switched] at hs
      fresh := fun hp => by simp [Device.finish] at hp
      kept := fun hp => by simp [Device.finish] at hp
      running := fun ha => by simp [Device.finish] at ha
      stage := trivial }
  | false =>
    obtain ⟨hphase, hrate⟩ := hst
    have hunprobed : d.baud.probed ≠ true := fun hp => by
      have := hi.fresh hp
      simp [hphase, Phase.switched] at this
    simp only [Device.finish, Bool.false_eq_true, if_false, hphase, if_true]
    exact { hi with
      rated := fun _ => hrate
      fresh := fun hp => absurd hp hunprobed
      running := fun ha => by simp at ha
      stage := trivial }

theorem inv_poll {cfg : Config} {d : Device} (hi : d.Inv) (now : UInt32) (result : SetResult) :
    (d.poll cfg now result).Inv := by
  have hst := hi.stage
  unfold Device.StageOk at hst
  unfold Device.poll
  cases hstage : d.stage with
  | rest =>
    have hsame : d.Current d.bound → d.sameOwner (d.session.snapshot now) = true := fun hc => by
      simp [Device.sameOwner, State.snapshot, hc.1, hc.2, hi.owner hc]
    exact { hi with stage := hsame }
  | sampled session now =>
    rw [hstage] at hst
    exact inv_decide hi hst
  | decided restore same requested link =>
    rw [hstage] at hst
    obtain ⟨rfl, hst⟩ := hst
    by_cases hlose : (restore && same) = true
    · obtain ⟨rfl, rfl⟩ : restore = true ∧ same = true := by simpa using hlose
      simp only [Bool.and_self, if_true]
      have hlost := linkLost_keeps cfg d.session d.link
      have hi' := inv_session hi (.keep _ hlost.1)
      refine { hi' with stage := ⟨hst.1, hst.2.1, fun hc => hlost.2 hc.1 ?_⟩ }
      obtain ⟨hp, hs, -⟩ := hlost.1 hc.1
      exact (hi.owner ⟨hp, hs.symm.trans hc.2⟩).symm
    · simp only [hlose, Bool.false_eq_true, if_false]
      refine { hi with stage := ?_ }
      cases restore with
      | false => exact hst
      | true =>
        have hsame : same = false := by simpa using hlose
        exact ⟨hst.1, hst.2.1, fun hc => by simp [hst.2.2 hc] at hsame⟩
  | setting restore requested =>
    rw [hstage] at hst
    cases result with
    | ok =>
      cases restore with
      | true =>
        exact { hi with
          rated := fun hs => by simp [hst.1, Phase.switched] at hs
          kept := fun _ hc => absurd hc hst.2.2
          stage := ⟨hst.1, hst.2.1, hst.2.2⟩ }
      | false =>
        exact { hi with
          rated := fun hs => by simp [hst.1, Phase.switched] at hs
          kept := fun _ _ => hst.2
          stage := ⟨hst.1, hst.2⟩ }
    | invalidState => exact { hi with stage := trivial }
    | failed => exact { hi with stage := trivial }
  | failed =>
    exact { hi with
      rated := fun hs => by simp [Phase.switched] at hs
      fresh := fun _ => .inr rfl
      running := fun ha => by simp at ha
      stage := trivial }
  | finishing restore =>
    rw [hstage] at hst
    exact inv_finish hi hst

/-! ### Requests -/

/-- The multiplexer's answer leaves everything but the pending acknowledgements and the phase. -/
lemma acknowledge_eq (d : Device) (c : Call) (taken : Bool) :
    ∃ acks phase, d.acknowledge c taken =
      { d with acks := acks, baud := { d.baud with phase := phase } } ∧
        (phase = d.baud.phase ∨ phase = .restore) := by
  unfold Device.acknowledge
  cases c.method with
  | probe data => exact ⟨d.acks, d.baud.phase, rfl, .inl rfl⟩
  | prepare baudRate =>
    cases taken with
    | true => exact ⟨_, d.baud.phase, rfl, .inl rfl⟩
    | false => exact ⟨d.acks, .restore, rfl, .inr rfl⟩
  | commit =>
    cases taken with
    | true => exact ⟨_, d.baud.phase, rfl, .inl rfl⟩
    | false => exact ⟨d.acks, .restore, rfl, .inr rfl⟩

/-- An acknowledgement that is not taken rolls back, which no part of the invariant forbids. -/
lemma inv_acknowledge {d : Device} (hi : d.Inv) (hrest : d.stage = .rest) (c : Call)
    (taken : Bool) : (d.acknowledge c taken).Inv := by
  obtain ⟨acks, phase, heq, hphase⟩ := acknowledge_eq d c taken
  rw [heq]
  have hstage : ∀ d' : Device, d'.stage = .rest → d'.StageOk := fun d' h => by
    simp [Device.StageOk, h]
  rcases hphase with rfl | rfl
  · exact { hi with stage := hstage _ hrest }
  · exact { hi with
      rated := fun hs => by simp [Phase.switched] at hs
      fresh := fun _ => .inr rfl
      running := fun ha => by simp at ha
      stage := hstage _ hrest }

/-- The negotiation that a request starts or continues, before its acknowledgement. -/
lemma inv_accepted {d : Device} (hi : d.Inv) (hrest : d.stage = .rest) {id : Id} {c : Call}
    {a : Arrival} {d' : Device} {p : Payload} (h : Accepted d id c a d' p) (hid : d.Current id)
    (hlink : a.link = d.session.ownerLink)
    (ht : d'.session = { d.session with lastActivityMs := a.now }) : d'.Inv := by
  have hstage : ∀ e : Device, e.stage = .rest → e.StageOk := fun e he => by
    simp [Device.StageOk, he]
  cases h with
  | prepare baudRate now' t hm hphase =>
    rw [acknowledge_session] at ht
    obtain rfl : t = _ := ht
    refine inv_acknowledge ?_ ?_ c a.taken
    swap
    · exact hrest
    exact {
      granted := hi.granted
      bound := fun _ => hi.current_mem hid
      named := hi.named
      owner := fun _ => hlink.symm
      rated := fun hs => by simp [Phase.switched] at hs
      fresh := fun hp => by simp at hp
      kept := fun hp => by simp at hp
      running := fun ha => by simp at ha
      stage := hstage _ hrest }
  | probe data t hm hbound htoken hphase =>
    obtain rfl : t = _ := ht
    have hswitched : d.baud.phase.switched = true := by
      rcases hphase with h | h <;> simp [h, Phase.switched]
    exact { hi with
      fresh := fun _ => .inl hswitched
      kept := fun _ _ => hi.rated hswitched
      stage := hstage _ hrest }
  | commit t baud hm hbound htoken hprobed hbaud =>
    rw [acknowledge_session] at ht
    obtain rfl : t = _ := ht
    refine inv_acknowledge ?_ ?_ c a.taken
    swap
    · exact hrest
    rcases hbaud with ⟨hphase, rfl⟩ | ⟨hphase, rfl⟩
    · exact { hi with stage := hstage _ hrest }
    · exact { hi with
        rated := fun _ => hi.rated (by simp [hphase, Phase.switched])
        fresh := fun _ => .inl rfl
        running := fun ha => by simp at ha
        stage := hstage _ hrest }

theorem inv_handled {d : Device} (hi : d.Inv) (hrest : d.stage = .rest) {id : Id} {c : Call}
    {a : Arrival} {d' : Device} {p : Payload} (h : Handled d id c a d' p) : d'.Inv := by
  cases h with
  | refused f t ht => exact inv_session hi (.keep t ht)
  | accepted hacc hid hlink ht => exact inv_accepted hi hrest hacc hid hlink ht

end EspVision.UartBaud
