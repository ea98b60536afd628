import EspVision.SessionLease
import EspVision.UartCommitted

/-!
# The clock of the UART negotiation

The poll reads its clock before the critical section that decides, and an acknowledgement that
completes in between writes a later time. Real time is a count of milliseconds here, of which the
device reads the low 32 bits.
-/
namespace EspVision.UartBaud

open EvTransport EvSession TransitionSystem

/-! ## Model -/

/-- `ev_control_now_ms`. -/
def nowMs (clock : ℕ) : UInt32 := UInt32.ofNat clock

/-- The device in real time, with the time at which the poll read its clock and the time at which
`since_ms` was written. -/
structure Timed where
  device : Device
  clock : ℕ := 0
  sample : ℕ := 0
  since : ℕ := 0

inductive TimedStep
  | elapse
  | request (link : LinkRef) (id : Id) (call : Call) (linkCurrent taken : Bool)
  | session (op : Op)
  | complete (k : ℕ) (success : Bool)
  | poll (result : SetResult)

/-- The response starts a negotiation. -/
def Payload.isPrepared : Payload → Bool
  | .prepared .. => true
  | _ => false

/-- The acknowledgement is the one that the negotiation waits for before it switches. -/
def Device.awaits (d : Device) : Ack → Bool
  | .prepare token => d.baud.phase = .prepareAck && d.baud.token = token
  | .commit _ => false

/-- One step. The handler and the completions read the clock inside their critical sections; the
handler of a UART request and the poll run in one task. -/
def Timed.next (cfg : Config) (s : Timed) : TimedStep → Option Timed
  | .elapse => some { s with clock := s.clock + 1 }
  | .request link id call linkCurrent taken =>
    if s.device.stage = .rest then
      let r := s.device.handle id call ⟨link, nowMs s.clock, linkCurrent, taken⟩
      some { s with device := r.1, since := if r.2.isPrepared then s.clock else s.since }
    else none
  | .session op => (s.device.runSession cfg op).map fun d => { s with device := d }
  | .complete k success =>
    (s.device.acks[k]?).map fun ack =>
      { s with
        device := { s.device with acks := s.device.acks.eraseIdx k }
          |>.txComplete ack success (nowMs s.clock)
        since := if s.device.awaits ack then s.clock else s.since }
  | .poll result =>
    some { s with
      device := s.device.poll cfg (nowMs s.clock) result
      sample := if s.device.stage = .rest then s.clock else s.sample }

/-- The device from its boot on, at the baseline speed. -/
def timedUart (cfg : Config) : System Timed TimedStep where
  init s := ∃ epoch, s = { device := { session := init0 cfg epoch } }
  step s l t := s.next cfg l = some t

/-! ## At rest and bound -/

/-- Without a negotiation the hardware is at the baseline speed and ordinary output runs; a
negotiation is bound to a session that has been granted, over a UART link. -/
structure Device.Rested (d : Device) : Prop where
  idle : d.baud.phase = .idle → d.rate = baseline ∧ d.paused = false
  bound : d.baud.phase ≠ .idle → d.bound ∈ d.ids ∧ d.link.transportId = .uart
  failed : d.stage = .failed → d.baud.phase ≠ .idle

variable {d d' : Device}

lemma SessionStep.rested (h : SessionStep d d') (hr : d.Rested) : d'.Rested := by
  obtain ⟨hbaud, hlink, hbound, hrate, hpaused, hstage, -⟩ := h.fields
  refine ⟨?_, fun hp => ?_, ?_⟩
  · rw [hbaud, hrate, hpaused]
    exact hr.idle
  · rw [hbaud] at hp
    rw [hbound, hlink]
    exact ⟨h.ids (hr.bound hp).1, (hr.bound hp).2⟩
  · rw [hbaud, hstage]
    exact hr.failed

lemma Completed.rested (h : Completed d d') (hr : d.Rested) : d'.Rested := by
  cases h with
  | same => exact hr
  | resumed hp =>
    exact ⟨fun hi => absurd (hp.symm.trans hi) (by decide), hr.bound, hr.failed⟩
  | prepared success now hp =>
    refine ⟨fun hi => ?_, fun _ => hr.bound (by simp [hp]), fun _ => ?_⟩ <;>
      cases success <;> first | simp at hi | simp
  | active hp =>
    exact ⟨fun hi => by simp at hi, fun _ => hr.bound (by simp [hp]), fun _ => by simp⟩
  | restored hp =>
    exact ⟨fun hi => by simp at hi, fun _ => hr.bound (by simp [hp]), fun _ => by simp⟩

lemma decide_rested (hr : d.Rested) (session : Snapshot) (now : UInt32) :
    (d.decide session now).Rested := by
  unfold Device.decide
  by_cases hidle : d.baud.phase = .idle
  · rw [if_pos hidle]
    exact ⟨hr.idle, hr.bound, by simp⟩
  · rw [if_neg hidle]
    have hphase : (if (!d.sameOwner session || d.baud.expired now) = true then
        { d.baud with phase := .restore } else d.baud).phase ≠ .idle := by
      split_ifs
      · simp
      · exact hidle
    refine ⟨fun hi => absurd hi hphase, fun _ => hr.bound hidle, fun hf => ?_⟩
    dsimp only at hf
    split_ifs at hf

lemma poll_rested {cfg : Config} (hi : d.Inv) (hr : d.Rested) (now : UInt32)
    (result : SetResult) : (d.poll cfg now result).Rested := by
  have hst := hi.stage
  unfold Device.StageOk at hst
  unfold Device.poll
  cases hstage : d.stage with
  | rest => exact ⟨hr.idle, hr.bound, by simp⟩
  | sampled session now => exact decide_rested hr session now
  | decided restore same requested link => exact ⟨hr.idle, hr.bound, by simp⟩
  | setting restore requested =>
    rw [hstage] at hst
    have hphase : d.baud.phase ≠ .idle := by
      cases restore <;> simp [hst.1]
    cases result with
    | ok => exact ⟨fun h => absurd h hphase, hr.bound, by simp⟩
    | invalidState => exact ⟨fun h => absurd h hphase, hr.bound, by simp⟩
    | failed => exact ⟨fun h => absurd h hphase, hr.bound, fun _ => hphase⟩
  | failed => exact ⟨fun h => by simp at h, fun _ => hr.bound (hr.failed hstage), fun _ => by simp⟩
  | finishing restore =>
    rw [hstage] at hst
    cases restore with
    | true =>
      exact ⟨fun _ => ⟨hst.2.1, rfl⟩, fun h => absurd rfl h, fun h => by simp [Device.finish] at h⟩
    | false =>
      have hphase : d.baud.phase = .waitSwitch := hst.1
      have heq : d.finish false = { d with
          baud := { d.baud with phase := .probing }, stage := .rest } := by
        simp [Device.finish, hphase]
      change (d.finish false).Rested
      rw [heq]
      exact ⟨fun h => by simp at h, fun _ => hr.bound (by simp [hphase]), fun h => by simp at h⟩

/-! ## Requests -/

/-- A request of a session that does not own, or that a check refuses, gets an error. -/
lemma handle_error (d : Device) (id : Id) {c : Call} {a : Arrival} (h : c.refused a.link ≠ none) :
    ∃ f, (d.handle id c a).2 = .error f := by
  unfold Device.handle
  cases authorize d.session a.link (some id) false none a.now a.linkCurrent with
  | mk t r =>
    cases r with
    | ok =>
      cases hr : c.refused a.link with
      | none => exact absurd hr h
      | some f => exact ⟨f, by simp [Device.sendUartBaud, hr]⟩
    | _ => exact ⟨_, rfl⟩

lemma refused_of_other {c : Call} {link : LinkRef} (h : link.transportId ≠ .uart) :
    c.refused link ≠ none := by
  simp [Call.refused, h]

/-- Only a UART link gets an answer that is not an error. -/
lemma handle_uart {id : Id} {c : Call} {a : Arrival} {d' : Device} {p : Payload}
    (hh : d.handle id c a = (d', p)) (hp : ∀ f, p ≠ .error f) : a.link.transportId = .uart := by
  by_contra hne
  obtain ⟨f, hf⟩ := handle_error d id (refused_of_other hne)
  rw [hh] at hf
  exact hp f hf

lemma Accepted.rested {id : Id} {c : Call} {a : Arrival} {p : Payload}
    (h : Accepted d id c a d' p) (hr : d.Rested) (hid : id ∈ d.ids)
    (hu : a.link.transportId = .uart) : d'.Rested := by
  have hrest : ∀ e : Device, e.baud.phase ≠ .idle → e.bound ∈ e.ids →
      e.link.transportId = .uart → e.Rested := fun e hp hb hl =>
    ⟨fun hi => absurd hi hp, fun _ => ⟨hb, hl⟩, fun _ => hp⟩
  cases h with
  | prepare baudRate now' t hm hphase =>
    obtain ⟨acks, phase, heq, hph⟩ := acknowledge_eq { d with
      session := t
      baud := ⟨.prepareAck, baudRate, now', false, c.token⟩
      link := a.link
      bound := id
      paused := true } c a.taken
    rw [heq]
    refine hrest _ ?_ hid hu
    rcases hph with rfl | rfl <;> simp
  | probe data t hm hb htoken hphase =>
    have hne : d.baud.phase ≠ .idle := by rcases hphase with h | h <;> simp [h]
    exact hrest _ hne (hr.bound hne).1 (hr.bound hne).2
  | commit t baud hm hb htoken hprobed hbaud =>
    have hne : d.baud.phase ≠ .idle := by rcases hbaud with ⟨h, -⟩ | ⟨h, -⟩ <;> simp [h]
    obtain ⟨acks, phase, heq, hph⟩ :=
      acknowledge_eq { d with session := t, baud := baud } c a.taken
    rw [heq]
    refine hrest _ ?_ (hr.bound hne).1 (hr.bound hne).2
    rcases hph with rfl | rfl
    · rcases hbaud with ⟨h, rfl⟩ | ⟨-, rfl⟩
      · exact hne
      · simp
    · simp

lemma handle_rested (hi : d.Inv) (hr : d.Rested) (id : Id) (c : Call) (a : Arrival) :
    (d.handle id c a).1.Rested := by
  have hh := handle_handled d id c a
  generalize hres : d.handle id c a = r at hh
  obtain ⟨d', p⟩ := r
  cases hh with
  | refused f t ht => exact (SessionStep.keep t ht).rested hr
  | accepted hacc hid hlink ht =>
    refine hacc.rested hr (hi.current_mem hid) (handle_uart hres fun f hf => ?_)
    cases hacc <;> exact absurd hf (by simp)

/-- Only the bound link and session get an answer to a probe or a commit. -/
lemma handle_bound (hi : d.Inv) {id : Id} {c : Call} {a : Arrival} (hc : c.isPrepare = false)
    (hp : ∀ f, (d.handle id c a).2 ≠ .error f) : a.link = d.link ∧ id = d.bound := by
  have hh := handle_handled d id c a
  generalize d.handle id c a = r at hh hp
  obtain ⟨d', p⟩ := r
  cases hh with
  | refused f t ht => exact absurd rfl (hp f)
  | accepted hacc hid hlink ht =>
    have hb : d.bound = id := by
      cases hacc with
      | prepare baudRate now' t hm => simp [Call.isPrepare, hm] at hc
      | probe data t hm hb => exact hb
      | commit t baud hm hb => exact hb
    exact ⟨hlink.trans (hi.owner (hb ▸ hid)), hb.symm⟩

/-! ## The time of the negotiation -/

lemma acknowledge_since (d : Device) (c : Call) (taken : Bool) :
    (d.acknowledge c taken).baud.sinceMs = d.baud.sinceMs := by
  unfold Device.acknowledge
  cases c.method <;> cases taken <;> rfl

lemma accept_since {link : LinkRef} {id : Id} {c : Call} {now : UInt32}
    (h : d.accept link id c now = some d') :
    d'.baud.sinceMs = if c.isPrepare then now else d.baud.sinceMs := by
  cases hm : c.method with
  | prepare baudRate =>
    simp only [Device.accept, hm, Option.map_eq_some_iff] at h
    obtain ⟨baud, hprep, rfl⟩ := h
    unfold Baud.prepare at hprep
    split_ifs at hprep
    obtain rfl := Option.some.inj hprep
    simp [Call.isPrepare, hm]
  | probe data =>
    simp only [Device.accept, hm] at h
    split_ifs at h
    obtain rfl := Option.some.inj h
    simp [Call.isPrepare, hm]
  | commit =>
    simp only [Device.accept, hm] at h
    split_ifs at h
    obtain ⟨baud, hcommit, rfl⟩ := Option.map_eq_some_iff.mp h
    unfold Baud.commit at hcommit
    split_ifs at hcommit
    all_goals
      obtain rfl := Option.some.inj hcommit
      simp [Call.isPrepare, hm]

lemma response_isPrepared (d : Device) (c : Call) : (d.response c).isPrepared = c.isPrepare := by
  unfold Device.response Payload.isPrepared Call.isPrepare
  cases c.method <;> rfl

lemma sendUartBaud_since (d : Device) (link : LinkRef) (id : Id) (c : Call) (now : UInt32)
    (taken : Bool) :
    (d.sendUartBaud link id c now taken).1.baud.sinceMs =
      if (d.sendUartBaud link id c now taken).2.isPrepared then now else d.baud.sinceMs := by
  cases hr : c.refused link with
  | some f => simp [Device.sendUartBaud, hr, Payload.isPrepared]
  | none =>
    cases hacc : d.accept link id c now with
    | none => simp [Device.sendUartBaud, hr, hacc, Payload.isPrepared]
    | some d' =>
      simp only [Device.sendUartBaud, hr, hacc, acknowledge_since, response_isPrepared]
      exact accept_since hacc

lemma handle_since (d : Device) (id : Id) (c : Call) (a : Arrival) :
    (d.handle id c a).1.baud.sinceMs =
      if (d.handle id c a).2.isPrepared then a.now else d.baud.sinceMs := by
  cases hauth : authorize d.session a.link (some id) false none a.now a.linkCurrent with
  | mk t r =>
    cases r with
    | ok =>
      simp only [Device.handle, hauth]
      exact sendUartBaud_since _ _ _ _ _ _
    | _ => simp [Device.handle, hauth, Payload.isPrepared]

lemma txComplete_since (d : Device) (acks : List Ack) (ack : Ack) (success : Bool)
    (now : UInt32) :
    (({ d with acks := acks } : Device).txComplete ack success now).baud.sinceMs =
      if d.awaits ack then now else d.baud.sinceMs := by
  cases ack with
  | prepare token =>
    simp only [Device.txComplete, Baud.prepareComplete, Device.awaits, Bool.and_eq_true,
      decide_eq_true_eq]
    split_ifs <;> rfl
  | commit token =>
    simp only [Device.txComplete, Baud.commitComplete, Device.awaits, Bool.false_eq_true, if_false]
    split_ifs <;> rfl

/-- Past its start a negotiation keeps its time until it ends. -/
lemma poll_since (cfg : Config) (d : Device) (now : UInt32) (result : SetResult)
    (hp : (d.poll cfg now result).baud.phase ≠ .idle) :
    (d.poll cfg now result).baud.sinceMs = d.baud.sinceMs := by
  unfold Device.poll at hp ⊢
  cases hst : d.stage with
  | rest => rfl
  | sampled session now =>
    unfold Device.decide
    dsimp only
    split_ifs <;> rfl
  | decided restore same requested link => rfl
  | setting restore requested => cases result <;> rfl
  | failed => rfl
  | finishing restore =>
    rw [hst] at hp
    cases restore with
    | true => exact absurd rfl hp
    | false =>
      simp only [Device.finish, Bool.false_eq_true, if_false]
      split_ifs <;> rfl

/-! ## The invariant -/

structure Timed.Inv (s : Timed) : Prop where
  device : s.device.Inv
  rested : s.device.Rested
  since : s.device.baud.phase ≠ .idle → s.device.baud.sinceMs = nowMs s.since
  past : s.since ≤ s.clock ∧ s.sample ≤ s.clock
  sampled : ∀ session now, s.device.stage = .sampled session now → now = nowMs s.sample

lemma handle_stage (d : Device) (id : Id) (c : Call) (a : Arrival) :
    (d.handle id c a).1.stage = d.stage := by
  have hh := handle_handled d id c a
  generalize d.handle id c a = r at hh
  obtain ⟨d', p⟩ := r
  have hack : ∀ (e : Device) taken, (e.acknowledge c taken).stage = e.stage := fun e taken => by
    obtain ⟨acks, phase, heq, -⟩ := acknowledge_eq e c taken
    rw [heq]
  cases hh with
  | refused f t ht => rfl
  | accepted hacc hid hlink ht =>
    cases hacc with
    | prepare => exact hack _ _
    | probe => rfl
    | commit => exact hack _ _

/-- A request that is not accepted as a prepare leaves the device without or with a negotiation. -/
lemma handle_idle (d : Device) (id : Id) (c : Call) (a : Arrival)
    (h : d.baud.phase = .idle) (hp : (d.handle id c a).2.isPrepared = false) :
    (d.handle id c a).1.baud.phase = .idle := by
  have hh := handle_handled d id c a
  generalize d.handle id c a = r at hh hp
  obtain ⟨d', p⟩ := r
  cases hh with
  | refused f t ht => exact h
  | accepted hacc hid hlink ht =>
    cases hacc with
    | prepare => exact absurd hp (by simp [Payload.isPrepared])
    | probe data t hm hb htoken hphase => rcases hphase with hp | hp <;> simp [h] at hp
    | commit t baud hm hb htoken hprobed hbaud =>
      rcases hbaud with ⟨hp, -⟩ | ⟨hp, -⟩ <;> simp [h] at hp

lemma Completed.fields (h : Completed d d') : d'.stage = d.stage ∧ d'.link = d.link ∧
    d'.bound = d.bound ∧ (d.baud.phase = .idle → d'.baud.phase = .idle) := by
  cases h with
  | same => exact ⟨rfl, rfl, rfl, fun h => h⟩
  | resumed hp => exact ⟨rfl, rfl, rfl, fun h => h⟩
  | prepared success now hp => exact ⟨rfl, rfl, rfl, fun h => by simp [hp] at h⟩
  | active hp => exact ⟨rfl, rfl, rfl, fun h => by simp [hp] at h⟩
  | restored hp => exact ⟨rfl, rfl, rfl, fun h => by simp [hp] at h⟩

lemma poll_sampled {cfg : Config} {now now' : UInt32} {result : SetResult} {session : Snapshot}
    (h : (d.poll cfg now result).stage = .sampled session now') : d.stage = .rest ∧ now' = now := by
  unfold Device.poll at h
  cases hst : d.stage with
  | rest =>
    rw [hst] at h
    exact ⟨rfl, (Stage.sampled.inj h).2.symm⟩
  | sampled session now =>
    rw [hst] at h
    unfold Device.decide at h
    dsimp only at h
    split_ifs at h
  | decided restore same requested link =>
    rw [hst] at h
    simp at h
  | setting restore requested =>
    rw [hst] at h
    cases result <;> simp at h
  | failed =>
    rw [hst] at h
    simp at h
  | finishing restore =>
    rw [hst] at h
    cases restore <;> simp [Device.finish] at h

lemma poll_idle (cfg : Config) (d : Device) (now : UInt32) (result : SetResult)
    (hi : d.Rested) (h : d.baud.phase = .idle) (hs : d.Inv) :
    (d.poll cfg now result).baud.phase = .idle := by
  have hst := hs.stage
  unfold Device.StageOk at hst
  unfold Device.poll
  cases hstage : d.stage with
  | rest => exact h
  | sampled session now => simp [Device.decide, h]
  | decided restore same requested link => exact h
  | setting restore requested => cases result <;> exact h
  | failed => exact absurd h (hi.failed hstage)
  | finishing restore =>
    cases restore with
    | true => rfl
    | false =>
      rw [hstage] at hst
      have hw : d.baud.phase = .waitSwitch := hst.1
      simp [h] at hw

variable {cfg : Config} {s t : Timed}

lemma next_request {link : LinkRef} {id : Id} {call : Call} {linkCurrent taken : Bool}
    (h : s.next cfg (.request link id call linkCurrent taken) = some t) :
    s.device.stage = .rest ∧
      t = { s with
        device := (s.device.handle id call ⟨link, nowMs s.clock, linkCurrent, taken⟩).1
        since := if (s.device.handle id call ⟨link, nowMs s.clock, linkCurrent, taken⟩).2.isPrepared
          then s.clock else s.since } := by
  simp only [Timed.next] at h
  by_cases hrest : s.device.stage = .rest
  · rw [if_pos hrest] at h
    exact ⟨hrest, (Option.some.inj h).symm⟩
  · rw [if_neg hrest] at h
    cases h

theorem inv_timed_next (hi : s.Inv) {l : TimedStep} (h : s.next cfg l = some t) : t.Inv := by
  cases l with
  | elapse =>
    obtain rfl := Option.some.inj h
    exact { hi with past := ⟨hi.past.1.trans (Nat.le_succ _), hi.past.2.trans (Nat.le_succ _)⟩ }
  | request link id call linkCurrent taken =>
    obtain ⟨hrest, rfl⟩ := next_request h
    refine {
      device := inv_handled hi.device hrest (handle_handled ..)
      rested := handle_rested hi.device hi.rested ..
      since := fun hp => ?_
      past := ⟨?_, hi.past.2⟩
      sampled := fun session now hs => ?_ }
    · rw [handle_since]
      dsimp only at hp ⊢
      split_ifs with hprep
      · rfl
      · refine hi.since fun hidle => hp (handle_idle _ _ _ _ hidle ?_)
        simpa using hprep
    · dsimp only
      split_ifs
      · exact le_rfl
      · exact hi.past.1
    · have hs' := (handle_stage ..).symm.trans hs
      rw [hrest] at hs'
      exact absurd hs' (by simp)
  | session op =>
    obtain ⟨d', hd, rfl⟩ := Option.map_eq_some_iff.mp h
    have hstep := runSession_step hd
    obtain ⟨hbaud, -, -, -, -, hstage, -⟩ := hstep.fields
    exact {
      device := inv_session hi.device hstep
      rested := hstep.rested hi.rested
      since := hbaud ▸ hi.since
      past := hi.past
      sampled := hstage ▸ hi.sampled }
  | complete k success =>
    obtain ⟨ack, hk, rfl⟩ := Option.map_eq_some_iff.mp h
    have hcomp := txComplete_completed { s.device with acks := s.device.acks.eraseIdx k } ack
      success (nowMs s.clock)
    have hi' : ({ s.device with acks := s.device.acks.eraseIdx k } : Device).Inv :=
      { hi.device with stage := hi.device.stage }
    have hr' : ({ s.device with acks := s.device.acks.eraseIdx k } : Device).Rested :=
      ⟨hi.rested.idle, hi.rested.bound, hi.rested.failed⟩
    refine {
      device := inv_completed hi' hcomp
      rested := hcomp.rested hr'
      since := fun hp => ?_
      past := ⟨?_, hi.past.2⟩
      sampled := fun session now hs => hi.sampled session now (hcomp.fields.1.symm.trans hs) }
    · rw [txComplete_since]
      dsimp only
      split_ifs
      · rfl
      · exact hi.since fun hidle => hp (hcomp.fields.2.2.2 hidle)
    · dsimp only
      split_ifs
      · exact le_rfl
      · exact hi.past.1
  | poll result =>
    obtain rfl := Option.some.inj h
    refine {
      device := inv_poll hi.device _ _
      rested := poll_rested hi.device hi.rested _ _
      since := fun hp => ?_
      past := ⟨hi.past.1, ?_⟩
      sampled := fun session now hs => ?_ }
    · rw [poll_since _ _ _ _ hp]
      exact hi.since fun hidle => hp (poll_idle _ _ _ _ hi.rested hidle hi.device)
    · dsimp only
      split_ifs
      · exact le_rfl
      · exact hi.past.2
    · obtain ⟨hrest, rfl⟩ := poll_sampled hs
      dsimp only
      rw [if_pos hrest]

theorem inv_of_reaches_timed {h : List TimedStep} (hr : Reaches (timedUart cfg) h s) : s.Inv := by
  refine hr.stateInvariant (I := Timed.Inv) ?_ fun s l t hi hstep => inv_timed_next hi hstep
  rintro s ⟨epoch, rfl⟩
  exact {
    device := inv_boot cfg epoch
    rested := ⟨fun _ => ⟨rfl, rfl⟩, fun hp => absurd rfl hp, fun hf => by simp at hf⟩
    since := fun hp => absurd rfl hp
    past := ⟨le_rfl, le_rfl⟩
    sampled := fun _ _ hs => by simp at hs }

/-! ## A poll that has lost its owner -/

/-- The poll is on its way back to the baseline speed. -/
def Device.restoring (d : Device) : Bool :=
  match d.stage with
  | .decided restore _ _ _ | .setting restore _ | .finishing restore => restore
  | _ => false

lemma restoring_of_lost {session : Snapshot} {now : UInt32} (hp : d.baud.phase ≠ .idle)
    (hlost : d.sameOwner session = false) : (d.decide session now).restoring = true := by
  simp [Device.decide, Device.restoring, hp, hlost]

/-- Every step takes the poll further on its way, or it has come back. -/
lemma restoring_step (hi : s.Inv) (hs : s.device.restoring = true) {l : TimedStep}
    (hok : ∀ r, l = .poll r → r = .ok) (h : s.next cfg l = some t) :
    t.device.restoring = true ∨ (t.device.stage = .rest ∧ t.device.baud.phase = .idle ∧
      t.device.rate = baseline) := by
  have hkeep : ∀ d : Device, d.stage = s.device.stage → d.restoring = true := fun d hd => by
    unfold Device.restoring at hs ⊢
    rw [hd]
    exact hs
  cases l with
  | elapse =>
    obtain rfl := Option.some.inj h
    exact .inl hs
  | request link id call linkCurrent taken =>
    simp [Device.restoring, (next_request h).1] at hs
  | session op =>
    obtain ⟨d', hd, rfl⟩ := Option.map_eq_some_iff.mp h
    exact .inl (hkeep d' (runSession_step hd).fields.2.2.2.2.2.1)
  | complete k success =>
    obtain ⟨ack, hk, rfl⟩ := Option.map_eq_some_iff.mp h
    exact .inl (hkeep _ (txComplete_completed _ ack success (nowMs s.clock)).fields.1)
  | poll result =>
    obtain rfl := Option.some.inj h
    obtain rfl := hok result rfl
    have hst := hi.device.stage
    unfold Device.StageOk at hst
    unfold Device.poll
    cases hstage : s.device.stage with
    | decided restore same requested link =>
      simp only [Device.restoring, hstage] at hs
      exact .inl hs
    | setting restore requested =>
      simp only [Device.restoring, hstage] at hs
      exact .inl hs
    | finishing restore =>
      simp only [Device.restoring, hstage] at hs
      subst hs
      rw [hstage] at hst
      exact .inr ⟨rfl, rfl, hst.2.1⟩
    | _ => simp [Device.restoring, hstage] at hs

/-- A poll on its way back comes back. -/
lemma restoring_path {ls : List TimedStep} (hp : Path (timedUart cfg) s ls t) (hi : s.Inv)
    (hs : s.device.restoring = true) (hok : ∀ r, .poll r ∈ ls → r = .ok)
    (ht : t.device.stage = .rest) :
    ∃ as bs u, ls = as ++ bs ∧ Path (timedUart cfg) s as u ∧ Path (timedUart cfg) u bs t ∧
      u.device.stage = .rest ∧ u.device.baud.phase = .idle ∧ u.device.rate = baseline := by
  induction hp with
  | nil s => simp [Device.restoring, ht] at hs
  | @cons s v t l ls hstep hp ih =>
    rcases restoring_step hi hs (fun r hr => hok r (hr ▸ List.mem_cons_self)) hstep with hv | hv
    · obtain ⟨as, bs, u, rfl, has, hbs, hu⟩ := ih (inv_timed_next hi hstep) hv
        (fun r hr => hok r (List.mem_cons_of_mem _ hr)) ht
      exact ⟨l :: as, bs, u, rfl, .cons hstep has, hbs, hu⟩
    · exact ⟨[l], ls, v, rfl, .cons hstep (.nil v), hp, hv⟩

/-! ## Samples in order -/

/-- No acknowledgement that the negotiation waits for completes, in a later millisecond, between
a poll's clock reading and its decision. -/
def Timed.inOrder (s : Timed) : TimedStep → Bool
  | .complete k _ =>
    match s.device.stage with
    | .sampled _ _ => (s.device.acks[k]?).all fun ack => !s.device.awaits ack || s.clock ≤ s.sample
    | _ => true
  | _ => true

/-- The runs in which every poll decides with a reading that is not older than the negotiation. -/
def orderedUart (cfg : Config) : System Timed TimedStep :=
  (timedUart cfg).restrict fun s l => s.inOrder l = true

theorem since_le_sample {h : List TimedStep} (hr : Reaches (orderedUart cfg) h s) :
    ∀ session now, s.device.stage = .sampled session now → s.since ≤ s.sample := by
  apply hr.invariant
  · rintro s ⟨epoch, rfl⟩ session now hs
    simp at hs
  rintro h s l t hr hi ⟨hord, hstep⟩ session now hs
  have hinv := inv_of_reaches_timed hr.of_restrict
  cases l with
  | elapse =>
    obtain rfl := Option.some.inj hstep
    exact hi _ _ hs
  | request link id call linkCurrent taken =>
    obtain ⟨hrest, rfl⟩ := next_request hstep
    have hs' := (handle_stage ..).symm.trans hs
    rw [hrest] at hs'
    exact absurd hs' (by simp)
  | session op =>
    obtain ⟨d', hd, rfl⟩ := Option.map_eq_some_iff.mp hstep
    exact hi session now ((runSession_step hd).fields.2.2.2.2.2.1 ▸ hs)
  | complete k success =>
    obtain ⟨ack, hk, rfl⟩ := Option.map_eq_some_iff.mp hstep
    have hst := (txComplete_completed { s.device with acks := s.device.acks.eraseIdx k } ack
      success (nowMs s.clock)).fields.1.symm.trans hs
    dsimp only
    split_ifs with haw
    · have hst' : s.device.stage = .sampled session now := hst
      simpa [Timed.inOrder, hst', hk, haw] using hord
    · exact hi session now hst
  | poll result =>
    obtain rfl := Option.some.inj hstep
    obtain ⟨hrest, -⟩ := poll_sampled hs
    dsimp only
    rw [if_pos hrest]
    exact hinv.past.1

/-- With readings in order an unsigned difference is not more than the time that passed. -/
lemma elapsed_le {bound : UInt32} {since sample : ℕ} (h : since ≤ sample)
    (hb : bound ≤ nowMs sample - nowMs since) : since + bound.toNat ≤ sample := by
  rw [UInt32.le_iff_toNat_le] at hb
  unfold nowMs at hb
  rw [elapsed_toNat] at hb
  omega

/-! ## The negotiation -/

/-- The decision of a poll gives a negotiation up whose owner is there. -/
def Device.Expires (d : Device) (session : Snapshot) (now : UInt32) : Prop :=
  d.baud.phase ≠ .restore ∧ d.sameOwner session = true ∧
    (d.decide session now).baud.phase = .restore

/-- The decision of a poll is to switch to the speed that was asked for. -/
def Device.Switches (d : Device) (session : Snapshot) (now : UInt32) : Prop :=
  ∃ same requested link, (d.decide session now).stage = .decided false same requested link

lemma expired_of_expires {session : Snapshot} {now : UInt32} (h : d.Expires session now) :
    d.baud.phase ≠ .idle ∧ timeoutMs ≤ now - d.baud.sinceMs := by
  obtain ⟨hr, hsame, hdec⟩ := h
  unfold Device.decide at hdec
  by_cases hidle : d.baud.phase = .idle
  · simp [hidle] at hdec
  · refine ⟨hidle, ?_⟩
    by_contra hlt
    have hex : d.baud.expired now = false := by
      simp [Baud.expired, hlt]
    simp [hidle, hsame, hex, hr] at hdec

lemma due_of_switches {session : Snapshot} {now : UInt32} (h : d.Switches session now) :
    d.baud.phase = .waitSwitch ∧ switchDelayMs ≤ now - d.baud.sinceMs := by
  obtain ⟨same, requested, link, hdec⟩ := h
  unfold Device.decide at hdec
  by_cases hidle : d.baud.phase = .idle
  · simp [hidle] at hdec
  · rw [if_neg hidle] at hdec
    dsimp only at hdec
    by_cases hlost : (!d.sameOwner session || d.baud.expired now) = true
    · simp [hlost] at hdec
    · rw [if_neg hlost] at hdec
      split_ifs at hdec with hdue <;>
        obtain ⟨hrestore, -⟩ := Stage.decided.inj hdec <;>
        simpa [hrestore, Baud.switchDue] using hdue

/-- In every run: without a negotiation the UART is at the baseline speed and not paused; at
another speed it is in a negotiation that is bound to a session and a UART link; a poll that finds
the owner gone, and whose calls of the hardware succeed, comes back to the baseline speed; only
the bound link and session can probe and commit; and where the readings of the clock are in order,
a poll gives up or switches only after the time for that. -/
theorem uart_baud_negotiation {h : List TimedStep} (hr : Reaches (orderedUart cfg) h s) :
    (s.device.baud.phase = .idle → s.device.rate = baseline ∧ s.device.paused = false) ∧
    (s.device.rate ≠ baseline → s.device.baud.phase ≠ .idle ∧ s.device.bound ∈ s.device.ids ∧
      s.device.link.transportId = .uart) ∧
    (∀ session now, s.device.stage = .sampled session now → s.device.baud.phase ≠ .idle →
      s.device.sameOwner session = false → ∀ r ls t, Path (timedUart cfg) s (.poll r :: ls) t →
      (∀ r, .poll r ∈ ls → r = .ok) → t.device.stage = .rest →
      ∃ as bs u, ls = as ++ bs ∧ Path (timedUart cfg) s (.poll r :: as) u ∧
        Path (timedUart cfg) u bs t ∧ u.device.stage = .rest ∧ u.device.baud.phase = .idle ∧
        u.device.rate = baseline) ∧
    (∀ id call a, call.isPrepare = false → (∀ f, (s.device.handle id call a).2 ≠ .error f) →
      a.link = s.device.link ∧ id = s.device.bound) ∧
    (∀ session now, s.device.stage = .sampled session now →
      (s.device.Expires session now → s.since + 5000 ≤ s.clock) ∧
      (s.device.Switches session now → s.since + 100 ≤ s.clock)) := by
  have hi := inv_of_reaches_timed hr.of_restrict
  refine ⟨hi.rested.idle, fun hne => ?_, ?_, fun id call a hc hp => handle_bound hi.device hc hp,
    fun session now hs => ?_⟩
  · have hphase : s.device.baud.phase ≠ .idle := fun hidle => hne (hi.rested.idle hidle).1
    exact ⟨hphase, hi.rested.bound hphase⟩
  · rintro session now hs hphase hlost r ls t (_ | ⟨hstep, hp⟩) hok ht
    have hstep' := hstep
    obtain rfl := Option.some.inj hstep'
    have hdec : s.device.poll cfg (nowMs s.clock) r = s.device.decide session now := by
      unfold Device.poll
      rw [hs]
    obtain ⟨as, bs, u, rfl, has, hbs, hu⟩ := restoring_path hp (inv_timed_next hi hstep)
      (by rw [hdec]; exact restoring_of_lost hphase hlost) hok ht
    exact ⟨as, bs, u, rfl, .cons hstep has, hbs, hu⟩
  · have hord := since_le_sample hr session now hs
    have hnow := hi.sampled session now hs
    subst hnow
    refine ⟨fun hex => ?_, fun hsw => ?_⟩
    · obtain ⟨hphase, hle⟩ := expired_of_expires hex
      rw [hi.since hphase] at hle
      exact (elapsed_le hord hle).trans hi.past.2
    · obtain ⟨hphase, hle⟩ := due_of_switches hsw
      rw [hi.since (by simp [hphase])] at hle
      exact (elapsed_le hord hle).trans hi.past.2

/-! ## Runs -/

lemma reaches_timed {epoch : UInt32} {ls : List TimedStep}
    (h : ls.foldlM (Timed.next cfg) { device := { session := init0 cfg epoch } } = some s) :
    Reaches (timedUart cfg) ls s := by
  have h₀ : Reaches (timedUart cfg) [] { device := { session := init0 cfg epoch } } :=
    .init ⟨epoch, rfl⟩
  simpa using h₀.append (.of_foldlM (fun _ _ _ h => h) h)

def Timed.nextOrdered (cfg : Config) (s : Timed) (l : TimedStep) : Option Timed :=
  if s.inOrder l then s.next cfg l else none

lemma step_nextOrdered {l : TimedStep} (h : s.nextOrdered cfg l = some t) :
    (orderedUart cfg).step s l t := by
  unfold Timed.nextOrdered at h
  by_cases hord : s.inOrder l = true
  · rw [if_pos hord] at h
    exact ⟨hord, h⟩
  · rw [if_neg hord] at h
    cases h

lemma reaches_ordered {epoch : UInt32} {ls : List TimedStep}
    (h : ls.foldlM (Timed.nextOrdered cfg)
      { device := { session := init0 cfg epoch } } = some s) :
    Reaches (orderedUart cfg) ls s := by
  have h₀ : Reaches (orderedUart cfg) [] { device := { session := init0 cfg epoch } } :=
    .init ⟨epoch, rfl⟩
  simpa using h₀.append (.of_foldlM (fun _ _ _ => step_nextOrdered) h)

/-- A session over UART prepares a speed at ten milliseconds. -/
def preparing : List TimedStep :=
  [TimedStep.session (.acquire uartLink someNonce 0 someWords true),
    .session (.helloComplete uartLink (makeId someWords) true)] ++
  List.replicate 10 TimedStep.elapse ++
  [TimedStep.request uartLink (makeId someWords) ⟨someToken, .prepare 2000000⟩ true true]

/-- The poll reads its clock, and only then does the acknowledgement complete. -/
def overtaking : List TimedStep :=
  preparing ++ [TimedStep.poll .ok, .elapse, .complete 0 true]

/-- The acknowledgement completes first, and the poll that switches reads its clock at 110 ms. -/
def switching : List TimedStep :=
  preparing ++ [TimedStep.complete 0 true] ++ List.replicate 100 TimedStep.elapse ++
  [TimedStep.poll .ok]

/-- A poll that has sampled is about to switch. -/
def Timed.switchesNow (s : Timed) : Bool :=
  match s.device.stage with
  | .sampled session now =>
    match (s.device.decide session now).stage with
    | .decided false _ _ _ => true
    | _ => false
  | _ => false

lemma switchesNow_eq {s : Timed} (h : s.switchesNow = true) :
    ∃ session now, s.device.stage = .sampled session now ∧ s.device.Switches session now := by
  unfold Timed.switchesNow at h
  split at h
  · rename_i session now hst
    split at h
    · rename_i same requested link hdec
      exact ⟨session, now, hst, same, requested, link, hdec⟩
    · cases h
  · cases h

/-- A poll switches a hundred milliseconds after the acknowledgement. -/
theorem uart_baud_negotiation_switches :
    ∃ s session now, Reaches (orderedUart noSinks) switching s ∧
      s.device.stage = .sampled session now ∧ s.device.Switches session now ∧
      s.since + 100 ≤ s.clock := by
  obtain ⟨s, hs⟩ := Option.isSome_iff_exists.mp
    (show (switching.foldlM (Timed.nextOrdered noSinks)
      { device := { session := init0 noSinks 7 } }).isSome = true by decide +kernel)
  have hview : ((switching.foldlM (Timed.nextOrdered noSinks)
      { device := { session := init0 noSinks 7 } }).map Timed.switchesNow) = some true := by
    decide +kernel
  rw [hs] at hview
  have hr := reaches_ordered hs
  obtain ⟨session, now, hst, hsw⟩ := switchesNow_eq (Option.some.inj hview)
  exact ⟨s, session, now, hr, hst, hsw, ((uart_baud_negotiation hr).2.2.2.2 session now hst).2 hsw⟩

/-- The acknowledgement of a prepare completes at eleven milliseconds, after the poll has read ten.
The unsigned difference wraps: the poll gives the negotiation up at once, and with it the session. -/
theorem overtaken_poll_expires :
    ∃ s session now u, Reaches (timedUart noSinks) overtaking s ∧
      s.device.stage = .sampled session now ∧ s.clock = 11 ∧ s.since = 11 ∧
      s.device.baud.phase = .waitSwitch ∧ s.device.Expires session now ∧
      ¬s.since + 5000 ≤ s.clock ∧
      (List.replicate 4 (TimedStep.poll .ok)).foldlM (Timed.next noSinks) s = some u ∧
      s.device.session.phase = .owned ∧ u.device.session.phase = .free ∧
      u.device.baud.phase = .idle := by
  obtain ⟨s, hs⟩ := Option.isSome_iff_exists.mp
    (show (overtaking.foldlM (Timed.next noSinks)
      { device := { session := init0 noSinks 7 } }).isSome = true by decide +kernel)
  have hview : ((overtaking.foldlM (Timed.next noSinks)
      { device := { session := init0 noSinks 7 } }).bind fun s => match s.device.stage with
        | .sampled session now =>
          ((List.replicate 4 (TimedStep.poll .ok)).foldlM (Timed.next noSinks) s).map fun u =>
            decide (s.clock = 11 ∧ s.since = 11 ∧ s.device.baud.phase = .waitSwitch ∧
              s.device.sameOwner session = true ∧
              (s.device.decide session now).baud.phase = .restore ∧
              s.device.session.phase = .owned ∧ u.device.session.phase = .free ∧
              u.device.baud.phase = .idle)
        | _ => none) = some true := by decide +kernel
  rw [hs, Option.bind_some] at hview
  split at hview
  · rename_i session now hst
    obtain ⟨u, hu, hview⟩ := Option.map_eq_some_iff.mp hview
    obtain ⟨hclock, hsince, hphase, hsame, hrestore, hsess, hend⟩ := of_decide_eq_true hview
    exact ⟨s, session, now, u, reaches_timed hs, hst, hclock, hsince, hphase,
      ⟨by simp [hphase], hsame, hrestore⟩, by omega, hu, hsess, hend⟩
  · cases hview

end EspVision.UartBaud
