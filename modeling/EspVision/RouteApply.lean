import EspVision.SessionHistory

/-!
# Routes follow the session

A transition of the session manager changes the owner under the session lock, and its task applies
the route afterwards, under a lock of its own. Two tasks may reach that lock in the other order
than they passed the session lock; the one whose snapshot is no longer the manager's state applies
nothing. Every section under a lock, and every look at a link, is a step of its own here.
-/
namespace EspVision.EvSession

open EvTransport TransitionSystem

/-! ## Model -/

/-- The routing state of `ev_channel`. -/
structure Channel where
  owner : Option LinkRef := none
  noOwnerSink : Option TransportId
  deriving DecidableEq

/-- The locked section of `ev_channel_set_owner_link`. -/
def Channel.setOwnerLink (cfg : Config) (c : Channel) : Option LinkRef → Channel
  | some link => { c with owner := some link }
  | none => { owner := none, noOwnerSink := cfg.fallbackSink }

/-- The link that `ev_session_apply_route` hands on. -/
def Snapshot.route (snap : Snapshot) : Option LinkRef :=
  if snap.hasOwner then some snap.ownerLink else none

/-- The test of `ev_session_apply_route` under the session lock. -/
def Snapshot.isCurrent (snap : Snapshot) (s : State) : Bool :=
  s.transitionId = snap.transitionId && s.phase = snap.phase &&
    (!snap.hasOwner || s.ownerLink = snap.ownerLink)

/-- A task that has made a transition and has not come to the route lock: inside `acquire`, before
its second look at the link, or on its way into `ev_session_apply_route`. -/
inductive Pending
  | returning (link : LinkRef) (snap : Snapshot)
  | waiting (snap : Snapshot)
  deriving DecidableEq

def Pending.snap : Pending → Snapshot
  | .returning _ snap => snap
  | .waiting snap => snap

/-- Where the task that holds the route lock stands: before the test, before
`ev_transport_set_owner`, and before the two steps of `ev_channel_set_owner_link`. -/
inductive Applying
  | checking (snap : Snapshot)
  | transport (snap : Snapshot)
  | channelLink (snap : Snapshot)
  | channel (snap : Snapshot)
  deriving DecidableEq

/-- The registry of `ev_transport`, the routing of `ev_channel`, the session and the tasks that
apply routes. `alive` records that the owner's link has been current since it was acquired. -/
structure Routes where
  registry : Registry
  channel : Channel
  session : State
  pending : List Pending := []
  applying : Option Applying := none
  alive : Bool := false

/-- The end of a section that may have cleared the owner, with the generation it rotated. -/
def Routes.cleared (s : Routes) (now : UInt32) (r : State × Bool × Option LinkRef) : Routes :=
  { s with
    registry := match r.2.2 with
      | some link => (s.registry.linkAdvanceGeneration link).1
      | none => s.registry
    session := r.1
    pending := if r.2.1 then s.pending ++ [.waiting (r.1.snapshot now)] else s.pending }

/-- A section under the session lock; `now` is the time of the snapshot that it takes. The second
part of `acquire` is `Routes.acquireReturns`. -/
def Routes.section (cfg : Config) (s : Routes) (now : UInt32) : Op → Routes
  | .acquire link nonce at' random cur =>
    match acquire s.session link nonce at' random cur with
    | (t, .granted _) =>
      { s with session := t, pending := s.pending ++ [.returning link (t.snapshot now)] }
    | (t, _) => { s with session := t }
  | .acquireReturn _ _ => s
  | .helloComplete link id true =>
    let t := (helloComplete cfg s.session link id true).1
    { s with
      session := t
      pending := if t.handshakeComplete && !s.session.handshakeComplete then
          s.pending ++ [.waiting (t.snapshot now)]
        else s.pending }
  | .helloComplete link id false => s.cleared now (helloComplete cfg s.session link id false)
  | .releaseFinish link id => s.cleared now (releaseFinish cfg s.session link id)
  | .linkLost link => s.cleared now (linkLost cfg s.session link)
  | .tick at' => s.cleared now (tick cfg s.session at')
  | op => { s with session := (op.apply cfg s.session).1 }

/-- The second look of `ev_session_acquire`: the route is applied, or the link is given up. -/
def Routes.acquireReturns (cfg : Config) (s : Routes) (now : UInt32) (k : ℕ) : Option Routes :=
  match s.pending[k]? with
  | some (.returning link snap) =>
    let s := { s with pending := s.pending.eraseIdx k }
    if s.registry.linkIsCurrent link then
      some { s with pending := s.pending ++ [.waiting snap] }
    else some (s.cleared now (linkLost cfg s.session link))
  | _ => none

/-- A task takes the route lock. -/
def Routes.enter (s : Routes) (k : ℕ) : Option Routes :=
  match s.applying, s.pending[k]? with
  | none, some (.waiting snap) =>
    some { s with pending := s.pending.eraseIdx k, applying := some (.checking snap) }
  | _, _ => none

/-- The next step of the task that holds the route lock. -/
def Routes.apply (cfg : Config) (s : Routes) : Option Routes :=
  s.applying.map fun
    | .checking snap =>
      { s with applying := if snap.isCurrent s.session then some (.transport snap) else none }
    | .transport snap =>
      { s with
        registry := s.registry.setOwner snap.route, applying := some (.channelLink snap) }
    | .channelLink snap =>
      if snap.route.any fun link => !s.registry.linkIsCurrent link then
        { s with applying := none }
      else { s with applying := some (.channel snap) }
    | .channel snap =>
      { s with channel := s.channel.setOwnerLink cfg snap.route, applying := none }

inductive RouteStep
  | session (op : Op) (now : UInt32)
  | acquireReturns (k : ℕ) (now : UInt32)
  | enter (k : ℕ)
  | apply
  | linkOpen (id : TransportId) (slot : ℕ)
  | linkClose (link : LinkRef)
  | linkAdvance (link : LinkRef)

/-- One step; links come and go at any time. -/
def Routes.next (cfg : Config) (s : Routes) : RouteStep → Option Routes
  | .session op now => some (s.section cfg now op)
  | .acquireReturns k now => s.acquireReturns cfg now k
  | .enter k => s.enter k
  | .apply => s.apply cfg
  | .linkOpen id slot => (s.registry.linkOpen id slot).map fun r => { s with registry := r.1 }
  | .linkClose link => some { s with registry := s.registry.linkClose link }
  | .linkAdvance link => some { s with registry := (s.registry.linkAdvanceGeneration link).1 }

/-- Whether the owner's link is still one that has been current since it was acquired. -/
def Routes.watch (s t : Routes) : Routes :=
  { t with alive := (s.alive || (s.session.phase = .free && t.session.phase ≠ .free)) &&
      t.registry.linkIsCurrent t.session.ownerLink }

/-- Any task takes its next step, from a boot without an owner. -/
def routing (cfg : Config) : System Routes RouteStep where
  init s := ∃ registry epoch, registry.owner = none ∧
    s = { registry := registry, channel := ⟨none, cfg.defaultSink⟩, session := init0 cfg epoch }
  step s l t := (s.next cfg l).map s.watch = some t

/-! ## What a section does to the route -/

/-- The owner that the routes should show. -/
def State.route (s : State) : Option LinkRef :=
  if s.phase = .free then none else some s.ownerLink

/-- The section leaves the route alone, or makes the session RELEASING. -/
def Unrouted (s t : State) : Prop :=
  t.phase = .releasing ∨
    (t.phase = s.phase ∧ t.transitionId = s.transitionId ∧ t.ownerLink = s.ownerLink)

lemma Unrouted.refl (s : State) : Unrouted s s := .inr ⟨rfl, rfl, rfl⟩

@[simp] lemma snapshot_isCurrent (s : State) (now : UInt32) :
    (s.snapshot now).isCurrent s = true := by
  by_cases h : s.phase = .free <;> simp [Snapshot.isCurrent, State.snapshot, h]

@[simp] lemma snapshot_phase (s : State) (now : UInt32) : (s.snapshot now).phase = s.phase := rfl

/-- The owner bit of a snapshot says whether its phase has an owner. -/
def Snapshot.Ok (snap : Snapshot) : Prop := snap.hasOwner = true ↔ snap.phase ≠ .free

lemma snapshot_ok (s : State) (now : UInt32) : (s.snapshot now).Ok := by
  simp [Snapshot.Ok, State.snapshot]

/-- A snapshot that passes the test carries the route. -/
lemma Snapshot.Ok.route {snap : Snapshot} (hok : snap.Ok) {s : State}
    (h : snap.isCurrent s = true) : snap.route = s.route := by
  simp only [Snapshot.isCurrent, Bool.and_eq_true, decide_eq_true_eq, Bool.or_eq_true,
    Bool.not_eq_true'] at h
  obtain ⟨⟨-, hp⟩, hl⟩ := h
  unfold Snapshot.route State.route
  by_cases hf : s.phase = .free
  · have hn : ¬snap.hasOwner = true := fun h => hok.mp h (hp ▸ hf)
    rw [if_pos hf, if_neg hn]
  · have hy : snap.hasOwner = true := hok.mpr (hp ▸ hf)
    rw [if_neg hf, if_pos hy, hl.resolve_left (by simp [hy])]

lemma Unrouted.isCurrent {s t : State} (h : Unrouted s t) (hr : t.phase ≠ .releasing)
    {snap : Snapshot} : snap.isCurrent t = snap.isCurrent s := by
  obtain ⟨hp, hi, hl⟩ := h.resolve_left hr
  simp [Snapshot.isCurrent, hp, hi, hl]

lemma Unrouted.route {s t : State} (h : Unrouted s t) (hr : t.phase ≠ .releasing) :
    t.route = s.route := by
  obtain ⟨hp, -, hl⟩ := h.resolve_left hr
  simp [State.route, hp, hl]

/-- What a section does: it leaves the route alone, or the session has changed and a task is on its
way with a snapshot of it. -/
inductive Sectioned (s : Routes) : Routes → Prop
  | same (t : State) (ht : Unrouted s.session t) : Sectioned s { s with session := t }
  | announced (t : State) (ht : Unrouted s.session t) (snap : Snapshot) (hok : snap.Ok) :
      Sectioned s { s with session := t, pending := s.pending ++ [.waiting snap] }
  | granted (t : State) (snap : Snapshot) (ht : t.phase = .owned) (hok : snap.Ok)
      (hcur : snap.isCurrent t = true) :
      Sectioned s { s with
        session := t, pending := s.pending ++ [.returning t.ownerLink snap] }
  | freed (t : State) (registry : Registry) (snap : Snapshot) (ht : t.phase = .free)
      (hok : snap.Ok) (hcur : snap.isCurrent t = true) :
      Sectioned s { s with
        registry := registry, session := t, pending := s.pending ++ [.waiting snap] }

lemma cleared_sectioned {s : Routes} {now : UInt32} {r : State × Bool × Option LinkRef}
    (h : (r.1.phase = .free ∧ r.2.1 = true) ∨ r = (s.session, false, none)) :
    Sectioned s (s.cleared now r) := by
  rcases h with ⟨hfree, hflag⟩ | rfl
  · simp only [Routes.cleared, hflag, if_true]
    exact .freed r.1 _ _ hfree (snapshot_ok _ _) (snapshot_isCurrent _ _)
  · exact .same s.session (Unrouted.refl _)

lemma clearOwner_clears (cfg : Config) (s : State) (link : LinkRef) (requireReleasing : Bool)
    (id : Option (List UInt8)) :
    ((clearOwner cfg s link requireReleasing id).1.phase = .free ∧
        (clearOwner cfg s link requireReleasing id).2.1 = true) ∨
      clearOwner cfg s link requireReleasing id = (s, false, none) := by
  rcases clearOwner_cases cfg s link requireReleasing id with ⟨-, h⟩ | h
  · exact .inl (by simp [h])
  · exact .inr h

lemma helloComplete_unrouted (cfg : Config) (s : State) (link : LinkRef) (id : List UInt8) :
    Unrouted s (helloComplete cfg s link id true).1 := by
  unfold helloComplete
  simp only [Bool.not_true, Bool.false_eq_true, if_false]
  split_ifs
  · exact Unrouted.refl s
  · exact .inr ⟨rfl, rfl, rfl⟩

lemma releasePrepare_unrouted (s : State) (link : LinkRef) (id : Option (List UInt8))
    (linkCurrent : Bool) : Unrouted s (releasePrepare s link id linkCurrent).1 := by
  unfold releasePrepare
  split_ifs <;> first | exact Unrouted.refl s | exact .inl rfl

theorem section_sectioned (cfg : Config) (s : Routes) (now : UInt32) (op : Op) :
    Sectioned s (s.section cfg now op) := by
  cases op with
  | acquire link nonce at' random cur =>
    simp only [Routes.section]
    rcases acquire_cases s.session link nonce at' random cur with
      ⟨-, -, ha⟩ | ⟨-, -, -, -, ha⟩ | ⟨r, ha⟩
    · rw [ha]
      exact .granted _ _ rfl (snapshot_ok _ _) (snapshot_isCurrent _ _)
    · rw [ha]
      exact .same _ (.inr ⟨rfl, rfl, rfl⟩)
    · rw [ha]
      exact .same _ (Unrouted.refl _)
  | acquireReturn link cur => exact .same s.session (Unrouted.refl _)
  | helloComplete link id tx =>
    cases tx with
    | true =>
      simp only [Routes.section]
      split_ifs
      · exact .announced _ (helloComplete_unrouted ..) _ (snapshot_ok _ _)
      · exact .same _ (helloComplete_unrouted ..)
    | false => exact cleared_sectioned (clearOwner_clears ..)
  | releaseFinish link id => exact cleared_sectioned (clearOwner_clears ..)
  | linkLost link => exact cleared_sectioned (clearOwner_clears ..)
  | tick at' =>
    refine cleared_sectioned ?_
    unfold tick
    split_ifs
    · exact .inr rfl
    · exact .inl ⟨rfl, rfl⟩
  | keepalive link id at' cur =>
    refine .same _ ?_
    rcases keepalive_cases s.session link id at' cur with ⟨h, -⟩ | ⟨h, -⟩
    · simp only [Op.apply, h]
      exact .inr ⟨rfl, rfl, rfl⟩
    · simp only [Op.apply, h]
      exact Unrouted.refl _
  | authorize link id vm epoch at' cur =>
    refine .same _ ?_
    rcases authorize_cases s.session link id vm epoch at' cur with ⟨h, -⟩ | ⟨h, -⟩
    · simp only [Op.apply, h]
      exact .inr ⟨rfl, rfl, rfl⟩
    · simp only [Op.apply, h]
      exact Unrouted.refl _
  | releasePrepare link id cur => exact .same _ (releasePrepare_unrouted ..)
  | vmEpochAdvance => exact .same _ (.inr ⟨rfl, rfl, rfl⟩)
  | setVmReady ready => exact .same _ (.inr ⟨rfl, rfl, rfl⟩)

/-! ## The invariant -/

/-- The session has an owner whose link has been current since it was acquired, or none. -/
def Routes.Live (s : Routes) : Prop :=
  s.session.phase = .free ∨ (s.session.phase = .owned ∧ s.alive = true)

/-- Some task still has the session's route to apply. -/
def Routes.Owed (s : Routes) : Prop :=
  (∃ p ∈ s.pending, p.snap.isCurrent s.session = true) ∨
    ∃ snap, s.applying = some (.checking snap) ∧ snap.isCurrent s.session = true

/-- What the task that holds the route lock has done of it. -/
def Routes.Applied (s : Routes) : Prop :=
  match s.applying with
  | none | some (.checking _) =>
    s.registry.owner = s.session.route ∧ s.channel.owner = s.session.route
  | some (.transport snap) => snap.route = s.session.route
  | some (.channelLink snap) | some (.channel snap) =>
    snap.route = s.session.route ∧ s.registry.owner = s.session.route

/-- The snapshots that tasks carry; one that an `acquire` carries is of its own link. -/
def Pending.Ok : Pending → Prop
  | .returning link snap => snap.Ok ∧ snap.phase = .owned ∧ snap.ownerLink = link
  | .waiting snap => snap.Ok

lemma Pending.Ok.snap {p : Pending} (h : p.Ok) : p.snap.Ok := by
  cases p with
  | returning link snap => exact h.1
  | waiting snap => exact h

structure Routes.Inv (s : Routes) : Prop where
  pending : ∀ p ∈ s.pending, p.Ok
  checking : ∀ snap, s.applying = some (.checking snap) → snap.Ok
  current : s.alive = true → s.registry.linkIsCurrent s.session.ownerLink = true
  route : s.Live → s.Owed ∨ s.Applied

lemma Routes.Live.not_releasing {s : Routes} (h : s.Live) : s.session.phase ≠ .releasing := by
  rcases h with h | ⟨h, -⟩ <;> simp [h]

/-! ### The registry -/

/-- A change of the registry that leaves a current owner, and brings no owner. -/
def KeepsOwner (r r' : EvTransport.Registry) : Prop :=
  (r.owner = none → r'.owner = none) ∧
    ∀ link, r.owner = some link → r.linkIsCurrent link = true → r'.linkIsCurrent link = true →
      r'.owner = some link

lemma linkOpen_keeps {r : EvTransport.Registry} {id : TransportId} {slot : ℕ}
    {out : EvTransport.Registry × LinkRef} (h : r.linkOpen id slot = some out) :
    KeepsOwner r out.1 := by
  unfold EvTransport.Registry.linkOpen at h
  split_ifs at h
  obtain rfl := Option.some.inj h
  exact ⟨fun hn => hn, fun _ ho _ _ => ho⟩

lemma linkClose_keeps (r : EvTransport.Registry) (link : LinkRef) :
    KeepsOwner r (r.linkClose link) := by
  by_cases hc : r.linkIsCurrent link = true
  · refine ⟨fun hn => ?_, fun o ho _ hcur' => ?_⟩
    · simp [EvTransport.Registry.linkClose, hc, hn]
    · have hne : o ≠ link := by
        rintro rfl
        simp at hcur'
      simp [EvTransport.Registry.linkClose, hc, ho, hne]
  · rw [show r.linkClose link = r from if_neg hc]
    exact ⟨id, fun _ ho _ _ => ho⟩

lemma linkAdvance_keeps (r : EvTransport.Registry) (link : LinkRef) :
    KeepsOwner r (r.linkAdvanceGeneration link).1 := by
  by_cases hc : r.linkIsCurrent link = true
  · have heq : (r.linkAdvanceGeneration link).1 =
        { r.setLink link.transportId link.slot ⟨nextGeneration link.generation, true⟩ with
          owner := r.owner.map fun o =>
            if o.transportId = link.transportId ∧ o.slot = link.slot then
              { link with generation := nextGeneration link.generation }
            else o } := by
      simp [EvTransport.Registry.linkAdvanceGeneration, hc]
    rw [heq]
    refine ⟨fun hn => by simp [hn], fun o ho hcur hcur' => ?_⟩
    by_cases hslot : o.transportId = link.transportId ∧ o.slot = link.slot
    · -- a link that is current before and after has not been advanced
      rw [EvTransport.Registry.linkIsCurrent_iff] at hc hcur hcur'
      have hgen : nextGeneration link.generation = o.generation := by
        simpa [hslot] using hcur'.2.2.2
      have hold : link.generation = o.generation := by
        rw [← hc.2.2.2, ← hcur.2.2.2, hslot.1, hslot.2]
      exact absurd (hgen.trans hold.symm) (nextGeneration_ne _)
    · simp [ho, hslot]
  · have heq : (r.linkAdvanceGeneration link).1 = r := by
      simp [EvTransport.Registry.linkAdvanceGeneration, hc]
    rw [heq]
    exact ⟨id, fun _ ho _ _ => ho⟩

/-! ### Steps -/

variable {cfg : Config} {s t : Routes}

/-- A step that does not start a session finds the session as alive as it leaves it. -/
lemma live_of_watch (hs : Unrouted s.session t.session) (h : (s.watch t).Live) : s.Live := by
  obtain ⟨hp, -, -⟩ := hs.resolve_left h.not_releasing
  rcases h with hfree | ⟨howned, halive⟩
  · exact .inl (hp ▸ hfree)
  · have howned : t.session.phase = .owned := howned
    refine .inr ⟨hp ▸ howned, ?_⟩
    simp only [Routes.watch, Bool.and_eq_true, Bool.or_eq_true, decide_eq_true_eq] at halive
    rcases halive.1 with ha | ⟨hf, -⟩
    · exact ha
    · rw [← hp, howned] at hf
      exact absurd hf (by decide)

lemma watch_current (h : (s.watch t).alive = true) :
    t.registry.linkIsCurrent t.session.ownerLink = true := by
  simp only [Routes.watch, Bool.and_eq_true] at h
  exact h.2

lemma Routes.Live.current (hl : s.Live) (hi : s.Inv) {link : LinkRef}
    (hr : s.session.route = some link) : s.registry.linkIsCurrent link = true := by
  rcases hl with hf | ⟨ho, ha⟩
  · simp [State.route, hf] at hr
  · simp only [State.route, ho, reduceCtorEq, if_false, Option.some.injEq] at hr
    exact hr ▸ hi.current ha

lemma watch_route_current (hs : Unrouted s.session t.session) (h : (s.watch t).Live)
    {link : LinkRef} (hr : s.session.route = some link) :
    t.registry.linkIsCurrent link = true := by
  rw [← hs.route h.not_releasing] at hr
  rcases h with hf | ⟨ho, ha⟩
  · have hf : t.session.phase = .free := hf
    simp [State.route, hf] at hr
  · have ho : t.session.phase = .owned := ho
    simp only [State.route, ho, reduceCtorEq, if_false, Option.some.injEq] at hr
    exact hr ▸ watch_current ha

/-- A step that adds tasks, or moves links, and leaves the route alone. -/
lemma inv_carry (hi : s.Inv) (hs : Unrouted s.session t.session)
    (hp : ∀ p ∈ s.pending, p ∈ t.pending) (hok : ∀ p ∈ t.pending, p.Ok)
    (ha : t.applying = s.applying) (hc : t.channel = s.channel)
    (hk : KeepsOwner s.registry t.registry) : (s.watch t).Inv := by
  refine ⟨hok, fun snap h => hi.checking snap (ha ▸ h), watch_current, fun hl => ?_⟩
  have hls := live_of_watch hs hl
  have hcur : ∀ snap : Snapshot, snap.isCurrent t.session = snap.isCurrent s.session :=
    fun snap => hs.isCurrent hl.not_releasing
  have hroute : t.session.route = s.session.route := hs.route hl.not_releasing
  rcases hi.route hls with (⟨p, hmem, h⟩ | ⟨snap, happ, h⟩) | happ
  · exact .inl (.inl ⟨p, hp p hmem, (hcur _).trans h⟩)
  · exact .inl (.inr ⟨snap, ha.trans happ, (hcur _).trans h⟩)
  · have howner : s.registry.owner = s.session.route → t.registry.owner = s.session.route := by
      intro ho
      cases hr : s.session.route with
      | none => exact hk.1 (ho.trans hr)
      | some link =>
        exact hk.2 link (ho.trans hr) (hls.current hi hr) (watch_route_current hs hl hr)
    right
    unfold Routes.Applied at happ ⊢
    change match t.applying with
      | none | some (.checking _) =>
        t.registry.owner = t.session.route ∧ t.channel.owner = t.session.route
      | some (.transport snap) => snap.route = t.session.route
      | some (.channelLink snap) | some (.channel snap) =>
        snap.route = t.session.route ∧ t.registry.owner = t.session.route
    rw [ha, hc, hroute]
    revert happ
    cases s.applying with
    | none => exact fun h => ⟨howner h.1, h.2⟩
    | some stage =>
      cases stage with
      | checking snap => exact fun h => ⟨howner h.1, h.2⟩
      | transport snap => exact fun h => h
      | channelLink snap => exact fun h => ⟨h.1, howner h.2⟩
      | channel snap => exact fun h => ⟨h.1, howner h.2⟩

/-- A step after which some task carries the session's snapshot. -/
lemma inv_owed (hi : s.Inv) (hok : ∀ p ∈ t.pending, p.Ok) (ha : t.applying = s.applying)
    (ho : t.Owed) : (s.watch t).Inv :=
  ⟨hok, fun snap h => hi.checking snap (ha ▸ h), watch_current, fun _ => .inl ho⟩

lemma inv_sectioned (hi : s.Inv) (h : Sectioned s t) : (s.watch t).Inv := by
  have happend : ∀ q : Pending, q.Ok → ∀ p ∈ s.pending ++ [q], p.Ok := fun q hq p hp => by
    rcases List.mem_append.mp hp with hp | hp
    · exact hi.pending p hp
    · exact List.mem_singleton.mp hp ▸ hq
  cases h with
  | same t ht =>
    exact inv_carry hi ht (fun _ hp => hp) hi.pending rfl rfl ⟨fun h => h, fun _ h _ _ => h⟩
  | announced t ht snap hok =>
    exact inv_carry hi ht (fun _ hp => List.mem_append_left _ hp) (happend _ hok) rfl rfl
      ⟨fun h => h, fun _ h _ _ => h⟩
  | granted t snap ht hok hcur =>
    refine inv_owed hi (happend _ ⟨hok, ?_, ?_⟩) rfl
      (.inl ⟨.returning t.ownerLink snap, List.mem_append_right _ ?_, hcur⟩)
    · simp only [Snapshot.isCurrent, Bool.and_eq_true, decide_eq_true_eq] at hcur
      exact hcur.1.2.symm.trans ht
    · simp only [Snapshot.isCurrent, Bool.and_eq_true, decide_eq_true_eq, Bool.or_eq_true,
        Bool.not_eq_true'] at hcur
      refine (hcur.2.resolve_left ?_).symm
      rw [hok.mpr (by rw [← hcur.1.2, ht]; decide)]
      decide
    · exact List.mem_singleton_self _
  | freed t registry snap ht hok hcur =>
    exact inv_owed hi (happend _ hok) rfl
      (.inl ⟨.waiting snap, List.mem_append_right _ (List.mem_singleton_self _), hcur⟩)

lemma mem_eraseIdx_or {α : Type*} {l : List α} {k : ℕ} {x y : α} (hk : l[k]? = some y)
    (hx : x ∈ l) : x = y ∨ x ∈ l.eraseIdx k := by
  obtain ⟨i, hi⟩ := List.mem_iff_getElem?.mp hx
  by_cases h : i = k
  · exact .inl (Option.some.inj (hi.symm.trans (h ▸ hk)))
  · exact .inr (List.mem_eraseIdx_iff_getElem?.mpr ⟨i, h, hi⟩)

/-- The snapshot of an `acquire` whose link cannot be given up is not the session's any more. -/
lemma not_current_of_kept {link : LinkRef} {snap : Snapshot} (hok : (Pending.returning link snap).Ok)
    (h : linkLost cfg s.session link = (s.session, false, none)) :
    snap.isCurrent s.session = false := by
  by_contra hcur
  rw [Bool.not_eq_false] at hcur
  obtain ⟨hsnap, hp, hl⟩ := hok
  simp only [Snapshot.isCurrent, Bool.and_eq_true, decide_eq_true_eq, Bool.or_eq_true,
    Bool.not_eq_true'] at hcur
  have howner : snap.hasOwner = true := hsnap.mpr (by rw [hp]; decide)
  have hallowed : clearOwnerAllowed s.session link false none = true := by
    refine clearOwnerAllowed_iff.mpr ⟨?_, ?_, by simp, .inl rfl⟩
    · rw [hcur.1.2, hp]
      decide
    · rw [← hl]
      exact (hcur.2.resolve_left (by simp [howner])).symm
  have hflag := congrArg (·.2.1) h
  simp [linkLost, clearOwner, hallowed] at hflag

lemma inv_acquireReturns (hi : s.Inv) {now : UInt32} {k : ℕ}
    (h : s.acquireReturns cfg now k = some t) : (s.watch t).Inv := by
  unfold Routes.acquireReturns at h
  split at h
  swap
  · exact absurd h (by simp)
  rename_i link snap hk
  have hpok := hi.pending _ (List.mem_of_getElem? hk)
  have hsub : ∀ p ∈ s.pending.eraseIdx k, p.Ok :=
    fun p hp => hi.pending p ((List.eraseIdx_sublist _ _).subset hp)
  have hadd : ∀ q : Snapshot, q.Ok → ∀ p ∈ s.pending.eraseIdx k ++ [.waiting q], p.Ok :=
    fun q hq p hp => by
      rcases List.mem_append.mp hp with hp | hp
      · exact hsub p hp
      · exact List.mem_singleton.mp hp ▸ hq
  dsimp only at h
  split_ifs at h with hcurrent
  · obtain rfl := Option.some.inj h
    refine ⟨hadd snap hpok.1, hi.checking, watch_current, fun hl => ?_⟩
    rcases hi.route (live_of_watch (Unrouted.refl _) hl) with (⟨p, hmem, hc⟩ | hcheck) | happ
    · rcases mem_eraseIdx_or hk hmem with rfl | hmem
      · exact .inl (.inl ⟨.waiting snap, List.mem_append_right _ (List.mem_singleton_self _), hc⟩)
      · exact .inl (.inl ⟨p, List.mem_append_left _ hmem, hc⟩)
    · exact .inl (.inr hcheck)
    · exact .inr happ
  · obtain rfl := Option.some.inj h
    rcases clearOwner_clears cfg s.session link false none with ⟨hfree, hflag⟩ | hkept
    · have hpend : (Routes.cleared { s with pending := s.pending.eraseIdx k } now
          (linkLost cfg s.session link)).pending = s.pending.eraseIdx k ++
            [.waiting ((linkLost cfg s.session link).1.snapshot now)] := by
        simp only [Routes.cleared, linkLost, hflag, if_true]
      refine inv_owed hi ?_ rfl ?_
      · rw [hpend]
        exact hadd _ (snapshot_ok _ _)
      · refine .inl ⟨.waiting ((linkLost cfg s.session link).1.snapshot now), ?_,
          snapshot_isCurrent _ _⟩
        rw [hpend]
        exact List.mem_append_right _ (List.mem_singleton_self _)
    · have hsame : Routes.cleared { s with pending := s.pending.eraseIdx k } now
          (linkLost cfg s.session link) = { s with pending := s.pending.eraseIdx k } := by
        simp [Routes.cleared, linkLost, hkept]
      rw [hsame]
      refine ⟨hsub, hi.checking, watch_current, fun hl => ?_⟩
      rcases hi.route (live_of_watch (Unrouted.refl _) hl) with (⟨p, hmem, hc⟩ | hcheck) | happ
      · rcases mem_eraseIdx_or hk hmem with rfl | hmem
        · have hno : snap.isCurrent s.session = true := hc
          rw [not_current_of_kept hpok hkept] at hno
          exact absurd hno (by decide)
        · exact .inl (.inl ⟨p, hmem, hc⟩)
      · exact .inl (.inr hcheck)
      · exact .inr happ

lemma inv_enter (hi : s.Inv) {k : ℕ} (h : s.enter k = some t) : (s.watch t).Inv := by
  unfold Routes.enter at h
  split at h
  swap
  · exact absurd h (by simp)
  rename_i snap happ hk
  obtain rfl := Option.some.inj h
  have hpok : snap.Ok := hi.pending _ (List.mem_of_getElem? hk)
  refine ⟨fun p hp => hi.pending p ((List.eraseIdx_sublist _ _).subset hp), fun snap' h => ?_,
    watch_current, fun hl => ?_⟩
  · obtain rfl := Applying.checking.inj (Option.some.inj h)
    exact hpok
  · rcases hi.route (live_of_watch (Unrouted.refl _) hl) with (⟨p, hmem, hc⟩ | ⟨q, hq, -⟩) | happ'
    · rcases mem_eraseIdx_or hk hmem with rfl | hmem
      · exact .inl (.inr ⟨snap, rfl, hc⟩)
      · exact .inl (.inl ⟨p, hmem, hc⟩)
    · rw [happ] at hq
      exact absurd hq (by simp)
    · unfold Routes.Applied at happ'
      rw [happ] at happ'
      exact .inr happ'

/-- The holder of the route lock takes a step: what the other tasks owe they still owe, and what
it has applied itself is what is left to show. -/
lemma inv_holder (hi : s.Inv) (hs : t.session = s.session) (hp : t.pending = s.pending)
    (hcheck : ∀ snap, t.applying ≠ some (.checking snap))
    (h : s.Live → ((∃ snap, s.applying = some (.checking snap) ∧ snap.isCurrent s.session = true) ∨
      s.Applied) → (s.watch t).Applied) : (s.watch t).Inv := by
  refine ⟨?_, fun snap hc => absurd hc (hcheck snap), watch_current, fun hl => ?_⟩
  · change ∀ p ∈ t.pending, p.Ok
    exact hp ▸ hi.pending
  · have hls := live_of_watch (hs ▸ Unrouted.refl _) hl
    rcases hi.route hls with (⟨p, hmem, hc⟩ | hc) | hdone
    · refine .inl (.inl ⟨p, ?_, ?_⟩)
      · change p ∈ t.pending
        exact hp ▸ hmem
      · change p.snap.isCurrent t.session = true
        exact hs ▸ hc
    · exact .inr (h hls (.inl hc))
    · exact .inr (h hls (.inr hdone))

lemma inv_checking (hi : s.Inv) {snap : Snapshot} (happ : s.applying = some (.checking snap)) :
    (s.watch { s with
      applying := if snap.isCurrent s.session then some (.transport snap) else none }).Inv := by
  refine inv_holder hi rfl rfl (fun q hq => ?_) fun _ h => ?_
  · dsimp only at hq
    split_ifs at hq
    exact absurd hq (by simp)
  · by_cases hc : snap.isCurrent s.session = true
    · unfold Routes.Applied
      simp only [Routes.watch, hc, if_true]
      exact (hi.checking snap happ).route hc
    · have hdone : s.Applied := by
        rcases h with ⟨q, hq, hcq⟩ | hdone
        · obtain rfl := Applying.checking.inj (Option.some.inj (happ.symm.trans hq))
          exact absurd hcq hc
        · exact hdone
      unfold Routes.Applied at hdone ⊢
      rw [happ] at hdone
      simp only [Routes.watch, hc, Bool.false_eq_true, if_false]
      exact hdone

/-- Past the test there is nothing to check. -/
lemma applied_of_holder {stage : Applying} (happ : s.applying = some stage)
    (hstage : ∀ snap, stage ≠ .checking snap)
    (h : (∃ snap, s.applying = some (.checking snap) ∧ snap.isCurrent s.session = true) ∨
      s.Applied) : s.Applied := by
  rcases h with ⟨q, hq, -⟩ | hdone
  · exact absurd (Option.some.inj (happ.symm.trans hq)) (hstage q)
  · exact hdone

lemma inv_transport (hi : s.Inv) {snap : Snapshot} (happ : s.applying = some (.transport snap)) :
    (s.watch { s with
      registry := s.registry.setOwner snap.route
      applying := some (.channelLink snap) }).Inv := by
  refine inv_holder hi rfl rfl (fun q => by simp) fun hl h => ?_
  have hdone := applied_of_holder happ (by simp) h
  unfold Routes.Applied at hdone
  rw [happ] at hdone
  have hr : snap.route = s.session.route := hdone
  refine ⟨hr, ?_⟩
  change (s.registry.setOwner snap.route).owner = s.session.route
  rw [hr]
  cases hrl : s.session.route with
  | none => rfl
  | some link => simp [EvTransport.Registry.setOwner, hl.current hi hrl]

/-- The channel is left alone only when the link of the route is not current any more. -/
lemma inv_channelLink (hi : s.Inv) {snap : Snapshot}
    (happ : s.applying = some (.channelLink snap)) :
    (s.watch (if snap.route.any fun link => !s.registry.linkIsCurrent link then
        { s with applying := none }
      else { s with applying := some (.channel snap) })).Inv := by
  by_cases hstale : (snap.route.any fun link => !s.registry.linkIsCurrent link) = true
  · rw [if_pos hstale]
    refine inv_holder hi rfl rfl (fun q => by simp) fun hl h => ?_
    have hdone := applied_of_holder happ (by simp) h
    unfold Routes.Applied at hdone
    rw [happ] at hdone
    have hr : snap.route = s.session.route := hdone.1
    cases hrl : s.session.route with
    | none => simp [hr, hrl] at hstale
    | some link => simp [hr, hrl, hl.current hi hrl] at hstale
  · rw [if_neg hstale]
    refine inv_holder hi rfl rfl (fun q => by simp) fun hl h => ?_
    have hdone := applied_of_holder happ (by simp) h
    unfold Routes.Applied at hdone
    rw [happ] at hdone
    exact hdone

lemma inv_channel (hi : s.Inv) {snap : Snapshot} (happ : s.applying = some (.channel snap)) :
    (s.watch { s with
      channel := s.channel.setOwnerLink cfg snap.route
      applying := none }).Inv := by
  refine inv_holder hi rfl rfl (fun q => by simp) fun hl h => ?_
  have hdone := applied_of_holder happ (by simp) h
  unfold Routes.Applied at hdone
  rw [happ] at hdone
  obtain ⟨hr, ho⟩ : snap.route = s.session.route ∧ s.registry.owner = s.session.route := hdone
  refine ⟨ho, ?_⟩
  change (s.channel.setOwnerLink cfg snap.route).owner = s.session.route
  rw [hr]
  cases s.session.route <;> rfl

lemma inv_apply (hi : s.Inv) (h : s.apply cfg = some t) : (s.watch t).Inv := by
  obtain ⟨stage, happ, rfl⟩ := Option.map_eq_some_iff.mp h
  cases stage with
  | checking snap => exact inv_checking hi happ
  | transport snap => exact inv_transport hi happ
  | channelLink snap => exact inv_channelLink hi happ
  | channel snap => exact inv_channel hi happ

theorem inv_route_next {l : RouteStep} (hi : s.Inv) (h : s.next cfg l = some t) :
    (s.watch t).Inv := by
  cases l with
  | session op now =>
    obtain rfl := Option.some.inj h
    exact inv_sectioned hi (section_sectioned cfg s now op)
  | acquireReturns k now => exact inv_acquireReturns hi h
  | enter k => exact inv_enter hi h
  | apply => exact inv_apply hi h
  | linkOpen id slot =>
    obtain ⟨r, hr, rfl⟩ := Option.map_eq_some_iff.mp h
    exact inv_carry hi (Unrouted.refl _) (fun _ hp => hp) hi.pending rfl rfl (linkOpen_keeps hr)
  | linkClose link =>
    obtain rfl := Option.some.inj h
    exact inv_carry hi (Unrouted.refl _) (fun _ hp => hp) hi.pending rfl rfl (linkClose_keeps _ _)
  | linkAdvance link =>
    obtain rfl := Option.some.inj h
    exact inv_carry hi (Unrouted.refl _) (fun _ hp => hp) hi.pending rfl rfl
      (linkAdvance_keeps _ _)

theorem inv_of_reaches_routing {h : List RouteStep} (hr : Reaches (routing cfg) h s) : s.Inv := by
  refine hr.stateInvariant (I := Routes.Inv) ?_ fun s l t hi hstep => ?_
  · rintro s ⟨registry, epoch, ho, rfl⟩
    exact ⟨by simp, by simp, by simp, fun _ => .inr ⟨ho, rfl⟩⟩
  · obtain ⟨t', ht, rfl⟩ := Option.map_eq_some_iff.mp hstep
    exact inv_route_next hi ht

/-! ## Convergence -/

/-- **The routes converge.** In every state of every run in which no task has a route left to
apply: the owner of a FREE session is shown nowhere, and the owner of an OWNED session is shown by
the transport and by the channel, if its link has been current since it was acquired. -/
theorem routes_converge {h : List RouteStep} (hr : Reaches (routing cfg) h s)
    (hquiet : s.pending = [] ∧ s.applying = none) :
    (s.session.phase = .owned → s.alive = true →
      s.registry.owner = some s.session.ownerLink ∧ s.channel.owner = some s.session.ownerLink) ∧
    (s.session.phase = .free → s.registry.owner = none ∧ s.channel.owner = none) := by
  have hi := inv_of_reaches_routing hr
  have hroute : s.Live → s.registry.owner = s.session.route ∧
      s.channel.owner = s.session.route := by
    intro hl
    rcases hi.route hl with (⟨p, hp, -⟩ | ⟨snap, hsnap, -⟩) | happ
    · rw [hquiet.1] at hp
      exact absurd hp (by simp)
    · rw [hquiet.2] at hsnap
      exact absurd hsnap (by simp)
    · unfold Routes.Applied at happ
      rw [hquiet.2] at happ
      exact happ
  refine ⟨fun ho ha => ?_, fun hf => ?_⟩
  · have hshown : s.session.route = some s.session.ownerLink := by simp [State.route, ho]
    exact hshown ▸ hroute (.inr ⟨ho, ha⟩)
  · have hshown : s.session.route = none := by simp [State.route, hf]
    exact hshown ▸ hroute (.inl hf)

/-! ## Runs -/

/-- Take steps one after the other. -/
def Routes.run (cfg : Config) (s : Routes) : List RouteStep → Option Routes
  | [] => some s
  | l :: ls => ((s.next cfg l).map s.watch).bind fun t => t.run cfg ls

lemma Routes.run_path {ls : List RouteStep} {s t : Routes} (h : s.run cfg ls = some t) :
    Path (routing cfg) s ls t := by
  induction ls generalizing s with
  | nil =>
    obtain rfl := Option.some.inj h
    exact .nil s
  | cons l ls ih =>
    obtain ⟨u, hs, h⟩ := Option.bind_eq_some_iff.mp h
    exact .cons hs (ih h)

/-- One USB link, open from the start. -/
def usbRegistry : Registry :=
  ⟨fun id slot => if id = .usb ∧ slot = 0 then ⟨1, true⟩ else {}, fun id => id = .usb, none⟩

def bootRoutes : Routes :=
  { registry := usbRegistry, channel := ⟨none, none⟩, session := init0 noSinks 7 }

lemma reaches_bootRoutes {ls : List RouteStep} (h : bootRoutes.run noSinks ls = some t) :
    Reaches (routing noSinks) ls t := by
  have h₀ : Reaches (routing noSinks) [] bootRoutes := .init ⟨usbRegistry, 7, rfl, rfl⟩
  simpa using h₀.append (Routes.run_path h)

/-- A task applies a route from the lock to the end. -/
def wholeApply : List RouteStep := [.enter 0, .apply, .apply, .apply, .apply]

def acquireUsb : RouteStep := .session (.acquire usbLink someNonce 0 someWords true) 0

theorem routes_converge_acquired :
    ∃ s, Reaches (routing noSinks) (acquireUsb :: .acquireReturns 0 0 :: wholeApply) s ∧
      s.registry.owner = some usbLink ∧ s.channel.owner = some usbLink := by
  obtain ⟨s, hs⟩ := Option.isSome_iff_exists.mp (show (bootRoutes.run noSinks
    (acquireUsb :: .acquireReturns 0 0 :: wholeApply)).isSome = true by decide)
  have hview : (bootRoutes.run noSinks (acquireUsb :: .acquireReturns 0 0 :: wholeApply)).map
      (fun s => (decide (s.pending = [] ∧ s.applying = none),
        decide (s.session.phase = .owned ∧ s.alive = true), s.session.ownerLink)) =
      some (true, true, usbLink) := by decide
  rw [hs] at hview
  obtain ⟨hquiet, hview⟩ := Prod.ext_iff.mp (Option.some.inj hview)
  obtain ⟨howned, hlink⟩ := Prod.ext_iff.mp hview
  have hr := reaches_bootRoutes hs
  obtain ⟨ho, ha⟩ := of_decide_eq_true howned
  have h := (routes_converge hr (of_decide_eq_true hquiet)).1 ho ha
  have hlink : s.session.ownerLink = usbLink := hlink
  exact ⟨s, hr, hlink ▸ h⟩

/-- A link that is retired between the second look of `acquire` and the route: the session is
OWNED, no task has a route left to apply, and neither the transport nor the channel has an owner. -/
theorem retired_owner_is_not_shown :
    ∃ s, Reaches (routing noSinks)
        (acquireUsb :: .acquireReturns 0 0 :: .linkClose usbLink :: wholeApply.dropLast) s ∧
      s.pending = [] ∧ s.applying = none ∧ s.session.phase = .owned ∧
      s.session.ownerLink = usbLink ∧ s.registry.owner = none ∧ s.channel.owner = none := by
  obtain ⟨s, hs⟩ := Option.isSome_iff_exists.mp (show (bootRoutes.run noSinks
    (acquireUsb :: .acquireReturns 0 0 :: .linkClose usbLink :: wholeApply.dropLast)).isSome = true
      by decide)
  have hview : (bootRoutes.run noSinks
      (acquireUsb :: .acquireReturns 0 0 :: .linkClose usbLink :: wholeApply.dropLast)).map
      (fun s => decide (s.pending = [] ∧ s.applying = none ∧ s.session.phase = .owned ∧
        s.session.ownerLink = usbLink ∧ s.registry.owner = none ∧ s.channel.owner = none)) =
      some true := by decide
  rw [hs] at hview
  exact ⟨s, reaches_bootRoutes hs, of_decide_eq_true (Option.some.inj hview)⟩

end EspVision.EvSession
