import EspVision.TcpLaps

/-!
# Observers of the preview

The owner of the session does not observe the preview, and an observer does not get the session.
Both are decided by the manager, but what it has looked at may be lost before it acts. No frame is
started for a link that is not an observer, but the one that the TX worker was about to start.
-/
namespace EspVision.Tcp

open EvTransport TaskProgram TransitionSystem

/-! ## Steps that make no observer -/

/-- The event opens a slot of the registry or makes an observer. -/
def Event.Marks : Event → Prop
  | .issued _ _ => True
  | .subscribed _ _ => True
  | _ => False

/-- A step that makes no link an observer, an owner or current. -/
structure Calm (s t : State) : Prop where
  observers : t.observers = s.observers
  owner : ∀ link, link.transportId = .tcp → t.owner = some link → s.owner = some link
  opened : ∀ slot, (t.registry.links .tcp slot).isOpen = true →
    t.registry.links .tcp slot = s.registry.links .tcp slot
  supported : t.registry.supported = s.registry.supported
  marks : ∀ e, e.Marks → t.log.count e = s.log.count e

/-- The same for a step that leaves the worker and the frames alone too. -/
structure Still (s t : State) : Prop extends Calm s t where
  special : t.special = s.special
  starts : ∀ link, t.log.count (.started link) = s.log.count (.started link)

lemma Calm.of_eq {s t : State} (hobservers : t.observers = s.observers) (howner : t.owner = s.owner)
    (hregistry : t.registry = s.registry) (hlog : t.log = s.log) : Calm s t where
  observers := hobservers
  owner := fun link _ h => by rwa [← howner]
  opened := fun slot _ => by rw [hregistry]
  supported := by rw [hregistry]
  marks := fun e _ => by rw [hlog]

lemma Still.of_eq {s t : State} (hobservers : t.observers = s.observers) (howner : t.owner = s.owner)
    (hregistry : t.registry = s.registry) (hspecial : t.special = s.special)
    (hlog : t.log = s.log) : Still s t where
  toCalm := .of_eq hobservers howner hregistry hlog
  special := hspecial
  starts := fun link => by rw [hlog]

lemma Still.refl (s : State) : Still s s := .of_eq rfl rfl rfl rfl rfl

lemma Calm.trans {s t u : State} (h : Calm s t) (h' : Calm t u) : Calm s u where
  observers := h'.observers.trans h.observers
  owner := fun link htcp ho => h.owner link htcp (h'.owner link htcp ho)
  opened := fun slot ho => by
    have hu := h'.opened slot ho
    rw [hu] at ho ⊢
    exact h.opened slot ho
  supported := h'.supported.trans h.supported
  marks := fun e he => (h'.marks e he).trans (h.marks e he)

lemma Still.trans {s t u : State} (h : Still s t) (h' : Still t u) : Still s u where
  toCalm := h.toCalm.trans h'.toCalm
  special := h'.special.trans h.special
  starts := fun link => (h'.starts link).trans (h.starts link)

lemma count_note (s : State) {e x : Event} (h : e ≠ x) :
    (s.note e).log.count x = s.log.count x := by
  rw [note_log, List.count_append, List.count_singleton, if_neg (by simpa using h), add_zero]

lemma calm_note (s : State) {e : Event} (h : ¬ e.Marks) : Calm s (s.note e) where
  observers := rfl
  owner := fun _ _ h => h
  opened := fun _ _ => rfl
  supported := rfl
  marks := fun _ hx => count_note s fun heq => h (heq ▸ hx)

lemma still_note (s : State) {e : Event} (h : ¬ e.Marks) (hs : ∀ link, e ≠ .started link) :
    Still s (s.note e) where
  toCalm := calm_note s h
  special := rfl
  starts := fun link => count_note s (hs link)

lemma still_invalidate (s : State) (link : LinkRef) : Still s (s.invalidate link) where
  observers := rfl
  owner := fun _ _ h => h
  opened := fun _ hopen => Registry.linkClose_links hopen
  supported := Registry.linkClose_supported s.registry link
  marks := fun _ _ => rfl
  special := rfl
  starts := fun _ => rfl

lemma still_linkClose (s : State) (link : LinkRef) : Still s (s.linkClose link) := by
  refine (still_note s (e := .noticed link) id nofun).trans ?_
  unfold State.linkClose State.markClosePending
  split_ifs
  · exact .of_eq rfl rfl rfl rfl rfl
  · exact .refl _

lemma still_linkLost (s : State) (link : LinkRef) : Still s (s.linkLost link) := by
  refine ⟨⟨rfl, fun x _ hx => ?_, fun _ _ => rfl, rfl, fun _ _ => rfl⟩, rfl, fun _ => rfl⟩
  unfold State.linkLost at hx
  dsimp only at hx
  split_ifs at hx
  exact hx

lemma still_setLink (s : State) (slot : ℕ) (l : TcpLink) : Still s (s.setLink slot l) :=
  .of_eq rfl rfl rfl rfl rfl

lemma still_retire (s : State) (slot : ℕ) (generation : UInt32) :
    Still s (s.retire slot generation).2 := by
  unfold State.retire
  dsimp only
  split_ifs
  · split
    · exact (still_setLink s slot _).trans (still_note _ id nofun)
    · exact still_setLink s slot _
  · exact .refl s

lemma Excuses.still {s t : State} (h : Excuses s t) : Still s t := by
  obtain ⟨orphaned, outlived, rfl⟩ := h
  exact .of_eq rfl rfl rfl rfl rfl

lemma still_claim (s : State) (slot : ℕ) (ref : LinkRef) : Still s (s.claim slot ref) := by
  unfold State.claim
  split_ifs
  · exact still_setLink s slot _
  · exact .refl s

lemma still_idleStep (s : State) (slot : ℕ) (ref : LinkRef) (receivedData : Bool) (now : UInt32) :
    Still s (s.idleStep slot ref receivedData now).2 := by
  unfold State.idleStep
  dsimp only
  split_ifs
  · exact still_setLink s slot _
  · exact .refl s
  · exact .refl s
  · exact .refl s

lemma still_noteDue (s : State) (slot : ℕ) : Still s (s.noteDue slot) := by
  unfold State.noteDue
  split
  · split_ifs
    · exact .of_eq rfl rfl rfl rfl rfl
    · exact .refl s
  · exact .refl s

/-- Whether the TX worker is about to start a frame for the link. -/
def State.armed (s : State) (link : LinkRef) : ℕ := if s.special = .worker link then 1 else 0

/-- A calm step that starts no frame for a link that does not observe, but the one that the worker
is about to start. -/
structure Served (s t : State) : Prop extends Calm s t where
  frames : ∀ link, s.subscribed link = false → t.log.count (.started link) + t.armed link ≤
    s.log.count (.started link) + s.armed link

lemma Still.served {s t : State} (h : Still s t) : Served s t where
  toCalm := h.toCalm
  frames := fun link _ => by rw [h.starts, State.armed, State.armed, h.special]

lemma armed_free {s : State} (h : s.special = .free) (link : LinkRef) : s.armed link = 0 := by
  rw [State.armed, h, if_neg nofun]

lemma Served.of_free {s t : State} (h : Calm s t) (hspecial : t.special = .free)
    (hlog : t.log = s.log) : Served s t where
  toCalm := h
  frames := fun link _ => by
    rw [hlog, armed_free hspecial]
    exact Nat.le_add_right _ _

/-- The worker starts the frame that it was about to start, if any. -/
lemma served_handedOver {s : State} {asked : LinkRef} (h : s.special = .worker asked) (sent : Sent) :
    Served s (s.handedOver asked sent) := by
  have hunqueued : Calm s (s.unqueued asked) := .of_eq rfl rfl rfl rfl
  cases sent with
  | wouldBlock => exact .of_free (.of_eq rfl rfl rfl rfl) rfl rfl
  | failed => exact .of_free hunqueued rfl rfl
  | progress =>
    unfold State.handedOver
    dsimp only
    split_ifs
    · refine ⟨hunqueued.trans (calm_note _ id), fun link _ => ?_⟩
      rw [armed_free rfl, State.armed, h, note_log, List.count_append, List.count_singleton]
      simp only [beq_iff_eq, Event.started.injEq, Special.worker.injEq]
      rfl
    · exact .of_free hunqueued rfl rfl

/-- The steps of other tasks. -/
theorem served_other {e : Other} {s t : State} (h : other e s = some t) : Served s t := by
  cases e with
  | invalidate link =>
    obtain rfl := Option.some.inj h
    exact (still_invalidate s link).served
  | notice link =>
    obtain rfl := Option.some.inj h
    exact (still_linkClose s link).served
  | linkClose link =>
    obtain rfl := Option.some.inj h
    exact ((still_invalidate s link).trans (still_linkClose _ link)).served
  | ownerLost =>
    obtain rfl := Option.some.inj h
    exact ⟨⟨rfl, nofun, fun _ _ => rfl, rfl, fun _ _ => rfl⟩, fun _ _ => le_rfl⟩
  | ownerTaken link =>
    simp only [other] at h
    split_ifs at h with hfree
    obtain rfl := Option.some.inj h
    refine ⟨⟨rfl, fun x htcp hx => ?_, fun _ _ => rfl, rfl, fun _ _ => rfl⟩, fun _ _ => le_rfl⟩
    obtain rfl := Option.some.inj hx
    exact absurd htcp hfree.2
  | wait ms =>
    obtain rfl := Option.some.inj h
    exact ⟨.of_eq rfl rfl rfl rfl, fun _ _ => le_rfl⟩
  | publish slot =>
    simp only [other] at h
    cases hlink : s.registry.linkRef .tcp slot with
    | none => simp [hlink] at h
    | some link =>
      rw [hlink] at h
      dsimp only at h
      split_ifs at h
      obtain rfl := Option.some.inj h
      exact ⟨.of_eq rfl rfl rfl rfl, fun _ _ => le_rfl⟩
  | authorize asked =>
    simp only [other] at h
    split_ifs at h with hallowed
    obtain rfl := Option.some.inj h
    refine ⟨.of_eq rfl rfl rfl rfl, fun link hsub => ?_⟩
    have hne : asked ≠ link := by
      rintro rfl
      rw [hsub] at hallowed
      cases hallowed.2.2
    have harmed : State.armed { s with special := .worker asked } link = 0 := by
      rw [State.armed, if_neg]
      exact fun heq => hne (Special.worker.inj heq)
    rw [harmed]
    exact Nat.le_add_right _ _
  | send sent =>
    simp only [other] at h
    cases hspecial : s.special with
    | worker asked =>
      rw [hspecial] at h
      obtain rfl := Option.some.inj h
      exact served_handedOver hspecial sent
    | _ => simp [hspecial] at h
  | drop asked =>
    simp only [other] at h
    split_ifs at h
    obtain rfl := Option.some.inj h
    exact .of_free (.of_eq rfl rfl rfl rfl) rfl rfl

theorem calm_other {e : Other} {s t : State} (h : other e s = some t) : Calm s t :=
  (served_other h).toCalm

/-! ## Properties of the parts -/

/-- A property of programs that the program of the manager has if its parts have it. -/
structure Sound (G : {α : Type} → Task α → Prop) : Prop where
  pure : ∀ {α : Type} (a : α), G (pure a : Task α)
  bind : ∀ {α β : Type} {p : Task α} {g : α → Task β}, G p → (∀ a, G (g a)) → G (p >>= g)
  forever : ∀ {l : Place} {p : Task Unit}, G p → G (forever l p)
  still : ∀ {α : Type} {l : Place} {run : Outcome → State → α × State},
    (∀ o s, Still s (run o s).2) → G (atomic l run)
  issue : ∀ slot, G (atomic .step fun _ s => s.issue slot)
  acquire : ∀ link, G (acquire link)
  subscribe : ∀ link enable, G (subscribe link enable)

namespace Sound

variable {G : {α : Type} → Task α → Prop}

theorem branch {α : Type} {c : Prop} [Decidable c] {p q : Task α} (hp : G p) (hq : G q) :
    G (if c then p else q) := by
  split_ifs
  · exact hp
  · exact hq

variable (h : Sound G)
include h

theorem look {α : Type} (f : State → α) : G (look f) := h.still fun _ s => .refl s

theorem ask : G ask := h.still fun _ s => .refl s

theorem change {f : State → State} (hf : ∀ s, Still s (f s)) : G (change f) :=
  h.still fun _ => hf

theorem forEach {β : Type} {body : β → Task Unit} (hbody : ∀ b, G (body b)) :
    ∀ bs, G (forEach bs body)
  | [] => h.pure ()
  | b :: bs => h.bind (hbody b) fun _ => forEach hbody bs

theorem closeFd (fd : ℕ) : G (closeFd fd) := h.change fun s => still_note s id nofun

theorem closePendingLinks : G closePendingLinks := by
  refine h.forEach (fun slot => h.bind (h.look _) fun notice => branch ?_ (h.pure ())) _
  refine h.bind (h.still fun _ s => still_retire s slot notice.2) fun retired =>
    h.bind ?_ fun _ => h.change fun s => ?_
  · cases retired with
    | none => exact h.pure ()
    | some fd => exact h.closeFd fd
  · split_ifs
    · exact .of_eq rfl rfl rfl rfl rfl
    · exact .refl s

theorem sessionLinkLost (place : Place) (link : LinkRef) : G (sessionLinkLost place link) :=
  h.still fun _ s => still_linkLost s link

theorem transportLinkClose (link : LinkRef) : G (transportLinkClose link) :=
  h.bind (h.change fun s => still_invalidate s link) fun _ =>
    h.change fun s => still_linkClose s link

theorem requestCloseSlot (slot : ℕ) (expected : Option LinkRef) (idle : Bool) :
    G (requestCloseSlot slot expected idle) := by
  refine h.bind (h.look _) fun ref => ?_
  cases ref with
  | none => exact h.pure ()
  | some ref =>
    exact h.bind (h.sessionLinkLost _ ref) fun _ => h.bind (h.transportLinkClose ref) fun _ =>
      h.closePendingLinks

theorem syncListener : G syncListener := by
  refine h.bind (h.still fun _ s => .refl s) fun online => h.bind (h.look _) fun changed =>
    h.bind (branch (h.bind (h.change fun s => .of_eq rfl rfl rfl rfl rfl) fun _ =>
      h.forEach (fun slot => h.requestCloseSlot slot none false) _) (h.pure ())) fun _ =>
    h.still fun o s => ?_
  dsimp only
  split_ifs
  · exact .refl s
  · exact .refl s
  · exact .of_eq rfl rfl rfl rfl rfl
  · exact .of_eq rfl rfl rfl rfl rfl

theorem acceptOne : G acceptOne := by
  refine h.bind (h.still fun o s => ?_) fun offered => ?_
  · split_ifs
    · exact .of_eq rfl rfl rfl rfl rfl
    · exact .refl s
  cases offered with
  | none => exact h.pure ()
  | some fd =>
    refine h.bind h.ask fun configured => branch (h.closeFd fd) (h.bind (h.look _) fun free => ?_)
    cases free with
    | none => exact h.closeFd fd
    | some slot =>
      refine h.bind (h.issue slot) fun ref => ?_
      cases ref with
      | none => exact h.closeFd fd
      | some ref =>
        exact h.change fun s => (still_setLink s slot _).trans (still_note _ id nofun)

theorem halt : G halt := h.bind (h.forever (h.pure ())) nofun

theorem resetDevice (link : LinkRef) : G (resetDevice link) := by
  refine h.bind (h.still fun o s => ?_) fun detached => ?_
  · split_ifs
    · exact still_setLink s _ _
    · exact .refl s
  cases detached with
  | none => exact h.halt
  | some fd =>
    exact h.bind h.ask fun configured => h.bind (branch (h.closeFd fd) (h.pure ())) fun _ => h.halt

theorem transportRx (link : LinkRef) (requests : List Request) : G (transportRx link requests) := by
  refine h.bind (h.look _) fun current => branch (h.forEach (fun r => ?_) requests) (h.pure ())
  cases r with
  | acquire => exact h.acquire link
  | release => exact h.sessionLinkLost .step link
  | subscribe enable => exact h.subscribe link enable
  | reset => exact h.resetDevice link

theorem held (link : LinkRef) : G (held link) :=
  h.bind (h.look _) fun _ => branch (h.pure true) (h.look _)

theorem serveLink (slot : ℕ) (ref : LinkRef) : G (serveLink slot ref) := by
  have hafter (receivedData : Bool) : G (do
      let claimed ← Tcp.held ref
      (if claimed then Tcp.change fun s => s.claim slot ref
      else do
        let now ← Tcp.look State.clock
        let reclaim ← atomic .step fun _ s => s.idleStep slot ref receivedData now
        (if reclaim then Tcp.requestCloseSlot slot (some ref) true else Pure.pure () : Task Unit) :
        Task Unit)) := by
    refine h.bind (h.held ref) fun claimed => branch (h.change fun s => still_claim s slot ref)
      (h.bind (h.look _) fun now => h.bind (h.still fun _ s => ?_) fun reclaim =>
        branch (h.requestCloseSlot slot (some ref) true) (h.pure ()))
    exact still_idleStep s slot ref receivedData now
  refine h.bind (h.look _) fun current => h.bind (h.still fun _ s => .refl s) fun read => ?_
  cases read with
  | closed => exact h.requestCloseSlot slot (some ref) false
  | progress requests => exact h.bind (h.transportRx ref requests) fun _ => hafter true
  | wouldBlock => exact h.bind (h.transportRx ref []) fun _ => hafter false

theorem pollLink (slot : ℕ) : G (pollLink slot) := by
  refine h.bind (h.still fun _ s => still_noteDue s slot) fun l => branch (h.pure ())
    (h.bind (h.still fun _ s => (noteOrphaned_excuses s slot l.ref).still) fun current =>
      branch h.closePendingLinks (h.bind (h.held l.ref) fun claimed => branch
        (h.bind (h.change fun s => still_claim s slot l.ref) fun _ => h.serveLink slot l.ref)
        (h.bind (h.still fun _ s => (noteOutlived_excuses s slot).still) fun now =>
          branch (h.requestCloseSlot slot (some l.ref) true) (h.serveLink slot l.ref))))

theorem manager : G manager := by
  refine h.forever (h.bind (h.still fun _ s => ?_) fun due => h.bind (branch h.syncListener (h.pure ()))
    fun _ => h.bind h.closePendingLinks fun _ => h.bind h.acceptOne fun _ =>
    h.bind (h.forEach h.pollLink _) fun _ => h.bind h.closePendingLinks fun _ =>
    h.still fun _ s => .refl s)
  split_ifs
  · exact .of_eq rfl rfl rfl rfl rfl
  · exact .of_eq rfl rfl rfl rfl rfl

end Sound

/-! ## Owners and observers -/

namespace State

/-- How many links observe the preview. -/
def observerCount (s : State) : ℕ := (List.range tcpLinks).countP s.slotSubscribed

/-- No slot was opened twice under one generation. -/
def Unrepeated (s : State) : Prop := ∀ slot g, s.log.count (.issued slot g) ≤ 1

end State

lemma subscribed_iff (s : State) (link : LinkRef) : s.subscribed link = true ↔
    link.transportId = .tcp ∧ link.slot < tcpLinks ∧ link.generation ≠ 0 ∧
      s.observers link.slot = link.generation ∧ s.registry.supported .tcp = true ∧
      (s.registry.links .tcp link.slot).isOpen = true ∧
      (s.registry.links .tcp link.slot).generation = link.generation := by
  obtain ⟨transport, slot, generation⟩ := link
  simp only [State.subscribed, Bool.and_eq_true, decide_eq_true_eq, bne_iff_ne, beq_iff_eq,
    Registry.linkIsCurrent_iff, and_assoc]
  constructor
  · rintro ⟨rfl, hslot, hg, hobs, -, hsup, hopen, hgen⟩
    exact ⟨rfl, hslot, hg, hobs, hsup, hopen, hgen⟩
  · rintro ⟨rfl, hslot, hg, hobs, hsup, hopen, hgen⟩
    exact ⟨rfl, hslot, hg, hobs, by simpa [validSlot] using hslot, hsup, hopen, hgen⟩

lemma slotSubscribed_iff (s : State) (slot : ℕ) : s.slotSubscribed slot = true ↔
    s.subscribed ⟨.tcp, slot, (s.registry.links .tcp slot).generation⟩ = true := by
  unfold State.slotSubscribed Registry.linkRef
  split_ifs with hopen
  · rfl
  · refine ⟨nofun, fun hsub => absurd ?_ hopen⟩
    obtain ⟨-, hslot, -, -, hsup, ho, -⟩ := (subscribed_iff _ _).mp hsub
    simp only [Bool.and_eq_true]
    exact ⟨⟨by simpa [validSlot] using hslot, hsup⟩, ho⟩

lemma Calm.subscribed {s t : State} (h : Calm s t) {link : LinkRef}
    (ht : t.subscribed link = true) : s.subscribed link = true := by
  obtain ⟨htcp, hslot, hg, hobs, hsup, hopen, hgen⟩ := (subscribed_iff _ _).mp ht
  have hlinks := h.opened link.slot hopen
  rw [hlinks] at hopen hgen
  rw [h.observers] at hobs
  rw [h.supported] at hsup
  exact (subscribed_iff _ _).mpr ⟨htcp, hslot, hg, hobs, hsup, hopen, hgen⟩

lemma Calm.slotSubscribed {s t : State} (h : Calm s t) {slot : ℕ}
    (ht : t.slotSubscribed slot = true) : s.slotSubscribed slot = true := by
  rw [slotSubscribed_iff] at ht ⊢
  have hopen := ((subscribed_iff _ _).mp ht).2.2.2.2.2.1
  rw [← h.opened slot hopen]
  exact h.subscribed ht

lemma Calm.mem {s t : State} (h : Calm s t) {e : Event} (he : e.Marks) (hs : e ∈ s.log) :
    e ∈ t.log := by
  have hpos := List.count_pos_iff.mpr hs
  rw [← h.marks e he] at hpos
  exact List.count_pos_iff.mp hpos

structure Watch (s : State) : Prop where
  apart : ∀ slot, s.observers slot ≠ 0 → s.owner ≠ some ⟨.tcp, slot, s.observers slot⟩
  issued : ∀ slot, (s.registry.links .tcp slot).isOpen = true →
    .issued slot (s.registry.links .tcp slot).generation ∈ s.log
  observed : ∀ slot, s.observers slot ≠ 0 → .issued slot (s.observers slot) ∈ s.log
  few : s.Unrepeated → s.observerCount ≤ previewObservers

lemma observerCount_mono {s t : State}
    (h : ∀ slot, t.slotSubscribed slot = true → s.slotSubscribed slot = true) :
    t.observerCount ≤ s.observerCount := List.countP_mono_left fun slot _ => h slot

lemma Watch.calm {s t : State} (h : Watch s) (hc : Calm s t) : Watch t where
  apart := fun slot hobs ho => by
    rw [hc.observers] at hobs ho
    exact h.apart slot hobs (hc.owner _ rfl ho)
  issued := fun slot hopen => by
    have hlinks := hc.opened slot hopen
    rw [hlinks] at hopen ⊢
    exact hc.mem trivial (h.issued slot hopen)
  observed := fun slot hobs => by
    rw [hc.observers] at hobs ⊢
    exact hc.mem trivial (h.observed slot hobs)
  few := fun hu => by
    have hle := h.few fun slot g => by
      rw [← hc.marks (.issued slot g) trivial]
      exact hu slot g
    exact (observerCount_mono fun slot => hc.slotSubscribed).trans hle

abbrev Watching {α : Type} (P : State → Prop) (p : Task α) (Q : α → State → Prop) : Prop :=
  Triple (Interferes other Free) (fun _ => Watch) P p Q

/-- What calm steps leave as it is. -/
structure Settled (P : State → Prop) : Prop where
  calm : ∀ s t, Calm s t → P s → P t
  watch : ∀ s, P s → Watch s

section Watching

variable {α : Type} {P : State → Prop} {Q : α → State → Prop}

lemma settled_watch : Settled Watch := ⟨fun _ _ hc h => h.calm hc, fun _ h => h⟩

lemma Settled.and (hP : Settled P) {R : State → Prop} (hR : ∀ s t, Calm s t → R s → R t) :
    Settled fun s => P s ∧ R s :=
  ⟨fun s t hc h => ⟨hP.calm s t hc h.1, hR s t hc h.2⟩, fun s h => hP.watch s h.1⟩

theorem watching_atomic (hP : Settled P) {l : Place} {run : Outcome → State → α × State}
    (h : ∀ s o, P s → Q (run o s).1 (run o s).2) : Watching P (atomic l run) Q :=
  .atomic (fun s t hs ⟨_, _, he⟩ => hP.calm s t (calm_other he) hs)
    fun s hs => ⟨hP.watch s hs, fun o => h s o hs⟩

theorem watching_look (hP : Settled P) (f : State → α) :
    Watching P (look f) fun a s => P s ∧ f s = a := watching_atomic hP fun _ _ hs => ⟨hs, rfl⟩

theorem watching_still {l : Place} {run : Outcome → State → α × State}
    (h : ∀ o s, Still s (run o s).2) : Watching Watch (atomic l run) fun _ => Watch :=
  watching_atomic settled_watch fun s o hs => hs.calm (h o s).toCalm

end Watching

/-! ### A slot is opened -/

lemma issue_cases (s : State) (slot : ℕ) :
    s.issue slot = (none, s) ∨ ∃ registry g, slot < tcpLinks ∧ g ≠ 0 ∧
      registry = s.registry.setLink .tcp slot ⟨g, true⟩ ∧
      s.issue slot = (some ⟨.tcp, slot, g⟩,
        { s with registry := registry }.note (.issued slot g)) := by
  unfold State.issue Registry.linkOpen
  split_ifs with hopen
  · refine .inr ⟨_, nextGeneration (s.registry.links .tcp slot).generation, ?_, ?_, rfl, rfl⟩
    · simp only [Bool.and_eq_true] at hopen
      simpa [validSlot] using hopen.1.1
    · unfold nextGeneration
      split_ifs with hzero
      · decide
      · exact hzero
  · exact .inl rfl

/-- A slot that is opened has no observer yet, unless its generation comes again. -/
theorem Watch.issue {s : State} (h : Watch s) (slot : ℕ) : Watch (s.issue slot).2 := by
  obtain heq | ⟨registry, g, hslot, hg, hregistry, heq⟩ := issue_cases s slot
  · rw [heq]
    exact h
  rw [heq]
  have hlinks (k : ℕ) : registry.links .tcp k =
      if k = slot then ⟨g, true⟩ else s.registry.links .tcp k := by
    rw [hregistry, Registry.setLink_links]
    simp
  refine ⟨h.apart, fun k hopen => ?_, fun k hobs => List.mem_append_left _ (h.observed k hobs),
    fun hu => ?_⟩
  · dsimp only [State.note] at hopen ⊢
    rw [hlinks] at hopen ⊢
    split_ifs at hopen ⊢ with hk
    · subst hk
      exact List.mem_append_right _ (List.mem_singleton_self _)
    · exact List.mem_append_left _ (h.issued k hopen)
  · have hcount (k : ℕ) (g' : UInt32) : s.log.count (.issued k g') +
        (if k = slot ∧ g' = g then 1 else 0) ≤ 1 := by
      have hle := hu k g'
      simp only [State.note, List.count_append, List.count_singleton, beq_iff_eq,
        Event.issued.injEq] at hle
      simpa only [eq_comm (a := slot), eq_comm (a := g)] using hle
    have hnew : s.observers slot ≠ g := by
      rintro rfl
      have hpos := List.count_pos_iff.mpr (h.observed slot hg)
      have hle := hcount slot (s.observers slot)
      rw [if_pos ⟨rfl, rfl⟩] at hle
      omega
    refine (observerCount_mono fun k hk => ?_).trans (h.few fun k g' =>
      (Nat.le_add_right _ _).trans (hcount k g'))
    rw [slotSubscribed_iff, subscribed_iff] at hk ⊢
    obtain ⟨-, hlt, hne, hobs, hsup, hopen, -⟩ := hk
    dsimp only [State.note] at hlt hne hobs hsup hopen
    rw [hlinks] at hne hobs hopen
    split_ifs at hne hobs hopen with hks
    · subst hks
      exact absurd hobs hnew
    · rw [hregistry] at hsup
      exact ⟨rfl, hlt, hne, hobs, hsup, hopen, rfl⟩

/-! ### The session is acquired -/

/-- A link that gets the session is no observer. -/
theorem Watch.take {s : State} (h : Watch s) {link : LinkRef}
    (hlink : link.transportId = .tcp → s.observers link.slot ≠ 0 →
      s.observers link.slot ≠ link.generation) : Watch { s with owner := some link } where
  apart := fun slot hobs ho => by
    have heq := Option.some.inj ho
    dsimp only at hobs heq
    subst heq
    exact hlink rfl hobs rfl
  issued := h.issued
  observed := h.observed
  few := h.few

theorem watching_acquire (link : LinkRef) : Watching Watch (acquire link) fun _ => Watch := by
  have hunobserved : Settled fun s => Watch s ∧ s.subscribed link = false :=
    settled_watch.and fun s t hc hs => by
      rw [Bool.eq_false_iff] at hs ⊢
      exact fun ht => hs (hc.subscribed ht)
  have hapart : Settled fun s => Watch s ∧ (link.transportId = .tcp → s.observers link.slot ≠ 0 →
      s.observers link.slot ≠ link.generation) :=
    settled_watch.and fun s t hc hs => by rwa [hc.observers]
  refine .bind (watching_look settled_watch _) fun observer => ?_
  cases observer with
  | true => exact .pure fun s hs => hs.1
  | false =>
    refine .bind (M := fun current s => Watch s ∧ (current = true → link.transportId = .tcp →
      s.observers link.slot ≠ 0 → s.observers link.slot ≠ link.generation))
      (watching_atomic hunobserved fun s _ hs => ⟨hs.1, fun hcurrent htcp hobs heq => ?_⟩)
      fun current => ?_
    · refine absurd ((subscribed_iff s link).mpr ?_) (by rw [hs.2]; nofun)
      obtain ⟨hvalid, hsup, hopen, hgen⟩ := (Registry.linkIsCurrent_iff _ _).mp hcurrent
      rw [htcp] at hvalid hsup hopen hgen
      exact ⟨htcp, by simpa [validSlot] using hvalid, heq ▸ hobs, heq, hsup, hopen, hgen⟩
    cases current with
    | false => exact .pure fun s hs => hs.1
    | true =>
      refine Triple.pre (fun s hs => ⟨hs.1, hs.2 rfl⟩) (.bind (M := fun _ => Watch)
        (watching_atomic hapart fun s o hs => ?_) fun granted => ?_)
      · split_ifs
        · exact hs.1.take hs.2
        · exact hs.1
      have hlost : Watching Watch (sessionLinkLost .step link) fun _ => Watch :=
        watching_still fun _ s => still_linkLost s link
      have hclose : Watching Watch (transportLinkClose link) fun _ => Watch :=
        .bind (watching_still fun _ s => still_invalidate s link) fun _ =>
          watching_still fun _ s => still_linkClose s link
      split_ifs
      · refine .bind (watching_still fun _ s => .refl s) fun still =>
          .bind (watching_still fun _ s => .refl s) fun answered => ?_
        split_ifs
        · exact hlost
        · exact .pure fun s hs => hs
      · refine .bind (watching_still fun _ s => .refl s) fun answered => ?_
        split_ifs
        · exact hclose
        · exact .pure fun s hs => hs

/-! ### A subscription -/

/-- What the three looks of a subscription have not seen is not there. -/
def Counted (zero one two : Bool) (s : State) : Prop :=
  (s.slotSubscribed 0 = true → zero = true) ∧ (s.slotSubscribed 1 = true → one = true) ∧
    (s.slotSubscribed 2 = true → two = true)

lemma observerCount_eq (s : State) : s.observerCount =
    (s.slotSubscribed 0).toNat + (s.slotSubscribed 1).toNat + (s.slotSubscribed 2).toNat := by
  change [0, 1, 2].countP s.slotSubscribed = _
  simp only [List.countP_cons, List.countP_nil]
  cases s.slotSubscribed 0 <;> cases s.slotSubscribed 1 <;> cases s.slotSubscribed 2 <;> rfl

/-- One more observer than the looks have seen elsewhere. -/
lemma observerCount_one_more {s t : State} {zero one two : Bool} (h : Counted zero one two s)
    {slot : ℕ} (hslot : slot < tcpLinks)
    (hsame : ∀ k, k ≠ slot → t.slotSubscribed k = s.slotSubscribed k)
    (hcount : [zero, one, two].count true < previewObservers) :
    t.observerCount ≤ previewObservers := by
  obtain ⟨h0, h1, h2⟩ := h
  rw [observerCount_eq]
  have hle : [zero, one, two].count true = zero.toNat + one.toNat + two.toNat := by
    cases zero <;> cases one <;> cases two <;> rfl
  rw [hle] at hcount
  have hmono : ∀ {a b : Bool}, (a = true → b = true) → a.toNat ≤ b.toNat := by decide
  have hzero := hmono h0
  have hone := hmono h1
  have htwo := hmono h2
  have hbit (k : ℕ) := Bool.toNat_le (t.slotSubscribed k)
  have hcases : slot = 0 ∨ slot = 1 ∨ slot = 2 := by unfold tcpLinks at hslot; omega
  unfold previewObservers at hcount ⊢
  rcases hcases with rfl | rfl | rfl
  · rw [hsame 1 (by decide), hsame 2 (by decide)]
    have := hbit 0
    omega
  · rw [hsame 0 (by decide), hsame 2 (by decide)]
    have := hbit 1
    omega
  · rw [hsame 0 (by decide), hsame 1 (by decide)]
    have := hbit 2
    omega

/-- What is known of the link when the decision falls. -/
structure Asking (link : LinkRef) (zero one two already : Bool) (s : State) : Prop where
  tcp : link.transportId = .tcp
  bound : link.slot < tcpLinks
  issued : .issued link.slot link.generation ∈ s.log
  notOwner : s.owner ≠ some link
  counted : Counted zero one two s
  observes : already = true → s.observers link.slot = link.generation

lemma slotSubscribed_congr {s t : State} {k : ℕ} (hregistry : t.registry = s.registry)
    (hobs : t.observers k = s.observers k) : t.slotSubscribed k = s.slotSubscribed k := by
  rw [Bool.eq_iff_iff, slotSubscribed_iff, slotSubscribed_iff, subscribed_iff, subscribed_iff,
    hregistry, hobs]

theorem Watch.settle {s : State} (h : Watch s) {link : LinkRef} {zero one two already : Bool}
    (hask : Asking link zero one two already s) (enable : Bool) :
    Watch (s.settle link enable already ([zero, one, two].count true)) := by
  unfold State.settle
  split_ifs with hfull henable
  · exact h.calm (.of_eq rfl rfl rfl rfl)
  · have hsame (k : ℕ) (hk : k ≠ link.slot) (t : State) (hregistry : t.registry = s.registry)
        (hobs : t.observers k = if k = link.slot then link.generation else s.observers k) :
        t.slotSubscribed k = s.slotSubscribed k :=
      slotSubscribed_congr hregistry (by rw [hobs, if_neg hk])
    refine ⟨fun k hobs ho => ?_, fun k hopen => List.mem_append_left _ (h.issued k hopen),
      fun k hobs => List.mem_append_left _ ?_, fun hu => ?_⟩
    · dsimp only [State.note] at hobs ho
      split_ifs at hobs ho with hk
      · subst hk
        refine hask.notOwner (ho.trans (congrArg some ?_))
        rw [← hask.tcp]
      · exact h.apart k hobs ho
    · dsimp only [State.note] at hobs ⊢
      split_ifs at hobs ⊢ with hk
      · exact hk ▸ hask.issued
      · exact h.observed k hobs
    · by_cases hcount : [zero, one, two].count true < previewObservers
      · exact observerCount_one_more hask.counted hask.bound (fun k hk => hsame k hk _ rfl rfl) hcount
      -- the link asks again
      · have halready : already = true := by
          by_contra hne
          exact hfull ⟨henable, by simpa using hne, not_lt.mp hcount⟩
        have hobs := hask.observes halready
        have hkeep (k : ℕ) : (if k = link.slot then link.generation else s.observers k) =
            s.observers k := by
          split_ifs with hks
          · rw [hks, hobs]
          · rfl
        refine (observerCount_mono fun k hk => ?_).trans (h.few fun k g => ?_)
        · refine (Eq.symm ?_).trans hk
          exact slotSubscribed_congr rfl (hkeep k)
        · have hle := hu k g
          rwa [count_note _ (show Event.subscribed link.slot link.generation ≠ .issued k g from nofun)] at hle
  · refine ⟨fun k hobs ho => ?_, h.issued, fun k hobs => ?_, fun hu => ?_⟩
    · dsimp only at hobs ho
      split_ifs at hobs ho with hk
      · exact hobs rfl
      · exact h.apart k hobs ho
    · dsimp only at hobs ⊢
      split_ifs at hobs ⊢ with hk
      · exact absurd rfl hobs
      · exact h.observed k hobs
    · refine (observerCount_mono fun k hk => ?_).trans (h.few hu)
      rw [slotSubscribed_iff, subscribed_iff] at hk ⊢
      obtain ⟨-, hlt, hne, hobs, hsup, hopen, -⟩ := hk
      dsimp only at hlt hne hobs hsup hopen
      split_ifs at hobs with hks
      · exact absurd hobs.symm hne
      · exact ⟨rfl, hlt, hne, hobs, hsup, hopen, rfl⟩

theorem watching_subscribe (link : LinkRef) (enable : Bool) :
    Watching Watch (subscribe link enable) fun _ => Watch := by
  let known (s : State) : Prop :=
    link.transportId = .tcp ∧ link.slot < tcpLinks ∧ .issued link.slot link.generation ∈ s.log
  have hknown : Settled fun s => Watch s ∧ known s :=
    settled_watch.and fun s t hc hs => ⟨hs.1, hs.2.1, hc.mem trivial hs.2.2⟩
  have hfree : Settled fun s => (Watch s ∧ known s) ∧ s.owner ≠ some link :=
    ⟨fun s t hc hs => ⟨hknown.calm s t hc hs.1, fun ho => hs.2 (hc.owner link hs.1.2.1 ho)⟩,
      fun s hs => hs.1.1⟩
  have hseen {P : State → Prop} (hP : Settled P) (slot : ℕ) (flag : Bool) :
      Settled fun s => P s ∧ (s.slotSubscribed slot = true → flag = true) :=
    hP.and fun s t hc hs ht => hs (hc.slotSubscribed ht)
  have hlook {P : State → Prop} (hP : Settled P) (slot : ℕ) :
      Watching P (look fun s => s.slotSubscribed slot)
        fun flag s => P s ∧ (s.slotSubscribed slot = true → flag = true) :=
    (watching_look hP _).post fun flag s hs => ⟨hs.1, fun ht => hs.2 ▸ ht⟩
  refine .bind (M := fun current s => Watch s ∧ (current = true → known s))
    (watching_atomic settled_watch fun s _ hs => ⟨hs, fun hcurrent => ?_⟩) fun current => ?_
  · simp only [Bool.and_eq_true, decide_eq_true_eq, Registry.linkIsCurrent_iff] at hcurrent
    obtain ⟨⟨htcp, hslot⟩, -, -, hopen, hgen⟩ := hcurrent
    rw [htcp] at hopen hgen
    exact ⟨htcp, hslot, hgen ▸ hs.issued link.slot hopen⟩
  cases current with
  | false => exact .bind (watching_atomic ⟨fun s t hc hs => ⟨hs.1.calm hc, nofun⟩, fun s hs => hs.1⟩
      (Q := fun _ => Watch) fun s _ hs => hs.1) fun owner => .pure fun s hs => hs
  | true =>
    refine Triple.pre (fun s hs => ⟨hs.1, hs.2 rfl⟩) (.bind (watching_look hknown _) fun owner => ?_)
    cases owner with
    | true => exact .pure fun s hs => hs.1.1
    | false =>
      refine Triple.pre (fun s hs => ⟨hs.1, by simpa using hs.2⟩) (.bind (watching_atomic hfree
        (Q := fun _ s => (Watch s ∧ known s) ∧ s.owner ≠ some link) fun s o hs => ?_) fun taken => ?_)
      · split_ifs
        · exact ⟨⟨hs.1.1.calm (.of_eq rfl rfl rfl rfl), hs.1.2⟩, hs.2⟩
        · exact hs
      cases taken with
      | false => exact .pure fun s hs => hs.1.1
      | true =>
        have h0 (zero : Bool) := hseen hfree 0 zero
        have h1 (zero one : Bool) := hseen (h0 zero) 1 one
        have h2 (zero one two : Bool) := hseen (h1 zero one) 2 two
        refine .bind (hlook hfree 0) fun zero => .bind (hlook (h0 zero) 1) fun one =>
          .bind (hlook (h1 zero one) 2) fun two => ?_
        let seen (s : State) : Prop := ((((Watch s ∧ known s) ∧ s.owner ≠ some link) ∧
          (s.slotSubscribed 0 = true → zero = true)) ∧ (s.slotSubscribed 1 = true → one = true)) ∧
          (s.slotSubscribed 2 = true → two = true)
        have h3 (already : Bool) : Settled fun s => seen s ∧
            (already = true → s.observers link.slot = link.generation) :=
          (h2 zero one two).and fun s t hc hs ha => by rw [hc.observers]; exact hs ha
        refine .bind (M := fun already s => seen s ∧
          (already = true → s.observers link.slot = link.generation))
          (watching_atomic (h2 zero one two) fun s _ hs => ⟨hs, fun ha => ?_⟩) fun already =>
          watching_atomic (h3 already) fun s _ hs => ?_
        · exact ((subscribed_iff s link).mp ha).2.2.2.1
        · obtain ⟨⟨⟨⟨⟨⟨hwatch, htcp, hslot, hissued⟩, howner⟩, hzero⟩, hone⟩, htwo⟩, hobs⟩ := hs
          exact hwatch.settle ⟨htcp, hslot, hissued, howner, ⟨hzero, hone, htwo⟩, hobs⟩ enable

theorem sound_watching : Sound fun {α : Type} (p : Task α) => Watching Watch p fun _ => Watch where
  pure _ := .pure fun _ h => h
  bind hp hg := .bind hp hg
  forever hp := .forever (fun _ _ hs ⟨_, _, he⟩ => hs.calm (calm_other he)) (fun _ h => h) hp
  still h := watching_still h
  issue slot := watching_atomic settled_watch fun _ _ hs => hs.issue slot
  acquire := watching_acquire
  subscribe := watching_subscribe

/-! ## Frames -/

/-- A link that does not observe gets no frame, but the one that the worker is about to start, until
it subscribes or its generation comes again. -/
structure Denies (link : LinkRef) (s t : State) : Prop where
  subscribed_le : s.log.count (.subscribed link.slot link.generation) ≤
    t.log.count (.subscribed link.slot link.generation)
  issued_le : s.log.count (.issued link.slot link.generation) ≤
    t.log.count (.issued link.slot link.generation)
  denied : t.log.count (.subscribed link.slot link.generation) =
      s.log.count (.subscribed link.slot link.generation) →
    t.log.count (.issued link.slot link.generation) =
      s.log.count (.issued link.slot link.generation) → s.subscribed link = false →
    t.subscribed link = false ∧
      t.log.count (.started link) + t.armed link ≤ s.log.count (.started link) + s.armed link

section Denies

variable {link : LinkRef} {s t u : State}

lemma Denies.trans (h : Denies link s t) (h' : Denies link t u) : Denies link s u where
  subscribed_le := h.subscribed_le.trans h'.subscribed_le
  issued_le := h.issued_le.trans h'.issued_le
  denied := fun hs hi hsub => by
    have hs' := h'.subscribed_le
    have hi' := h'.issued_le
    have hle := h.subscribed_le
    have hle' := h.issued_le
    obtain ⟨ht, hcount⟩ := h.denied (by omega) (by omega) hsub
    obtain ⟨hu, hcount'⟩ := h'.denied (by omega) (by omega) ht
    exact ⟨hu, hcount'.trans hcount⟩

lemma Served.denies (h : Served s t) : Denies link s t where
  subscribed_le := (h.marks (.subscribed link.slot link.generation) trivial).ge
  issued_le := (h.marks (.issued link.slot link.generation) trivial).ge
  denied := fun _ _ hsub => by
    refine ⟨?_, h.frames link hsub⟩
    rw [Bool.eq_false_iff] at hsub ⊢
    exact fun ht => hsub (h.subscribed ht)

lemma denies_issue (s : State) (slot : ℕ) : Denies link s (s.issue slot).2 := by
  obtain heq | ⟨registry, g, hslot, hg, hregistry, heq⟩ := issue_cases s slot
  · rw [heq]
    exact (Still.refl s).served.denies
  rw [heq]
  dsimp only [State.note]
  have hle := List.sublist_append_left s.log [.issued slot g]
  refine ⟨hle.count_le _, hle.count_le _, fun _ hi hsub => ?_⟩
  have hne : ¬ (link.slot = slot ∧ link.generation = g) := by
    rintro ⟨rfl, rfl⟩
    rw [List.count_append, List.count_singleton_self] at hi
    omega
  rw [List.count_append, List.count_singleton, if_neg (by simp), add_zero]
  refine ⟨?_, le_rfl⟩
  rw [Bool.eq_false_iff] at hsub ⊢
  intro ht
  obtain ⟨htcp, hlt, hgen, hobs, hsup, hopen, hgeneration⟩ := (subscribed_iff _ _).mp ht
  dsimp only at hobs hsup hopen hgeneration
  rw [hregistry] at hsup hopen hgeneration
  rw [Registry.setLink_links] at hopen hgeneration
  split_ifs at hopen hgeneration with hks
  · exact hne ⟨hks.2, hgeneration.symm⟩
  · exact hsub ((subscribed_iff _ _).mpr ⟨htcp, hlt, hgen, hobs, hsup, hopen, hgeneration⟩)

/-- Only a link that subscribes becomes an observer. -/
lemma denies_settle (s : State) (asked : LinkRef) (enable already : Bool) (count : ℕ) :
    Denies link s (s.settle asked enable already count) := by
  unfold State.settle
  split_ifs with hfull henable
  · have hcalm : Calm s { s with special := .free } := .of_eq rfl rfl rfl rfl
    exact (Served.of_free hcalm rfl rfl).denies
  · dsimp only [State.note]
    have hle := List.sublist_append_left s.log [.subscribed asked.slot asked.generation]
    refine ⟨hle.count_le _, hle.count_le _, fun hs _ hsub => ⟨?_, ?_⟩⟩
    · have hne : ¬ (link.slot = asked.slot ∧ link.generation = asked.generation) := by
        intro heq
        rw [heq.1, heq.2, List.count_append, List.count_singleton_self] at hs
        omega
      rw [Bool.eq_false_iff] at hsub ⊢
      intro ht
      obtain ⟨htcp, hlt, hgen, hobs, hrest⟩ := (subscribed_iff _ _).mp ht
      dsimp only at hobs
      split_ifs at hobs with hks
      · exact hne ⟨hks, hobs.symm⟩
      · exact hsub ((subscribed_iff _ _).mpr ⟨htcp, hlt, hgen, hobs, hrest⟩)
    · rw [armed_free rfl, List.count_append, List.count_singleton, if_neg (by simp)]
      exact Nat.le_add_right _ _
  · refine ⟨le_rfl, le_rfl, fun _ _ hsub => ⟨?_, ?_⟩⟩
    · rw [Bool.eq_false_iff] at hsub ⊢
      intro ht
      obtain ⟨htcp, hlt, hgen, hobs, hrest⟩ := (subscribed_iff _ _).mp ht
      dsimp only at hobs
      split_ifs at hobs with hks
      · exact absurd hobs.symm hgen
      · exact hsub ((subscribed_iff _ _).mpr ⟨htcp, hlt, hgen, hobs, hrest⟩)
    · rw [armed_free rfl]
      exact Nat.le_add_right _ _

theorem every_still {α : Type} {l : Place} {run : Outcome → State → α × State}
    (h : ∀ o s, Still s (run o s).2) : Every (Denies link) (atomic l run) :=
  .atomic fun o s => (h o s).served.denies

theorem every_acquire (asked : LinkRef) : Every (Denies link) (acquire asked) := by
  have hlook {α : Type} (f : State → α) : Every (Denies link) (look f) :=
    every_still fun _ s => .refl s
  have hask : Every (Denies link) ask := every_still fun _ s => .refl s
  have hlost : Every (Denies link) (sessionLinkLost .step asked) :=
    every_still fun _ s => still_linkLost s asked
  have hclose : Every (Denies link) (transportLinkClose asked) :=
    .bind (every_still fun _ s => still_invalidate s asked) fun _ =>
      every_still fun _ s => still_linkClose s asked
  refine .bind (hlook _) fun observer => Sound.branch (.pure ()) (.bind (hlook _) fun current =>
    Sound.branch (.pure ()) (.bind (.atomic fun o s => ?_) fun granted => Sound.branch
      (.bind (hlook _) fun still => .bind hask fun answered => Sound.branch hlost (.pure ()))
      (.bind hask fun answered => Sound.branch hclose (.pure ()))))
  split_ifs
  · exact ⟨le_rfl, le_rfl, fun _ _ hsub => ⟨hsub, le_rfl⟩⟩
  · exact (Still.refl s).served.denies

theorem every_subscribe (asked : LinkRef) (enable : Bool) :
    Every (Denies link) (subscribe asked enable) := by
  have hlook {α : Type} (f : State → α) : Every (Denies link) (look f) :=
    every_still fun _ s => .refl s
  refine .bind (hlook _) fun current => .bind (hlook _) fun owner => Sound.branch (.pure ())
    (.bind (.atomic fun o s => ?_) fun taken => Sound.branch (.pure ()) (.bind (hlook _) fun zero =>
      .bind (hlook _) fun one => .bind (hlook _) fun two => .bind (hlook _) fun already =>
        .atomic fun _ s => denies_settle s asked enable already _))
  split_ifs with htaken
  · refine ⟨le_rfl, le_rfl, fun _ _ hsub => ⟨hsub, ?_⟩⟩
    rw [State.armed, if_neg nofun]
    exact Nat.le_add_right _ _
  · exact (Still.refl s).served.denies

theorem sound_every : Sound fun {α : Type} (p : Task α) => Every (Denies link) p where
  pure _ := .pure _
  bind hp hg := .bind hp hg
  forever hp := .forever hp
  still h := every_still h
  issue slot := .atomic fun _ s => denies_issue s slot
  acquire := every_acquire
  subscribe := every_subscribe

end Denies

/-! ## Every run -/

lemma watch_of_fresh {s : State} (h : Fresh s) : Watch s := by
  obtain ⟨registry, rfl, -, hlinks⟩ := h
  refine ⟨fun slot hobs => absurd rfl hobs, fun slot hopen => ?_, fun slot hobs => absurd rfl hobs,
    fun _ => ?_⟩
  · dsimp only at hopen
    rw [hlinks] at hopen
    cases hopen
  · rw [State.observerCount, List.countP_eq_zero.mpr]
    · exact Nat.zero_le _
    · intro slot _ hsub
      have hopen := ((subscribed_iff _ _).mp ((slotSubscribed_iff _ _).mp hsub)).2.2.2.2.2.1
      dsimp only at hopen
      rw [hlinks] at hopen
      cases hopen

lemma watch_of_reaches {h : List (Move Other Outcome)}
    {c : Prog State Outcome Place Empty × State} (hr : Reaches system h c) : Watch c.2 := by
  have hmanager : Watching Fresh manager fun _ => Watch :=
    sound_watching.manager.pre fun s => watch_of_fresh
  obtain ⟨q, s⟩ := c
  cases q with
  | ret a => exact a.elim
  | act l run next => exact hmanager.place_of_reaches hr (l := l) rfl
  | loop l body next => exact hmanager.place_of_reaches hr (l := l) rfl

/-- `n` steps of the manager in which every read gets a request to subscribe. -/
def asking (n : ℕ) : List (Move Other Outcome) :=
  List.replicate n (.task { online := some "", read := .progress [.subscribe true] })

/-- A connection is accepted and subscribes. -/
def subscribing : List (Move Other Outcome) := .other (.wait 100) :: asking 38

lemma step_of_runFrom {ms : List (Move Other Outcome)} {m : Move Other Outcome}
    {c' : Prog State Outcome Place Empty × State} (h : runFrom (ms ++ [m]) = some c') :
    ∃ c, runFrom ms = some c ∧ Path system c [m] c' := by
  unfold runFrom at h
  rw [List.foldlM_append] at h
  obtain ⟨c, hc, hn⟩ := Option.bind_eq_some_iff.mp h
  rw [List.foldlM_cons] at hn
  obtain ⟨d, hd, hnil⟩ := Option.bind_eq_some_iff.mp hn
  obtain rfl := Option.some.inj hnil
  unfold nextFine at hd
  split_ifs at hd
  exact ⟨c, hc, .cons ⟨hd, fun _ _ _ _ => trivial⟩ (.nil d)⟩

/-- The worker is about to start a frame when another task invalidates the link. -/
def losing : List (Move Other Outcome) :=
  subscribing ++ [.other (.publish 0), .other (.authorize ⟨.tcp, 0, 1⟩),
    .other (.invalidate ⟨.tcp, 0, 1⟩)]

/-- The slots 1 and 2 get their first connections, slot 0 loses its own, and then the others
subscribe. -/
def vacating : List (Move Other Outcome) :=
  subscribing ++ steps 87 true ++ [.other (.linkClose ⟨.tcp, 0, 1⟩)] ++ asking 8 ++ steps 1 false ++
    asking 43

lemma booted_vacating : ∃ s, Reaches system vacating (manager, s) ∧ Vacant 100 2 s := by
  obtain ⟨⟨p, s⟩, hc⟩ := Option.isSome_iff_exists.mp
    (show (runFrom vacating).isSome = true by decide +kernel)
  have hprogram : (runFrom vacating).map Prod.fst = some manager := by
    set_option maxRecDepth 100000 in exact Eq.refl (some manager)
  have hregistry : (runFrom vacating).map (fun c => (c.2.registry.supported .tcp,
      c.2.registry.links .tcp 0, c.2.registry.links .tcp 1, c.2.registry.links .tcp 2)) =
      some (true, ⟨2, false⟩, ⟨1, true⟩, ⟨1, true⟩) := by decide +kernel
  have hslot (k : ℕ) (active : Bool) (ref : LinkRef) (h : ((runFrom vacating).map fun c =>
      ((c.2.links k).active, (c.2.links k).ref, c.2.closePending k, c.2.observers k)) =
        some (active, ref, false, 1)) : ((s.links k).active = active ∧ (s.links k).ref = ref) ∧
      s.closePending k = false ∧ s.observers k = 1 := by
    rw [hc] at h
    simpa only [Option.map_some, Option.some.injEq, Prod.mk.injEq, and_assoc] using h
  obtain ⟨⟨ha0, -⟩, hp0, ho0⟩ := hslot 0 false {} (by decide +kernel)
  obtain ⟨⟨ha1, href1⟩, hp1, ho1⟩ := hslot 1 true ⟨.tcp, 1, 1⟩ (by decide +kernel)
  obtain ⟨⟨ha2, href2⟩, hp2, ho2⟩ := hslot 2 true ⟨.tcp, 2, 1⟩ (by decide +kernel)
  have hrest : (runFrom vacating).map (fun c => ((c.2.links 0).fd, c.2.owner, c.2.listener.isSome,
      c.2.clock, c.2.lastNetworkPollMs)) = some (none, none, true, 100, 100) := by decide +kernel
  rw [hc] at hprogram hregistry hrest
  obtain rfl := Option.some.inj hprogram
  simp only [Option.map_some, Option.some.injEq, Prod.mk.injEq] at hregistry hrest
  obtain ⟨hsupported, hlink0, hlink1, hlink2⟩ := hregistry
  obtain ⟨hfd, howner, hlistener, hclock, hpolled⟩ := hrest
  refine ⟨s, reaches_of_runFrom hc, ⟨hsupported, ?_, ?_, howner, hlistener, hclock, ?_⟩, hlink0,
    ⟨ha0, hfd⟩, hp0⟩
  · rintro k (rfl | rfl)
    · exact ⟨hlink1, ha1, href1, hp1⟩
    · exact ⟨hlink2, ha2, href2, hp2⟩
  · intro k hk
    have hcases : k = 0 ∨ k = 1 ∨ k = 2 := by unfold tcpLinks at hk; omega
    rcases hcases with rfl | rfl | rfl
    · exact ho0
    · exact ho1
    · exact ho2
  · rw [hpolled]
    decide

end EspVision.Tcp
