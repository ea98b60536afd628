import EspVision.MuxBounds
import EspVision.MuxStream

/-!
# Which frame is sent, and when it may be

The worker goes on with the frame that it has begun; only where there is none it takes the frame of
the best class that was queued first. Nothing is written for a session, a VM epoch or an observer
that is gone before the frame has begun.
-/
namespace EspVision.MuxTx

open EvTransport EvMux EvSession Host TransitionSystem Outbox

/-! ## The best candidate -/

/-- The frame is of a class that goes before the other's, or of the same class and not queued
later. -/
def Frame.Before (f g : Frame) : Prop :=
  f.priority < g.priority ∨ f.priority = g.priority ∧ f.enqueueOrder ≤ g.enqueueOrder

/-- The candidate goes before the frame. -/
def Best.Before (b : Best) (f : Frame) : Prop :=
  b.priority < f.priority ∨ b.priority = f.priority ∧ b.order ≤ f.enqueueOrder

/-- What is remembered of the candidate is what its frame says. -/
def Best.Matches (b : Best) (s : Mux) (t : Target) : Prop :=
  ∀ p, b.pick = some p → b.priority = (s.pickFrame t p).priority ∧
    b.order = (s.pickFrame t p).enqueueOrder

section

variable {s s' : Mux} {h : List (Step × Reply)} {t : Target} {look : WorkerLook} {p : Pick} {b : Best}
  {f g : Frame}

theorem Best.offer_before (b : Best) (p : Pick) (f : Frame) : (b.offer p f).Before f := by
  unfold Best.offer
  split_ifs with hless
  · exact .inr ⟨rfl, UInt32.le_refl _⟩
  · unfold Best.Before
    rcases Nat.lt_trichotomy b.priority f.priority with hlt | heq | hgt
    · exact .inl hlt
    · exact .inr ⟨heq, UInt32.not_lt.mp fun hlt => hless (.inr ⟨heq.symm, hlt⟩)⟩
    · exact absurd (.inl hgt) hless

/-- A candidate that is offered later takes the place of a worse one only. -/
theorem Best.Before.offer (hb : b.Before g) (p : Pick) (f : Frame) : (b.offer p f).Before g := by
  unfold Best.offer
  split_ifs with hless
  · unfold Best.Before at hb ⊢
    dsimp only
    rcases hless with hlt | ⟨heq, hlt⟩ <;> rcases hb with hlt' | ⟨heq', hle⟩
    · exact .inl (hlt.trans hlt')
    · exact .inl (heq' ▸ hlt)
    · exact .inl (heq ▸ hlt')
    · exact .inr ⟨heq.trans heq', UInt32.le_trans (UInt32.le_of_lt hlt) hle⟩
  · exact hb

theorem Best.Matches.offer (hb : b.Matches s t) (p : Pick) :
    (b.offer p (s.pickFrame t p)).Matches s t := by
  unfold Best.offer
  split_ifs
  · rintro q hq
    obtain rfl := Option.some.inj hq
    exact ⟨rfl, rfl⟩
  · exact hb

/-- The best of all that are offered goes before each of them. -/
theorem best_before (l : List Pick) (b : Best) (hb : b.Matches s t) :
    (l.foldl (fun (b : Best) p => b.offer p (s.pickFrame t p)) b).Matches s t ∧
      (∀ f, b.Before f →
        (l.foldl (fun (b : Best) p => b.offer p (s.pickFrame t p)) b).Before f) ∧
      ∀ q ∈ l, (l.foldl (fun (b : Best) p => b.offer p (s.pickFrame t p)) b).Before
        (s.pickFrame t q) := by
  induction l generalizing b with
  | nil => exact ⟨hb, fun _ hf => hf, by simp⟩
  | cons p l ih =>
    obtain ⟨hmatches, hkept, hall⟩ := ih (b.offer p (s.pickFrame t p)) (hb.offer p)
    refine ⟨hmatches, fun f hf => hkept f (hf.offer p _), fun q hq => ?_⟩
    rcases List.mem_cons.mp hq with rfl | hq
    · exact hkept _ (Best.offer_before b q _)
    · exact hall q hq

/-- A frame that is chosen where none has begun goes before all candidates. -/
theorem chosen_before (hp : s.chooseFrame t look = some p)
    (hnone : s.startedFrame t look.specialLocked = none) :
    ∀ q ∈ s.candidates t look, (s.pickFrame t p).Before (s.pickFrame t q) := by
  obtain ⟨hmatches, -, hall⟩ := best_before (s := s) (t := t) (s.candidates t look) {}
    (fun q hq => by cases hq)
  unfold Mux.chooseFrame at hp
  split_ifs at hp
  rw [hnone] at hp
  obtain ⟨hpriority, horder⟩ := hmatches p hp
  intro q hq
  have hbest := hall q hq
  unfold Best.Before at hbest
  rw [hpriority, horder] at hbest
  exact hbest

/-- When the worker chooses a frame of a target, no other frame of the target has begun; and where
none has begun at all, the frame goes before every other that may be chosen. -/
theorem choice_first (hr : Reaches mux h s) (hfree : s.holder t = .free)
    (hp : s.chooseFrame t look = some p) :
    (∀ x f, s.frameAt x = some f → targetIndex f.link = some t → f.txOffset ≠ 0 → x = p.site t) ∧
      ((s.pickFrame t p).txOffset = 0 →
        ∀ q ∈ s.candidates t look, (s.pickFrame t p).Before (s.pickFrame t q)) := by
  have hs := faithful_of_reaches hr
  refine ⟨fun x f hx htarget hbegun => ?_, fun hzero => chosen_before hp ?_⟩
  · have hpick := pick_target hs hfree (Mux.chooseFrame_canPick hp).1
    exact chosen_alone hs hfree hp x f.item (live_some hx) (htarget.trans hpick.symm) hbegun
  · rcases (Mux.chooseFrame_some hp).2 with hstarted | ⟨hnone, -⟩
    · exact absurd hzero (Mux.startedFrame_some hstarted).2.1
    · exact hnone

/-- A frame of the low classes, and behind it one of the best class. -/
def usbRivals : List (Step × Reply) :=
  lowQueued ++ submission { link := usbLink, txClass := .session } usbTarget

theorem choice_first_usbRivals :
    Frame.Before ((ranTo usbRivals).frame usbTarget secondSlot)
      ((ranTo usbRivals).frame usbTarget firstSlot) := by
  have hchosen : (ranTo usbRivals).chooseFrame usbTarget { io := ⟨.progress, 1, 0⟩ } =
      some (.normal secondSlot) := by decide +kernel
  exact (choice_first (ranTo_reaches (by decide +kernel)) (by decide +kernel) hchosen).2
    (by decide +kernel) (.normal firstSlot) (by decide +kernel)

/-! ## Frames that have begun -/

/-- What is known of a frame of which something was sent. -/
structure Begun (s : Mux) (x : Site) (f : Frame) : Prop where
  alone : ∀ y g, s.frameAt y = some g → targetIndex g.link = targetIndex f.link →
    g.txOffset ≠ 0 → y = x
  ready : f.headerReady = true
  last : (s.segments f.link).getLast? = some (f.id, f.txOffset)

/-- The marks, by which the worker knows of a begun special frame although it does not get the mutex
of the special frames, are on exactly these; and of the frames of a target at most one has begun,
whichever queue or pool they are in. -/
theorem begun_marked (hr : Reaches mux h s) :
    (∀ t r, s.pool.partialFrame t = some r ↔ s.Started t r) ∧
      ∀ x f, s.frameAt x = some f → f.txOffset ≠ 0 → Begun s x f := by
  have hs := faithful_of_reaches hr
  refine ⟨hs.marks, fun x f hx hbegun => ⟨fun y g hy htarget hg => ?_, ?_, ?_⟩⟩
  · exact hs.sound.alone x f.item (live_some hx) hbegun y g.item (live_some hy) htarget hg
  · obtain ⟨payload, m, hship⟩ := shipment hs.contents hs.pool hx
    exact (hship.carries.started hbegun).1
  · exact hs.sound.cursor x f.item (live_some hx) hbegun

theorem begun_marked_usb :
    Begun (ranTo usbBegun) (.inl (usbTarget, firstSlot))
      ((ranTo usbBegun).frame usbTarget firstSlot) :=
  (begun_marked (ranTo_reaches (by decide +kernel))).2 _ _ (by decide +kernel) (by decide +kernel)

/-! ## When a frame may be sent -/

/-- The owner is the session of the frame. -/
def OwnedBy (f : Frame) (snapshot : Snapshot) : Prop :=
  snapshot.hasOwner = true ∧ snapshot.ownerLink = f.link ∧ snapshot.sessionId = f.sessionId

/-- What the worker knows of the session, the VM and the observer that a frame is for when it sends
some of it. A frame that has begun is bound to its session alone. -/
structure Authorized (f : Frame) (look : WorkerLook) : Prop where
  session : f.sessionId ≠ [] → ∃ snapshot, look.snapshot = some snapshot ∧ OwnedBy f snapshot
  epoch : f.txOffset = 0 → f.vmEpoch ≠ 0 → ∃ snapshot, look.snapshot = some snapshot ∧
    snapshot.vmEpoch = f.vmEpoch
  origin : f.txOffset = 0 → f.outputInputGeneration ≠ 0 → f.sessionId ≠ [] →
    ∃ snapshot, look.snapshot = some snapshot ∧ sessionMatchesOutputOrigin snapshot f = true
  ready : f.txOffset = 0 → f.sessionId ≠ [] → f.priority ≠ TxClass.session.priority →
    look.outputReady = true
  observer : f.txOffset = 0 → f.previewObserver = true → look.previewSubscribed = true
  uart : f.txOffset = 0 → f.link.transportId = .uart → f.uartBaudControl = false →
    look.pausedAtCheck = false

section

variable {snapshot : Snapshot} {ready : Bool}

theorem sessionAuthorized_epoch (h : sessionAuthorized f snapshot ready = .allowed)
    (hzero : f.txOffset = 0) (hne : f.vmEpoch ≠ 0) : snapshot.vmEpoch = f.vmEpoch := by
  by_contra hother
  rw [sessionAuthorized, if_pos ⟨hzero, hne, Ne.symm hother⟩] at h
  cases h

theorem sessionAuthorized_origin (h : sessionAuthorized f snapshot ready = .allowed)
    (hzero : f.txOffset = 0) (hne : f.outputInputGeneration ≠ 0) :
    sessionMatchesOutputOrigin snapshot f = true := by
  by_contra hother
  unfold sessionAuthorized at h
  split_ifs at h with hepoch horigin
  all_goals exact horigin ⟨hzero, hne, Bool.not_eq_true _ |>.mp hother⟩

theorem sessionAuthorized_owner (h : sessionAuthorized f snapshot ready = .allowed)
    (hid : f.sessionId ≠ []) : OwnedBy f snapshot ∧
      (f.txOffset = 0 → f.priority ≠ TxClass.session.priority → ready = true) := by
  unfold sessionAuthorized at h
  dsimp only at h
  rw [if_neg hid] at h
  cases howner : snapshot.hasOwner && snapshot.ownerLink == f.link &&
      snapshot.sessionId == f.sessionId with
  | false =>
    rw [howner, Bool.and_false] at h
    split_ifs at h with _ _ hforeign
    all_goals exact absurd rfl hforeign
  | true =>
    simp only [Bool.and_eq_true, beq_iff_eq] at howner
    refine ⟨⟨howner.1.1, howner.1.2, howner.2⟩, fun hzero hne => ?_⟩
    split_ifs at h
    all_goals first | assumption | contradiction

end

theorem authorized_of_allowed (h : frameAuthorized f look = .allowed) : Authorized f look := by
  unfold frameAuthorized at h
  split_ifs at h with hobserver hpaused hfree
  · obtain ⟨hid, hepoch⟩ := hfree
    refine ⟨fun hne => absurd hid hne, fun _ hne => absurd hepoch hne, fun _ _ hne => absurd hid hne,
      fun _ hne => absurd hid hne, fun hzero hobs => ?_, fun hzero huart hbaud => ?_⟩
    · exact Bool.not_eq_false _ |>.mp fun hno => hobserver ⟨hobs, hzero, hno⟩
    · exact Bool.not_eq_true _ |>.mp fun hyes => hpaused ⟨huart, hbaud, hzero, hyes⟩
  · split at h
    · cases h
    · rename_i snapshot hsnapshot
      refine ⟨fun hid => ⟨snapshot, hsnapshot, (sessionAuthorized_owner h hid).1⟩,
        fun hzero hne => ⟨snapshot, hsnapshot, sessionAuthorized_epoch h hzero hne⟩,
        fun hzero hne _ => ⟨snapshot, hsnapshot, sessionAuthorized_origin h hzero hne⟩,
        fun hzero hid hne => (sessionAuthorized_owner h hid).2 hzero hne,
        fun hzero hobs => ?_, fun hzero huart hbaud => ?_⟩
      · exact Bool.not_eq_false _ |>.mp fun hno => hobserver ⟨hobs, hzero, hno⟩
      · exact Bool.not_eq_true _ |>.mp fun hyes => hpaused ⟨huart, hbaud, hzero, hyes⟩

/-- What a visit writes to a link: what follows of the submission that it has chosen. -/
structure Writes (s s' : Mux) (t : Target) (look : WorkerLook) (p : Pick) (c : LinkRef)
    (sub : Submission) : Prop where
  chosen : s.chooseFrame t look = some p
  link : (s.pickFrame t p).link = c
  current : s.registry.linkIsCurrent c = true
  authorized : Authorized (s.pickFrame t p) look
  timely : (s.pickFrame t p).txOffset = 0 → (s.pickFrame t p).expired look.nowMs = false
  accepted : s.accepted[(s.pickFrame t p).id]? = some sub
  bytes : ∃ data, s'.wire c = s.wire c ++ data ∧
    data <+: sub.bytes.drop (s.pickFrame t p).txOffset

end

end EspVision.MuxTx
