import EspVision.TcpSafe

/-!
# The rounds of the TCP manager

What other tasks do leaves the slots alone, and takes no claim. So what the manager finds out
about a connection still holds when it acts on it.
-/
namespace EspVision.Tcp

open EvTransport TaskProgram EventLog TransitionSystem

/-! ## Steps of other tasks -/

/-- What a step of another task leaves alone. -/
structure Quiet (s t : State) : Prop extends Soft s t where
  same : t.links = s.links
  owner : ∀ link, link.transportId = .tcp → t.owner = some link → s.owner = some link
  current : ∀ link, t.registry.linkIsCurrent link = true → s.registry.linkIsCurrent link = true
  observers : t.observers = s.observers
  now : s.nowMs ≤ t.nowMs
  requested : ∀ slot, (s.links slot).active = true →
    s.closeRequested slot (s.links slot).ref.generation = true →
    t.closeRequested slot (s.links slot).ref.generation = true

lemma Quiet.refl (s : State) : Quiet s s :=
  ⟨.refl s, rfl, fun _ _ h => h, fun _ h => h, rfl, le_rfl, fun _ _ h => h⟩

/-- A step on other fields. -/
structure Aside (s t : State) : Prop where
  links : t.links = s.links
  accepted : t.accepted = s.accepted
  log : t.log = s.log
  closePending : t.closePending = s.closePending
  closeGeneration : t.closeGeneration = s.closeGeneration
  due : t.due = s.due
  orphaned : t.orphaned = s.orphaned
  outlived : t.outlived = s.outlived
  nowMs : t.nowMs = s.nowMs

lemma Aside.soft {s t : State} (h : Aside s t) : Soft s t where
  links := fun slot => by rw [h.links]; exact ⟨rfl, rfl, rfl⟩
  times := fun slot => by rw [h.links]; exact ⟨rfl, rfl⟩
  accepted := h.accepted
  log := ⟨[], by rw [h.log, List.append_nil], nofun⟩
  pending := fun slot hp => .inl ⟨by rwa [h.closePending] at hp, by rw [h.closeGeneration]⟩
  due := h.due
  orphaned := h.orphaned
  outlived := h.outlived

lemma Aside.quiet {s t : State} (h : Aside s t) (hobservers : t.observers = s.observers)
    (howner : ∀ link, link.transportId = .tcp → t.owner = some link → s.owner = some link)
    (hcurrent : ∀ link, t.registry.linkIsCurrent link = true →
      s.registry.linkIsCurrent link = true) : Quiet s t where
  toSoft := h.soft
  same := h.links
  owner := howner
  current := hcurrent
  observers := hobservers
  now := h.nowMs.ge
  requested := fun slot _ hr => by
    rw [State.closeRequested, h.closePending, h.closeGeneration]
    exact hr

lemma quiet_note {s : State} {e : Event} (he : e.Soft) : Quiet s (s.note e) where
  toSoft := soft_note he
  same := rfl
  owner := fun _ _ h => h
  current := fun _ h => h
  observers := rfl
  now := le_rfl
  requested := fun _ _ h => h

lemma quiet_invalidate (s : State) (link : LinkRef) : Quiet s (s.invalidate link) :=
  Aside.quiet ⟨rfl, rfl, rfl, rfl, rfl, rfl, rfl, rfl, rfl⟩ rfl (fun _ _ h => h)
    fun _ h => Registry.linkIsCurrent_of_linkClose h

lemma Quiet.trans {s t u : State} (h : Quiet s t) (h' : Quiet t u) : Quiet s u where
  toSoft := h.toSoft.trans h'.toSoft
  same := h'.same.trans h.same
  owner := fun link htcp ho => h.owner link htcp (h'.owner link htcp ho)
  current := fun link hc => h.current link (h'.current link hc)
  observers := h'.observers.trans h.observers
  now := h.now.trans h'.now
  requested := fun slot ha hr => by
    have := h'.requested slot (by rwa [h.same]) (by rw [h.same]; exact h.requested slot ha hr)
    rwa [h.same] at this

/-- A notice is left for the generation that the slot has, or for none. -/
lemma quiet_linkClose (s : State) (link : LinkRef) : Quiet s (s.linkClose link) := by
  refine (quiet_note (e := .noticed link) trivial).trans ?_
  unfold State.linkClose State.markClosePending
  split_ifs with h
  · obtain ⟨htcp, -, ha, hg⟩ := h
    obtain ⟨transport, slot, generation⟩ := link
    obtain rfl : transport = .tcp := htcp
    refine ⟨⟨fun _ => ⟨rfl, rfl, rfl⟩, fun _ => ⟨rfl, rfl⟩, rfl, ⟨[], (List.append_nil _).symm, nofun⟩,
      fun k hp => ?_, rfl, rfl, rfl⟩, rfl, fun _ _ h => h, fun _ h => h, rfl, le_rfl, fun k hk hr => ?_⟩
    · dsimp only at hp ⊢
      split_ifs at hp ⊢ with hk
      · subst hk
        exact .inr (by simp)
      · exact .inl ⟨hp, rfl⟩
    · unfold State.closeRequested at hr ⊢
      dsimp only at hr ⊢
      split_ifs with heq
      · subst heq
        have hgen : (s.links k).ref.generation = generation := hg
        simp [hgen]
      · exact hr
  · exact .refl _

lemma quiet_unqueued (s : State) (link : LinkRef) : Quiet s (s.unqueued link) :=
  Aside.quiet ⟨rfl, rfl, rfl, rfl, rfl, rfl, rfl, rfl, rfl⟩ rfl (fun _ _ h => h) fun _ h => h

lemma quiet_handedOver (s : State) (link : LinkRef) (sent : Sent) :
    Quiet s (s.handedOver link sent) := by
  cases sent with
  | wouldBlock =>
    exact Aside.quiet ⟨rfl, rfl, rfl, rfl, rfl, rfl, rfl, rfl, rfl⟩ rfl (fun _ _ h => h) fun _ h => h
  | failed => exact quiet_unqueued s link
  | progress =>
    unfold State.handedOver
    dsimp only
    split_ifs
    · exact (quiet_unqueued s link).trans (quiet_note trivial)
    · exact quiet_unqueued s link

theorem quiet_other {e : Other} {s t : State} (h : other e s = some t) : Quiet s t := by
  cases e with
  | invalidate link =>
    obtain rfl := Option.some.inj h
    exact quiet_invalidate s link
  | notice link =>
    obtain rfl := Option.some.inj h
    exact quiet_linkClose s link
  | linkClose link =>
    obtain rfl := Option.some.inj h
    exact (quiet_invalidate s link).trans (quiet_linkClose _ link)
  | ownerLost =>
    obtain rfl := Option.some.inj h
    exact Aside.quiet ⟨rfl, rfl, rfl, rfl, rfl, rfl, rfl, rfl, rfl⟩ rfl nofun fun _ h => h
  | ownerTaken link =>
    simp only [other] at h
    split_ifs at h with hfree
    obtain rfl := Option.some.inj h
    refine Aside.quiet ⟨rfl, rfl, rfl, rfl, rfl, rfl, rfl, rfl, rfl⟩ rfl (fun x htcp hx => ?_) fun _ h => h
    obtain rfl := Option.some.inj hx
    exact absurd htcp hfree.2
  | wait ms =>
    obtain rfl := Option.some.inj h
    exact ⟨⟨fun _ => ⟨rfl, rfl, rfl⟩, fun _ => ⟨rfl, rfl⟩, rfl,
      ⟨[], (List.append_nil _).symm, nofun⟩, fun _ h => .inl ⟨h, rfl⟩, rfl, rfl, rfl⟩, rfl,
      fun _ _ h => h, fun _ h => h, rfl, Nat.le_add_right _ _, fun _ _ h => h⟩
  | publish slot =>
    simp only [other] at h
    cases hlink : s.registry.linkRef .tcp slot with
    | none => simp [hlink] at h
    | some link =>
      rw [hlink] at h
      dsimp only at h
      split_ifs at h
      obtain rfl := Option.some.inj h
      exact Aside.quiet ⟨rfl, rfl, rfl, rfl, rfl, rfl, rfl, rfl, rfl⟩ rfl (fun _ _ h => h) fun _ h => h
  | authorize link =>
    simp only [other] at h
    split_ifs at h
    obtain rfl := Option.some.inj h
    exact Aside.quiet ⟨rfl, rfl, rfl, rfl, rfl, rfl, rfl, rfl, rfl⟩ rfl (fun _ _ h => h) fun _ h => h
  | send sent =>
    simp only [other] at h
    cases hspecial : s.special with
    | worker link =>
      rw [hspecial] at h
      obtain rfl := Option.some.inj h
      exact quiet_handedOver s link sent
    | _ => simp [hspecial] at h
  | drop link =>
    simp only [other] at h
    split_ifs at h
    obtain rfl := Option.some.inj h
    exact quiet_unqueued s link

/-! ## Rules -/

/-- The link neither owns the session nor observes the preview. -/
def NotHeld (link : LinkRef) (s : State) : Prop := s.owner ≠ some link ∧ s.subscribed link = false

/-- The sweep found the connection orphaned, or so old that the clock does not tell it. -/
def State.Excused (s : State) (fd : ℕ) : Prop := fd ∈ s.orphaned ∨ fd ∈ s.outlived

/-- Every connection that the sweep found due is closed, but the one in the slot, if any, and those
that are excused. -/
def ClearedBut (open_ : Option ℕ) (s : State) : Prop :=
  ∀ fd ∈ s.due, .closed fd ∈ s.log ∨ s.Excused fd ∨ open_ = some fd

/-- What is known at the places of the manager. -/
def Assured : Place → State → Prop
  | .step, s => Inv s
  | .idle link, s => Inv s ∧ NotHeld link s
  | .rest, s => Inv s ∧ ClearedBut none s

abbrev Spec {α : Type} (P : State → Prop) (p : Task α) (Q : α → State → Prop) : Prop :=
  Triple (Interferes other Free) Assured P p Q

/-- What the log and the records of the sweep are not less than. -/
structure Grows (s t : State) : Prop where
  log : ∀ e ∈ s.log, e ∈ t.log
  due : t.due = s.due
  orphaned : t.orphaned = s.orphaned
  outlived : t.outlived = s.outlived

/-- A fact about the log and the records of the sweep. -/
def Recorded (F : State → Prop) : Prop := ∀ s t, Grows s t → F s → F t

lemma Soft.grows {s t : State} (h : Soft s t) : Grows s t :=
  ⟨fun _ he => h.mem he, h.due, h.orphaned, h.outlived⟩

lemma recorded_clearedBut (open_ : Option ℕ) : Recorded (ClearedBut open_) :=
  fun s t h hs fd hfd => by
    rw [h.due] at hfd
    rw [State.Excused, h.orphaned, h.outlived]
    exact (hs fd hfd).imp_left (h.log _)

lemma NotHeld.quiet {link : LinkRef} {s t : State} (htcp : link.transportId = .tcp)
    (h : NotHeld link s) (hq : Quiet s t) : NotHeld link t := by
  refine ⟨fun ho => h.1 (hq.owner link htcp ho), Bool.eq_false_iff.mpr fun hs => ?_⟩
  have hsub : s.subscribed link = true := by
    simp only [State.subscribed, Bool.and_eq_true, hq.observers] at hs ⊢
    exact ⟨hs.1, hq.current link hs.2⟩
  rw [h.2] at hsub
  cases hsub

/-- A predicate that other tasks leave alone. -/
structure Firm (P : State → Prop) : Prop where
  quiet : ∀ s t, Quiet s t → P s → P t
  inv : ∀ s, P s → Inv s

section Rules

variable {α β : Type} {P F : State → Prop} {Q : α → State → Prop}

lemma Firm.stable (hP : Firm P) {l : Place} :
    ∀ s t, P s → Interferes other Free l s t → P t :=
  fun s t hs ⟨_, _, he⟩ => hP.quiet s t (quiet_other he) hs

lemma firm_inv (hF : Recorded F) : Firm fun s => Inv s ∧ F s :=
  ⟨fun _ _ hq h => ⟨hq.toSoft.inv h.1, hF _ _ hq.toSoft.grows h.2⟩, fun _ h => h.1⟩

lemma Firm.and (hP : Firm P) {R : State → Prop} (hR : ∀ s t, Quiet s t → P s → R s → R t) :
    Firm fun s => P s ∧ R s :=
  ⟨fun s t hq h => ⟨hP.quiet s t hq h.1, hR s t hq h.1 h.2⟩, fun s h => hP.inv s h.1⟩

theorem spec_atomic (hP : Firm P) {run : Outcome → State → α × State}
    (h : ∀ s o, P s → Q (run o s).1 (run o s).2) : Spec P (atomic .step run) Q :=
  .atomic hP.stable fun s hs => ⟨hP.inv s hs, fun o => h s o hs⟩

theorem spec_look (hP : Firm P) (f : State → α) : Spec P (look f) fun a s => P s ∧ f s = a :=
  spec_atomic hP fun _ _ hs => ⟨hs, rfl⟩

theorem spec_ask (hP : Firm P) : Spec P ask fun _ => P := spec_atomic hP fun _ _ hs => hs

theorem spec_change (hP : Firm P) {f : State → State} {Q : Unit → State → Prop}
    (h : ∀ s, P s → Q () (f s)) : Spec P (change f) Q :=
  .update hP.stable fun s hs => ⟨hP.inv s hs, h s hs⟩

/-- The program keeps the invariant and every recorded fact. -/
def Safe (p : Task α) : Prop :=
  ∀ F, Recorded F → Spec (fun s => Inv s ∧ F s) p fun _ s => Inv s ∧ F s

/-- What follows from the precondition may be used in the proof. -/
theorem spec_known {c : Prop} {p : Task α} (h : ∀ s, P s → c) (hp : c → Spec P p Q) :
    Spec P p Q := fun s hs => hp (h s hs) s hs

theorem spec_exists {ι : Sort*} {P : ι → State → Prop} {p : Task α} (h : ∀ i, Spec (P i) p Q) :
    Spec (fun s => ∃ i, P i s) p Q := fun s ⟨i, hs⟩ => h i s hs

theorem safe_pure (a : α) : Safe (pure a : Task α) := fun _ _ => .pure fun _ h => h

theorem Safe.bind {p : Task α} {g : α → Task β} (hp : Safe p) (hg : ∀ a, Safe (g a)) :
    Safe (p >>= g) := fun F hF => .bind (hp F hF) fun a => hg a F hF

theorem Safe.ite {c : Prop} [Decidable c] {p q : Task α} (hp : Safe p) (hq : Safe q) :
    Safe (if c then p else q) := by
  split_ifs
  · exact hp
  · exact hq

theorem safe_atomic {run : Outcome → State → α × State} (h : ∀ s o, Soft s (run o s).2) :
    Safe (atomic .step run) := fun _ hF => spec_atomic (firm_inv hF) fun _ o hs =>
  ⟨(h _ o).inv hs.1, hF _ _ (h _ o).grows hs.2⟩

theorem safe_look (f : State → α) : Safe (look f) := safe_atomic fun s _ => .refl s

theorem safe_ask : Safe ask := safe_atomic fun s _ => .refl s

theorem safe_change {f : State → State} (h : ∀ s, Soft s (f s)) : Safe (change f) :=
  safe_atomic fun _ _ => h _

theorem Safe.forEach {body : β → Task Unit} (h : ∀ b, Safe (body b)) :
    ∀ bs, Safe (forEach bs body)
  | [] => safe_pure ()
  | b :: bs => (h b).bind fun _ => Safe.forEach h bs

end Rules

/-! ## Closing -/

theorem spec_closeFd {P : State → Prop} (hP : Firm P) (fd : ℕ) :
    Spec (fun s => P s ∧ Loose fd s) (closeFd fd)
      fun _ s => Inv s ∧ ∃ u, P u ∧ s = u.note (.closed fd) :=
  spec_change (hP.and fun _ _ hq _ h => hq.toSoft.loose h) fun s h =>
    ⟨(hP.inv s h.1).note_closed h.2, s, h.1, rfl⟩

lemma grows_note (s : State) (e : Event) : Grows s (s.note e) :=
  ⟨fun _ he => List.mem_append_left _ he, rfl, rfl, rfl⟩

theorem safe_closeFd {F : State → Prop} (hF : Recorded F) (fd : ℕ) :
    Spec (fun s => (Inv s ∧ F s) ∧ Loose fd s) (closeFd fd) fun _ s => Inv s ∧ F s :=
  (spec_closeFd (firm_inv hF) fd).post fun _ _ ⟨hinv, u, hu, hs⟩ =>
    ⟨hinv, hs ▸ hF u _ (grows_note u _) hu.2⟩

/-- The connection is closed, or its notice waits for the manager. -/
def Doom (d : Option (ℕ × ℕ)) (s : State) : Prop :=
  ∀ slot fd, d = some (slot, fd) → .closed fd ∈ s.log ∨ ((s.links slot).fd = some fd ∧
    s.closePending slot = true ∧ s.closeGeneration slot = (s.links slot).ref.generation)

lemma doom_none (s : State) : Doom none s := nofun

/-- The same once the manager has dealt with the notices of a slot: its connection is closed, or the
manager holds its descriptor. -/
def DoomPast (slot : ℕ) (held : Option ℕ) (d : Option (ℕ × ℕ)) (s : State) : Prop :=
  ∀ k fd, d = some (k, fd) → .closed fd ∈ s.log ∨ held = some fd ∨ (k ≠ slot ∧
    (s.links k).fd = some fd ∧ s.closePending k = true ∧
    s.closeGeneration k = (s.links k).ref.generation)

lemma pending_quiet {s t : State} {k fd : ℕ} (hq : Quiet s t) (hs : Inv s)
    (h : (s.links k).fd = some fd ∧ s.closePending k = true ∧
      s.closeGeneration k = (s.links k).ref.generation) :
    (t.links k).fd = some fd ∧ t.closePending k = true ∧
      t.closeGeneration k = (t.links k).ref.generation := by
  obtain ⟨hfd, hp, hg⟩ := h
  have hr := hq.requested k (hs.sits k fd hfd).active (by simp [State.closeRequested, hp, hg])
  simp only [State.closeRequested, Bool.and_eq_true, beq_iff_eq] at hr
  rw [hq.same]
  exact ⟨hfd, hr⟩

lemma Doom.quiet {d : Option (ℕ × ℕ)} {s t : State} (hq : Quiet s t) (hs : Inv s)
    (h : Doom d s) : Doom d t := fun slot fd hd =>
  (h slot fd hd).imp hq.toSoft.mem fun hp => pending_quiet hq hs hp

lemma DoomPast.quiet {slot : ℕ} {held : Option ℕ} {d : Option (ℕ × ℕ)} {s t : State}
    (hq : Quiet s t) (hs : Inv s) (h : DoomPast slot held d s) : DoomPast slot held d t :=
  fun k fd hd => (h k fd hd).imp hq.toSoft.mem
    (.imp id fun ⟨hk, hp⟩ => ⟨hk, pending_quiet hq hs hp⟩)

lemma firm_doom {F : State → Prop} (hF : Recorded F) (d : Option (ℕ × ℕ)) :
    Firm fun s => (Inv s ∧ F s) ∧ Doom d s :=
  (firm_inv hF).and fun _ _ hq hs h => h.quiet hq hs.1

lemma firm_doomPast {F : State → Prop} (hF : Recorded F) (slot : ℕ) (held : Option ℕ)
    (d : Option (ℕ × ℕ)) : Firm fun s => (Inv s ∧ F s) ∧ DoomPast slot held d s :=
  (firm_inv hF).and fun _ _ hq hs h => h.quiet hq hs.1

/-- What the manager has read about the notice of a slot. -/
structure Noticed (slot : ℕ) (d : Option (ℕ × ℕ)) (notice : Bool × UInt32) (s : State) : Prop where
  left : notice.1 = true → .noticed ⟨.tcp, slot, notice.2⟩ ∈ s.log
  found : ∀ fd, d = some (slot, fd) → .closed fd ∈ s.log ∨
    (notice.1 = true ∧ notice.2 = (s.links slot).ref.generation)

section Notices

variable {F : State → Prop} (hF : Recorded F) (d : Option (ℕ × ℕ)) (slot : ℕ)

lemma Noticed.quiet {d : Option (ℕ × ℕ)} {slot : ℕ} {notice : Bool × UInt32} {s t : State}
    (hq : Quiet s t) (h : Noticed slot d notice s) : Noticed slot d notice t where
  left := fun hp => hq.toSoft.mem (h.left hp)
  found := fun fd hd => (h.found fd hd).imp hq.toSoft.mem fun hn => by rwa [hq.same]

lemma retire_matched {s : State} {slot fd : ℕ} {generation : UInt32} (hinv : Inv s)
    (hfd : (s.links slot).fd = some fd) (hg : (s.links slot).ref.generation = generation) :
    s.retire slot generation = (some fd, (s.detach slot).note (.retired fd slot generation)) := by
  unfold State.retire
  dsimp only
  rw [if_pos ⟨(hinv.sits slot fd hfd).active, hg⟩, hfd]

lemma retire_cases {s : State} (hinv : Inv s) (slot : ℕ) (generation : UInt32) :
    (∃ fd, (s.links slot).fd = some fd ∧ (s.links slot).ref.generation = generation) ∨
      s.retire slot generation = (none, s) := by
  by_cases h : (s.links slot).active = true ∧ (s.links slot).ref.generation = generation
  · obtain ⟨fd, hfd⟩ := hinv.fd_of_active h.1
    exact .inl ⟨fd, hfd, h.2⟩
  · refine .inr ?_
    unfold State.retire
    dsimp only
    rw [if_neg h]

include hF

/-- The connection that the notice names is taken out of its slot. -/
theorem spec_retire (notice : Bool × UInt32) (hnotice : notice.1 = true) :
    Spec (fun s => ((Inv s ∧ F s) ∧ Doom d s) ∧ Noticed slot d notice s)
      (atomic .step fun _ s => s.retire slot notice.2) fun retired s =>
        (Inv s ∧ F s) ∧ (∀ fd, retired = some fd → Loose fd s) ∧ DoomPast slot retired d s := by
  refine spec_atomic ((firm_doom hF d).and fun _ _ hq _ h => h.quiet hq) fun s _ h => ?_
  obtain ⟨⟨⟨hinv, hfs⟩, hdoom⟩, hleft, hfound⟩ := h
  rcases retire_cases hinv slot notice.2 with ⟨fd, hfd, hg⟩ | hnone
  · have hallowed : Allowed (s.detach slot).log (.retired fd slot notice.2) := by
      have hsits := hinv.sits slot fd hfd
      exact ⟨hg ▸ hsits.opened, hsits.last, hleft hnotice⟩
    obtain ⟨hdetached, hloose⟩ := hinv.detach hfd
    obtain ⟨hretired, hloose⟩ := hdetached.note_retired hloose hallowed
    rw [retire_matched hinv hfd hg]
    refine ⟨⟨hretired, hF s _ ⟨fun _ he => List.mem_append_left _ he, rfl, rfl, rfl⟩ hfs⟩,
      fun g hgfd => Option.some.inj hgfd ▸ hloose, fun k f hd => ?_⟩
    rcases hdoom k f hd with hc | ⟨hk, hp, hgen⟩
    · exact .inl (List.mem_append_left _ hc)
    by_cases hks : k = slot
    · subst hks
      exact .inr (.inl (hfd.symm.trans hk))
    · refine .inr (.inr ⟨hks, ?_⟩)
      simp only [State.detach, note_links, setLink_links, if_neg hks]
      exact ⟨hk, hp, hgen⟩
  · rw [hnone]
    refine ⟨⟨hinv, hfs⟩, fun f hf => absurd hf (Option.some_ne_none f).symm, fun k f hd => ?_⟩
    rcases hdoom k f hd with hc | ⟨hk, hp, hgen⟩
    · exact .inl hc
    by_cases hks : k = slot
    · subst hks
      rcases hfound f hd with hc | ⟨-, hread⟩
      · exact .inl hc
      · rw [retire_matched hinv hk hread.symm] at hnone
        cases hnone
    · exact .inr (.inr ⟨hks, hk, hp, hgen⟩)

theorem spec_closePendingLink : Spec (fun s => (Inv s ∧ F s) ∧ Doom d s) (closePendingLink slot)
    fun _ s => (Inv s ∧ F s) ∧ DoomPast slot none d s := by
  have hread : Spec (fun s => (Inv s ∧ F s) ∧ Doom d s)
      (look fun s => (s.closePending slot, s.closeGeneration slot))
      fun notice s => ((Inv s ∧ F s) ∧ Doom d s) ∧ Noticed slot d notice s :=
    spec_atomic (firm_doom hF d) fun s _ h => ⟨h, h.1.1.noticed slot, fun fd hd =>
      (h.2 slot fd hd).imp_right fun hk => hk.2⟩
  refine .bind hread fun notice => ?_
  by_cases hnotice : notice.1 = true
  · rw [if_pos hnotice]
    refine .bind (spec_retire hF d slot notice hnotice) fun retired => ?_
    refine .bind (M := fun _ s => (Inv s ∧ F s) ∧ DoomPast slot none d s) ?_ fun _ => ?_
    · cases retired with
      | none => exact .pure fun s h => ⟨h.1, h.2.2⟩
      | some fd =>
        refine ((spec_closeFd (firm_doomPast hF slot (some fd) d) fd).pre
          fun s h => ⟨⟨h.1, h.2.2⟩, h.2.1 fd rfl⟩).post fun _ s ⟨hinv, u, hu, hs⟩ => ?_
        subst hs
        refine ⟨⟨hinv, hF u _ (grows_note u _) hu.1.2⟩, fun k f hd => ?_⟩
        rcases hu.2 k f hd with hc | hheld | hk
        · exact .inl (List.mem_append_left _ hc)
        · obtain rfl := Option.some.inj hheld
          exact .inl (List.mem_append_right _ (List.mem_singleton_self _))
        · exact .inr (.inr hk)
    · refine spec_change (firm_doomPast hF slot none d) fun s h => ?_
      split_ifs
      · have hsoft : Soft s { s with
            closePending := fun k => if k = slot then false else s.closePending k } :=
          ⟨fun _ => ⟨rfl, rfl, rfl⟩, fun _ => ⟨rfl, rfl⟩, rfl, ⟨[], (List.append_nil _).symm, nofun⟩,
            fun k hp => .inl ⟨by dsimp only at hp; split_ifs at hp; exact hp, rfl⟩, rfl, rfl, rfl⟩
        refine ⟨⟨hsoft.inv h.1.1, hF _ _ hsoft.grows h.1.2⟩, fun k f hd => ?_⟩
        refine (h.2 k f hd).imp_right (.imp_right fun ⟨hks, hfd, hp, hg⟩ => ⟨hks, hfd, ?_, hg⟩)
        dsimp only
        rw [if_neg hks]
        exact hp
      · exact h
  · rw [if_neg hnotice]
    refine .pure fun s h => ⟨h.1.1, fun k f hd => ?_⟩
    rcases h.1.2 k f hd with hc | hk
    · exact .inl hc
    by_cases hks : k = slot
    · subst hks
      exact (h.2.found f hd).imp_right fun hn => absurd hn.1 hnotice
    · exact .inr (.inr ⟨hks, hk⟩)

/-- All slots: the connection that was doomed is closed. -/
theorem spec_closePendingSlots (ks : List ℕ) (hks : ∀ k fd, d = some (k, fd) → k ∈ ks) :
    Spec (fun s => (Inv s ∧ F s) ∧ Doom d s) (forEach ks closePendingLink)
      fun _ s => (Inv s ∧ F s) ∧ ∀ k fd, d = some (k, fd) → .closed fd ∈ s.log := by
  induction ks generalizing F d with
  | nil => exact .pure fun s h => ⟨h.1, fun k fd hd => absurd (hks k fd hd) List.not_mem_nil⟩
  | cons slot ks ih =>
    refine .bind (spec_closePendingLink hF d slot) fun _ => ?_
    rcases d with - | ⟨k, fd⟩
    · exact (ih hF none nofun).pre fun s h => ⟨h.1, doom_none s⟩
    by_cases hk : k = slot
    · -- the rest keeps what is closed
      have hclosed : Recorded fun s => F s ∧ .closed fd ∈ s.log :=
        fun s t hg h => ⟨hF s t hg h.1, hg.log _ h.2⟩
      have hrest := ih hclosed none nofun
      refine (hrest.pre (P := fun s => (Inv s ∧ F s) ∧ DoomPast slot none (some (k, fd)) s)
        fun s h => ?_).post fun _ s h => ?_
      · rcases h.2 k fd rfl with hc | hheld | hne
        · exact ⟨⟨h.1.1, h.1.2, hc⟩, doom_none s⟩
        · cases hheld
        · exact absurd hk hne.1
      · refine ⟨⟨h.1.1, h.1.2.1⟩, fun _ f hd => ?_⟩
        obtain ⟨-, rfl⟩ := Prod.mk.inj (Option.some.inj hd)
        exact h.1.2.2
    · refine (ih hF (some (k, fd)) fun k' f hd => ?_).pre fun s h => ⟨h.1, fun k' f hd => ?_⟩
      · obtain ⟨rfl, rfl⟩ := Prod.mk.inj (Option.some.inj hd)
        exact (List.mem_cons.mp (hks k fd rfl)).resolve_left hk
      · rcases h.2 k' f hd with hc | hheld | hp
        · exact .inl hc
        · cases hheld
        · exact .inr hp.2

theorem spec_closePendingLinks (hd : ∀ k fd, d = some (k, fd) → k < tcpLinks) :
    Spec (fun s => (Inv s ∧ F s) ∧ Doom d s) closePendingLinks
      fun _ s => (Inv s ∧ F s) ∧ ∀ k fd, d = some (k, fd) → .closed fd ∈ s.log :=
  spec_closePendingSlots hF d _ fun k fd h => List.mem_range.mpr (hd k fd h)

end Notices

theorem safe_closePendingLinks : Safe closePendingLinks := fun _ hF =>
  ((spec_closePendingLinks hF none nofun).pre fun s h => ⟨h, doom_none s⟩).post fun _ _ h => h.1

/-! ## Giving a link up -/

theorem soft_invalidate (s : State) (link : LinkRef) : Soft s (s.invalidate link) :=
  (quiet_invalidate s link).toSoft

theorem soft_linkLost (s : State) (link : LinkRef) : Soft s (s.linkLost link) :=
  Aside.soft ⟨rfl, rfl, rfl, rfl, rfl, rfl, rfl, rfl, rfl⟩

theorem safe_transportLinkClose (link : LinkRef) : Safe (transportLinkClose link) :=
  (safe_change fun s => soft_invalidate s link).bind
    fun _ => safe_change fun s => (quiet_linkClose s link).toSoft

theorem safe_sessionLinkLost (link : LinkRef) : Safe (sessionLinkLost .step link) :=
  safe_change fun s => soft_linkLost s link

/-- The slot has this connection, under this link. -/
def Has (slot : ℕ) (l : TcpLink) (s : State) : Prop := s.links slot = l

lemma Has.quiet {slot : ℕ} {l : TcpLink} {s t : State} (hq : Quiet s t) (h : Has slot l s) :
    Has slot l t := by
  rw [Has, hq.same]
  exact h

/-- The notice for the link of a connection dooms it. -/
lemma doom_linkClose {s : State} (hinv : Inv s) {slot fd : ℕ} {l : TcpLink} (hfd : l.fd = some fd)
    (h : Has slot l s) : Doom (some (slot, fd)) (s.linkClose l.ref) := by
  intro k f hd
  obtain ⟨rfl, rfl⟩ := Prod.mk.inj (Option.some.inj hd)
  have hl : s.links slot = l := h
  obtain ⟨hactive, htcp, hslot, hbound, -, -, -⟩ := hinv.sits slot fd (by rw [hl, hfd])
  rw [hl] at hactive htcp hslot
  have hmatch : l.ref.transportId = .tcp ∧ l.ref.slot < tcpLinks ∧
      ((s.note (.noticed l.ref)).links l.ref.slot).active = true ∧
      ((s.note (.noticed l.ref)).links l.ref.slot).ref.generation = l.ref.generation := by
    rw [note_links, hslot, hl]
    exact ⟨htcp, hbound, hactive, rfl⟩
  refine .inr ?_
  unfold State.linkClose State.markClosePending
  rw [if_pos hmatch]
  exact ⟨hl ▸ hfd, if_pos hslot.symm, (if_pos hslot.symm).trans (by rw [note_links, hl])⟩

/-- From the loss of the session on: the connection in the slot is closed. -/
theorem spec_giveUp {F P : State → Prop} (hF : Recorded F) (hP : Firm P) {slot fd : ℕ}
    {l : TcpLink} (hfd : l.fd = some fd) {place : Place} (hplace : ∀ s, P s → Assured place s)
    (h : ∀ s, P s → (Inv s ∧ F s) ∧ Has slot l s) :
    Spec P (do
        sessionLinkLost place l.ref
        transportLinkClose l.ref
        closePendingLinks)
      fun _ s => (Inv s ∧ F s) ∧ .closed fd ∈ s.log := by
  have hfirm : Firm fun s => (Inv s ∧ F s) ∧ Has slot l s :=
    (firm_inv hF).and fun _ _ hq _ h => h.quiet hq
  have hlost : Spec P (sessionLinkLost place l.ref) fun _ s => (Inv s ∧ F s) ∧ Has slot l s :=
    .update hP.stable fun s hs => ⟨hplace s hs, by
      obtain ⟨⟨hinv, hf⟩, hhas⟩ := h s hs
      have hsoft := soft_linkLost s l.ref
      exact ⟨⟨hsoft.inv hinv, hF _ _ hsoft.grows hf⟩, hhas⟩⟩
  have hclose : Spec (fun s => (Inv s ∧ F s) ∧ Has slot l s) (transportLinkClose l.ref)
      fun _ s => (Inv s ∧ F s) ∧ Doom (some (slot, fd)) s := by
    refine .bind (spec_change hfirm (Q := fun _ s => (Inv s ∧ F s) ∧ Has slot l s)
      fun s hs => ?_) fun _ => spec_change hfirm fun s hs => ?_
    · have hsoft := soft_invalidate s l.ref
      exact ⟨⟨hsoft.inv hs.1.1, hF _ _ hsoft.grows hs.1.2⟩, hs.2⟩
    · have hsoft := (quiet_linkClose s l.ref).toSoft
      exact ⟨⟨hsoft.inv hs.1.1, hF _ _ hsoft.grows hs.1.2⟩, doom_linkClose hs.1.1 hfd hs.2⟩
  have hbound : ∀ s, P s → slot < tcpLinks := fun s hs => by
    obtain ⟨⟨hinv, -⟩, hhas⟩ := h s hs
    exact (hinv.sits slot fd (hhas ▸ hfd)).bound
  refine spec_known hbound fun hslot => .bind hlost fun _ => .bind hclose fun _ => ?_
  refine (spec_closePendingLinks hF (some (slot, fd)) fun k f hd => ?_).post
    fun _ s hs => ⟨hs.1, hs.2 slot fd rfl⟩
  obtain ⟨rfl, -⟩ := Prod.mk.inj (Option.some.inj hd)
  exact hslot

/-- The slot that is to be closed, as `ev_tcp_request_close_slot` finds it. -/
lemma expected_eq {s : State} (hinv : Inv s) {slot fd : ℕ} (hfd : (s.links slot).fd = some fd)
    {e : LinkRef} (htcp : e.transportId = .tcp) (hslot : e.slot = slot)
    (hg : (s.links slot).ref.generation = e.generation) : e = (s.links slot).ref := by
  have hsits := hinv.sits slot fd hfd
  calc e = ⟨e.transportId, e.slot, e.generation⟩ := rfl
    _ = ⟨(s.links slot).ref.transportId, (s.links slot).ref.slot,
        (s.links slot).ref.generation⟩ := by rw [htcp, hslot, ← hg, hsits.tcp, hsits.slot_eq]

/-- What `ev_tcp_request_close_slot` finds in the slot: nothing, and then no connection was named, or
a connection under this link. -/
def Found (slot : ℕ) (expected : Option LinkRef) (target : Option ℕ) :
    Option LinkRef → State → Prop
  | none, _ => target = none
  | some r, s => ∃ fd, (s.links slot).fd = some fd ∧ (s.links slot).ref = r ∧
      ∀ e, expected = some e → e = r

/-- A connection is given up; one that is named and still there gets closed. -/
theorem spec_requestCloseSlot {F P : State → Prop} (hF : Recorded F) (hP : Firm P) (slot : ℕ)
    (expected : Option LinkRef) (idle : Bool) (target : Option ℕ) (h : ∀ s, P s → Inv s ∧ F s)
    (hidle : idle = true → ∃ e, expected = some e ∧ ∀ s, P s → NotHeld e s)
    (htarget : ∀ s fd, P s → target = some fd →
      (s.links slot).fd = some fd ∧ ∀ e, expected = some e → e = (s.links slot).ref) :
    Spec P (requestCloseSlot slot expected idle)
      fun _ s => (Inv s ∧ F s) ∧ ∀ fd, target = some fd → .closed fd ∈ s.log := by
  refine .bind (M := fun ref s => P s ∧ Found slot expected target ref s) ?_ fun ref => ?_
  · refine spec_atomic hP fun s _ hs => ⟨hs, ?_⟩
    have hinv := (h s hs).1
    have hnone (hne : ¬∃ fd, target = some fd) : target = none := by
      cases ht : target with
      | none => rfl
      | some fd => exact absurd ⟨fd, ht⟩ hne
    cases expected with
    | none =>
      dsimp only
      split_ifs with ha
      · obtain ⟨fd, hfd⟩ := hinv.fd_of_active ha
        exact ⟨fd, hfd, rfl, fun e he => absurd he.symm (Option.some_ne_none e)⟩
      · refine hnone fun hex => ?_
        obtain ⟨fd, ht⟩ := hex
        exact ha (hinv.sits slot fd (htarget s fd hs ht).1).active
    | some e =>
      dsimp only
      split_ifs with hmatch
      · obtain ⟨ha, htcp, hslot, hg⟩ := hmatch
        obtain ⟨fd, hfd⟩ := hinv.fd_of_active ha
        exact ⟨fd, hfd, rfl, fun e' he => Option.some.inj he ▸ expected_eq hinv hfd htcp hslot hg⟩
      · refine hnone fun hex => ?_
        obtain ⟨fd, ht⟩ := hex
        obtain ⟨hfd, he⟩ := htarget s fd hs ht
        have hsits := hinv.sits slot fd hfd
        obtain rfl := he e rfl
        exact hmatch ⟨hsits.active, hsits.tcp, hsits.slot_eq, rfl⟩
  · cases ref with
    | none => exact .pure fun s hs => ⟨h s hs.1, fun fd ht => by cases hs.2.symm.trans ht⟩
    | some r =>
      let found (l : TcpLink) (fd : ℕ) : Prop := l.fd = some fd ∧ l.ref = r ∧
        (∀ e, expected = some e → e = r) ∧ ∀ fd', target = some fd' → fd' = fd
      refine Triple.pre (R := fun s => ∃ l fd, (P s ∧ Has slot l s) ∧ found l fd) (fun s hs => ?_)
        (spec_exists fun l => spec_exists fun fd => spec_known (fun _ hs => hs.2) fun hfound => ?_)
      · obtain ⟨hs, fd, hfd, href, he⟩ := hs
        refine ⟨s.links slot, fd, ⟨hs, rfl⟩, hfd, href, he, fun fd' ht => ?_⟩
        exact Option.some.inj ((htarget s fd' hs ht).1.symm.trans hfd)
      · obtain ⟨hfd, rfl, he, ht⟩ := hfound
        have hfirm : Firm fun s => P s ∧ Has slot l s := hP.and fun _ _ hq _ hl => hl.quiet hq
        have hplace : ∀ s, P s ∧ Has slot l s →
            Assured (if idle = true then .idle l.ref else .step) s := fun s hs => by
          by_cases hi : idle = true
          · obtain ⟨e, hexp, hnot⟩ := hidle hi
            rw [if_pos hi, ← he e hexp]
            exact ⟨(h s hs.1).1, hnot s hs.1⟩
          · rw [if_neg hi]
            exact (h s hs.1).1
        refine ((spec_giveUp hF hfirm hfd hplace fun s hs => ⟨h s hs.1, hs.2⟩).pre
          fun s hs => hs.1).post fun _ s hs => ⟨hs.1, fun fd' ht' => ?_⟩
        rw [ht fd' ht']
        exact hs.2

theorem safe_requestCloseSlot (slot : ℕ) (expected : Option LinkRef) :
    Safe (requestCloseSlot slot expected false) := fun _ hF =>
  (spec_requestCloseSlot hF (firm_inv hF) slot expected false none (fun _ h => h)
    (fun hidle => absurd hidle Bool.false_ne_true)
    fun _ fd _ hfd => absurd hfd.symm (Option.some_ne_none fd)).post fun _ _ h => h.1

theorem safe_closeAllLinks : Safe closeAllLinks :=
  Safe.forEach (fun slot => safe_requestCloseSlot slot none) _

theorem safe_syncListener : Safe syncListener := by
  have hsoft : ∀ (s : State) listener retry, Soft s { s with
      listener := listener, listenerRetryAtMs := retry } := fun _ _ _ =>
    Aside.soft ⟨rfl, rfl, rfl, rfl, rfl, rfl, rfl, rfl, rfl⟩
  refine .bind (safe_atomic fun s _ => .refl s) fun online => .bind (safe_look _) fun changed =>
    .bind (.ite (.bind (safe_change fun s => hsoft s none _) fun _ => safe_closeAllLinks)
      (safe_pure _)) fun _ => safe_atomic fun s o => ?_
  dsimp only
  split_ifs
  · exact .refl s
  · exact .refl s
  · exact hsoft s online 0
  · exact hsoft s _ _

/-! ## Accepting -/

/-- A new descriptor. -/
lemma Inv.accept {s : State} (h : Inv s) :
    Inv { s with accepted := s.accepted + 1 } ∧
      Accepted s.accepted { s with accepted := s.accepted + 1 } := by
  have hopened : ∀ slot g, .opened s.accepted slot g ∉ s.log := fun slot g ho =>
    absurd (h.fresh s.accepted (.inl ⟨slot, g, ho⟩)) (lt_irrefl _)
  refine ⟨⟨h.justified, fun slot fd hfd => ?_, h.vacant, h.once, fun fd hfd => ?_, h.noticed, h.timed⟩,
    ⟨⟨fun hc => ?_, fun slot g ho => ?_, Nat.lt_succ_self _, fun slot hfd => ?_⟩, hopened⟩⟩
  · obtain ⟨ha, htcp, hslot, hb, ho, hl, hc⟩ := h.sits slot fd hfd
    exact ⟨ha, htcp, hslot, hb, ho, hl, hc⟩
  · exact (h.fresh fd hfd).trans (Nat.lt_succ_self _)
  · exact absurd (h.fresh s.accepted (.inr hc)) (lt_irrefl _)
  · exact absurd ho (hopened slot g)
  · exact hopened _ _ (h.sits slot _ hfd).opened

lemma freeSlot_some {s : State} {slot : ℕ} (h : s.freeSlot = some slot) :
    (s.links slot).fd = none ∧ slot < tcpLinks := by
  obtain ⟨hfree, hmem⟩ := And.intro (List.find?_some h) (List.mem_of_find?_eq_some h)
  simp only [Bool.and_eq_true, Bool.not_eq_true', Option.isNone_iff_eq_none] at hfree
  exact ⟨hfree.2, List.mem_range.mp hmem⟩

theorem safe_acceptOne : Safe acceptOne := by
  intro F hF
  have hfirm (fd : ℕ) : Firm fun s => (Inv s ∧ F s) ∧ Accepted fd s :=
    (firm_inv hF).and fun _ _ hq _ h => hq.toSoft.isAccepted h
  have hclose (fd : ℕ) : Spec (fun s => (Inv s ∧ F s) ∧ Accepted fd s) (closeFd fd)
      fun _ s => Inv s ∧ F s := (safe_closeFd hF fd).pre fun s h => ⟨h.1, h.2.toLoose⟩
  refine .bind (M := fun offered s => (Inv s ∧ F s) ∧ ∀ fd, offered = some fd → Accepted fd s) ?_
    fun offered => ?_
  · refine spec_atomic (firm_inv hF) fun s o h => ?_
    split_ifs
    · obtain ⟨hinv, haccepted⟩ := h.1.accept
      exact ⟨⟨hinv, hF s _ ⟨fun _ he => he, rfl, rfl, rfl⟩ h.2⟩,
        fun fd hfd => Option.some.inj hfd ▸ haccepted⟩
    · exact ⟨h, nofun⟩
  cases offered with
  | none => exact .pure fun s h => h.1
  | some fd =>
    refine Triple.pre (R := fun s => (Inv s ∧ F s) ∧ Accepted fd s) (fun s h => ⟨h.1, h.2 fd rfl⟩) ?_
    refine .bind (spec_ask (hfirm fd)) fun configured => ?_
    split_ifs
    · exact hclose fd
    refine .bind (spec_look (hfirm fd) State.freeSlot) fun free => ?_
    cases free with
    | none => exact (hclose fd).pre fun s h => h.1
    | some slot =>
      have hvacant : Firm fun s => ((Inv s ∧ F s) ∧ Accepted fd s) ∧ (s.links slot).fd = none :=
        (hfirm fd).and fun _ _ hq _ h => by rwa [hq.same]
      refine Triple.pre (R := fun s => (((Inv s ∧ F s) ∧ Accepted fd s) ∧ (s.links slot).fd = none) ∧
        slot < tcpLinks) (fun s h => ⟨⟨h.1, (freeSlot_some h.2).1⟩, (freeSlot_some h.2).2⟩)
        (spec_known (fun _ h => h.2) fun hslot => ?_)
      refine Triple.pre (fun s h => h.1) (.bind (M := fun ref s =>
        (((Inv s ∧ F s) ∧ Accepted fd s) ∧ (s.links slot).fd = none) ∧
          ∀ r, ref = some r → r.transportId = .tcp ∧ r.slot = slot) ?_ fun ref => ?_)
      · refine spec_atomic hvacant fun s o h => ?_
        unfold State.issue
        cases hopen : s.registry.linkOpen .tcp slot with
        | none => exact ⟨h, nofun⟩
        | some opened =>
          obtain ⟨registry, r⟩ := opened
          have hregistry : Soft s { s with registry := registry } :=
            Aside.soft ⟨rfl, rfl, rfl, rfl, rfl, rfl, rfl, rfl, rfl⟩
          have hsoft := hregistry.trans (soft_note (e := .issued slot r.generation) trivial)
          obtain ⟨htcp, hr, -⟩ := Registry.linkOpen_some hopen
          exact ⟨⟨⟨⟨hsoft.inv h.1.1.1, hF _ _ hsoft.grows h.1.1.2⟩, hsoft.isAccepted h.1.2⟩, h.2⟩,
            fun r' h' => Option.some.inj h' ▸ ⟨htcp, hr⟩⟩
      · cases ref with
        | none => exact (hclose fd).pre fun s h => h.1.1
        | some r =>
          refine Triple.pre (fun s h => h) (spec_known (fun _ h => h.2 r rfl) fun hr => ?_)
          refine (spec_change hvacant fun s h => ?_).pre fun s h => h.1
          exact ⟨h.1.1.1.occupy h.1.2 h.2 hslot hr.1 hr.2,
            hF s _ ⟨fun _ he => List.mem_append_left _ he, rfl, rfl, rfl⟩ h.1.1.2⟩

/-! ## Requests -/

theorem safe_acquire (link : LinkRef) : Safe (acquire link) := by
  have htaken : ∀ s o, Soft s ((fun (o : Outcome) (s : State) =>
      if s.owner = none then (true, { s with owner := some link })
      else (s.owner == some link && o.done, s)) o s).2 := by
    intro s o
    dsimp only
    split_ifs
    · exact Aside.soft ⟨rfl, rfl, rfl, rfl, rfl, rfl, rfl, rfl, rfl⟩
    · exact .refl s
  refine .bind (safe_look _) fun observer => .ite (safe_pure _) (.bind (safe_look _)
    fun current => .ite (safe_pure _) (.bind (safe_atomic htaken) fun granted => .ite ?_ ?_))
  · exact .bind (safe_look _) fun still => .bind safe_ask fun answered =>
      .ite (safe_sessionLinkLost link) (safe_pure _)
  · exact .bind safe_ask fun answered => .ite (safe_transportLinkClose link) (safe_pure _)

lemma soft_settle (s : State) (link : LinkRef) (enable already : Bool) (count : ℕ) :
    Soft s (s.settle link enable already count) := by
  unfold State.settle
  split_ifs
  · exact Aside.soft ⟨rfl, rfl, rfl, rfl, rfl, rfl, rfl, rfl, rfl⟩
  · have hset : Soft s { s with
        special := .free
        observers := fun k => if k = link.slot then link.generation else s.observers k } :=
      Aside.soft ⟨rfl, rfl, rfl, rfl, rfl, rfl, rfl, rfl, rfl⟩
    exact hset.trans (soft_note trivial)
  · exact Aside.soft ⟨rfl, rfl, rfl, rfl, rfl, rfl, rfl, rfl, rfl⟩

theorem safe_subscribe (link : LinkRef) (enable : Bool) : Safe (subscribe link enable) := by
  refine .bind (safe_look _) fun current => .bind (safe_look _) fun owner => .ite (safe_pure _)
    (.bind (safe_atomic fun s o => ?_) fun taken => .ite (safe_pure _) (.bind (safe_look _)
      fun zero => .bind (safe_look _) fun one => .bind (safe_look _) fun two =>
        .bind (safe_look _) fun already => safe_change fun s => ?_))
  · split_ifs
    · exact Aside.soft ⟨rfl, rfl, rfl, rfl, rfl, rfl, rfl, rfl, rfl⟩
    · exact .refl s
  · exact soft_settle s link enable already _

theorem safe_halt : Safe halt := fun _ hF =>
  .bind (M := fun _ _ => False) (.forever (firm_inv hF).stable (fun _ h => h.1) (.pure fun _ h => h))
    nofun

theorem safe_resetDevice (link : LinkRef) : Safe (resetDevice link) := by
  intro F hF
  have hfirm (fd : ℕ) : Firm fun s => (Inv s ∧ F s) ∧ Loose fd s :=
    (firm_inv hF).and fun _ _ hq _ h => hq.toSoft.loose h
  refine .bind (M := fun detached s => (Inv s ∧ F s) ∧ ∀ fd, detached = some fd → Loose fd s) ?_
    fun detached => ?_
  · refine spec_atomic (firm_inv hF) fun s o h => ?_
    split_ifs with hmatch
    · have hsome : (s.links link.slot).fd.isSome = true := by
        have hlink := hmatch.2
        simp only [State.linkMatches, Bool.and_eq_true] at hlink
        exact hlink.1.2
      obtain ⟨fd, hfd⟩ := Option.isSome_iff_exists.mp hsome
      obtain ⟨hinv, hloose⟩ := h.1.detach hfd
      exact ⟨⟨hinv, hF s _ ⟨fun _ he => he, rfl, rfl, rfl⟩ h.2⟩,
        fun f hf => Option.some.inj (hfd.symm.trans hf) ▸ hloose⟩
    · exact ⟨h, nofun⟩
  cases detached with
  | none => exact (safe_halt F hF).pre fun s h => h.1
  | some fd =>
    refine Triple.pre (R := fun s => (Inv s ∧ F s) ∧ Loose fd s) (fun s h => ⟨h.1, h.2 fd rfl⟩) ?_
    refine .bind (spec_ask (hfirm fd)) fun configured => .bind (M := fun _ s => Inv s ∧ F s) ?_
      fun _ => safe_halt F hF
    split_ifs
    · exact safe_closeFd hF fd
    · exact .pure fun s h => h.1

theorem safe_handle (link : LinkRef) (r : Request) : Safe (handle link r) := by
  cases r with
  | acquire => exact safe_acquire link
  | release => exact safe_sessionLinkLost link
  | subscribe enable => exact safe_subscribe link enable
  | reset => exact safe_resetDevice link

theorem safe_transportRx (link : LinkRef) (requests : List Request) :
    Safe (transportRx link requests) :=
  .bind (safe_look _) fun _ => .ite (Safe.forEach (safe_handle link) requests) (safe_pure _)

/-! ## Polling -/

lemma soft_setLink {s : State} {slot : ℕ} {l : TcpLink} (hfd : l.fd = (s.links slot).fd)
    (ha : l.active = (s.links slot).active) (href : l.ref = (s.links slot).ref)
    (hms : l.acceptedMs = (s.links slot).acceptedMs)
    (hat : l.acceptedAtMs = (s.links slot).acceptedAtMs) : Soft s (s.setLink slot l) where
  links := fun k => by
    rw [setLink_links]
    split_ifs with hk
    · subst hk
      exact ⟨hfd, ha, href⟩
    · exact ⟨rfl, rfl, rfl⟩
  times := fun k => by
    rw [setLink_links]
    split_ifs with hk
    · subst hk
      exact ⟨hms, hat⟩
    · exact ⟨rfl, rfl⟩
  accepted := rfl
  log := ⟨[], (List.append_nil _).symm, nofun⟩
  pending := fun _ h => .inl ⟨h, rfl⟩
  due := rfl
  orphaned := rfl
  outlived := rfl

lemma soft_claim (s : State) (slot : ℕ) (ref : LinkRef) : Soft s (s.claim slot ref) := by
  unfold State.claim
  split_ifs
  · exact soft_setLink rfl rfl rfl rfl rfl
  · exact .refl s

lemma soft_idleStep (s : State) (slot : ℕ) (ref : LinkRef) (receivedData : Bool) (now : UInt32) :
    Soft s (s.idleStep slot ref receivedData now).2 := by
  unfold State.idleStep
  dsimp only
  split_ifs
  · exact soft_setLink rfl rfl rfl rfl rfl
  · exact .refl s
  · exact .refl s
  · exact .refl s

section Polling

variable {F P : State → Prop} {slot : ℕ} {link : LinkRef}

/-- A link that is not held stays so, as far as other tasks go. -/
lemma firm_notHeld (hP : Firm P) (htcp : link.transportId = .tcp) :
    Firm fun s => P s ∧ NotHeld link s := hP.and fun _ _ hq _ h => h.quiet htcp hq

/-- What `held` denies is still so. -/
theorem spec_held (hP : Firm P) (htcp : link.transportId = .tcp) :
    Spec P (held link) fun claimed s => P s ∧ (claimed = false → NotHeld link s) := by
  have hunowned : Firm fun s => P s ∧ s.owner ≠ some link :=
    hP.and fun _ _ hq _ h ho => h (hq.owner link htcp ho)
  refine .bind (spec_look hP fun s => s.owner == some link) fun owned => ?_
  cases owned with
  | true => exact .pure fun s h => ⟨h.1, nofun⟩
  | false =>
    refine (spec_atomic hunowned fun s _ h => ?_).pre fun s h => ⟨h.1, by simpa using h.2⟩
    exact ⟨h.1, fun hs => ⟨h.2, hs⟩⟩

theorem spec_held_false (hP : Firm P) (htcp : link.transportId = .tcp) :
    Spec (fun s => P s ∧ NotHeld link s) (held link)
      fun claimed s => (P s ∧ NotHeld link s) ∧ claimed = false := by
  have hfirm := firm_notHeld hP htcp
  refine .bind (spec_atomic hfirm (Q := fun owned s => (P s ∧ NotHeld link s) ∧ owned = false)
    fun s _ h => ⟨h, by simpa using h.2.1⟩) fun owned => ?_
  cases owned with
  | true => exact fun s h => absurd h.2 nofun
  | false => exact (spec_atomic hfirm fun s _ h => ⟨h, h.2.2⟩).pre fun s h => h.1

/-- From the read on nothing is reclaimed that is held. -/
theorem safe_serveLink (slot : ℕ) {ref : LinkRef} (htcp : ref.transportId = .tcp) :
    Safe (serveLink slot ref) := by
  intro F hF
  have hclaimed : Safe (change fun s => s.claim slot ref) :=
    safe_change fun s => soft_claim s slot ref
  have hreclaim : Spec (fun s => (Inv s ∧ F s) ∧ NotHeld ref s)
      (requestCloseSlot slot (some ref) true) fun _ s => Inv s ∧ F s :=
    (spec_requestCloseSlot hF (firm_notHeld (firm_inv hF) htcp) slot (some ref) true none
      (fun _ h => h.1) (fun _ => ⟨ref, rfl, fun _ h => h.2⟩)
      fun _ fd _ hfd => absurd hfd.symm (Option.some_ne_none fd)).post fun _ _ h => h.1
  have hidle (receivedData : Bool) : Spec (fun s => (Inv s ∧ F s) ∧ NotHeld ref s) (do
      let now ← look State.clock
      let reclaim ← atomic .step fun _ s => s.idleStep slot ref receivedData now
      (if reclaim then requestCloseSlot slot (some ref) true else pure () : Task Unit))
      fun _ s => Inv s ∧ F s := by
    have hfirm := firm_notHeld (firm_inv hF) htcp
    refine .bind (spec_look hfirm State.clock) fun now => Triple.pre (fun s h => h.1)
      (.bind (spec_atomic hfirm (Q := fun _ s => (Inv s ∧ F s) ∧ NotHeld ref s) fun s _ h => ?_)
        fun reclaim => ?_)
    · have hsoft := soft_idleStep s slot ref receivedData now
      refine ⟨⟨hsoft.inv h.1.1, hF _ _ hsoft.grows h.1.2⟩, ?_⟩
      unfold State.idleStep
      dsimp only
      split_ifs <;> exact h.2
    · split_ifs
      · exact hreclaim
      · exact .pure fun s h => h.1
  have hafter (receivedData : Bool) : Spec (fun s => Inv s ∧ F s) (do
      let claimed ← held ref
      (if claimed then change fun s => s.claim slot ref
      else do
        let now ← look State.clock
        let reclaim ← atomic .step fun _ s => s.idleStep slot ref receivedData now
        (if reclaim then requestCloseSlot slot (some ref) true else pure () : Task Unit) :
        Task Unit)) fun _ s => Inv s ∧ F s := by
    refine .bind (spec_held (firm_inv hF) htcp) fun claimed => ?_
    cases claimed with
    | true => exact (hclaimed F hF).pre fun s h => h.1
    | false => exact (hidle receivedData).pre fun s h => ⟨h.1, h.2 rfl⟩
  refine .bind (safe_look _ F hF) fun current => .bind (safe_atomic (fun s _ => .refl s) F hF)
    fun read => ?_
  cases read with
  | closed => exact safe_requestCloseSlot slot (some ref) F hF
  | progress requests => exact .bind (safe_transportRx ref requests F hF) fun _ => hafter true
  | wouldBlock => exact .bind (safe_transportRx ref [] F hF) fun _ => hafter false

end Polling

/-! ## The sweep -/

/-- The records of the sweep are no part of the invariant. -/
lemma Inv.records {s : State} (h : Inv s) (due orphaned outlived : List ℕ) :
    Inv { s with due := due, orphaned := orphaned, outlived := outlived } := by
  refine ⟨h.justified, fun slot fd hfd => ?_, h.vacant, h.once, h.fresh, h.noticed, h.timed⟩
  obtain ⟨ha, htcp, hslot, hb, ho, hl, hc⟩ := h.sits slot fd hfd
  exact ⟨ha, htcp, hslot, hb, ho, hl, hc⟩

/-- The copy of the slot is a connection that is due. -/
structure Due (l : TcpLink) (s : State) : Prop where
  unclaimed : l.claimedOnce = false
  notHeld : NotHeld l.ref s
  late : l.acceptedAtMs + handshakeTimeoutMs.toNat ≤ s.nowMs

lemma Due.quiet {l : TcpLink} {s t : State} (htcp : l.ref.transportId = .tcp) (h : Due l s)
    (hq : Quiet s t) : Due l t := ⟨h.unclaimed, h.notHeld.quiet htcp hq, h.late.trans hq.now⟩

/-- The clock of the manager tells how old a connection is, but for the rounds it has made. -/
lemma elapsed_eq {s : State} {l : TcpLink} (hms : l.acceptedMs = UInt32.ofNat l.acceptedAtMs)
    (hpast : l.acceptedAtMs ≤ s.nowMs) :
    (s.clock - l.acceptedMs).toNat = (s.nowMs - l.acceptedAtMs) % 2 ^ 32 := by
  rw [UInt32.toNat_sub, hms, State.clock, UInt32.toNat_ofNat', UInt32.toNat_ofNat']
  omega

lemma ClearedBut.of_none {s : State} (h : ClearedBut none s) (x : Option ℕ) : ClearedBut x s :=
  fun fd hfd => (h fd hfd).imp_right (.imp_right nofun)

lemma ClearedBut.closed {s : State} {fd : ℕ} (h : ClearedBut (some fd) s)
    (hc : .closed fd ∈ s.log) : ClearedBut none s := fun f hf => by
  rcases h f hf with hclosed | hexcused | hsame
  · exact .inl hclosed
  · exact .inr (.inl hexcused)
  · exact .inl (Option.some.inj hsame ▸ hc)

section Sweep

variable {slot fd : ℕ} {l : TcpLink}

lemma ClearedBut.excused {s : State} (h : ClearedBut (some fd) s) (he : s.Excused fd) :
    ClearedBut none s := fun f hf => by
  rcases h f hf with hclosed | hexcused | hsame
  · exact .inl hclosed
  · exact .inr (.inl hexcused)
  · exact .inr (.inl (Option.some.inj hsame ▸ he))

/-- Only more connections are excused. -/
def Excuses (s t : State) : Prop :=
  ∃ orphaned outlived, t = { s with
    orphaned := orphaned ++ s.orphaned
    outlived := outlived ++ s.outlived }

lemma noteOrphaned_excuses (s : State) (slot : ℕ) (ref : LinkRef) :
    Excuses s (s.noteOrphaned slot ref) := by
  unfold State.noteOrphaned
  split
  · split_ifs
    · exact ⟨[_], [], rfl⟩
    · exact ⟨[], [], rfl⟩
  · exact ⟨[], [], rfl⟩

lemma noteOutlived_excuses (s : State) (slot : ℕ) : Excuses s (s.noteOutlived slot) := by
  unfold State.noteOutlived
  split
  · dsimp only
    split_ifs
    · exact ⟨[], [_], rfl⟩
    · exact ⟨[], [], rfl⟩
  · exact ⟨[], [], rfl⟩

lemma Excuses.cleared {s t : State} (h : Excuses s t) {x : Option ℕ}
    (hs : Inv s ∧ ClearedBut x s) : Inv t ∧ ClearedBut x t := by
  obtain ⟨orphaned, outlived, rfl⟩ := h
  exact ⟨hs.1.records s.due _ _, fun f hf => (hs.2 f hf).imp_right
    (.imp_left (.imp (List.mem_append_right _) (List.mem_append_right _)))⟩

lemma Excuses.has {s t : State} (h : Excuses s t) (hs : Has slot l s) : Has slot l t := by
  obtain ⟨orphaned, outlived, rfl⟩ := h
  exact hs

lemma Excuses.notHeld {s t : State} (h : Excuses s t) {link : LinkRef} (hs : NotHeld link s) :
    NotHeld link t := by
  obtain ⟨orphaned, outlived, rfl⟩ := h
  exact hs

lemma Excuses.due {s t : State} (h : Excuses s t) (hs : Due l s) : Due l t := by
  have hheld := h.notHeld hs.notHeld
  obtain ⟨orphaned, outlived, rfl⟩ := h
  exact ⟨hs.unclaimed, hheld, hs.late⟩

lemma noteOrphaned_mem {s : State} (hfd : (s.links slot).fd = some fd) {ref : LinkRef}
    (hcurrent : s.registry.linkIsCurrent ref = false)
    (hrequested : s.closeRequested slot ref.generation = false) :
    fd ∈ (s.noteOrphaned slot ref).orphaned := by
  rw [State.noteOrphaned, hfd]
  dsimp only
  rw [if_pos ⟨hcurrent, hrequested⟩]
  exact List.mem_cons_self

lemma noteOutlived_mem {s : State} (hfd : (s.links slot).fd = some fd)
    (hround : 2 ^ 32 ≤ s.nowMs - (s.links slot).acceptedAtMs)
    (hshort : (s.nowMs - (s.links slot).acceptedAtMs) % 2 ^ 32 < handshakeTimeoutMs.toNat) :
    fd ∈ (s.noteOutlived slot).outlived := by
  rw [State.noteOutlived, hfd]
  dsimp only
  rw [if_pos ⟨hround, hshort⟩]
  exact List.mem_cons_self

/-- What the sweep finds out about the link of a connection that is due. -/
lemma orphaned_or_doomed {s : State} (h : Inv s ∧ ClearedBut (some fd) s) (hhas : Has slot l s)
    (hfd : l.fd = some fd) (hcurrent : s.registry.linkIsCurrent l.ref = false) :
    (Inv (s.noteOrphaned slot l.ref) ∧ ClearedBut none (s.noteOrphaned slot l.ref)) ∨
      ((Inv (s.noteOrphaned slot l.ref) ∧ ClearedBut (some fd) (s.noteOrphaned slot l.ref)) ∧
        Doom (some (slot, fd)) (s.noteOrphaned slot l.ref)) := by
  have hl : s.links slot = l := hhas
  have hfds : (s.links slot).fd = some fd := by rw [hl, hfd]
  have hnoted := noteOrphaned_excuses s slot l.ref
  have hcleared := hnoted.cleared h
  cases hrequested : s.closeRequested slot l.ref.generation with
  | false =>
    have hmem := noteOrphaned_mem hfds hcurrent hrequested
    exact .inl ⟨hcleared.1, hcleared.2.excused (.inl hmem)⟩
  | true =>
    simp only [State.closeRequested, Bool.and_eq_true, beq_iff_eq] at hrequested
    refine .inr ⟨hcleared, fun k f hd => .inr ?_⟩
    obtain ⟨rfl, rfl⟩ := Prod.mk.inj (Option.some.inj hd)
    obtain ⟨orphaned, outlived, heq⟩ := hnoted
    rw [heq]
    dsimp only
    rw [hl]
    exact ⟨hfd, hrequested⟩

/-- What the clock of the manager says about a connection that is due. -/
lemma expired_or_outlived {s : State} (h : Inv s ∧ ClearedBut (some fd) s) (hhas : Has slot l s)
    (hfd : l.fd = some fd) (hdue : Due l s) :
    handshakeTimeoutMs ≤ s.clock - l.acceptedMs ∨ ClearedBut none (s.noteOutlived slot) := by
  have hl : s.links slot = l := hhas
  have hlate := hdue.late
  by_cases hold : 2 ^ 32 ≤ s.nowMs - l.acceptedAtMs ∧
      (s.nowMs - l.acceptedAtMs) % 2 ^ 32 < handshakeTimeoutMs.toNat
  · have hmem := noteOutlived_mem (by rw [hl, hfd]) (by rw [hl]; exact hold.1)
      (by rw [hl]; exact hold.2)
    exact .inr (((noteOutlived_excuses s slot).cleared h).2.excused (.inr hmem))
  · have htimed := h.1.timed slot
    rw [hl] at htimed
    refine .inl ?_
    rw [UInt32.le_iff_toNat_le, elapsed_eq htimed (by omega)]
    omega

/-- A connection that is not held is given up if it is late, and served if it is not. -/
theorem spec_lateOrServed {F : State → Prop} (hF : Recorded F) (htcp : l.ref.transportId = .tcp)
    {late : Prop} [Decidable late] :
    Spec (fun s => (Inv s ∧ F s) ∧ NotHeld l.ref s)
      (if late then requestCloseSlot slot (some l.ref) true else serveLink slot l.ref)
      fun _ s => Inv s ∧ F s := by
  have hfirm := firm_notHeld (firm_inv hF) htcp
  split_ifs
  · exact (spec_requestCloseSlot hF hfirm slot (some l.ref) true none (fun _ h => h.1)
      (fun _ => ⟨l.ref, rfl, fun _ h => h.2⟩)
      fun _ fd _ hfd => absurd hfd.symm (Option.some_ne_none fd)).post fun _ _ h => h.1
  · exact (safe_serveLink slot htcp _ hF).pre fun s h => h.1

/-- A connection that is due is closed, or excused. -/
theorem spec_pollFrom_due (hactive : l.active = true) (hfd : l.fd = some fd)
    (htcp : l.ref.transportId = .tcp) (hslot : slot < tcpLinks) :
    Spec (fun s => ((Inv s ∧ ClearedBut (some fd) s) ∧ Has slot l s) ∧ Due l s) (pollFrom slot l)
      fun _ s => Inv s ∧ ClearedBut none s := by
  have hrec := recorded_clearedBut (some fd)
  have hnone := recorded_clearedBut none
  have hhas : Firm fun s => (Inv s ∧ ClearedBut (some fd) s) ∧ Has slot l s :=
    (firm_inv hrec).and fun _ _ hq _ h => h.quiet hq
  have hdue : Firm fun s => ((Inv s ∧ ClearedBut (some fd) s) ∧ Has slot l s) ∧ Due l s :=
    hhas.and fun _ _ hq _ h => h.quiet htcp hq
  rw [pollFrom, if_neg (by rw [hactive]; nofun)]
  refine .bind (spec_atomic hdue (Q := fun current s => if current = true then
    ((Inv s ∧ ClearedBut (some fd) s) ∧ Has slot l s) ∧ Due l s
    else (Inv s ∧ ClearedBut none s) ∨
      ((Inv s ∧ ClearedBut (some fd) s) ∧ Doom (some (slot, fd)) s)) fun s _ h => ?_)
    fun current => ?_
  · dsimp only
    cases hcurrent : s.registry.linkIsCurrent l.ref with
    | false =>
      rw [if_neg nofun]
      exact orphaned_or_doomed h.1.1 h.1.2 hfd hcurrent
    | true =>
      have hnoted := noteOrphaned_excuses s slot l.ref
      rw [if_pos rfl]
      exact ⟨⟨hnoted.cleared h.1.1, hnoted.has h.1.2⟩, hnoted.due h.2⟩
  cases current with
  | false =>
    rw [if_pos rfl]
    intro s hs
    rw [if_neg nofun] at hs
    rcases hs with hs | hs
    · exact safe_closePendingLinks _ hnone s hs
    · refine (spec_closePendingLinks hrec (some (slot, fd)) fun k f hd => ?_).post
        (fun _ t ht => ⟨ht.1.1, ht.1.2.closed (ht.2 slot fd rfl)⟩) s hs
      obtain ⟨rfl, -⟩ := Prod.mk.inj (Option.some.inj hd)
      exact hslot
  | true =>
    rw [if_neg nofun]
    refine Triple.pre (R := fun s => (((Inv s ∧ ClearedBut (some fd) s) ∧ Has slot l s) ∧ Due l s) ∧
      NotHeld l.ref s) (fun s hs => ?_) (.bind (spec_held_false hdue htcp) fun claimed =>
        spec_known (fun _ hs => hs.2) fun hclaimed => ?_)
    · rw [if_pos rfl] at hs
      exact ⟨hs, hs.2.notHeld⟩
    subst hclaimed
    rw [if_neg nofun]
    refine Triple.pre (fun s hs => hs.1.1) (.bind (spec_atomic hdue (Q := fun now s =>
      ((((Inv s ∧ ClearedBut (some fd) s) ∧ Has slot l s) ∧ Due l s) ∧
        l.claimedOnce = false ∧ handshakeTimeoutMs ≤ now - l.acceptedMs) ∨
      ((Inv s ∧ ClearedBut none s) ∧ NotHeld l.ref s)) fun s _ hs => ?_) fun now => ?_)
    · have hnoted := noteOutlived_excuses s slot
      rcases expired_or_outlived hs.1.1 hs.1.2 hfd hs.2 with hexpired | hcleared
      · exact .inl ⟨⟨⟨hnoted.cleared hs.1.1, hnoted.has hs.1.2⟩, hnoted.due hs.2⟩,
          hs.2.unclaimed, hexpired⟩
      · exact .inr ⟨⟨(hnoted.cleared hs.1.1).1, hcleared⟩, hnoted.notHeld hs.2.notHeld⟩
    rintro s (⟨hs, hexpired⟩ | hs)
    · rw [if_pos hexpired]
      refine ((spec_requestCloseSlot hrec hdue slot (some l.ref) true (some fd) (fun _ h => h.1.1)
        (fun _ => ⟨l.ref, rfl, fun _ h => h.2.notHeld⟩) fun s f h hf => ?_).post
        fun _ s hs => ⟨hs.1.1, hs.1.2.closed (hs.2 fd rfl)⟩) s hs
      have hl : s.links slot = l := h.1.2
      rw [hl]
      exact ⟨hfd.trans hf, fun e he => (Option.some.inj he).symm⟩
    · exact spec_lateOrServed hnone htcp s hs

/-- What a sweep has recorded does not suffer from any other connection. -/
theorem spec_pollFrom : Spec (fun s => (Inv s ∧ ClearedBut none s) ∧ Has slot l s)
    (pollFrom slot l) fun _ s => Inv s ∧ ClearedBut none s := by
  have hrec := recorded_clearedBut none
  have hhas : Firm fun s => (Inv s ∧ ClearedBut none s) ∧ Has slot l s :=
    (firm_inv hrec).and fun _ _ hq _ h => h.quiet hq
  unfold pollFrom
  by_cases hactive : l.active = false
  · rw [if_pos hactive]
    exact .pure fun s h => h.1
  rw [if_neg hactive]
  refine spec_known (c := l.ref.transportId = .tcp) (fun s h => ?_) fun htcp => ?_
  · have hl : s.links slot = l := h.2
    obtain ⟨fd, hfd⟩ := h.1.1.fd_of_active (by rw [hl]; simpa using hactive)
    exact hl ▸ (h.1.1.sits slot fd hfd).tcp
  refine .bind (M := fun _ s => Inv s ∧ ClearedBut none s) (spec_atomic hhas fun s _ h =>
    (noteOrphaned_excuses s slot l.ref).cleared h.1) fun current => ?_
  split_ifs
  · exact safe_closePendingLinks _ hrec
  refine .bind (spec_held (firm_inv hrec) htcp) fun claimed => ?_
  cases claimed with
  | true =>
    refine (Safe.bind (safe_change fun s => soft_claim s slot l.ref)
      fun _ => safe_serveLink slot htcp) _ hrec |>.pre fun s h => h.1
  | false =>
    rw [if_neg nofun]
    have hfirm := firm_notHeld (firm_inv hrec) htcp
    refine Triple.pre (fun s h => ⟨h.1, h.2 rfl⟩) (.bind (spec_atomic hfirm
      (Q := fun _ s => (Inv s ∧ ClearedBut none s) ∧ NotHeld l.ref s) fun s _ h => ?_)
      fun now => spec_lateOrServed hrec htcp)
    have hnoted := noteOutlived_excuses s slot
    exact ⟨hnoted.cleared h.1, hnoted.notHeld h.2⟩

theorem spec_pollLink (slot : ℕ) : Spec (fun s => Inv s ∧ ClearedBut none s) (pollLink slot)
    fun _ s => Inv s ∧ ClearedBut none s := by
  have hfirm := firm_inv (recorded_clearedBut none)
  refine .bind (M := fun l s => ((Inv s ∧ ClearedBut none s) ∧ Has slot l s) ∨
    (∃ fd, (((Inv s ∧ ClearedBut (some fd) s) ∧ Has slot l s) ∧ Due l s) ∧ l.active = true ∧
      l.fd = some fd ∧ l.ref.transportId = .tcp ∧ slot < tcpLinks)) ?_ fun l => ?_
  · refine spec_atomic hfirm fun s _ h => ?_
    unfold State.noteDue
    rcases hfd : (s.links slot).fd with - | fd
    · exact .inl ⟨h, rfl⟩
    · dsimp only
      split_ifs with hdue
      · obtain ⟨hactive, hclaimed, howner, hsub, hlate⟩ := hdue
        have hsits := h.1.sits slot fd hfd
        refine .inr ⟨fd, ⟨⟨⟨h.1.records _ s.orphaned s.outlived, fun f hf => ?_⟩, rfl⟩, hclaimed,
          ⟨howner, hsub⟩, hlate⟩, hactive, rfl, hsits.tcp, hsits.bound⟩
        rcases List.mem_cons.mp hf with rfl | hf
        · exact .inr (.inr rfl)
        · exact (h.2.of_none (some fd)) f hf
      · exact .inl ⟨h, rfl⟩
  · rintro s (h | ⟨fd, h, hactive, hfd, htcp, hslot⟩)
    · exact spec_pollFrom s h
    · exact spec_pollFrom_due hactive hfd htcp hslot s h

end Sweep

theorem spec_forEach {β : Type} {P : State → Prop} {body : β → Task Unit}
    (h : ∀ b, Spec P (body b) fun _ => P) : ∀ bs, Spec P (forEach bs body) fun _ => P
  | [] => .pure fun _ hs => hs
  | b :: bs => .bind (h b) fun _ => spec_forEach h bs

/-- A round begins a new record and leaves every connection in it closed or orphaned. -/
theorem spec_round : Spec Inv round fun _ => Inv := by
  have hrec := recorded_clearedBut none
  have hinv : Firm Inv := ⟨fun _ _ hq h => hq.toSoft.inv h, fun _ h => h⟩
  refine .bind (M := fun _ s => Inv s ∧ ClearedBut none s) (spec_atomic hinv fun s _ h => ?_)
    fun due => ?_
  · have hsoft : Soft s { s with lastNetworkPollMs := s.clock } :=
      Aside.soft ⟨rfl, rfl, rfl, rfl, rfl, rfl, rfl, rfl, rfl⟩
    have hpoll := hsoft.inv h
    split_ifs
    · exact ⟨hpoll.records [] [] [], nofun⟩
    · exact ⟨h.records [] [] [], nofun⟩
  refine .bind ((Safe.ite safe_syncListener (safe_pure ())) _ hrec) fun _ =>
    .bind (safe_closePendingLinks _ hrec) fun _ => .bind (safe_acceptOne _ hrec) fun _ =>
    .bind (spec_forEach spec_pollLink _) fun _ => .bind (safe_closePendingLinks _ hrec) fun _ => ?_
  exact .update (firm_inv hrec).stable fun s h => ⟨h, h.1⟩

theorem spec_manager : Spec Inv manager fun _ _ => False :=
  .forever (fun _ _ h ⟨_, _, he⟩ => (quiet_other he).toSoft.inv h) (fun _ h => h) spec_round

theorem inv_of_fresh {s : State} (h : Fresh s) : Inv s := by
  obtain ⟨registry, rfl, -, -⟩ := h
  refine ⟨justified_nil, nofun, fun _ _ => rfl, nofun, fun fd hfd => ?_, nofun, fun _ => rfl⟩
  rcases hfd with ⟨_, _, ho⟩ | hc
  · cases ho
  · cases hc

/-! ## Every run -/

lemma inv_of_assured : ∀ {l : Place} {s : State}, Assured l s → Inv s
  | .step, _, h => h
  | .idle _, _, h => h.1
  | .rest, _, h => h.1

/-- In every run a descriptor is closed once at most, and not after its slot went to another
connection; a notice takes no connection but that of its generation; a link that is reclaimed for
idleness is not held; and a sweep closes every connection that it finds due, unless it finds it
orphaned, or so old that the clock does not tell it. -/
theorem descriptors_closed {h : List (Move Other Outcome)}
    {c : Prog State Outcome Place Empty × State} (hr : Reaches system h c) :
    Justified Allowed c.2.log ∧
    (∀ link, c.1.place = some (.idle link) → NotHeld link c.2) ∧
    (c.1.place = some .rest → ∀ fd ∈ c.2.due, .closed fd ∈ c.2.log ∨ c.2.Excused fd) := by
  have hspec := spec_manager.pre fun s => inv_of_fresh
  have hplace : ∀ l, c.1.place = some l → Assured l c.2 :=
    fun l hl => hspec.place_of_reaches hr hl
  refine ⟨?_, fun link hl => (hplace _ hl).2, fun hl fd hfd => ?_⟩
  · obtain ⟨q, s⟩ := c
    cases q with
    | ret a => exact a.elim
    | act l run next => exact (inv_of_assured (hplace l rfl)).justified
    | loop l body next => exact (inv_of_assured (hplace l rfl)).justified
  · refine ((hplace _ hl).2 fd hfd).imp_right fun h => ?_
    exact h.resolve_right nofun

/-- A board with no link open. -/
def booted : State :=
  { registry := { links := fun _ _ => {}, supported := fun _ => true, owner := none } }

lemma fresh_booted : Fresh booted := ⟨_, rfl, rfl, fun _ => rfl⟩

def runFrom (ms : List (Move Other Outcome)) :
    Option (Prog State Outcome Place Empty × State) :=
  ms.foldlM (nextFine other Free) (manager, booted)

lemma reaches_of_runFrom {ms : List (Move Other Outcome)}
    {c : Prog State Outcome Place Empty × State} (h : runFrom ms = some c) :
    Reaches system ms c := reaches_of_foldlM fresh_booted h

/-- `n` steps of the manager on a board that is online; further calls succeed or fail. -/
def steps (n : ℕ) (done : Bool) : List (Move Other Outcome) :=
  List.replicate n (.task { online := some "", done := done })

/-- The first sweep accepts a connection, and the next one comes `ms` milliseconds later. -/
def accepting (ms : ℕ) : List (Move Other Outcome) :=
  .other (.wait 100) :: steps 30 true ++ [.other (.wait ms)]

/-- The connection does nothing for 3000 ms, and the second sweep closes it. -/
theorem descriptors_closed_late :
    ∃ c, Reaches system (accepting 3000 ++ steps 30 false) c ∧ c.1.place = some .rest ∧
      c.2.due = [0] ∧ (.closed 0 ∈ c.2.log ∨ c.2.Excused 0) := by
  obtain ⟨c, hc⟩ := Option.isSome_iff_exists.mp
    (show (runFrom (accepting 3000 ++ steps 30 false)).isSome = true by decide +kernel)
  have hview : ((runFrom (accepting 3000 ++ steps 30 false)).map fun c => (c.1.place, c.2.due)) =
      some (some .rest, [0]) := by decide +kernel
  rw [hc] at hview
  obtain ⟨hl, hdue⟩ := Prod.mk.inj (Option.some.inj hview)
  have hr := reaches_of_runFrom hc
  have hmem : 0 ∈ c.2.due := by rw [hdue]; exact List.mem_singleton_self 0
  exact ⟨c, hr, hl, hdue, (descriptors_closed hr).2.2 hl 0 hmem⟩

/-- Another task invalidates the link of the late connection after the sweep has copied the slot,
and has not left its notice when the sweep ends. -/
def orphaning : List (Move Other Outcome) :=
  accepting 3000 ++ steps 11 false ++ [.other (.invalidate ⟨.tcp, 0, 1⟩)] ++ steps 9 false

/-- At the end of the sweep a connection that was due is open. -/
theorem sweep_leaves_connection :
    (∃ c, Reaches system orphaning c ∧ c.1.place = some .rest ∧ c.2.due = [0] ∧
      .closed 0 ∉ c.2.log) ∧
    ∃ c, Reaches system (accepting (2 ^ 32) ++ steps 24 false) c ∧ c.1.place = some .rest ∧
      c.2.due = [0] ∧ .closed 0 ∉ c.2.log := by
  have hleft : ∀ ms, ((runFrom ms).map fun c => (c.1.place, c.2.due, c.2.log)) =
      some (some .rest, [0], [.issued 0 1, .opened 0 0 1]) → ∃ c, Reaches system ms c ∧
        c.1.place = some .rest ∧ c.2.due = [0] ∧ .closed 0 ∉ c.2.log := by
    intro ms hview
    obtain ⟨c, hc, hview⟩ := Option.map_eq_some_iff.mp hview
    obtain ⟨hl, hrest⟩ := Prod.mk.inj hview
    obtain ⟨hdue, hlog⟩ := Prod.mk.inj hrest
    refine ⟨c, reaches_of_runFrom hc, hl, hdue, ?_⟩
    rw [hlog]
    decide
  exact ⟨hleft _ (by decide +kernel), hleft _ (by decide +kernel)⟩

end EspVision.Tcp
