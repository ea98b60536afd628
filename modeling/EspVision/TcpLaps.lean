import EspVision.TaskRuns
import EspVision.TcpSweep

/-!
# A slot comes to its first generation again

A connection in slot 0 is closed and accepted again, round after round, while the slots 1 and 2
stay with their first connections.
-/
namespace EspVision.Tcp

open EvTransport TaskProgram

/-! ## Generations -/

/-- A slot is opened and closed once. -/
def lap (g : UInt32) : UInt32 := nextGeneration (nextGeneration g)

lemma toNat_lap {g : UInt32} (h : g.toNat + 2 < 2 ^ 32) : (lap g).toNat = g.toNat + 2 := by
  have hnext {x : UInt32} (hx : x.toNat + 1 < 2 ^ 32) : (nextGeneration x).toNat = x.toNat + 1 := by
    have hadd : (x + 1).toNat = x.toNat + 1 := by
      rw [UInt32.toNat_add, UInt32.toNat_one, Nat.mod_eq_of_lt hx]
    unfold nextGeneration
    split_ifs with hzero
    · rw [hzero] at hadd
      exact absurd hadd (by simp)
    · exact hadd
  have hone := hnext (x := g) (by omega)
  rw [lap, hnext (by omega), hone]

/-- Odd generations get to the last one. -/
lemma laps_odd (n : ℕ) : ∀ g : UInt32, g.toNat % 2 = 1 → g.toNat + 2 * n = 2 ^ 32 - 1 →
    lap^[n] g = 0xffffffff := by
  induction n with
  | zero =>
    intro g _ hg
    exact UInt32.toNat_inj.mp hg
  | succ n ih =>
    intro g hodd hg
    have hlap := toNat_lap (g := g) (by omega)
    rw [Function.iterate_succ_apply]
    exact ih (lap g) (by omega) (by omega)

/-- Even ones get to the last but one. -/
lemma laps_even (n : ℕ) : ∀ g : UInt32, g.toNat % 2 = 0 → g.toNat + 2 * n = 2 ^ 32 - 2 →
    lap^[n] g = 0xfffffffe := by
  induction n with
  | zero =>
    intro g _ hg
    exact UInt32.toNat_inj.mp hg
  | succ n ih =>
    intro g heven hg
    have hlap := toNat_lap (g := g) (by omega)
    rw [Function.iterate_succ_apply]
    exact ih (lap g) (by omega) (by omega)

/-- From generation 2 on the counter passes the even numbers, and the odd ones then. -/
theorem laps_two : ∃ n, lap^[n] 2 = 0xffffffff := by
  have heven := laps_even (2 ^ 31 - 2) 2 (by decide) (by decide)
  have hwrap : lap 0xfffffffe = 1 := by decide
  have hodd := laps_odd (2 ^ 31 - 1) 1 (by decide) (by decide)
  refine ⟨(2 ^ 31 - 1) + (1 + (2 ^ 31 - 2)), ?_⟩
  rw [Function.iterate_add_apply, Function.iterate_add_apply, heven, Function.iterate_one, hwrap,
    hodd]

/-! ## A poll -/

abbrev Does {α : Type} (P : State → Prop) (p : Task α) (Q : α → State → Prop) : Prop :=
  Able other Free P p Q

section Does

variable {α β : Type} {P : State → Prop}

theorem does_look {f : State → α} {a : α} (h : ∀ s, P s → f s = a) :
    Does P (look f) fun x s => x = a ∧ P s := .atomic {} fun s hs => ⟨h s hs, hs⟩

theorem does_change {f : State → State} {Q : State → Prop} (h : ∀ s, P s → Q (f s)) :
    Does P (change f) fun _ => Q := .atomic {} h

/-- A value that is known. -/
theorem does_known {a : α} {p : α → Task β} {Q : β → State → Prop} (h : Does P (p a) Q) :
    ∀ x, Does (fun s => x = a ∧ P s) (p x) Q := fun x s hs => by
  obtain ⟨rfl, hs⟩ := hs
  exact h s hs

theorem does_fact {x : Prop} {p : Task α} {Q : α → State → Prop} (h : x → Does P p Q) :
    Does (fun s => x ∧ P s) p Q := fun s hs => h hs.1 s hs.2

theorem does_forEach {body : β → Task Unit} {bs : List β}
    (h : ∀ b ∈ bs, Does P (body b) fun _ => P) : Does P (forEach bs body) fun _ => P := by
  induction bs with
  | nil => exact .pure fun s hs => hs
  | cons b bs ih =>
    exact .bind (h b List.mem_cons_self) fun _ => ih fun x hx => h x (List.mem_cons_of_mem _ hx)

end Does

/-- What a poll of a current link with nothing to read needs, and keeps. -/
structure Polls (k : ℕ) (ref : LinkRef) (c : UInt32) (held : Bool) (P : State → Prop) :
    Prop where
  slot : ∀ s, P s → (s.links k).active = true ∧ (s.links k).ref = ref
  current : ∀ s, P s → s.registry.linkIsCurrent ref = true
  unowned : ∀ s, P s → s.owner = none
  subscribed : ∀ s, P s → s.subscribed ref = held
  clock : ∀ s, P s → s.clock = c
  young : held = false → ∀ s, P s →
    (s.links k).claimedOnce = false ∧ (s.links k).acceptedMs = c
  due : ∀ s, P s → P (s.noteDue k)
  excused : ∀ s t, P s → Excuses s t → P t
  claim : held = true → ∀ s, P s → P (s.claim k ref)

section Polls

variable {k : ℕ} {ref : LinkRef} {c : UInt32} {b : Bool} {P : State → Prop}

lemma not_late : ¬ handshakeTimeoutMs ≤ c - c := by
  rw [UInt32.sub_self]
  decide

theorem Polls.does_held (h : Polls k ref c b P) :
    Does P (held ref) fun x s => x = b ∧ P s := by
  refine .bind (does_look (a := false) fun s hs => by rw [h.unowned s hs]; rfl)
    (does_known ?_)
  exact does_look h.subscribed

theorem Polls.does_serveLink (h : Polls k ref c b P) :
    Does P (serveLink k ref) fun _ => P := by
  refine .bind (does_look h.current) (does_known (.bind (M := fun x s => x = .wouldBlock ∧ P s)
    (.atomic { done := false } fun s hs => ⟨rfl, hs⟩)
    (does_known (.bind (M := fun _ => P) ?_ fun _ => ?_))))
  · exact .bind (does_look h.current) (does_known (.pure fun s hs => hs))
  refine .bind h.does_held (does_known ?_)
  cases b with
  | true => exact does_change (h.claim rfl)
  | false =>
    refine .bind (does_look h.clock) (does_known (.bind (M := fun x s => x = false ∧ P s)
      (.atomic {} fun s hs => ?_) (does_known (.pure fun s hs => hs))))
    obtain ⟨hclaimed, haccepted⟩ := h.young rfl s hs
    unfold State.idleStep
    dsimp only
    by_cases hsame : s.sameLink k ref = true
    · rw [if_pos hsame, hclaimed, if_neg nofun, haccepted]
      exact ⟨decide_eq_false not_late, hs⟩
    · rw [if_neg hsame]
      exact ⟨rfl, hs⟩

/-- What the copy of the slot says. -/
structure Copied (l : TcpLink) (ref : LinkRef) (c : UInt32) (held : Bool) : Prop where
  active : l.active = true
  ref_eq : l.ref = ref
  young : held = false → l.acceptedMs = c

theorem Polls.does_pollFrom {l : TcpLink} (h : Polls k ref c b P) (hl : Copied l ref c b) :
    Does P (pollFrom k l) fun _ => P := by
  obtain ⟨hactive, rfl, haccepted⟩ := hl
  unfold pollFrom
  rw [if_neg (by rw [hactive]; nofun)]
  refine .bind (M := fun x s => x = true ∧ P s) (.atomic {} fun s hs => ⟨h.current s hs,
    h.excused s _ hs (noteOrphaned_excuses s k l.ref)⟩) (does_known ?_)
  refine .bind h.does_held (does_known ?_)
  cases b with
  | true => exact .bind (does_change (h.claim rfl)) fun _ => h.does_serveLink
  | false =>
    refine .bind (M := fun x s => x = c ∧ P s) (.atomic {} fun s hs => ⟨h.clock s hs,
      h.excused s _ hs (noteOutlived_excuses s k)⟩) (does_known ?_)
    rw [haccepted rfl, if_neg fun hlate => not_late hlate.2]
    exact h.does_serveLink

theorem Polls.does_pollLink (h : Polls k ref c b P) : Does P (pollLink k) fun _ => P := by
  refine .bind (M := fun l s => Copied l ref c b ∧ P s) (.atomic {} fun s hs => ?_)
    fun l => does_fact fun hl => h.does_pollFrom hl
  obtain ⟨hactive, href⟩ := h.slot s hs
  exact ⟨⟨hactive, href, fun hb => (h.young hb s hs).2⟩, h.due s hs⟩

end Polls

/-! ## A round -/

/-- The connections in the slots 1 and 2 are the first ones there, and what slot 0 gets under
generation 1 is an observer. -/
structure Base (c : UInt32) (s : State) : Prop where
  supported : s.registry.supported .tcp = true
  others : ∀ k, k = 1 ∨ k = 2 → s.registry.links .tcp k = ⟨1, true⟩ ∧
    (s.links k).active = true ∧ (s.links k).ref = ⟨.tcp, k, 1⟩ ∧ s.closePending k = false
  observers : ∀ k < tcpLinks, s.observers k = 1
  unowned : s.owner = none
  listening : s.listener.isSome = true
  clock : s.clock = c
  early : c - s.lastNetworkPollMs < networkPollMs

/-- Slot 0 is vacant, and its generation is this one. -/
structure Vacant (c g : UInt32) (s : State) : Prop extends Base c s where
  closed : s.registry.links .tcp 0 = ⟨g, false⟩
  empty : (s.links 0).active = false ∧ (s.links 0).fd = none
  settled : s.closePending 0 = false

/-- Slot 0 has a connection under this generation. -/
structure Open (c g : UInt32) (s : State) : Prop extends Base c s where
  current : s.registry.links .tcp 0 = ⟨g, true⟩
  active : (s.links 0).active = true
  fd : (s.links 0).fd.isSome = true
  ref : (s.links 0).ref = ⟨.tcp, 0, g⟩
  young : (s.links 0).acceptedMs = c ∧ (g ≠ 1 → (s.links 0).claimedOnce = false)
  settled : s.closePending 0 = false

/-- The connection in slot 0 is lost, and the manager does not know yet. -/
structure Lost (c g : UInt32) (s : State) : Prop extends Base c s where
  closed : s.registry.links .tcp 0 = ⟨nextGeneration g, false⟩
  active : (s.links 0).active = true
  fd : (s.links 0).fd.isSome = true
  generation : (s.links 0).ref.generation = g
  pending : s.closePending 0 = true ∧ s.closeGeneration 0 = g

section Round

variable {c g : UInt32}

/-- Nothing of what matters changes. -/
structure Same (s t : State) : Prop where
  registry : t.registry = s.registry
  observers : t.observers = s.observers
  owner : t.owner = s.owner
  listener : t.listener = s.listener
  pending : t.closePending = s.closePending
  nowMs : t.nowMs = s.nowMs
  polled : t.lastNetworkPollMs = s.lastNetworkPollMs
  links : ∀ k, (t.links k).active = (s.links k).active ∧ (t.links k).fd = (s.links k).fd ∧
    (t.links k).ref = (s.links k).ref ∧ (t.links k).acceptedMs = (s.links k).acceptedMs

lemma Base.same {s t : State} (h : Base c s) (hs : Same s t) : Base c t where
  supported := by rw [hs.registry]; exact h.supported
  others := fun k hk => by
    obtain ⟨hlink, ha, href, hp⟩ := h.others k hk
    obtain ⟨ha', -, href', -⟩ := hs.links k
    exact ⟨by rwa [hs.registry], ha'.trans ha, href'.trans href, by rwa [hs.pending]⟩
  observers := by rw [hs.observers]; exact h.observers
  unowned := hs.owner.trans h.unowned
  listening := by rw [hs.listener]; exact h.listening
  clock := by rw [State.clock, hs.nowMs]; exact h.clock
  early := by rw [hs.polled]; exact h.early

lemma Open.same {s t : State} (h : Open c g s) (hs : Same s t)
    (hclaimed : g ≠ 1 → (t.links 0).claimedOnce = (s.links 0).claimedOnce) : Open c g t := by
  obtain ⟨ha, hfd, href, hms⟩ := hs.links 0
  exact ⟨h.toBase.same hs, by rw [hs.registry]; exact h.current, ha.trans h.active,
    by rw [hfd]; exact h.fd, href.trans h.ref,
    ⟨hms.trans h.young.1, fun hg => (hclaimed hg).trans (h.young.2 hg)⟩,
    by rw [hs.pending]; exact h.settled⟩

lemma Vacant.same {s t : State} (h : Vacant c g s) (hs : Same s t) : Vacant c g t := by
  obtain ⟨ha, hfd, -, -⟩ := hs.links 0
  exact ⟨h.toBase.same hs, by rw [hs.registry]; exact h.closed,
    ⟨ha.trans h.empty.1, hfd.trans h.empty.2⟩, by rw [hs.pending]; exact h.settled⟩

lemma same_rfl (s : State) : Same s s := ⟨rfl, rfl, rfl, rfl, rfl, rfl, rfl, fun _ => ⟨rfl, rfl, rfl, rfl⟩⟩

lemma same_claim (s : State) (k : ℕ) (ref : LinkRef) : Same s (s.claim k ref) := by
  unfold State.claim
  split_ifs
  · refine ⟨rfl, rfl, rfl, rfl, rfl, rfl, rfl, fun j => ?_⟩
    rw [setLink_links]
    split_ifs with hj
    · subst hj
      exact ⟨rfl, rfl, rfl, rfl⟩
    · exact ⟨rfl, rfl, rfl, rfl⟩
  · exact same_rfl s

lemma claim_links (s : State) {j k : ℕ} (h : j ≠ k) (ref : LinkRef) :
    (s.claim k ref).links j = s.links j := by
  unfold State.claim
  split_ifs
  · rw [setLink_links, if_neg h]
  · rfl

lemma Open.subscribed {s : State} (h : Open c g s) {k : ℕ} (hk : k < tcpLinks) {x : UInt32}
    (hlink : s.registry.links .tcp k = ⟨x, true⟩) :
    s.subscribed ⟨.tcp, k, x⟩ = (x == 1) := by
  have hcurrent : s.registry.linkIsCurrent ⟨.tcp, k, x⟩ = true := by
    rw [Registry.linkIsCurrent_iff, hlink]
    exact ⟨by simpa [validSlot] using hk, h.supported, rfl, rfl⟩
  simp only [State.subscribed, h.observers k hk, hcurrent, hk, decide_true, Bool.true_and,
    Bool.and_true]
  by_cases hx : x = 1
  · subst hx
    rfl
  · rw [beq_eq_false_iff_ne.mpr hx, beq_eq_false_iff_ne.mpr (Ne.symm hx), Bool.and_false]

lemma same_noteDue (s : State) (k : ℕ) : Same s (s.noteDue k) := by
  unfold State.noteDue
  split
  · split_ifs
    · exact ⟨rfl, rfl, rfl, rfl, rfl, rfl, rfl, fun _ => ⟨rfl, rfl, rfl, rfl⟩⟩
    · exact same_rfl s
  · exact same_rfl s

lemma noteDue_links (s : State) (k : ℕ) : (s.noteDue k).links = s.links := by
  unfold State.noteDue
  split
  · split_ifs <;> rfl
  · rfl

lemma Open.excused {s t : State} (h : Open c g s) (he : Excuses s t) : Open c g t := by
  obtain ⟨orphaned, outlived, rfl⟩ := he
  exact h.same ⟨rfl, rfl, rfl, rfl, rfl, rfl, rfl, fun _ => ⟨rfl, rfl, rfl, rfl⟩⟩ fun _ => rfl

theorem polls_other {k : ℕ} (hk : k = 1 ∨ k = 2) :
    Polls k ⟨.tcp, k, 1⟩ c true (Open c g) := by
  have hlt : k < tcpLinks := by unfold tcpLinks; omega
  exact {
    slot := fun s h => ⟨(h.others k hk).2.1, (h.others k hk).2.2.1⟩
    current := fun s h => by
      rw [Registry.linkIsCurrent_iff, (h.others k hk).1]
      exact ⟨by simpa [validSlot] using hlt, h.supported, rfl, rfl⟩
    unowned := fun s h => h.unowned
    subscribed := fun s h => h.subscribed hlt (h.others k hk).1
    clock := fun s h => h.clock
    young := nofun
    due := fun s h => h.same (same_noteDue s k) fun _ => by rw [noteDue_links]
    excused := fun s t h he => h.excused he
    claim := fun _ s h => h.same (same_claim s k _) fun _ => by
      rw [claim_links s (by omega)] }

theorem polls_zero : Polls 0 ⟨.tcp, 0, g⟩ c (g == 1) (Open c g) where
  slot s h := ⟨h.active, h.ref⟩
  current s h := by
    rw [Registry.linkIsCurrent_iff, h.current]
    exact ⟨rfl, h.supported, rfl, rfl⟩
  unowned s h := h.unowned
  subscribed s h := h.subscribed (by decide) h.current
  clock s h := h.clock
  young hg s h := ⟨h.young.2 (by simpa using hg), h.young.1⟩
  due s h := h.same (same_noteDue s 0) fun _ => by rw [noteDue_links]
  excused s t h he := h.excused he
  claim hg s h := h.same (same_claim s 0 _) fun hne => absurd (by simpa using hg) hne

theorem does_polls : Does (Open c g) (forEach (List.range tcpLinks) pollLink)
    fun _ => Open c g := by
  refine does_forEach fun k hk => ?_
  rcases Nat.eq_zero_or_pos k with rfl | hpos
  · exact polls_zero.does_pollLink
  · have hlt := List.mem_range.mp hk
    unfold tcpLinks at hlt
    exact (polls_other (by omega)).does_pollLink

/-! ### Closing -/

theorem does_closePendingLink {P : State → Prop} {k : ℕ} (h : ∀ s, P s → s.closePending k = false) :
    Does P (closePendingLink k) fun _ => P := by
  refine .bind (M := fun notice s => notice.1 = false ∧ P s) (.atomic {} fun s hs => ⟨h s hs, hs⟩)
    fun notice => does_fact fun hnotice => ?_
  rw [if_neg (by rw [hnotice]; nofun)]
  exact .pure fun s hs => hs

theorem does_closeNone {P : State → Prop} (h : ∀ s, P s → ∀ k < tcpLinks, s.closePending k = false) :
    Does P closePendingLinks fun _ => P :=
  does_forEach fun k hk => does_closePendingLink fun s hs => h s hs k (List.mem_range.mp hk)

lemma Base.pending {s : State} (h : Base c s) (h0 : s.closePending 0 = false) {k : ℕ}
    (hk : k < tcpLinks) : s.closePending k = false := by
  rcases Nat.eq_zero_or_pos k with rfl | hpos
  · exact h0
  · unfold tcpLinks at hk
    exact (h.others k (by omega)).2.2.2

/-- Another task closes the link of slot 0. -/
lemma Open.lost {s : State} (h : Open c g s) :
    Lost c g ((s.invalidate ⟨.tcp, 0, g⟩).linkClose ⟨.tcp, 0, g⟩) := by
  have hcurrent : s.registry.linkIsCurrent ⟨.tcp, 0, g⟩ = true := by
    rw [Registry.linkIsCurrent_iff, h.current]
    exact ⟨rfl, h.supported, rfl, rfl⟩
  have hclosed : (s.invalidate ⟨.tcp, 0, g⟩).registry.links .tcp =
      fun k => if k = 0 then ⟨nextGeneration g, false⟩ else s.registry.links .tcp k := by
    funext k
    simp [State.invalidate, Registry.linkClose, hcurrent]
  have hmatch : TransportId.tcp = .tcp ∧ 0 < tcpLinks ∧ (s.links 0).active = true ∧
      (s.links 0).ref.generation = g :=
    ⟨rfl, by decide, h.active, congrArg LinkRef.generation h.ref⟩
  have hsupported := (congrFun (Registry.linkClose_supported s.registry ⟨.tcp, 0, g⟩) .tcp).trans
    h.supported
  unfold State.linkClose State.markClosePending
  split_ifs with hcase
  swap
  · exact absurd hmatch hcase
  refine ⟨⟨hsupported, fun k hk => ?_, h.observers, h.unowned, h.listening, h.clock, h.early⟩,
    (congrFun hclosed 0).trans (if_pos rfl), h.active, h.fd, congrArg LinkRef.generation h.ref,
    rfl, rfl⟩
  obtain ⟨hlink, ha, href, hp⟩ := h.others k hk
  have hne : k ≠ 0 := by omega
  exact ⟨(congrFun hclosed k).trans ((if_neg hne).trans hlink), ha, href, (if_neg hne).trans hp⟩

/-- The manager takes the connection out of slot 0. -/
theorem does_retire : Does (Lost c g) (closePendingLink 0) fun _ => Vacant c (nextGeneration g) := by
  refine .bind (M := fun notice s => (notice.1 = true ∧ notice.2 = g) ∧ Lost c g s)
    (.atomic {} fun s hs => ⟨hs.pending, hs⟩) fun notice => does_fact fun hnotice => ?_
  obtain ⟨hpending, rfl⟩ := hnotice
  rw [if_pos hpending]
  let emptied (s : State) : Prop := Base c s ∧
    s.registry.links .tcp 0 = ⟨nextGeneration notice.2, false⟩ ∧
    ((s.links 0).active = false ∧ (s.links 0).fd = none) ∧ s.closeGeneration 0 = notice.2
  refine .bind (M := fun retired s => retired.isSome = true ∧ emptied s) (.atomic {} fun s hs => ?_)
    fun retired => does_fact fun hretired => ?_
  · obtain ⟨fd, hfd⟩ := Option.isSome_iff_exists.mp hs.fd
    unfold State.retire
    dsimp only
    rw [if_pos ⟨hs.active, hs.generation⟩, hfd]
    have hlinks (k : ℕ) (hk : k = 1 ∨ k = 2) : (s.detach 0).links k = s.links k := by
      rw [State.detach, setLink_links, if_neg (by omega)]
    refine ⟨rfl, ⟨hs.supported, fun k hk => ?_, hs.observers, hs.unowned, hs.listening, hs.clock,
      hs.early⟩, hs.closed, ⟨rfl, rfl⟩, hs.pending.2⟩
    rw [note_links, hlinks k hk]
    exact hs.others k hk
  · cases retired with
    | none => cases hretired
    | some fd =>
      refine .bind (M := fun _ => emptied) (does_change fun s hs => ?_) fun _ =>
        does_change fun s hs => ?_
      · obtain ⟨hbase, hrest⟩ := hs
        exact ⟨⟨hbase.supported, hbase.others, hbase.observers, hbase.unowned, hbase.listening,
          hbase.clock, hbase.early⟩, hrest⟩
      · obtain ⟨hbase, hclosed, hempty, hgeneration⟩ := hs
        rw [if_pos hgeneration]
        refine ⟨⟨hbase.supported, fun k hk => ?_, hbase.observers, hbase.unowned, hbase.listening,
          hbase.clock, hbase.early⟩, hclosed, hempty, rfl⟩
        obtain ⟨hlink, ha, href, hp⟩ := hbase.others k hk
        exact ⟨hlink, ha, href, (if_neg (by omega)).trans hp⟩

theorem does_closeZero : Does (Open c g) closePendingLinks fun _ => Vacant c (nextGeneration g) := by
  refine .other (R := Lost c g) (.linkClose ⟨.tcp, 0, g⟩) rfl
    (fun s hs => ⟨trivial, _, rfl, hs.lost⟩) ?_
  refine .bind does_retire fun _ => ?_
  exact .bind (does_closePendingLink fun s hs => hs.toBase.pending hs.settled (by decide)) fun _ =>
    .bind (does_closePendingLink fun s hs => hs.toBase.pending hs.settled (by decide)) fun _ => .pure fun s hs => hs

/-! ### Accepting -/

theorem does_acceptOne : Does (Vacant c g) acceptOne fun _ => Open c (nextGeneration g) := by
  refine .bind (M := fun offered s => offered.isSome = true ∧ Vacant c g s)
    (.atomic {} fun s hs => ?_) fun offered => does_fact fun hoffered => ?_
  · rw [if_pos ⟨hs.listening, rfl⟩]
    exact ⟨rfl, hs.same ⟨rfl, rfl, rfl, rfl, rfl, rfl, rfl, fun _ => ⟨rfl, rfl, rfl, rfl⟩⟩⟩
  cases offered with
  | none => cases hoffered
  | some fd =>
    refine .bind (M := fun x s => x = true ∧ Vacant c g s) (.atomic {} fun s hs => ⟨rfl, hs⟩)
      (does_known (.bind (does_look (a := some 0) fun s hs => ?_) (does_known ?_)))
    · rw [State.freeSlot, show List.range tcpLinks = [0, 1, 2] from rfl, List.find?_cons_of_pos]
      simp [hs.empty.1, hs.empty.2]
    let issued (s : State) : Prop := Base c s ∧
      s.registry.links .tcp 0 = ⟨nextGeneration g, true⟩ ∧ s.closePending 0 = false
    refine .bind (M := fun ref s => ref = some ⟨.tcp, 0, nextGeneration g⟩ ∧ issued s)
      (.atomic {} fun s hs => ?_) (does_known (does_change fun s hs => ?_))
    · have hopen : s.registry.linkOpen .tcp 0 =
          some (s.registry.setLink .tcp 0 ⟨nextGeneration g, true⟩, ⟨.tcp, 0, nextGeneration g⟩) := by
        unfold Registry.linkOpen
        rw [hs.closed, hs.supported]
        rfl
      unfold State.issue
      rw [hopen]
      refine ⟨rfl, ⟨hs.supported, fun k hk => ?_, hs.observers, hs.unowned, hs.listening, hs.clock,
        hs.early⟩, rfl, hs.settled⟩
      obtain ⟨hlink, hrest⟩ := hs.others k hk
      refine ⟨?_, hrest⟩
      dsimp only [State.note]
      rw [Registry.setLink_links, if_neg (by omega)]
      exact hlink
    · obtain ⟨hbase, hlink, hp⟩ := hs
      refine ⟨⟨hbase.supported, fun k hk => ?_, hbase.observers, hbase.unowned, hbase.listening,
        hbase.clock, hbase.early⟩, hlink, rfl, rfl, rfl, ⟨hbase.clock, fun _ => rfl⟩, hp⟩
      obtain ⟨hlink', ha, href, hp'⟩ := hbase.others k hk
      have hlinks : (s.occupy 0 fd ⟨.tcp, 0, nextGeneration g⟩).links k = s.links k := by
        rw [State.occupy, note_links, setLink_links, if_neg (by omega)]
      rw [hlinks]
      exact ⟨hlink', ha, href, hp'⟩

/-! ### One lap, and all of them -/

/-- A round accepts a connection in slot 0, and polls the three. -/
theorem does_round {Q : State → Prop} (hlast : Does (Open c (nextGeneration g)) closePendingLinks
    fun _ => Q) : Does (Vacant c g) round fun _ => Q := by
  refine .bind (M := fun due s => due = false ∧ Vacant c g s) (.atomic {} fun s hs => ?_)
    (does_known ?_)
  · rw [hs.clock, if_neg (UInt32.not_le.mpr hs.early)]
    exact ⟨rfl, hs.same ⟨rfl, rfl, rfl, rfl, rfl, rfl, rfl, fun _ => ⟨rfl, rfl, rfl, rfl⟩⟩⟩
  refine .bind (.pure fun s hs => hs) fun _ =>
    .bind (does_closeNone fun s hs k hk => hs.toBase.pending hs.settled hk) fun _ => .bind does_acceptOne fun _ =>
    .bind does_polls fun _ => .bind hlast fun _ => ?_
  exact .atomic {} fun s hs => hs

theorem does_lap : Does (Vacant c g) round fun _ => Vacant c (lap g) :=
  does_round does_closeZero

theorem does_lastRound : Does (Vacant c g) round fun _ => Open c (nextGeneration g) :=
  does_round (does_closeNone fun _ hs _ hk => hs.toBase.pending hs.settled hk)

/-- Round after round the manager gets along with the generation. -/
theorem leads_laps (n : ℕ) {s : State} (hs : Vacant c g s) :
    ∃ t, Leads other Free (manager, s) (manager, t) ∧ Vacant c (lap^[n] g) t := by
  induction n with
  | zero => exact ⟨s, .refl, hs⟩
  | succ n ih =>
    obtain ⟨t, hleads, ht⟩ := ih
    obtain ⟨u, hround, hu⟩ := does_lap.around {} ht
    rw [Function.iterate_succ_apply']
    exact ⟨u, hleads.trans hround, hu⟩

/-- Slot 0 gets a connection under the generation of its first one. -/
theorem leads_first {s : State} (hs : Vacant c 2 s) :
    ∃ t, Leads other Free (manager, s) (manager, t) ∧ Open c 1 t := by
  obtain ⟨n, hn⟩ := laps_two
  obtain ⟨t, hleads, ht⟩ := leads_laps n hs
  rw [hn] at ht
  obtain ⟨u, hround, hu⟩ := does_lastRound.around {} ht
  exact ⟨u, hleads.trans hround, hu⟩

end Round

end EspVision.Tcp
