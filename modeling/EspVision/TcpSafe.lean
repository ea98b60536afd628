import EspVision.EventLog
import EspVision.TcpManager

/-!
# Descriptors of the TCP manager

Only the manager moves a descriptor: into its slot, out of it and to `close`. What other tasks do
between two actions of the manager leaves the slots alone.
-/
namespace EspVision.Tcp

open EvTransport TaskProgram EventLog

/-! ## What the log may say -/

/-- The connection that got the slot last. -/
def lastOpened (log : List Event) (slot : ℕ) : Option ℕ :=
  log.foldl (fun last e => match e with
    | .opened fd k _ => if k = slot then some fd else last
    | _ => last) none

/-- The event may come behind this log: a descriptor is closed once, and not after its slot went to
another connection; a notice retires the connection whose generation it names. -/
def Allowed (log : List Event) : Event → Prop
  | .closed fd =>
    .closed fd ∉ log ∧ ∀ slot g, .opened fd slot g ∈ log → lastOpened log slot = some fd
  | .retired fd slot g =>
    .opened fd slot g ∈ log ∧ lastOpened log slot = some fd ∧ .noticed ⟨.tcp, slot, g⟩ ∈ log
  | _ => True

/-- The event neither opens nor closes a connection. -/
def Event.Soft : Event → Prop
  | .opened _ _ _ => False
  | .retired _ _ _ => False
  | .closed _ => False
  | _ => True

lemma lastOpened_snoc (log : List Event) (e : Event) (slot : ℕ) :
    lastOpened (log ++ [e]) slot = match e with
      | .opened fd k _ => if k = slot then some fd else lastOpened log slot
      | _ => lastOpened log slot := by
  unfold lastOpened
  rw [List.foldl_append]
  cases e <;> rfl

lemma lastOpened_opened (log : List Event) (fd slot : ℕ) (g : UInt32) :
    lastOpened (log ++ [.opened fd slot g]) slot = some fd := by
  simp [lastOpened_snoc]

lemma lastOpened_opened_of_ne (log : List Event) (fd : ℕ) {slot k : ℕ} (g : UInt32)
    (h : slot ≠ k) : lastOpened (log ++ [.opened fd slot g]) k = lastOpened log k := by
  simp [lastOpened_snoc, h]

lemma lastOpened_append {log more : List Event} (h : ∀ e ∈ more, e.Soft) (slot : ℕ) :
    lastOpened (log ++ more) slot = lastOpened log slot := by
  induction more using List.reverseRecOn with
  | nil => simp
  | append_singleton more e ih =>
    have he := h e (by simp)
    rw [← List.append_assoc, lastOpened_snoc, ih fun x hx => h x (by simp [hx])]
    cases e <;> first | exact he.elim | rfl

lemma justified_append {log more : List Event} (hlog : Justified Allowed log)
    (h : ∀ e ∈ more, e.Soft) : Justified Allowed (log ++ more) := by
  induction more using List.reverseRecOn with
  | nil => simpa using hlog
  | append_singleton more e ih =>
    have he := h e (by simp)
    rw [← List.append_assoc]
    refine (ih fun x hx => h x (by simp [hx])).snoc ?_
    cases e <;> first | exact he.elim | trivial

/-! ## The slots -/

/-- The slot has this connection. -/
structure Sits (s : State) (slot fd : ℕ) : Prop where
  active : (s.links slot).active = true
  tcp : (s.links slot).ref.transportId = .tcp
  slot_eq : (s.links slot).ref.slot = slot
  bound : slot < tcpLinks
  opened : .opened fd slot (s.links slot).ref.generation ∈ s.log
  last : lastOpened s.log slot = some fd
  unclosed : .closed fd ∉ s.log

structure Inv (s : State) : Prop where
  justified : Justified Allowed s.log
  sits : ∀ slot fd, (s.links slot).fd = some fd → Sits s slot fd
  vacant : ∀ slot, (s.links slot).fd = none → (s.links slot).active = false
  once : ∀ fd slot g k g', .opened fd slot g ∈ s.log → .opened fd k g' ∈ s.log → slot = k ∧ g = g'
  fresh : ∀ fd, (∃ slot g, .opened fd slot g ∈ s.log) ∨ .closed fd ∈ s.log → fd < s.accepted
  noticed : ∀ slot, s.closePending slot = true →
    .noticed ⟨.tcp, slot, s.closeGeneration slot⟩ ∈ s.log
  timed : ∀ slot, (s.links slot).acceptedMs = UInt32.ofNat (s.links slot).acceptedAtMs

lemma Inv.fd_of_active {s : State} (h : Inv s) {slot : ℕ} (ha : (s.links slot).active = true) :
    ∃ fd, (s.links slot).fd = some fd := by
  cases hfd : (s.links slot).fd with
  | some fd => exact ⟨fd, rfl⟩
  | none => rw [h.vacant slot hfd] at ha; cases ha

/-- The manager holds the descriptor, in no slot. -/
structure Loose (fd : ℕ) (s : State) : Prop where
  unclosed : .closed fd ∉ s.log
  last : ∀ slot g, .opened fd slot g ∈ s.log → lastOpened s.log slot = some fd
  known : fd < s.accepted
  out : ∀ slot, (s.links slot).fd ≠ some fd

/-- The descriptor has just been accepted. -/
structure Accepted (fd : ℕ) (s : State) : Prop extends Loose fd s where
  unopened : ∀ slot g, .opened fd slot g ∉ s.log

/-- What no descriptor takes part in. -/
structure Soft (s t : State) : Prop where
  links : ∀ slot, (t.links slot).fd = (s.links slot).fd ∧
    (t.links slot).active = (s.links slot).active ∧ (t.links slot).ref = (s.links slot).ref
  times : ∀ slot, (t.links slot).acceptedMs = (s.links slot).acceptedMs ∧
    (t.links slot).acceptedAtMs = (s.links slot).acceptedAtMs
  accepted : t.accepted = s.accepted
  log : ∃ more, t.log = s.log ++ more ∧ ∀ e ∈ more, e.Soft
  pending : ∀ slot, t.closePending slot = true →
    (s.closePending slot = true ∧ t.closeGeneration slot = s.closeGeneration slot) ∨
      .noticed ⟨.tcp, slot, t.closeGeneration slot⟩ ∈ t.log
  due : t.due = s.due
  orphaned : t.orphaned = s.orphaned
  outlived : t.outlived = s.outlived

namespace Soft

variable {s t : State}

lemma refl (s : State) : Soft s s :=
  ⟨fun _ => ⟨rfl, rfl, rfl⟩, fun _ => ⟨rfl, rfl⟩, rfl, ⟨[], by simp, by simp⟩,
    fun _ h => .inl ⟨h, rfl⟩, rfl, rfl, rfl⟩

lemma mem (h : Soft s t) {e : Event} (he : e ∈ s.log) : e ∈ t.log := by
  obtain ⟨more, hmore, -⟩ := h.log
  rw [hmore]
  exact List.mem_append_left _ he

lemma trans {u : State} (h : Soft s t) (h' : Soft t u) : Soft s u where
  links := fun slot => by
    obtain ⟨hfd, ha, href⟩ := h.links slot
    obtain ⟨hfd', ha', href'⟩ := h'.links slot
    exact ⟨hfd'.trans hfd, ha'.trans ha, href'.trans href⟩
  times := fun slot => ⟨(h'.times slot).1.trans (h.times slot).1, (h'.times slot).2.trans (h.times slot).2⟩
  accepted := h'.accepted.trans h.accepted
  log := by
    obtain ⟨more, hmore, hall⟩ := h.log
    obtain ⟨more', hmore', hall'⟩ := h'.log
    exact ⟨more ++ more', by rw [hmore', hmore, List.append_assoc],
      List.forall_mem_append.mpr ⟨hall, hall'⟩⟩
  pending := fun slot hp => by
    rcases h'.pending slot hp with ⟨hp', hg⟩ | hmem
    · rw [hg]
      exact (h.pending slot hp').imp id h'.mem
    · exact .inr hmem
  due := h'.due.trans h.due
  orphaned := h'.orphaned.trans h.orphaned
  outlived := h'.outlived.trans h.outlived

lemma mem_of_mem (h : Soft s t) {e : Event} (hsoft : ¬ e.Soft) (he : e ∈ t.log) : e ∈ s.log := by
  obtain ⟨more, hmore, hall⟩ := h.log
  rw [hmore] at he
  exact (List.mem_append.mp he).resolve_right fun hm => hsoft (hall e hm)

lemma lastOpened_eq (h : Soft s t) (slot : ℕ) : lastOpened t.log slot = lastOpened s.log slot := by
  obtain ⟨more, hmore, hall⟩ := h.log
  rw [hmore, lastOpened_append hall]

lemma inv (h : Soft s t) (hs : Inv s) : Inv t where
  justified := by
    obtain ⟨more, hmore, hall⟩ := h.log
    rw [hmore]
    exact justified_append hs.justified hall
  sits := fun slot fd hfd => by
    obtain ⟨h1, h2, h3⟩ := h.links slot
    have hsits := hs.sits slot fd (h1.symm.trans hfd)
    refine ⟨h2.trans hsits.active, h3 ▸ hsits.tcp, h3 ▸ hsits.slot_eq, hsits.bound,
      h3 ▸ h.mem hsits.opened, (h.lastOpened_eq slot).trans hsits.last, fun hc => ?_⟩
    exact hsits.unclosed (h.mem_of_mem id hc)
  vacant := fun slot hfd => by
    obtain ⟨h1, h2, -⟩ := h.links slot
    exact h2.trans (hs.vacant slot (h1.symm.trans hfd))
  once := fun fd slot g k g' h1 h2 => hs.once fd slot g k g' (h.mem_of_mem id h1) (h.mem_of_mem id h2)
  fresh := fun fd hfd => by
    rw [h.accepted]
    refine hs.fresh fd (hfd.imp ?_ (h.mem_of_mem id))
    rintro ⟨slot, g, ho⟩
    exact ⟨slot, g, h.mem_of_mem id ho⟩
  noticed := fun slot hp => by
    rcases h.pending slot hp with ⟨hpend, hgen⟩ | hmem
    · rw [hgen]
      exact h.mem (hs.noticed slot hpend)
    · exact hmem
  timed := fun slot => by
    rw [(h.times slot).1, (h.times slot).2]
    exact hs.timed slot

lemma loose (h : Soft s t) {fd : ℕ} (hs : Loose fd s) : Loose fd t where
  unclosed := fun hc => hs.unclosed (h.mem_of_mem id hc)
  last := fun slot g ho => (h.lastOpened_eq slot).trans (hs.last slot g (h.mem_of_mem id ho))
  known := h.accepted ▸ hs.known
  out := fun slot => (h.links slot).1 ▸ hs.out slot

lemma isAccepted (h : Soft s t) {fd : ℕ} (hs : Accepted fd s) : Accepted fd t where
  toLoose := h.loose hs.toLoose
  unopened := fun slot g ho => hs.unopened slot g (h.mem_of_mem id ho)

end Soft

/-! ## What moves a descriptor -/

section Moves

variable {s : State} {fd slot : ℕ}

/-- A descriptor is in one slot. -/
lemma Inv.slot_unique (h : Inv s) {k : ℕ} (h1 : (s.links slot).fd = some fd)
    (h2 : (s.links k).fd = some fd) : slot = k :=
  (h.once fd slot _ k _ (h.sits slot fd h1).opened (h.sits k fd h2).opened).1

@[simp] lemma setLink_links (l : TcpLink) (k : ℕ) :
    (s.setLink slot l).links k = if k = slot then l else s.links k := rfl

@[simp] lemma setLink_log (l : TcpLink) : (s.setLink slot l).log = s.log := rfl

@[simp] lemma note_links (e : Event) : (s.note e).links = s.links := rfl

@[simp] lemma note_log (e : Event) : (s.note e).log = s.log ++ [e] := rfl

/-- A connection that leaves its slot. -/
lemma Inv.detach (h : Inv s) (hfd : (s.links slot).fd = some fd) :
    Inv (s.detach slot) ∧ Loose fd (s.detach slot) := by
  have hsits := h.sits slot fd hfd
  refine ⟨⟨h.justified, fun k f hf => ?_, fun k hk => ?_, h.once, h.fresh, h.noticed,
    fun k => ?_⟩, ?_⟩
  · simp only [State.detach, setLink_links] at hf
    split_ifs at hf with hk
    · have hk' := h.sits k f hf
      refine ⟨?_, ?_, ?_, hk'.bound, ?_, hk'.last, hk'.unclosed⟩ <;>
        simp only [State.detach, setLink_links, if_neg hk, setLink_log]
      exacts [hk'.active, hk'.tcp, hk'.slot_eq, hk'.opened]
  · simp only [State.detach, setLink_links] at hk ⊢
    split_ifs at hk ⊢ with heq
    · rfl
    · exact h.vacant k hk
  · simp only [State.detach, setLink_links]
    split_ifs with heq
    · exact h.timed slot
    · exact h.timed k
  · refine ⟨hsits.unclosed, fun k g ho => ?_, h.fresh fd (.inl ⟨_, _, hsits.opened⟩), fun k hk => ?_⟩
    · obtain ⟨rfl, -⟩ := h.once fd slot _ k g hsits.opened ho
      exact hsits.last
    · simp only [State.detach, setLink_links] at hk
      split_ifs at hk with heq
      exact heq (h.slot_unique hk hfd)

/-- An event that changes no fact about descriptors. -/
lemma soft_note {e : Event} (he : e.Soft) : Soft s (s.note e) :=
  ⟨fun _ => ⟨rfl, rfl, rfl⟩, fun _ => ⟨rfl, rfl⟩, rfl, ⟨[e], rfl, by simpa using he⟩,
    fun _ h => .inl ⟨h, rfl⟩, rfl, rfl, rfl⟩

/-- The event that a connection is retired. -/
lemma Inv.note_retired (h : Inv s) (hl : Loose fd s) {g : UInt32}
    (he : Allowed s.log (.retired fd slot g)) :
    Inv (s.note (.retired fd slot g)) ∧ Loose fd (s.note (.retired fd slot g)) := by
  have hlast : ∀ k, lastOpened (s.log ++ [.retired fd slot g]) k = lastOpened s.log k :=
    fun k => lastOpened_snoc _ _ k
  refine ⟨⟨h.justified.snoc he, fun k f hf => ?_, h.vacant, fun f a g a' g' h1 h2 => ?_,
    fun f hf => ?_, fun k hp => ?_, h.timed⟩, ?_⟩
  · have hk := h.sits k f hf
    exact ⟨hk.active, hk.tcp, hk.slot_eq, hk.bound, by simp [hk.opened], (hlast k).trans hk.last,
      by simpa using hk.unclosed⟩
  · exact h.once f a g a' g' (by simpa using h1) (by simpa using h2)
  · exact h.fresh f (by simpa using hf)
  · have hn := h.noticed k hp
    exact List.mem_append_left _ hn
  · exact ⟨by simpa using hl.unclosed, fun k g ho => (hlast k).trans (hl.last k g (by simpa using ho)),
      hl.known, hl.out⟩

/-- A loose descriptor is closed. -/
lemma Inv.note_closed (h : Inv s) (hl : Loose fd s) : Inv (s.note (.closed fd)) := by
  have hlast : ∀ k, lastOpened (s.log ++ [.closed fd]) k = lastOpened s.log k :=
    fun k => lastOpened_snoc _ _ k
  refine ⟨h.justified.snoc ⟨hl.unclosed, hl.last⟩, fun k f hf => ?_, h.vacant,
    fun f a g a' g' h1 h2 => ?_, fun f hf => ?_, fun k hp => ?_, h.timed⟩
  · have hk := h.sits k f hf
    refine ⟨hk.active, hk.tcp, hk.slot_eq, hk.bound, by simp [hk.opened], (hlast k).trans hk.last,
      fun hc => ?_⟩
    rcases List.mem_append.mp hc with hc | hc
    · exact hk.unclosed hc
    · obtain rfl : f = fd := by simpa using hc
      exact hl.out k hf
  · exact h.once f a g a' g' (by simpa using h1) (by simpa using h2)
  · rcases hf with ⟨a, g, ho⟩ | hc
    · exact h.fresh f (.inl ⟨a, g, by simpa using ho⟩)
    · rcases List.mem_append.mp hc with hc | hc
      · exact h.fresh f (.inr hc)
      · obtain rfl : f = fd := by simpa using hc
        exact hl.known
  · have hn := h.noticed k hp
    exact List.mem_append_left _ hn

/-- A connection gets a vacant slot. -/
lemma Inv.occupy (h : Inv s) (ha : Accepted fd s) {ref : LinkRef} (hfree : (s.links slot).fd = none)
    (hb : slot < tcpLinks) (htcp : ref.transportId = .tcp) (hslot : ref.slot = slot) :
    Inv (s.occupy slot fd ref) := by
  refine ⟨h.justified.snoc trivial, fun k f hf => ?_, fun k hk => ?_, fun f a g a' g' h1 h2 => ?_,
    fun f hf => ?_, fun k hp => ?_, fun k => ?_⟩
  · simp only [State.occupy, note_links, setLink_links] at hf
    by_cases hk : k = slot
    · rw [if_pos hk] at hf
      obtain rfl : fd = f := by simpa using hf
      subst hk
      refine ⟨?_, ?_, ?_, hb, ?_, lastOpened_opened .., ?_⟩ <;>
        simp only [State.occupy, note_links, setLink_links, if_pos, note_log, setLink_log]
      · exact htcp
      · exact hslot
      · simp
      · simpa using ha.unclosed
    · rw [if_neg hk] at hf
      have hsits := h.sits k f hf
      refine ⟨?_, ?_, ?_, hsits.bound, ?_, ?_, ?_⟩ <;>
        simp only [State.occupy, note_links, setLink_links, if_neg hk, note_log, setLink_log]
      · exact hsits.active
      · exact hsits.tcp
      · exact hsits.slot_eq
      · exact List.mem_append_left _ hsits.opened
      · rw [lastOpened_opened_of_ne _ _ _ (Ne.symm hk)]
        exact hsits.last
      · simpa using hsits.unclosed
  · simp only [State.occupy, note_links, setLink_links] at hk ⊢
    split_ifs at hk ⊢ with heq
    exact h.vacant k hk
  · simp only [State.occupy, note_log, setLink_log, List.mem_append, List.mem_singleton,
      Event.opened.injEq] at h1 h2
    rcases h1 with h1 | ⟨rfl, rfl, rfl⟩ <;> rcases h2 with h2 | ⟨h2, rfl, rfl⟩
    · exact h.once f a g a' g' h1 h2
    · exact absurd h1 (h2 ▸ ha.unopened a g)
    · exact absurd h2 (ha.unopened a' g')
    · exact ⟨rfl, rfl⟩
  · rcases hf with ⟨a, g, ho⟩ | hc
    · simp only [State.occupy, note_log, setLink_log, List.mem_append, List.mem_singleton,
        Event.opened.injEq] at ho
      rcases ho with ho | ⟨rfl, -, -⟩
      · exact h.fresh f (.inl ⟨a, g, ho⟩)
      · exact ha.known
    · exact h.fresh f (.inr (by simpa [State.occupy] using hc))
  · have hn := h.noticed k hp
    exact List.mem_append_left _ hn
  · simp only [State.occupy, note_links, setLink_links]
    split_ifs with heq
    · rfl
    · exact h.timed k

end Moves

end EspVision.Tcp
