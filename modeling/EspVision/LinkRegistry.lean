import Mathlib.Data.List.Basic
import Mathlib.Tactic

/-!
# Transport link registry (`ev_transport`)

One generation counter and an open flag for each endpoint slot. A link reference
is current while its slot is open and still carries the reference's generation.
-/
namespace EspVision.EvTransport

/-- `ev_transport_id_t`. -/
inductive TransportId
  | usj | usb | uart | tcp
  deriving DecidableEq

/-- `EV_TRANSPORT_TCP_LINKS`. -/
def tcpLinks : ℕ := 3

/-- `ev_link_ref_t`; an all-zero record is the default. -/
structure LinkRef where
  transportId : TransportId := .usj
  slot : ℕ := 0
  generation : UInt32 := 0
  deriving DecidableEq

/-- `ev_transport_link_state_t`. -/
structure LinkState where
  generation : UInt32 := 0
  isOpen : Bool := false
  deriving DecidableEq

/-- The registry: `s_links`, `s_supported` and `s_owner`. -/
structure Registry where
  links : TransportId → ℕ → LinkState
  supported : TransportId → Bool
  owner : Option LinkRef

/-- `ev_transport_valid_slot`. -/
def validSlot (id : TransportId) (slot : ℕ) : Bool :=
  if id = .tcp then slot < tcpLinks else slot = 0

/-- `ev_transport_next_generation`: zero is skipped on wrap-around. -/
def nextGeneration (generation : UInt32) : UInt32 :=
  if generation + 1 = 0 then 1 else generation + 1

/-- `ev_transport_ref_matches_locked`, which `ev_transport_link_is_current` reports. -/
def Registry.linkIsCurrent (r : Registry) (link : LinkRef) : Bool :=
  validSlot link.transportId link.slot && r.supported link.transportId &&
    (r.links link.transportId link.slot).isOpen &&
    (r.links link.transportId link.slot).generation == link.generation

/-- Replace the record of one slot. -/
def Registry.setLink (r : Registry) (id : TransportId) (slot : ℕ) (l : LinkState) : Registry :=
  { r with links := fun i k => if i = id ∧ k = slot then l else r.links i k }

@[simp] theorem Registry.setLink_links (r : Registry) (id i : TransportId) (slot k : ℕ)
    (l : LinkState) :
    (r.setLink id slot l).links i k = if i = id ∧ k = slot then l else r.links i k := rfl

@[simp] theorem Registry.setLink_supported (r : Registry) (id : TransportId) (slot : ℕ)
    (l : LinkState) : (r.setLink id slot l).supported = r.supported := rfl

/-- `ev_transport_link_ref`: the current reference of an open slot. -/
def Registry.linkRef (r : Registry) (id : TransportId) (slot : ℕ) : Option LinkRef :=
  if validSlot id slot && r.supported id && (r.links id slot).isOpen then
    some ⟨id, slot, (r.links id slot).generation⟩
  else none

/-- `ev_transport_link_open`; `none` when the slot is invalid, unsupported or already open. -/
def Registry.linkOpen (r : Registry) (id : TransportId) (slot : ℕ) : Option (Registry × LinkRef) :=
  if validSlot id slot && r.supported id && !(r.links id slot).isOpen then
    let generation := nextGeneration (r.links id slot).generation
    some (r.setLink id slot ⟨generation, true⟩, ⟨id, slot, generation⟩)
  else none

/-- `ev_transport_link_close`: only the matching generation is closed. -/
def Registry.linkClose (r : Registry) (link : LinkRef) : Registry :=
  if r.linkIsCurrent link then
    { r.setLink link.transportId link.slot ⟨nextGeneration link.generation, false⟩ with
      owner := if r.owner = some link then none else r.owner }
  else r

/-- `ev_transport_link_advance_generation`: the slot stays open under a new generation. -/
def Registry.linkAdvanceGeneration (r : Registry) (link : LinkRef) : Registry × Option LinkRef :=
  if r.linkIsCurrent link then
    let out := { link with generation := nextGeneration link.generation }
    ({ r.setLink link.transportId link.slot ⟨out.generation, true⟩ with
        owner := r.owner.map fun o =>
          if o.transportId = link.transportId ∧ o.slot = link.slot then out else o }, some out)
  else (r, none)

/-- `ev_transport_set_owner`. -/
def Registry.setOwner (r : Registry) (owner : Option LinkRef) : Registry :=
  { r with owner := owner.filter fun o => r.linkIsCurrent o }

theorem Registry.linkIsCurrent_iff (r : Registry) (link : LinkRef) :
    r.linkIsCurrent link = true ↔
      validSlot link.transportId link.slot = true ∧ r.supported link.transportId = true ∧
        (r.links link.transportId link.slot).isOpen = true ∧
        (r.links link.transportId link.slot).generation = link.generation := by
  simp [linkIsCurrent, and_assoc]

theorem nextGeneration_ne (g : UInt32) : nextGeneration g ≠ g := by
  unfold nextGeneration
  split_ifs with h
  · rintro rfl
    exact absurd h (by decide)
  · intro he
    simp at he

/-- Closing a link leaves it not current. -/
@[simp] theorem Registry.linkClose_not_current (r : Registry) (link : LinkRef) :
    (r.linkClose link).linkIsCurrent link = false := by
  by_cases h : r.linkIsCurrent link = true
  · simp only [linkClose, if_pos h]
    simp [linkIsCurrent, setLink]
  · simp only [linkClose, if_neg h]
    simpa using h

/-- What is current behind a close was current in front of it. -/
theorem Registry.linkIsCurrent_of_linkClose {r : Registry} {link x : LinkRef}
    (h : (r.linkClose link).linkIsCurrent x = true) : r.linkIsCurrent x = true := by
  by_cases hc : r.linkIsCurrent link = true
  · simp only [linkClose, if_pos hc] at h
    obtain ⟨h1, h2, h3, h4⟩ := (linkIsCurrent_iff _ _).mp h
    simp only [setLink_links, setLink_supported] at h2 h3 h4
    split_ifs at h3 h4
    exact (linkIsCurrent_iff _ _).mpr ⟨h1, h2, h3, h4⟩
  · simpa only [linkClose, if_neg hc] using h

theorem Registry.linkClose_supported (r : Registry) (link : LinkRef) :
    (r.linkClose link).supported = r.supported := by
  unfold linkClose
  split_ifs <;> rfl

/-- A slot that is open behind a close is as it was in front of it. -/
theorem Registry.linkClose_links {r : Registry} {link : LinkRef} {id : TransportId} {slot : ℕ}
    (hopen : ((r.linkClose link).links id slot).isOpen = true) :
    (r.linkClose link).links id slot = r.links id slot := by
  by_cases hc : r.linkIsCurrent link = true
  · simp only [linkClose, if_pos hc, setLink_links] at hopen ⊢
    split_ifs at hopen ⊢
    rfl
  · simp only [linkClose, if_neg hc]

/-- A close leaves the other links current. -/
theorem Registry.linkClose_current {r : Registry} {link x : LinkRef}
    (h : r.linkIsCurrent x = true) (hne : x ≠ link) :
    (r.linkClose link).linkIsCurrent x = true := by
  by_cases hc : r.linkIsCurrent link = true
  · obtain ⟨h1, h2, h3, h4⟩ := (linkIsCurrent_iff _ _).mp h
    obtain ⟨-, -, -, h4'⟩ := (linkIsCurrent_iff _ _).mp hc
    have hslot : ¬ (x.transportId = link.transportId ∧ x.slot = link.slot) := by
      rintro ⟨ht, hs⟩
      refine hne ?_
      have hg : x.generation = link.generation := by rw [← h4, ← h4', ht, hs]
      cases x
      cases link
      simp_all
    simp only [linkClose, if_pos hc]
    refine (linkIsCurrent_iff _ _).mpr ⟨h1, h2, ?_, ?_⟩ <;>
      simp only [setLink_links, if_neg hslot] <;> assumption
  · simpa only [linkClose, if_neg hc] using h

/-- An opened link is current, and the open changes no other slot. -/
theorem Registry.linkOpen_some {r r' : Registry} {id : TransportId} {slot : ℕ} {ref : LinkRef}
    (h : r.linkOpen id slot = some (r', ref)) :
    ref.transportId = id ∧ ref.slot = slot ∧ r'.linkIsCurrent ref = true ∧
      ∀ x, (x.transportId = id → x.slot ≠ slot) → r'.linkIsCurrent x = r.linkIsCurrent x := by
  unfold linkOpen at h
  split_ifs at h with hopen
  obtain ⟨rfl, rfl⟩ := Prod.mk.inj (Option.some.inj h)
  simp only [Bool.and_eq_true] at hopen
  refine ⟨rfl, rfl, ?_, fun x hx => ?_⟩
  · exact (linkIsCurrent_iff _ _).mpr ⟨hopen.1.1, hopen.1.2, by simp, by simp⟩
  · have hne : ¬ (x.transportId = id ∧ x.slot = slot) := fun h => hx h.1 h.2
    simp only [linkIsCurrent, setLink_links, setLink_supported, if_neg hne]

/-! ## What an operation can do to a slot -/

/-- Every slot keeps its record or moves to the next generation. -/
def Registry.Advances (r r' : Registry) : Prop :=
  r'.supported = r.supported ∧ ∀ i k, r'.links i k = r.links i k ∨
    (r'.links i k).generation = nextGeneration (r.links i k).generation

theorem Registry.advances_refl (r : Registry) : r.Advances r := ⟨rfl, fun _ _ => .inl rfl⟩

theorem Registry.setLink_advances (r : Registry) {id : TransportId} {slot : ℕ} {l : LinkState}
    (h : l.generation = nextGeneration (r.links id slot).generation) :
    r.Advances (r.setLink id slot l) := by
  refine ⟨rfl, fun i k => ?_⟩
  rw [setLink_links]
  split_ifs with hik
  · obtain ⟨rfl, rfl⟩ := hik
    exact .inr h
  · exact .inl rfl

theorem Registry.linkOpen_advances {r r' : Registry} {id : TransportId} {slot : ℕ} {ref : LinkRef}
    (h : r.linkOpen id slot = some (r', ref)) : r.Advances r' := by
  unfold linkOpen at h
  split_ifs at h
  obtain ⟨rfl, -⟩ := Prod.mk.inj (Option.some.inj h)
  exact r.setLink_advances rfl

theorem Registry.linkClose_advances (r : Registry) (link : LinkRef) :
    r.Advances (r.linkClose link) := by
  by_cases hc : r.linkIsCurrent link = true
  · obtain ⟨-, -, -, hg⟩ := (linkIsCurrent_iff _ _).mp hc
    simp only [linkClose, if_pos hc]
    exact r.setLink_advances (by rw [hg])
  · simp only [linkClose, if_neg hc]
    exact r.advances_refl

theorem Registry.linkAdvanceGeneration_advances (r : Registry) (link : LinkRef) :
    r.Advances (r.linkAdvanceGeneration link).1 := by
  by_cases hc : r.linkIsCurrent link = true
  · obtain ⟨-, -, -, hg⟩ := (linkIsCurrent_iff _ _).mp hc
    simp only [linkAdvanceGeneration, if_pos hc]
    exact r.setLink_advances (by rw [hg])
  · simp only [linkAdvanceGeneration, if_neg hc]
    exact r.advances_refl

/-- Opening a link leaves the slots that are open. -/
theorem Registry.linkOpen_links {r r' : Registry} {id : TransportId} {slot : ℕ} {ref : LinkRef}
    (h : r.linkOpen id slot = some (r', ref)) {i : TransportId} {k : ℕ}
    (hopen : (r.links i k).isOpen = true) : r'.links i k = r.links i k := by
  unfold linkOpen at h
  split_ifs at h with hfree
  obtain ⟨rfl, -⟩ := Prod.mk.inj (Option.some.inj h)
  rw [setLink_links]
  split_ifs with hik
  · obtain ⟨rfl, rfl⟩ := hik
    simp [hopen] at hfree
  · rfl

theorem Registry.linkClose_of_not_current {r : Registry} {link : LinkRef}
    (h : r.linkIsCurrent link = false) : r.linkClose link = r := by
  simp [linkClose, h]

theorem Registry.linkAdvanceGeneration_of_not_current {r : Registry} {link : LinkRef}
    (h : r.linkIsCurrent link = false) : r.linkAdvanceGeneration link = (r, none) := by
  simp [linkAdvanceGeneration, h]

/-- After `n` changes the generation has gone `n` places round the non-zero numbers. -/
theorem toNat_iterate_nextGeneration {g : UInt32} (hg : g ≠ 0) (n : ℕ) :
    (nextGeneration^[n] g).toNat = (g.toNat - 1 + n) % (2 ^ 32 - 1) + 1 := by
  have hpos : g.toNat ≠ 0 := fun h => hg (UInt32.toNat_inj.mp h)
  have hlt := g.toNat_lt
  induction n with
  | zero =>
    rw [Function.iterate_zero, id, Nat.add_zero, Nat.mod_eq_of_lt (by omega)]
    omega
  | succ n ih =>
    rw [Function.iterate_succ_apply']
    set x := nextGeneration^[n] g
    have hx := x.toNat_lt
    have hone : (1 : UInt32).toNat = 1 := rfl
    have hsum : (x + 1).toNat = (x.toNat + 1) % 2 ^ 32 := by rw [UInt32.toNat_add, hone]
    unfold nextGeneration
    split_ifs with hzero
    · have hz : (x + 1).toNat = 0 := by rw [hzero]; rfl
      rw [hone]
      omega
    · have hz : (x + 1).toNat ≠ 0 := fun h => hzero (UInt32.toNat_inj.mp h)
      omega

/-- A generation does not come back within fewer changes than there are non-zero numbers. -/
theorem iterate_nextGeneration_ne {g : UInt32} {n : ℕ} (hn : 0 < n) (hlt : n < 2 ^ 32 - 1) :
    nextGeneration^[n] g ≠ g := by
  intro he
  have hg : g ≠ 0 := by
    rintro rfl
    obtain ⟨m, rfl⟩ := Nat.exists_eq_succ_of_ne_zero hn.ne'
    rw [Function.iterate_succ_apply'] at he
    unfold nextGeneration at he
    split_ifs at he with h
    · exact absurd he (by decide)
    · exact h he
  have hnat := toNat_iterate_nextGeneration hg n
  rw [he] at hnat
  have hpos : g.toNat ≠ 0 := fun h => hg (UInt32.toNat_inj.mp h)
  have hbound := g.toNat_lt
  omega

/-! ## Currency behind an operation -/

/-- The owner of the session, as the registry has it, is a current link. -/
def Registry.OwnerCurrent (r : Registry) : Prop :=
  ∀ o, r.owner = some o → r.linkIsCurrent o = true

theorem Registry.linkIsCurrent_setLink {r : Registry} {id : TransportId} {slot : ℕ}
    {l : LinkState} {x : LinkRef} (h : ¬(x.transportId = id ∧ x.slot = slot)) :
    (r.setLink id slot l).linkIsCurrent x = r.linkIsCurrent x := by
  simp only [linkIsCurrent, setLink_links, setLink_supported, if_neg h]

/-- Two current references of one slot are the same. -/
theorem Registry.linkIsCurrent_unique {r : Registry} {x y : LinkRef}
    (hx : r.linkIsCurrent x = true) (hy : r.linkIsCurrent y = true)
    (hid : x.transportId = y.transportId) (hslot : x.slot = y.slot) : x = y := by
  obtain ⟨-, -, -, hgx⟩ := (linkIsCurrent_iff _ _).mp hx
  obtain ⟨-, -, -, hgy⟩ := (linkIsCurrent_iff _ _).mp hy
  have hg : x.generation = y.generation := by rw [← hgx, ← hgy, hid, hslot]
  cases x
  cases y
  simp_all

/-- Opening a link leaves every current one. -/
theorem Registry.linkOpen_current {r r' : Registry} {id : TransportId} {slot : ℕ} {ref x : LinkRef}
    (h : r.linkOpen id slot = some (r', ref)) (hx : r.linkIsCurrent x = true) :
    r'.linkIsCurrent x = true := by
  obtain ⟨hvalid, hsup, hopen, hgen⟩ := (linkIsCurrent_iff _ _).mp hx
  have hlinks := linkOpen_links h hopen
  refine (linkIsCurrent_iff _ _).mpr ⟨hvalid, ?_, by rw [hlinks]; exact hopen,
    by rw [hlinks]; exact hgen⟩
  rw [(linkOpen_advances h).1]
  exact hsup

/-- Advancing a link leaves the links of the other slots. -/
theorem Registry.linkAdvanceGeneration_current {r : Registry} {link x : LinkRef}
    (h : ¬(x.transportId = link.transportId ∧ x.slot = link.slot)) :
    (r.linkAdvanceGeneration link).1.linkIsCurrent x = r.linkIsCurrent x := by
  by_cases hc : r.linkIsCurrent link = true
  · simp only [linkAdvanceGeneration, if_pos hc]
    exact @linkIsCurrent_setLink r _ _ ⟨nextGeneration link.generation, true⟩ x h
  · simp only [linkAdvanceGeneration, if_neg hc]

theorem Registry.linkOpen_ownerCurrent {r r' : Registry} {id : TransportId} {slot : ℕ}
    {ref : LinkRef} (h : r.linkOpen id slot = some (r', ref)) (ho : r.OwnerCurrent) :
    r'.OwnerCurrent := by
  have howner : r'.owner = r.owner := by
    unfold linkOpen at h
    split_ifs at h
    obtain ⟨rfl, -⟩ := Prod.mk.inj (Option.some.inj h)
    rfl
  intro o heq
  exact linkOpen_current h (ho o (howner ▸ heq))

theorem Registry.linkClose_ownerCurrent {r : Registry} (link : LinkRef) (ho : r.OwnerCurrent) :
    (r.linkClose link).OwnerCurrent := by
  by_cases hc : r.linkIsCurrent link = true
  · intro o heq
    have howner : (if r.owner = some link then none else r.owner) = some o := by
      simpa only [linkClose, if_pos hc] using heq
    split_ifs at howner with hlink
    have hne : o ≠ link := by
      rintro rfl
      exact hlink howner
    exact linkClose_current (ho o howner) hne
  · rw [linkClose_of_not_current (by simpa using hc)]
    exact ho

theorem Registry.linkAdvanceGeneration_ownerCurrent {r : Registry} (link : LinkRef)
    (ho : r.OwnerCurrent) : (r.linkAdvanceGeneration link).1.OwnerCurrent := by
  by_cases hc : r.linkIsCurrent link = true
  · intro o heq
    obtain ⟨hvalid, hsup, -, -⟩ := (linkIsCurrent_iff _ _).mp hc
    have howner : r.owner.map (fun o => if o.transportId = link.transportId ∧ o.slot = link.slot
        then { link with generation := nextGeneration link.generation } else o) = some o := by
      simpa only [linkAdvanceGeneration, if_pos hc] using heq
    obtain ⟨x, hx, hxo⟩ := Option.map_eq_some_iff.mp howner
    split_ifs at hxo with hsame
    · subst hxo
      simp only [linkAdvanceGeneration, if_pos hc]
      exact (linkIsCurrent_iff _ _).mpr ⟨hvalid, hsup, by simp, by simp⟩
    · subst hxo
      rw [linkAdvanceGeneration_current hsame]
      exact ho x hx
  · rw [linkAdvanceGeneration_of_not_current (by simpa using hc)]
    exact ho

theorem Registry.setOwner_ownerCurrent (r : Registry) (owner : Option LinkRef) :
    (r.setOwner owner).OwnerCurrent := by
  intro o heq
  exact (Option.filter_eq_some_iff.mp heq).2

end EspVision.EvTransport
