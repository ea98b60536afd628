import EspVision.Ledger

/-!
# Messages on their way to shared channels

An accepted message waits at a site. Its bytes are sent on its channel piece by piece, and of the
messages whose channels share a lane only one is under way. A message leaves its site when all of it
was sent or when it is given up; how it ended is told afterwards, unless the message is a silent one.
-/
namespace EspVision.Outbox

open Ledger

variable {σ κ ι β ε : Type*}

/-! ## Messages and steps -/

/-- What was accepted: the channel, the bytes, and whether nobody needs to be told how it ends. -/
structure Message (κ β : Type*) where
  chan : κ
  bytes : List β
  silent : Bool

/-- A message at a site: its number, its channel and how many of its bytes were sent. -/
@[ext] structure Item (κ : Type*) where
  id : ℕ
  chan : κ
  sent : ℕ

/-- The messages by number, those that have left with the result, the results that are still to be
told and those that were, and what each channel has taken: the bytes, and of which messages. -/
@[ext] structure State (σ κ β ε : Type*) where
  live : σ → Option (Item κ)
  accepted : List (Message κ β)
  left : List (ℕ × ε)
  owed : Multiset (ℕ × ε)
  told : Multiset (ℕ × ε)
  wire : κ → List β
  segments : κ → List (ℕ × ℕ)

/-- The segments of a channel when it takes `n` more bytes of the message. -/
def extend (segments : List (ℕ × ℕ)) (i : Item κ) (n : ℕ) : List (ℕ × ℕ) :=
  if i.sent = 0 then segments ++ [(i.id, n)] else segments.dropLast ++ [(i.id, i.sent + n)]

/-- The bytes of a segment. -/
def piece (accepted : List (Message κ β)) (p : ℕ × ℕ) : List β :=
  ((accepted[p.1]?.map (·.bytes)).getD []).take p.2

namespace State

/-- No other message of the lane is under way. -/
def Alone (s : State σ κ β ε) (lane : κ → ι) (x : σ) (i : Item κ) : Prop :=
  ∀ y j, s.live y = some j → lane j.chan = lane i.chan → j.sent ≠ 0 → y = x

variable [DecidableEq σ]

def accept (s : State σ κ β ε) (x : σ) (m : Message κ β) : State σ κ β ε :=
  { s with
    live := Function.update s.live x (some ⟨s.accepted.length, m.chan, 0⟩)
    accepted := s.accepted ++ [m] }

def send [DecidableEq κ] (s : State σ κ β ε) (x : σ) (i : Item κ) (data : List β) :
    State σ κ β ε :=
  { s with
    live := Function.update s.live x (some { i with sent := i.sent + data.length })
    wire := Function.update s.wire i.chan (s.wire i.chan ++ data)
    segments := Function.update s.segments i.chan
      (extend (s.segments i.chan) i data.length) }

def leave (s : State σ κ β ε) (x : σ) (i : Item κ) (r : ε) : State σ κ β ε :=
  { s with
    live := Function.update s.live x none
    left := s.left ++ [(i.id, r)]
    owed := s.owed + {(i.id, r)} }

def forget (s : State σ κ β ε) (x : σ) (i : Item κ) (r : ε) : State σ κ β ε :=
  { s with
    live := Function.update s.live x none
    left := s.left ++ [(i.id, r)] }

end State

section

variable [DecidableEq σ] [DecidableEq κ] (lane : κ → ι) (ok : ε)

/-- What can happen; the result `ok` means that the whole message was sent. -/
inductive Act (s : State σ κ β ε) : State σ κ β ε → Prop
  | accept (x : σ) (m : Message κ β) (site : s.live x = none) (bytes : m.bytes ≠ []) :
      Act s (s.accept x m)
  | send (x : σ) (i : Item κ) (m : Message κ β) (data : List β) (site : s.live x = some i)
      (alone : s.Alone lane x i) (message : s.accepted[i.id]? = some m) (some : data ≠ [])
      (part : data <+: m.bytes.drop i.sent) : Act s (s.send x i data)
  | leave (x : σ) (i : Item κ) (m : Message κ β) (r : ε) (site : s.live x = some i)
      (message : s.accepted[i.id]? = some m) (result : r = ok ↔ i.sent = m.bytes.length) :
      Act s (s.leave x i r)
  | forget (x : σ) (i : Item κ) (m : Message κ β) (r : ε) (site : s.live x = some i)
      (message : s.accepted[i.id]? = some m) (result : r = ok ↔ i.sent = m.bytes.length)
      (silent : m.silent = true) : Act s (s.forget x i r)
  | tell (p : ℕ × ε) (rest : Multiset (ℕ × ε)) (owed : s.owed = rest + {p}) :
      Act s { s with owed := rest, told := s.told + {p} }

/-- Several things happen one after the other. -/
abbrev Acts : State σ κ β ε → State σ κ β ε → Prop := Relation.ReflTransGen (Act lane ok)

end

/-! ## What holds after any number of steps -/

/-- The number of the message at a site. -/
def idAt (o : Option (Item κ)) : Multiset ℕ := o.elim 0 fun i => {i.id}

/-- How the message of a segment fares: it is still under way, or it has left, with all of its bytes
sent exactly when the result is `ok`. -/
def Fate (ok : ε) (s : State σ κ β ε) (p : ℕ × ℕ) (m : Message κ β) : Prop :=
  (∃ x i, s.live x = some i ∧ i.id = p.1 ∧ i.sent = p.2) ∨
    ∃ r, (p.1, r) ∈ s.left ∧ (r = ok ↔ p.2 = m.bytes.length)

/-- A segment of the channel is a piece of a message for the channel. -/
structure Segment (ok : ε) (s : State σ κ β ε) (c : κ) (p : ℕ × ℕ) (m : Message κ β) :
    Prop where
  message : s.accepted[p.1]? = some m
  chan : m.chan = c
  pos : 0 < p.2
  le : p.2 ≤ m.bytes.length
  fate : Fate ok s p m

/-- A message at a site is one of the accepted ones. -/
structure Known (accepted : List (Message κ β)) (i : Item κ) (m : Message κ β) : Prop where
  message : accepted[i.id]? = some m
  chan : m.chan = i.chan
  le : i.sent ≤ m.bytes.length

structure Sound [Fintype σ] (lane : κ → ι) (ok : ε) (s : State σ κ β ε) : Prop where
  ids : total (fun _ => idAt) s.live + (s.left.map Prod.fst : Multiset ℕ) =
    Multiset.range s.accepted.length
  known : ∀ x i, s.live x = some i → ∃ m, Known s.accepted i m
  bytes : ∀ m ∈ s.accepted, m.bytes ≠ []
  alone : ∀ x i, s.live x = some i → i.sent ≠ 0 → s.Alone lane x i
  cursor : ∀ x i, s.live x = some i → i.sent ≠ 0 →
    (s.segments i.chan).getLast? = some (i.id, i.sent)
  wire : ∀ c, s.wire c = (s.segments c).flatMap (piece s.accepted)
  segment : ∀ c, ∀ p ∈ s.segments c, ∃ m, Segment ok s c p m
  once : ∀ c, ((s.segments c).map Prod.fst).Nodup
  done : ∀ i, (i, ok) ∈ s.left →
    ∃ m, s.accepted[i]? = some m ∧ (i, m.bytes.length) ∈ s.segments m.chan
  told : s.owed + s.told ≤ s.left
  heard : ∀ p ∈ s.left, ∀ m, s.accepted[p.1]? = some m → m.silent = false → p ∈ s.owed + s.told

section

variable {lane : κ → ι} {ok : ε} {s t : State σ κ β ε} {x y : σ} {i j : Item κ}

theorem piece_append {a : List (Message κ β)} {m : Message κ β} {p : ℕ × ℕ} (h : p.1 < a.length) :
    piece (a ++ [m]) p = piece a p := by
  unfold piece
  rw [List.getElem?_append_left h]

theorem Segment.lt {c : κ} {p : ℕ × ℕ} {m : Message κ β} (h : Segment ok s c p m) :
    p.1 < s.accepted.length := (List.getElem?_eq_some_iff.mp h.message).1

theorem Known.lt {a : List (Message κ β)} {m : Message κ β} (h : Known a i m) : i.id < a.length :=
  (List.getElem?_eq_some_iff.mp h.message).1

theorem Segment.of_told {c : κ} {p : ℕ × ℕ} {m : Message κ β} {owed told : Multiset (ℕ × ε)}
    (h : Segment ok s c p m) : Segment ok { s with owed := owed, told := told } c p m :=
  ⟨h.message, h.chan, h.pos, h.le, h.fate⟩

theorem update_some [DecidableEq σ] {f : σ → Option (Item κ)} {o : Option (Item κ)}
    (h : Function.update f x o y = some j) : y = x ∧ o = some j ∨ y ≠ x ∧ f y = some j := by
  by_cases hy : y = x
  · subst hy
    exact .inl ⟨rfl, by rwa [Function.update_self] at h⟩
  · exact .inr ⟨hy, by rwa [Function.update_of_ne hy] at h⟩

variable [Fintype σ]

/-- Before anything happens. -/
theorem sound_empty (s : State σ κ β ε) (hlive : ∀ x, s.live x = none) (haccepted : s.accepted = [])
    (hleft : s.left = []) (howed : s.owed = 0) (htold : s.told = 0) (hwire : ∀ c, s.wire c = [])
    (hsegments : ∀ c, s.segments c = []) : Sound lane ok s where
  ids := by
    rw [total_zero fun x => by rw [hlive]; rfl, hleft, haccepted]
    rfl
  known x i h := by
    rw [hlive] at h
    cases h
  bytes m h := by
    rw [haccepted] at h
    cases h
  alone x i h := by
    rw [hlive] at h
    cases h
  cursor x i h := by
    rw [hlive] at h
    cases h
  wire c := by rw [hwire, hsegments]; rfl
  segment c p h := by
    rw [hsegments] at h
    cases h
  once c := by rw [hsegments]; exact List.nodup_nil
  done i h := by
    rw [hleft] at h
    cases h
  told := by rw [howed, htold]; exact Multiset.zero_le _
  heard p h := by
    rw [hleft] at h
    cases h

/-! ### Numbers -/

theorem Sound.ids_nodup (hs : Sound lane ok s) :
    (total (fun _ => idAt) s.live + (s.left.map Prod.fst : Multiset ℕ)).Nodup := by
  rw [hs.ids]
  exact Multiset.nodup_range _

theorem Sound.left_nodup (hs : Sound lane ok s) : (s.left.map Prod.fst).Nodup :=
  Multiset.coe_nodup.mp (Multiset.nodup_add.mp hs.ids_nodup).2.1

/-- A message leaves once. -/
theorem Sound.left_inj {n : ℕ} {r r' : ε} (hs : Sound lane ok s) (h : (n, r) ∈ s.left)
    (h' : (n, r') ∈ s.left) : r = r' :=
  congrArg Prod.snd (List.inj_on_of_nodup_map hs.left_nodup h h' rfl)

theorem Sound.left_lt {n : ℕ} {r : ε} (hs : Sound lane ok s) (h : (n, r) ∈ s.left) :
    n < s.accepted.length := by
  rw [← Multiset.mem_range, ← hs.ids]
  exact Multiset.mem_add.mpr (.inr (List.mem_map_of_mem (f := Prod.fst) h))

/-- Every accepted message is at a site, or has left. -/
theorem Sound.live_or_left {n : ℕ} (hs : Sound lane ok s) (h : n < s.accepted.length) :
    (∃ x i, s.live x = some i ∧ i.id = n) ∨ ∃ r, (n, r) ∈ s.left := by
  rw [← Multiset.mem_range, ← hs.ids, Multiset.mem_add] at h
  rcases h with h | h
  · obtain ⟨x, -, hx⟩ := Multiset.mem_sum.mp h
    cases hi : s.live x with
    | none =>
      rw [hi] at hx
      exact absurd hx (Multiset.notMem_zero n)
    | some i =>
      rw [hi] at hx
      exact .inl ⟨x, i, hi, (Multiset.mem_singleton.mp hx).symm⟩
  · obtain ⟨p, hp, rfl⟩ := List.mem_map.mp h
    exact .inr ⟨p.2, hp⟩

theorem Sound.tell {p : ℕ × ε} {rest : Multiset (ℕ × ε)} (hs : Sound lane ok s)
    (h : s.owed = rest + {p}) :
    Sound lane ok { s with owed := rest, told := s.told + {p} } := by
  have hsum : rest + (s.told + {p}) = s.owed + s.told := by rw [h]; abel
  refine ⟨hs.ids, hs.known, hs.bytes, hs.alone, hs.cursor, hs.wire, fun c p hp => ?_, hs.once,
    hs.done, hsum ▸ hs.told, fun q hq m hm hsilent => ?_⟩
  · obtain ⟨m, hm⟩ := hs.segment c p hp
    exact ⟨m, hm.of_told⟩
  · exact hsum ▸ hs.heard q hq m hm hsilent

/-- A segment is a whole message exactly when the message has left with the result `ok`. -/
theorem Sound.whole_iff {c : κ} {p : ℕ × ℕ} {m : Message κ β} (hs : Sound lane ok s) (hp : p ∈ s.segments c)
    (hm : s.accepted[p.1]? = some m)
    (hlive : ∀ x i, s.live x = some i → i.id = p.1 → i.sent < m.bytes.length) :
    p.2 = m.bytes.length ↔ (p.1, ok) ∈ s.left := by
  obtain ⟨m', hm'⟩ := hs.segment c p hp
  obtain rfl : m' = m := Option.some.inj (hm'.message.symm.trans hm)
  constructor
  · intro hlen
    rcases hm'.fate with ⟨x, i, hx, hid, hsent⟩ | ⟨r, hr, hok⟩
    · have hlt := hlive x i hx hid
      omega
    · rwa [hok.mpr hlen] at hr
  · intro hleft
    obtain ⟨m'', hm'', hdone⟩ := hs.done p.1 hleft
    obtain rfl : m'' = m' := Option.some.inj (hm''.symm.trans hm)
    rw [hm'.chan] at hdone
    exact congrArg Prod.snd (List.inj_on_of_nodup_map (hs.once c) hp hdone rfl)

variable [DecidableEq σ]

/-- No two sites have the same message. -/
theorem Sound.live_inj (hs : Sound lane ok s) (hx : s.live x = some i) (hy : s.live y = some j)
    (h : i.id = j.id) : x = y := by
  by_contra hne
  obtain ⟨rest, hrest⟩ := total_eq_add_add (w := fun _ => idAt) (f := s.live) (Ne.symm hne)
  have hnodup := hs.ids_nodup
  rw [hrest, hx, hy] at hnodup
  have hdouble := (Multiset.nodup_add.mp (Multiset.nodup_add.mp
    (Multiset.nodup_add.mp hnodup).1).1).2.2
  exact Multiset.disjoint_left.mp hdouble (Multiset.mem_singleton.mpr rfl)
    (Multiset.mem_singleton.mpr h)

/-- A message that has left is at no site. -/
theorem Sound.live_not_left {r : ε} (hs : Sound lane ok s) (hx : s.live x = some i) :
    (i.id, r) ∉ s.left := by
  intro hmem
  obtain ⟨rest, hrest⟩ := total_eq_add (w := fun _ => idAt) (f := s.live) x
  have hd := (Multiset.nodup_add.mp hs.ids_nodup).2.2
  rw [hrest, hx] at hd
  exact Multiset.disjoint_left.mp hd (Multiset.mem_add.mpr (.inl (Multiset.mem_singleton.mpr rfl)))
    (List.mem_map_of_mem (f := Prod.fst) hmem)

/-- Nothing of a message whose sending has not begun is on a channel. -/
theorem Sound.not_begun {c : κ} {n : ℕ} (hs : Sound lane ok s) (hx : s.live x = some i)
    (h0 : i.sent = 0) : (i.id, n) ∉ s.segments c := by
  intro hmem
  obtain ⟨m, hm⟩ := hs.segment c _ hmem
  rcases hm.fate with ⟨y, j, hy, hid, hsent⟩ | ⟨r, hr, -⟩
  · obtain rfl := hs.live_inj hx hy hid.symm
    obtain rfl := Option.some.inj (hx.symm.trans hy)
    have := hm.pos
    omega
  · exact hs.live_not_left hx hr

/-! ### Steps -/

theorem Sound.accept {m : Message κ β} (hs : Sound lane ok s) (hx : s.live x = none)
    (hm : m.bytes ≠ []) : Sound lane ok (s.accept x m) := by
  have haccepted : (s.accept x m).accepted = s.accepted ++ [m] := rfl
  have hkeep : ∀ {n m'}, s.accepted[n]? = some m' → (s.accept x m).accepted[n]? = some m' :=
    fun h => (List.getElem?_append_left (List.getElem?_eq_some_iff.mp h).1).trans h
  have hold : ∀ {y j}, (s.accept x m).live y = some j → j.sent ≠ 0 → s.live y = some j := by
    intro y j h hsent
    rcases update_some h with ⟨-, hj⟩ | ⟨-, hj⟩
    · obtain rfl := Option.some.inj hj
      exact absurd rfl hsent
    · exact hj
  have hnew : ∀ {y j}, s.live y = some j → (s.accept x m).live y = some j := by
    intro y j h
    have hne : y ≠ x := by
      rintro rfl
      rw [hx] at h
      cases h
    exact (Function.update_of_ne hne _ _).trans h
  refine ⟨?_, ?_, ?_, ?_, ?_, ?_, ?_, hs.once, ?_, hs.told, ?_⟩
  · rw [haccepted, List.length_append, List.length_singleton, Multiset.range_succ, ← hs.ids]
    have htotal := total_update_new (w := fun _ => idAt) (f := s.live) (i := x)
      (x := some ⟨s.accepted.length, m.chan, 0⟩) (by rw [hx]; rfl)
    refine (congrArg (· + (s.left.map Prod.fst : Multiset ℕ)) htotal).trans ?_
    rw [add_right_comm, ← Multiset.singleton_add, add_comm]
    rfl
  · intro y j h
    rcases update_some h with ⟨-, hj⟩ | ⟨-, hj⟩
    · obtain rfl := Option.some.inj hj
      exact ⟨m, List.getElem?_concat_length, rfl, Nat.zero_le _⟩
    · obtain ⟨m', hm'⟩ := hs.known y j hj
      exact ⟨m', hkeep hm'.message, hm'.chan, hm'.le⟩
  · intro m' h
    rcases List.mem_append.mp h with h | h
    · exact hs.bytes m' h
    · rw [List.mem_singleton.mp h]
      exact hm
  · exact fun y j h hsent z k hz hlane hk => hs.alone y j (hold h hsent) hsent z k (hold hz hk) hlane hk
  · exact fun y j h hsent => hs.cursor y j (hold h hsent) hsent
  · intro c
    refine (hs.wire c).trans (List.flatMap_congr fun p hp => ?_)
    obtain ⟨m', hm'⟩ := hs.segment c p hp
    exact (piece_append hm'.lt).symm
  · intro c p hp
    obtain ⟨m', hm'⟩ := hs.segment c p hp
    refine ⟨m', hkeep hm'.message, hm'.chan, hm'.pos, hm'.le, hm'.fate.imp_left ?_⟩
    rintro ⟨y, j, hy, hj⟩
    exact ⟨y, j, hnew hy, hj⟩
  · intro n hn
    obtain ⟨m', hm', hdone⟩ := hs.done n hn
    exact ⟨m', hkeep hm', hdone⟩
  · intro p hp m' hm' hsilent
    refine hs.heard p hp m' ?_ hsilent
    rw [← hm', haccepted, List.getElem?_append_left (hs.left_lt (r := p.2) hp)]

/-- What a message leaves behind. -/
theorem Sound.gone {r : ε} {m : Message κ β} {owed : Multiset (ℕ × ε)} (hs : Sound lane ok s)
    (hx : s.live x = some i) (hm : s.accepted[i.id]? = some m)
    (hr : r = ok ↔ i.sent = m.bytes.length) (htold : owed + s.told ≤ ↑(s.left ++ [(i.id, r)]))
    (hheard : ∀ p ∈ s.left ++ [(i.id, r)], ∀ m, s.accepted[p.1]? = some m → m.silent = false →
      p ∈ owed + s.told) :
    Sound lane ok { s with
      live := Function.update s.live x none
      left := s.left ++ [(i.id, r)]
      owed := owed } := by
  have hold : ∀ {y j}, Function.update s.live x none y = some j → s.live y = some j := by
    intro y j h
    rcases update_some h with ⟨-, hj⟩ | ⟨-, hj⟩
    · cases hj
    · exact hj
  refine ⟨?_, fun y j h => hs.known y j (hold h), hs.bytes,
    fun y j h hsent z k hz => hs.alone y j (hold h) hsent z k (hold hz),
    fun y j h => hs.cursor y j (hold h), hs.wire, ?_, hs.once, ?_, htold, hheard⟩
  · have htotal := total_update_gone (w := fun _ => idAt) (f := s.live) (i := x) (x := none) rfl
    rw [hx] at htotal
    rw [← hs.ids, ← htotal, List.map_append, ← Multiset.coe_add, add_right_comm, ← add_assoc]
    rfl
  · intro c p hp
    obtain ⟨m', hm'⟩ := hs.segment c p hp
    refine ⟨m', hm'.message, hm'.chan, hm'.pos, hm'.le, ?_⟩
    rcases hm'.fate with ⟨y, j, hy, hid, hsent⟩ | ⟨r', hr', hok⟩
    · by_cases hyx : y = x
      · subst hyx
        obtain rfl := Option.some.inj (hx.symm.trans hy)
        have hmm : m = m' := Option.some.inj (hm.symm.trans (hid ▸ hm'.message))
        subst hmm
        exact .inr ⟨r, List.mem_append.mpr (.inr (by rw [hid]; exact List.mem_singleton.mpr rfl)),
          by rw [hr, hsent]⟩
      · exact .inl ⟨y, j, (Function.update_of_ne hyx _ _).trans hy, hid, hsent⟩
    · exact .inr ⟨r', List.mem_append.mpr (.inl hr'), hok⟩
  · intro n hn
    rcases List.mem_append.mp hn with hn | hn
    · exact hs.done n hn
    · obtain ⟨rfl, rfl⟩ := Prod.mk.inj (List.mem_singleton.mp hn)
      have hsent := hr.mp rfl
      have hne : i.sent ≠ 0 := by
        rw [hsent]
        exact fun h0 => hs.bytes m (List.mem_of_getElem? hm) (List.length_eq_zero_iff.mp h0)
      obtain ⟨m', hm'⟩ := hs.known x i hx
      obtain rfl : m' = m := Option.some.inj (hm'.message.symm.trans hm)
      refine ⟨m', hm, ?_⟩
      rw [hm'.chan, ← hsent]
      exact List.mem_of_getLast? (hs.cursor x i hx hne)

theorem Sound.leave {r : ε} {m : Message κ β} (hs : Sound lane ok s) (hx : s.live x = some i)
    (hm : s.accepted[i.id]? = some m) (hr : r = ok ↔ i.sent = m.bytes.length) :
    Sound lane ok (s.leave x i r) := by
  refine hs.gone hx hm hr ?_ fun p hp m' hm' hsilent => ?_
  · rw [← Multiset.coe_add, add_right_comm]
    exact Multiset.add_le_add_right hs.told
  · rw [add_right_comm, Multiset.mem_add]
    rcases List.mem_append.mp hp with hp | hp
    · exact .inl (hs.heard p hp m' hm' hsilent)
    · exact .inr (Multiset.mem_singleton.mpr (List.mem_singleton.mp hp))

theorem Sound.forget {r : ε} {m : Message κ β} (hs : Sound lane ok s) (hx : s.live x = some i)
    (hm : s.accepted[i.id]? = some m) (hr : r = ok ↔ i.sent = m.bytes.length)
    (hsilent : m.silent = true) : Sound lane ok (s.forget x i r) := by
  refine hs.gone hx hm hr ?_ fun p hp m' hm' hloud => ?_
  · rw [← Multiset.coe_add]
    exact hs.told.trans (Multiset.le_add_right _ _)
  · rcases List.mem_append.mp hp with hp | hp
    · exact hs.heard p hp m' hm' hloud
    · obtain rfl := List.mem_singleton.mp hp
      obtain rfl := Option.some.inj (hm.symm.trans hm')
      rw [hsilent] at hloud
      cases hloud

/-- The segments of other messages on the channel of a message at a site. -/
structure Before (s : State σ κ β ε) (i : Item κ) (m : Message κ β) (pre : List (ℕ × ℕ)) :
    Prop where
  mem : ∀ p, p ∈ pre ↔ p ∈ s.segments i.chan ∧ p.1 ≠ i.id
  nodup : (pre.map Prod.fst).Nodup
  bytes : (s.segments i.chan).flatMap (piece s.accepted) =
    pre.flatMap (piece s.accepted) ++ m.bytes.take i.sent
  extend : ∀ n, extend (s.segments i.chan) i n = pre ++ [(i.id, i.sent + n)]

theorem Sound.before {m : Message κ β} (hs : Sound lane ok s) (hx : s.live x = some i)
    (hm : s.accepted[i.id]? = some m) : ∃ pre, Before s i m pre := by
  by_cases h0 : i.sent = 0
  · refine ⟨s.segments i.chan, fun p => ⟨fun hp => ⟨hp, ?_⟩, And.left⟩, hs.once _, ?_, fun n => ?_⟩
    · intro hid
      have hnot : (i.id, p.2) ∉ s.segments i.chan := hs.not_begun hx h0
      rw [← hid] at hnot
      exact hnot hp
    · rw [h0, List.take_zero, List.append_nil]
    · rw [Outbox.extend, if_pos h0, h0, Nat.zero_add]
  · have hlast := hs.cursor x i hx h0
    have hsplit := List.dropLast_append_getLast? _ hlast
    have honce := hs.once i.chan
    rw [← hsplit, List.map_append, List.nodup_append] at honce
    obtain ⟨hnodup, -, hne⟩ := honce
    refine ⟨(s.segments i.chan).dropLast, fun p => ⟨fun hp => ⟨List.mem_of_mem_dropLast hp, ?_⟩, ?_⟩,
      hnodup, ?_, fun n => if_neg h0⟩
    · exact hne _ (List.mem_map_of_mem hp) _ (List.mem_singleton.mpr rfl)
    · rintro ⟨hp, hid⟩
      rw [← hsplit] at hp
      rcases List.mem_append.mp hp with hp | hp
      · exact hp
      · exact absurd (congrArg Prod.fst (List.mem_singleton.mp hp)) hid
    · conv_lhs => rw [← hsplit]
      simp [List.flatMap_append, piece, hm]

omit [DecidableEq σ] in
/-- A channel that takes more of a message has taken of one message more only if it is the first. -/
theorem Sound.extend_ids (hs : Sound lane ok s) (hx : s.live x = some i)
    (n : ℕ) : (extend (s.segments i.chan) i n).map Prod.fst =
      (s.segments i.chan).map Prod.fst ++ if i.sent = 0 then [i.id] else [] := by
  unfold extend
  split_ifs with h0
  · rw [List.map_append]
    rfl
  · conv_rhs => rw [← List.dropLast_append_getLast? _ (hs.cursor x i hx h0)]
    rw [List.append_nil, List.map_append, List.map_append]
    rfl

theorem Sound.send [DecidableEq κ] {m : Message κ β} {data : List β} (hs : Sound lane ok s)
    (hx : s.live x = some i) (halone : s.Alone lane x i) (hm : s.accepted[i.id]? = some m)
    (hdata : data ≠ []) (hpart : data <+: m.bytes.drop i.sent) :
    Sound lane ok (s.send x i data) := by
  obtain ⟨pre, hpre⟩ := hs.before hx hm
  obtain ⟨m', hm'⟩ := hs.known x i hx
  obtain rfl : m' = m := Option.some.inj (hm'.message.symm.trans hm)
  have hlen : i.sent + data.length ≤ m'.bytes.length := by
    have hle := hpart.length_le
    have := hm'.le
    rw [List.length_drop] at hle
    omega
  have hpos : 0 < data.length := List.length_pos_iff.mpr hdata
  have hlive : ∀ y j, (s.send x i data).live y = some j →
      y = x ∧ j = { i with sent := i.sent + data.length } ∨ y ≠ x ∧ s.live y = some j := by
    intro y j h
    exact (update_some h).imp_left (And.imp_right fun hj => (Option.some.inj hj).symm)
  have hsegments : ∀ c, (s.send x i data).segments c = if c = i.chan then
      pre ++ [(i.id, i.sent + data.length)] else s.segments c := by
    intro c
    by_cases hc : c = i.chan
    · subst hc
      rw [if_pos rfl, ← hpre.extend]
      exact Function.update_self ..
    · rw [if_neg hc]
      exact Function.update_of_ne hc _ _
  have hfate : ∀ {p : ℕ × ℕ} {m'}, p.1 ≠ i.id → Fate ok s p m' →
      Fate ok (s.send x i data) p m' := by
    rintro p m' hp (⟨y, j, hy, hid, hsent⟩ | hleft)
    · have hyx : y ≠ x := by
        rintro rfl
        obtain rfl := Option.some.inj (hx.symm.trans hy)
        exact hp hid.symm
      exact .inl ⟨y, j, (Function.update_of_ne hyx _ _).trans hy, hid, hsent⟩
    · exact .inr hleft
  refine ⟨?_, ?_, hs.bytes, ?_, ?_, ?_, ?_, ?_, ?_, hs.told, hs.heard⟩
  · refine Eq.trans ?_ hs.ids
    exact congrArg (· + _) (total_update_same (by rw [hx]; rfl))
  · intro y j h
    rcases hlive y j h with ⟨-, rfl⟩ | ⟨-, hj⟩
    · exact ⟨m', hm, hm'.chan, hlen⟩
    · exact hs.known y j hj
  · intro y j h hsent z k hz hlane hk
    rcases hlive y j h with ⟨rfl, rfl⟩ | ⟨hy, hj⟩ <;>
      rcases hlive z k hz with ⟨rfl, rfl⟩ | ⟨hz, hk'⟩
    · rfl
    · exact halone z k hk' hlane hk
    · exact (halone y j hj hlane.symm hsent).symm
    · exact hs.alone y j hj hsent z k hk' hlane hk
  · intro y j h hsent
    rw [hsegments]
    rcases hlive y j h with ⟨-, rfl⟩ | ⟨hy, hj⟩
    · rw [if_pos rfl, List.getLast?_concat]
    · have hc : j.chan ≠ i.chan := fun hc => hy (halone y j hj (by rw [hc]) hsent)
      rw [if_neg hc]
      exact hs.cursor y j hj hsent
  · intro c
    rw [hsegments]
    by_cases hc : c = i.chan
    · subst hc
      rw [if_pos rfl, List.flatMap_append]
      have hwire : (s.send x i data).wire i.chan = s.wire i.chan ++ data :=
        Function.update_self ..
      rw [hwire, hs.wire, hpre.bytes, List.append_assoc]
      congr 1
      have hmore : m'.bytes.take (i.sent + data.length) = m'.bytes.take i.sent ++ data := by
        rw [List.take_add, ← List.prefix_iff_eq_take.mp hpart]
      rw [List.flatMap_singleton, ← hmore]
      simp [piece, State.send, hm]
    · rw [if_neg hc, ← show s.wire c = (s.send x i data).wire c from
        (Function.update_of_ne hc _ _).symm]
      exact hs.wire c
  · intro c p hp
    rw [hsegments] at hp
    have hother : p.1 ≠ i.id → p ∈ s.segments c → ∃ m', Segment ok (s.send x i data) c p m' := by
      intro hid hp
      obtain ⟨m', hm'⟩ := hs.segment c p hp
      exact ⟨m', hm'.message, hm'.chan, hm'.pos, hm'.le, hfate hid hm'.fate⟩
    split_ifs at hp with hc
    · subst hc
      rcases List.mem_append.mp hp with hp | hp
      · obtain ⟨hp, hid⟩ := (hpre.mem p).mp hp
        exact hother hid hp
      · obtain rfl := List.mem_singleton.mp hp
        refine ⟨m', hm, hm'.chan, by dsimp only; omega, hlen, .inl ⟨x, _, Function.update_self .., ?_⟩⟩
        exact ⟨rfl, rfl⟩
    · refine hother (fun hid => hc ?_) hp
      obtain ⟨m'', hm''⟩ := hs.segment c p hp
      have hmm : m'' = m' := Option.some.inj (hm''.message.symm.trans (hid ▸ hm))
      rw [← hm''.chan, ← hm'.chan, hmm]
  · intro c
    rw [hsegments]
    split_ifs with hc
    · rw [List.map_append, List.nodup_append]
      refine ⟨hpre.nodup, List.nodup_singleton _, ?_⟩
      intro n hn n' hn'
      obtain ⟨p, hp, rfl⟩ := List.mem_map.mp hn
      rw [List.mem_singleton.mp hn']
      exact ((hpre.mem p).mp hp).2
    · exact hs.once c
  · intro n hn
    obtain ⟨m'', hm'', hdone⟩ := hs.done n hn
    refine ⟨m'', hm'', ?_⟩
    rw [hsegments]
    split_ifs with hc
    · refine List.mem_append.mpr (.inl ((hpre.mem _).mpr ⟨hc ▸ hdone, ?_⟩))
      rintro rfl
      exact hs.live_not_left hx hn
    · exact hdone

variable [DecidableEq κ]

theorem Sound.act (hs : Sound lane ok s) (h : Act lane ok s t) : Sound lane ok t := by
  cases h with
  | accept x m hx hm => exact hs.accept hx hm
  | send x i m data hx halone hm hdata hpart => exact hs.send hx halone hm hdata hpart
  | leave x i m r hx hm hr => exact hs.leave hx hm hr
  | forget x i m r hx hm hr hsilent => exact hs.forget hx hm hr hsilent
  | tell p rest howed => exact hs.tell howed

theorem Sound.acts (hs : Sound lane ok s) (h : Acts lane ok s t) : Sound lane ok t := by
  induction h with
  | refl => exact hs
  | tail _ hact ih => exact ih.act hact

end

/-! ## What grows -/

section

variable {lane : κ → ι} {ok : ε} {s t : State σ κ β ε} [DecidableEq σ] [DecidableEq κ]

theorem Act.accepted (h : Act lane ok s t) : s.accepted <+: t.accepted := by
  cases h with
  | accept x m hx hm => exact List.prefix_append _ _
  | _ => exact List.prefix_rfl

theorem Acts.accepted (h : Acts lane ok s t) : s.accepted <+: t.accepted := by
  induction h with
  | refl => exact List.prefix_rfl
  | tail _ hact ih => exact ih.trans hact.accepted

theorem Act.left (h : Act lane ok s t) : s.left <+: t.left := by
  cases h with
  | leave x i m r hx hm hr => exact List.prefix_append _ _
  | forget x i m r hx hm hr hsilent => exact List.prefix_append _ _
  | _ => exact List.prefix_rfl

theorem Acts.left (h : Acts lane ok s t) : s.left <+: t.left := by
  induction h with
  | refl => exact List.prefix_rfl
  | tail _ hact ih => exact ih.trans hact.left

theorem Act.wire (h : Act lane ok s t) (c : κ) : s.wire c <+: t.wire c := by
  cases h with
  | send x i m data hx halone hm hdata hpart =>
    by_cases hc : c = i.chan
    · subst hc
      have hwire : (s.send x i data).wire i.chan = s.wire i.chan ++ data := Function.update_self ..
      rw [hwire]
      exact List.prefix_append _ data
    · have hwire : (s.send x i data).wire c = s.wire c := Function.update_of_ne hc _ _
      rw [hwire]
  | _ => exact List.prefix_rfl

/-- A channel takes bytes and gives none back. -/
theorem Acts.wire (h : Acts lane ok s t) (c : κ) : s.wire c <+: t.wire c := by
  induction h with
  | refl => exact List.prefix_rfl
  | tail _ hact ih => exact ih.trans (hact.wire c)

variable [Fintype σ] {c : κ} {p : ℕ × ℕ} {pre post : List (ℕ × ℕ)}

/-- The segment of a message that has left stays where it is. -/
theorem Act.past {r : ε} (h : Act lane ok s t) (hs : Sound lane ok s) (hleft : (p.1, r) ∈ s.left)
    (hp : s.segments c = pre ++ p :: post) : ∃ post', t.segments c = pre ++ p :: post' := by
  cases h with
  | send x i m data hx halone hm hdata hpart =>
    by_cases hc : c = i.chan
    · subst hc
      have hsegments : (s.send x i data).segments i.chan =
          extend (s.segments i.chan) i data.length := Function.update_self ..
      rw [hsegments, extend]
      split_ifs with h0
      · exact ⟨post ++ [(i.id, data.length)], by rw [hp, List.append_assoc]; rfl⟩
      · have hlast := hs.cursor x i hx h0
        have hpost : post ≠ [] := by
          rintro rfl
          rw [hp, List.getLast?_concat] at hlast
          obtain rfl := Option.some.inj hlast
          exact hs.live_not_left hx hleft
        refine ⟨post.dropLast ++ [(i.id, i.sent + data.length)], ?_⟩
        rw [hp, List.dropLast_append_of_ne_nil (List.cons_ne_nil p post),
          List.dropLast_cons_of_ne_nil hpost, List.append_assoc]
        rfl
    · exact ⟨post, (Function.update_of_ne hc _ _).trans hp⟩
  | _ => exact ⟨post, hp⟩

theorem Acts.past {r : ε} (h : Acts lane ok s t) (hs : Sound lane ok s)
    (hleft : (p.1, r) ∈ s.left) (hp : s.segments c = pre ++ p :: post) :
    ∃ post', t.segments c = pre ++ p :: post' := by
  induction h with
  | refl => exact ⟨post, hp⟩
  | tail hacts hact ih =>
    obtain ⟨post', hpost'⟩ := ih
    exact hact.past (hs.acts hacts) ((Acts.left hacts).subset hleft) hpost'

/-- The bytes of the segments do not change when more messages are accepted. -/
theorem Acts.pieces (h : Acts lane ok s t) (hs : Sound lane ok s)
    (hsame : t.segments c = s.segments c) : t.wire c = s.wire c := by
  rw [(hs.acts h).wire, hs.wire, hsame]
  refine List.flatMap_congr fun q hq => ?_
  obtain ⟨m, hm⟩ := hs.segment c q hq
  obtain ⟨b, hb⟩ := h.accepted
  unfold piece
  rw [← hb, List.getElem?_append_left hm.lt]

end

end EspVision.Outbox
