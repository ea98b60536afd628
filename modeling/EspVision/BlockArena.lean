import EspVision.ByteMedium
import Mathlib.Data.Fintype.Card

/-!
# An arena of equal blocks

A bit map says which blocks of the arena are free. An allocation claims the lowest free blocks one
after the other and gives them back when there are too few; what is stored lies in the blocks in
the order of their list. The bit map is compared with the set of free blocks that it stands for.
-/
namespace EspVision.BlockArena

open ByteMedium

variable {n : ℕ}

/-! ## The bit map -/

/-- The bit of the block is set. -/
def isFree (m : BitVec n) (b : Fin n) : Bool := m.getLsbD b

def claim (m : BitVec n) (b : Fin n) : BitVec n := m &&& ~~~(1#n <<< b.val)

def give (m : BitVec n) (b : Fin n) : BitVec n := m ||| (1#n <<< b.val)

/-- Give back the blocks of a list. -/
def release (m : BitVec n) (blocks : List (Fin n)) : BitVec n := blocks.foldl give m

/-- The blocks whose bit is set. -/
def free (m : BitVec n) : Finset (Fin n) := Finset.univ.filter fun b => isFree m b = true

variable {m m' : BitVec n} {b : Fin n} {blocks found bs : List (Fin n)} {needed : ℕ}

@[simp] theorem mem_free : b ∈ free m ↔ isFree m b = true := by simp [free]

theorem free_inj : free m = free m' ↔ m = m' := by
  constructor
  · intro h
    refine BitVec.eq_of_getLsbD_eq fun i hi => ?_
    have hb : (⟨i, hi⟩ : Fin n) ∈ free m ↔ ⟨i, hi⟩ ∈ free m' := by rw [h]
    rw [mem_free, mem_free] at hb
    exact Bool.eq_iff_iff.mpr hb
  · rintro rfl
    rfl

theorem isFree_claim (c : Fin n) : isFree (claim m b) c = (isFree m c && decide (c ≠ b)) := by
  have hc := c.isLt
  by_cases h : c = b
  · subst h
    simp [isFree, claim, hc]
  · have hne : c.val ≠ b.val := fun he => h (Fin.ext he)
    by_cases hlt : c.val < b.val
    · simp [isFree, claim, h, hc, hlt]
    · have hone : c.val - b.val ≠ 0 := by omega
      simp [isFree, claim, h, hc, hlt, hone]

theorem isFree_give (c : Fin n) : isFree (give m b) c = (isFree m c || decide (c = b)) := by
  have hc := c.isLt
  by_cases h : c = b
  · subst h
    simp [isFree, give, hc]
  · have hne : c.val ≠ b.val := fun he => h (Fin.ext he)
    by_cases hlt : c.val < b.val
    · simp [isFree, give, h, hlt]
    · have hone : c.val - b.val ≠ 0 := by omega
      simp [isFree, give, h, hc, hlt, hone]

@[simp] theorem free_claim : free (claim m b) = (free m).erase b := by
  ext c
  simp [isFree_claim, and_comm]

@[simp] theorem free_give : free (give m b) = insert b (free m) := by
  ext c
  simp [isFree_give, or_comm]

@[simp] theorem free_release : free (release m blocks) = free m ∪ blocks.toFinset := by
  induction blocks generalizing m with
  | nil => simp [release]
  | cons b bs ih =>
    have hrest : free (release m (b :: bs)) = free (give m b) ∪ bs.toFinset := ih
    rw [hrest, free_give]
    ext c
    simp only [Finset.mem_union, Finset.mem_insert, List.mem_toFinset, List.mem_cons]
    tauto

@[simp] theorem free_allOnes : free (BitVec.allOnes n) = Finset.univ := by
  ext b
  simp [isFree]

/-! ## Allocation -/

/-- Go through the blocks and claim the free ones until there are `needed`. -/
def scan (needed : ℕ) : List (Fin n) → BitVec n → List (Fin n) → BitVec n × List (Fin n)
  | [], m, found => (m, found)
  | b :: bs, m, found =>
    if found.length < needed then
      if isFree m b then scan needed bs (claim m b) (found ++ [b]) else scan needed bs m found
    else (m, found)

/-- Claim `needed` blocks; too few are given back. -/
def allocate (m : BitVec n) (needed : ℕ) : BitVec n × Option (List (Fin n)) :=
  let r := scan needed (List.finRange n) m []
  if r.2.length = needed then (r.1, some r.2) else (release r.1 r.2, none)

/-- What a scan has claimed so far, out of the free blocks `s` that there were. -/
structure Claimed (s : Finset (Fin n)) (needed : ℕ) (m : BitVec n) (found : List (Fin n)) :
    Prop where
  nodup : found.Nodup
  within : found.toFinset ⊆ s
  rest : free m = s \ found.toFinset
  few : found.length ≤ needed

theorem Claimed.add {s : Finset (Fin n)} (h : Claimed s needed m found)
    (hlt : found.length < needed) (hb : isFree m b = true) :
    Claimed s needed (claim m b) (found ++ [b]) := by
  have hmem : b ∈ s \ found.toFinset := by rw [← h.rest]; exact mem_free.mpr hb
  rw [Finset.mem_sdiff, List.mem_toFinset] at hmem
  refine ⟨?_, ?_, ?_, ?_⟩
  · exact h.nodup.append (List.nodup_singleton b) (by simpa using hmem.2)
  · intro c hc
    rcases List.mem_append.mp (List.mem_toFinset.mp hc) with hc | hc
    · exact h.within (List.mem_toFinset.mpr hc)
    · rw [List.mem_singleton.mp hc]
      exact hmem.1
  · rw [free_claim, h.rest]
    ext c
    simp only [Finset.mem_erase, Finset.mem_sdiff, List.mem_toFinset, List.mem_append,
      List.mem_singleton]
    tauto
  · rw [List.length_append, List.length_singleton]
    omega

/-- A scan stops with enough blocks, or has left none of its list free. -/
theorem scan_claimed (bs : List (Fin n)) {s : Finset (Fin n)} (h : Claimed s needed m found) :
    Claimed s needed (scan needed bs m found).1 (scan needed bs m found).2 ∧
      ((scan needed bs m found).2.length = needed ∨
        free (scan needed bs m found).1 = free m \ bs.toFinset) := by
  induction bs generalizing m found with
  | nil => simpa [scan] using h
  | cons b bs ih =>
    unfold scan
    split_ifs with hlt hb
    · obtain ⟨hc, hend⟩ := ih (h.add hlt hb)
      refine ⟨hc, hend.imp_right fun he => ?_⟩
      rw [he, free_claim]
      ext c
      simp only [Finset.mem_sdiff, Finset.mem_erase, List.mem_toFinset, List.mem_cons]
      tauto
    · obtain ⟨hc, hend⟩ := ih h
      refine ⟨hc, hend.imp_right fun he => ?_⟩
      rw [he]
      ext c
      simp only [Finset.mem_sdiff, List.mem_toFinset, List.mem_cons, mem_free]
      constructor
      · rintro ⟨hfree, hc⟩
        refine ⟨hfree, fun hor => hor.elim (fun he => ?_) hc⟩
        exact hb (he ▸ hfree)
      · rintro ⟨hfree, hc⟩
        exact ⟨hfree, fun hm => hc (.inr hm)⟩
    · exact ⟨h, .inl (le_antisymm h.few (Nat.le_of_not_lt hlt))⟩

/-- What an allocation gives: distinct blocks that were free and no longer are. -/
structure Allocated (m : BitVec n) (needed : ℕ) (m' : BitVec n) (blocks : List (Fin n)) :
    Prop where
  nodup : blocks.Nodup
  length : blocks.length = needed
  within : blocks.toFinset ⊆ free m
  rest : free m' = free m \ blocks.toFinset

theorem allocate_some (h : allocate m needed = (m', some blocks)) :
    Allocated m needed m' blocks := by
  have h0 : Claimed (free m) needed m [] := ⟨List.nodup_nil, by simp, by simp, by simp⟩
  obtain ⟨hc, -⟩ := scan_claimed (List.finRange n) h0
  unfold allocate at h
  dsimp only at h
  split_ifs at h with hlen
  · obtain ⟨rfl, hb⟩ := Prod.mk.inj h
    obtain rfl := Option.some.inj hb
    exact ⟨hc.nodup, hlen, hc.within, hc.rest⟩
  · cases (Prod.mk.inj h).2

/-- What was allocated and what is still free is what was free. -/
theorem Allocated.add_free (h : Allocated m needed m' blocks) :
    (blocks : Multiset (Fin n)) + (free m').val = (free m).val := by
  have hsub : (blocks : Multiset (Fin n)) ≤ (free m).val :=
    (Multiset.le_iff_subset (Multiset.coe_nodup.mpr h.nodup)).mpr fun b hb =>
      h.within (List.mem_toFinset.mpr hb)
  have hval : (blocks : Multiset (Fin n)) = blocks.toFinset.val := by
    rw [List.toFinset_val, h.nodup.dedup]
  rw [h.rest, Finset.sdiff_val, ← hval, add_comm]
  exact tsub_add_cancel_of_le hsub

/-- Blocks that are given back are free again. -/
theorem release_add_free (h : ((blocks : Multiset (Fin n)) + (free m).val).Nodup) :
    (free (release m blocks)).val = blocks + (free m).val := by
  obtain ⟨hb, -, hd⟩ := Multiset.nodup_add.mp h
  have hval : (blocks : Multiset (Fin n)) = blocks.toFinset.val := by
    rw [List.toFinset_val, (Multiset.coe_nodup.mp hb).dedup]
  refine (Multiset.Nodup.ext (Finset.nodup _) h).mpr fun b => ?_
  rw [Finset.mem_val, free_release, Multiset.mem_add, hval]
  simp [or_comm]

/-- An allocation that fails leaves the map as it was, and there were too few free blocks. -/
theorem allocate_none (h : allocate m needed = (m', none)) :
    m' = m ∧ (free m).card < needed := by
  have h0 : Claimed (free m) needed m [] := ⟨List.nodup_nil, by simp, by simp, by simp⟩
  obtain ⟨hc, hend⟩ := scan_claimed (List.finRange n) h0
  unfold allocate at h
  dsimp only at h
  split_ifs at h with hlen
  · cases (Prod.mk.inj h).2
  · obtain ⟨rfl, -⟩ := Prod.mk.inj h
    set r := scan needed (List.finRange n) m []
    refine ⟨?_, ?_⟩
    · rw [← free_inj, free_release, hc.rest]
      exact Finset.sdiff_union_of_subset hc.within
    · have hnone : free r.1 = ∅ := by
        rcases hend with he | he
        · exact absurd he hlen
        · rw [he]
          ext b
          simp
      have hall : free m ⊆ r.2.toFinset := by
        rw [← Finset.sdiff_eq_empty_iff_subset, ← hc.rest, hnone]
      have hcard := Finset.card_le_card hall
      have hle := List.toFinset_card_le r.2
      have hfew := hc.few
      omega

/-- An allocation succeeds exactly when there are enough free blocks. -/
theorem allocate_isSome_iff : (allocate m needed).2.isSome ↔ needed ≤ (free m).card := by
  rcases h : allocate m needed with ⟨m', _ | blocks⟩
  · have hlt := (allocate_none h).2
    simp only [Option.isSome_none, Bool.false_eq_true, false_iff]
    omega
  · have ha := allocate_some h
    have hcard := Finset.card_le_card ha.within
    rw [List.toFinset_card_of_nodup ha.nodup, ha.length] at hcard
    simpa using hcard

/-! ## What the blocks hold -/

section Storage

variable {β : Type*}

/-- The number of the block that has position `k` in the list. -/
def blockAt (blocks : List (Fin n)) (k : ℕ) : ℕ := (blocks[k]?.map Fin.val).getD 0

/-- Where the cell `i` of what the blocks hold lies in the arena. -/
def address (size : ℕ) (blocks : List (Fin n)) (i : ℕ) : ℕ :=
  blockAt blocks (i / size) * size + i % size

/-- Copy the source into the blocks, up to the end of a block at a time; the number of passes is
bounded by what is left to copy. -/
def copyLoop (size : ℕ) (blocks : List (Fin n)) (source : List β) :
    ℕ → ℕ → (ℕ → β) → ℕ → β
  | 0, _, mem => mem
  | fuel + 1, done, mem =>
    if done < source.length then
      let chunk := min (size - done % size) (source.length - done)
      copyLoop size blocks source fuel (done + chunk)
        (put (address size blocks done) ((source.drop done).take chunk) mem)
    else mem

def copyIn (size : ℕ) (blocks : List (Fin n)) (source : List β) (mem : ℕ → β) : ℕ → β :=
  copyLoop size blocks source source.length 0 mem

/-- The cells from `offset` on that lie one behind the other, up to the end of the block or of
the `len` cells. -/
def slice (size : ℕ) (blocks : List (Fin n)) (len offset : ℕ) (mem : ℕ → β) : List β :=
  window mem (address size blocks offset) (min (size - offset % size) (len - offset))

/-- The blocks hold the source. -/
def Holds (size : ℕ) (mem : ℕ → β) (blocks : List (Fin n)) (source : List β) : Prop :=
  ∀ i (h : i < source.length), mem (address size blocks i) = source[i]

variable {size fuel done len offset i j : ℕ} {source : List β} {mem : ℕ → β}
  {other : List (Fin n)}

theorem blockAt_of_lt {k : ℕ} (h : k < blocks.length) : blockAt blocks k = (blocks[k]).val := by
  simp [blockAt, h]

/-- The cells of one block lie one behind the other. -/
theorem address_add (blocks : List (Fin n)) {k : ℕ} (hk : k < size - done % size) :
    address size blocks (done + k) = address size blocks done + k := by
  have hsize : 0 < size := by omega
  have hlt : done % size + k < size := by omega
  have hmod : (done + k) % size = done % size + k := by
    rw [Nat.add_mod, Nat.mod_eq_of_lt (show k < size by omega), Nat.mod_eq_of_lt hlt]
  have hdiv : (done + k) / size = done / size := by
    have hd := Nat.div_add_mod done size
    have hk := Nat.div_add_mod (done + k) size
    rw [hmod] at hk
    exact Nat.eq_of_mul_eq_mul_left hsize (by omega)
  unfold address
  rw [hmod, hdiv]
  omega

/-- A cell lies in its own block. -/
theorem address_div (hsize : 0 < size) :
    address size blocks i / size = blockAt blocks (i / size) := by
  unfold address
  rw [Nat.mul_comm, Nat.mul_add_div hsize, Nat.div_eq_of_lt (Nat.mod_lt i hsize), Nat.add_zero]

theorem address_mod (blocks : List (Fin n)) : address size blocks i % size = i % size := by
  unfold address
  rw [Nat.mul_comm, Nat.mul_add_mod, Nat.mod_mod]

/-- Distinct blocks have distinct cells. -/
theorem address_inj (hb : blocks.Nodup) (hsize : 0 < size) (hi : i < blocks.length * size)
    (hj : j < blocks.length * size) (h : address size blocks i = address size blocks j) :
    i = j := by
  have hik : i / size < blocks.length := Nat.div_lt_of_lt_mul (by rwa [Nat.mul_comm])
  have hjk : j / size < blocks.length := Nat.div_lt_of_lt_mul (by rwa [Nat.mul_comm])
  have hmod : i % size = j % size := by
    rw [← address_mod blocks, h, address_mod]
  have hdiv : blockAt blocks (i / size) = blockAt blocks (j / size) := by
    rw [← address_div hsize, h, address_div hsize]
  rw [blockAt_of_lt hik, blockAt_of_lt hjk] at hdiv
  have hpos : i / size = j / size :=
    (List.Nodup.getElem_inj_iff hb).mp (Fin.ext hdiv)
  rw [← Nat.div_add_mod i size, ← Nat.div_add_mod j size, hmod, hpos]

/-- Disjoint lists of blocks have no cell in common. -/
theorem address_ne (hd : blocks.Disjoint other) (hsize : 0 < size)
    (hi : i < blocks.length * size) (hj : j < other.length * size) :
    address size blocks i ≠ address size other j := by
  intro h
  have hik : i / size < blocks.length := Nat.div_lt_of_lt_mul (by rwa [Nat.mul_comm])
  have hjk : j / size < other.length := Nat.div_lt_of_lt_mul (by rwa [Nat.mul_comm])
  have hdiv : blockAt blocks (i / size) = blockAt other (j / size) := by
    rw [← address_div hsize, h, address_div hsize]
  rw [blockAt_of_lt hik, blockAt_of_lt hjk] at hdiv
  have he : blocks[i / size] = other[j / size] := Fin.ext hdiv
  exact hd (List.getElem_mem hik) (he ▸ List.getElem_mem hjk)

/-- A copy changes no cell but those of what is left to copy. -/
theorem copyLoop_outside {a : ℕ}
    (h : ∀ i, done ≤ i → i < source.length → address size blocks i ≠ a) :
    copyLoop size blocks source fuel done mem a = mem a := by
  induction fuel generalizing done mem with
  | zero => rfl
  | succ fuel ih =>
    unfold copyLoop
    split_ifs with hlt
    · rw [ih fun i hi hlen => h i (by omega) hlen]
      refine put_outside ?_
      by_contra hin
      rw [List.length_take, List.length_drop] at hin
      have hk : a - address size blocks done < size - done % size := by omega
      have ha := address_add blocks hk
      exact h _ (by omega) (by omega) (ha.trans (by omega))
    · rfl

/-- A copy puts every cell where it belongs. -/
theorem copyLoop_inside (hb : blocks.Nodup) (hsize : 0 < size)
    (hlen : source.length ≤ blocks.length * size) (hfuel : source.length ≤ done + fuel)
    (hi : i < source.length) (hdone : done ≤ i) :
    copyLoop size blocks source fuel done mem (address size blocks i) = source[i] := by
  induction fuel generalizing done mem with
  | zero => omega
  | succ fuel ih =>
    unfold copyLoop
    rw [if_pos (by omega)]
    have hmod := Nat.mod_lt done hsize
    set chunk := min (size - done % size) (source.length - done)
    by_cases hin : done + chunk ≤ i
    · exact ih (by omega) hin
    · obtain ⟨k, rfl⟩ := Nat.exists_eq_add_of_le hdone
      have haddr : address size blocks (done + k) = address size blocks done + k :=
        address_add _ (by omega)
      rw [copyLoop_outside, haddr, put_inside (by omega)]
      · simp only [Nat.add_sub_cancel_left, List.getElem_take, List.getElem_drop]
      · rw [List.length_take, List.length_drop]
        omega
      · intro j hj hjlen he
        have := address_inj hb hsize (by omega) (by omega) he
        omega

theorem copyIn_holds (hb : blocks.Nodup) (hsize : 0 < size)
    (hlen : source.length ≤ blocks.length * size) :
    Holds size (copyIn size blocks source mem) blocks source :=
  fun _ hi => copyLoop_inside hb hsize hlen (by omega) hi (Nat.zero_le _)

/-- What other blocks hold survives a copy. -/
theorem Holds.copyIn {data : List β} (h : Holds size mem other data)
    (hd : blocks.Disjoint other) (hsize : 0 < size) (hlen : source.length ≤ blocks.length * size)
    (hdata : data.length ≤ other.length * size) :
    Holds size (copyIn size blocks source mem) other data := by
  intro i hi
  rw [← h i hi]
  exact copyLoop_outside fun j _ hj => address_ne hd hsize (by omega) (by omega)

/-- A slice of what the blocks hold is a slice of the source. -/
theorem Holds.slice (h : Holds size mem blocks source) :
    slice size blocks source.length offset mem =
      (source.drop offset).take (size - offset % size) := by
  refine List.ext_getElem ?_ fun k hk _ => ?_
  · simp [BlockArena.slice]
  · have hkl : k < min (size - offset % size) (source.length - offset) := by
      simpa [BlockArena.slice] using hk
    have hget : (BlockArena.slice size blocks source.length offset mem)[k]? =
        some (mem (address size blocks offset + k)) := window_getElem? hkl
    rw [List.getElem?_eq_getElem hk] at hget
    rw [Option.some.inj hget, ← address_add _ (by omega), h _ (by omega)]
    simp only [List.getElem_take, List.getElem_drop]

end Storage

end EspVision.BlockArena
