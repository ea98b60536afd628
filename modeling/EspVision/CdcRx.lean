import EspVision.RingBuffer

/-!
# The CDC receive ring (`ev_cdc_rx.h`)

Each byte in the ring carries the generation of the bus under which it came in. The filter keeps
the bytes of one generation, in place; a change of the bus moves to the next generation, and the
last one does not wrap.
-/
namespace EspVision.EvCdcRx
open RingBuffer

variable {α γ : Type*}

def UINT32_MAX : UInt32 := 0xFFFFFFFF

/-- `ev_cdc_rx_state_t`. -/
structure State where
  generation : UInt32
  mounted : Bool
  mountSeen : Bool
  dtr : Bool
  valid : Bool
  deriving DecidableEq

/-- `ev_cdc_rx_event_t`. -/
structure Event where
  changed : Bool := false
  fell : Bool := false
  rose : Bool := false
  valid : Bool := false
  generation : UInt32 := 0
  deriving DecidableEq

def advanceGeneration (state : State) : State :=
  if state.valid then
    if state.generation = UINT32_MAX then { state with valid := false }
    else { state with generation := state.generation + 1 }
  else state

/-- The caller's flush callback, which may be absent. -/
def runFlush (flush : Option (γ → γ)) (context : γ) : γ := flush.elim context (· context)

def busMount (state : State) (flush : Option (γ → γ)) (context : γ) : State × γ × Event :=
  let state := if state.mountSeen then advanceGeneration state else state
  let state := { state with mountSeen := true, mounted := true }
  (state, runFlush flush context,
    { changed := true, rose := true, valid := state.valid, generation := state.generation })

def busUnmount (state : State) (flush : Option (γ → γ)) (context : γ) : State × γ × Event :=
  let changed := state.mounted
  let state := if changed then advanceGeneration state else state
  let state := { state with mounted := false }
  (state, runFlush flush context,
    { changed := changed, fell := changed, valid := state.valid, generation := state.generation })

def busState (state : State) (mounted : Bool) (flush : Option (γ → γ)) (context : γ) :
    State × γ × Event :=
  if mounted = state.mounted then
    (state, context, { valid := state.valid, generation := state.generation })
  else if mounted then busMount state flush context
  else busUnmount state flush context

def dtrUpdate (state : State) (dtr : Bool) : State × Bool :=
  ({ state with dtr := dtr }, state.dtr && !dtr)

def restart (state : State) (flush : Option (γ → γ)) (context : γ) : State × γ × Bool :=
  if !state.valid ∨ state.generation = UINT32_MAX then
    ({ state with valid := false }, context, false)
  else ({ state with generation := state.generation + 1 }, runFlush flush context, true)

/-! ## The ring -/

/-- The two arrays of the ring, its size and its two indices, which are 16 bits wide. -/
structure Ring (α : Type*) where
  buffer : ℕ → α
  tags : ℕ → UInt32
  size : ℕ
  iget : ℕ
  iput : ℕ

def ringNext (index size : ℕ) : ℕ :=
  let next := index + 1
  (if next = size then 0 else next) % 2 ^ 16

def ringPut (r : Ring α) (value : α) (generation : UInt32) : Ring α × Bool :=
  if r.size < 2 ∨ generation = 0 ∨ r.iget ≥ r.size ∨ r.iput ≥ r.size then (r, false)
  else
    let next := ringNext r.iput r.size
    if next = r.iget then (r, false)
    else
      ({ r with
          buffer := Function.update r.buffer r.iput value
          tags := Function.update r.tags r.iput generation
          iput := next }, true)

/-- The loop of the filter, from `read` to `stop`; `none` is a loop that has not ended. -/
def filterLoop (keepGeneration : Bool) (generation : UInt32) (stop : ℕ) :
    ℕ → Ring α → ℕ → ℕ → ℕ → Option (Ring α × ℕ × ℕ)
  | 0, _, _, _, _ => none
  | fuel + 1, r, read, write, kept =>
    if read = stop then some (r, write, kept)
    else
      let next := ringNext read r.size
      if keepGeneration ∧ r.tags read = generation then
        let r := if write ≠ read then
            { r with
              buffer := Function.update r.buffer write (r.buffer read)
              tags := Function.update r.tags write (r.tags read) }
          else r
        filterLoop keepGeneration generation stop fuel r next (ringNext write r.size) (kept + 1)
      else filterLoop keepGeneration generation stop fuel r next write kept

def ringFilter (r : Ring α) (keepGeneration : Bool) (generation : UInt32) :
    Option (Ring α × ℕ) :=
  if r.size < 2 ∨ r.iget ≥ r.size ∨ r.iput ≥ r.size ∨ (keepGeneration ∧ generation = 0) then
    some (r, 0)
  else
    (filterLoop keepGeneration generation r.iput r.size r r.iget r.iget 0).map
      fun (r, write, kept) => ({ r with iput := write }, kept)

/-- A ring of 2 to 65536 cells, its indices anywhere. -/
structure Ring.WellFormed (r : Ring α) : Prop where
  two_le : 2 ≤ r.size
  size_le : r.size ≤ 65536
  iget_lt : r.iget < r.size
  iput_lt : r.iput < r.size

/-- What the cells hold. -/
def Ring.cells (r : Ring α) (i : ℕ) : α × UInt32 := (r.buffer i, r.tags i)

/-- The bytes and their tags from the read to the write index. -/
def Ring.pairs (r : Ring α) : List (α × UInt32) := contents r.size r.cells r.iget r.iput

theorem ringNext_eq {i size : ℕ} (hsize : size ≤ 65536) (hi : i < size) :
    ringNext i size = next size i := by
  rw [next_eq hi]
  simp only [ringNext]
  split_ifs with he
  · rfl
  · exact Nat.mod_eq_of_lt (by omega)

/-- Writing both arrays in one place. -/
lemma cells_update (r : Ring α) (i : ℕ) (value : α) (generation : UInt32) (iput : ℕ) :
    Ring.cells { r with
      buffer := Function.update r.buffer i value
      tags := Function.update r.tags i generation
      iput := iput } = Function.update r.cells i (value, generation) := by
  funext j
  unfold Ring.cells
  by_cases hj : j = i
  · subst hj
    simp
  · simp [hj]

/-- `put` appends while two cells at least are free. -/
theorem ringPut_spec {r : Ring α} (h : r.WellFormed) (value : α) {generation : UInt32}
    (hg : generation ≠ 0) :
    (ringPut r value generation).1.WellFormed ∧
      (ringPut r value generation).1.iget = r.iget ∧
      (ringPut r value generation).1.size = r.size ∧
      (ringPut r value generation).2 = decide (r.pairs.length < r.size - 1) ∧
      (ringPut r value generation).1.pairs =
        if r.pairs.length < r.size - 1 then r.pairs ++ [(value, generation)] else r.pairs := by
  obtain ⟨htwo, hsize, hget, hput⟩ := h
  have hbad : ¬(r.size < 2 ∨ generation = 0 ∨ r.iget ≥ r.size ∨ r.iput ≥ r.size) := by
    simp only [not_or]
    exact ⟨by omega, hg, by omega, by omega⟩
  have hlen : r.pairs.length = used r.size r.iget r.iput := length_contents _
  have hfree := used_add_free hget hput
  unfold ringPut
  simp only [if_neg hbad, ringNext_eq hsize hput]
  by_cases hfull : next r.size r.iput = r.iget
  · have hnot : ¬r.pairs.length < r.size - 1 := by
      rw [hlen, used_eq hget hput]
      rw [next_eq hput] at hfull
      split_ifs at hfull ⊢ <;> omega
    rw [if_pos hfull, if_neg hnot]
    exact ⟨⟨htwo, hsize, hget, hput⟩, rfl, rfl, by simp [hnot], rfl⟩
  · have hroom : r.pairs.length < r.size - 1 := by
      have hmore := used_next_tail hget hput hfull
      have hlt := used_lt hget (next_lt (by omega) r.iput)
      omega
    rw [if_neg hfull, if_pos hroom]
    refine ⟨⟨htwo, hsize, hget, next_lt (by omega) _⟩, rfl, rfl, by simp [hroom], ?_⟩
    unfold Ring.pairs
    rw [cells_update]
    exact contents_push hget hput hfull r.cells (value, generation)

/-- Whether the filter keeps a byte. -/
def keeps (keepGeneration : Bool) (generation : UInt32) (p : α × UInt32) : Bool :=
  keepGeneration && p.2 == generation

/-- The loop has read `k` of the `n` cells and kept `j` of them. -/
theorem filterLoop_spec (keepGeneration : Bool) (generation : UInt32) {h n : ℕ} :
    ∀ (fuel : ℕ) {j k : ℕ} {r : Ring α} (kept : ℕ), n < r.size → r.size ≤ 65536 → j ≤ k → k ≤ n →
      n - k < fuel → ∃ r' j',
      filterLoop keepGeneration generation ((h + n) % r.size) fuel r ((h + k) % r.size)
        ((h + j) % r.size) kept = some (r', (h + j') % r.size, kept + (j' - j)) ∧
      j ≤ j' ∧ j' ≤ n ∧ r'.size = r.size ∧ r'.iget = r.iget ∧ r'.iput = r.iput ∧
      window r.size r'.cells h j' = window r.size r.cells h j ++
        (window r.size r.cells (h + k) (n - k)).filter (keeps keepGeneration generation)
  | 0, _, _, _, _, _, _, _, _, hfuel => absurd hfuel (Nat.not_lt_zero _)
  | fuel + 1, j, k, r, kept, hn, hsize, hjk, hkn, hfuel => by
    have hpos : 0 < r.size := by omega
    unfold filterLoop
    by_cases hend : k = n
    · subst hend
      rw [if_pos rfl]
      exact ⟨r, j, by simp, le_refl j, hjk, rfl, rfl, rfl, by simp [window]⟩
    have hne : (h + k) % r.size ≠ (h + n) % r.size :=
      (mod_ne_of_lt (by omega) (by omega)).symm
    have hread : ringNext ((h + k) % r.size) r.size = (h + (k + 1)) % r.size := by
      rw [ringNext_eq hsize (Nat.mod_lt _ hpos), next_mod, Nat.add_assoc]
    have hwrite : ringNext ((h + j) % r.size) r.size = (h + (j + 1)) % r.size := by
      rw [ringNext_eq hsize (Nat.mod_lt _ hpos), next_mod, Nat.add_assoc]
    have hrest : window r.size r.cells (h + k) (n - k) =
        r.cells ((h + k) % r.size) :: window r.size r.cells (h + (k + 1)) (n - (k + 1)) := by
      have hone : n - k = n - (k + 1) + 1 := by omega
      rw [hone, window_cons, Nat.add_assoc]
    rw [if_neg hne, hread]
    by_cases hkeep : keepGeneration = true ∧ r.tags ((h + k) % r.size) = generation
    · -- the cell that was read is stored behind the cells kept
      have htrue : keeps keepGeneration generation (r.cells ((h + k) % r.size)) = true := by
        simp [keeps, Ring.cells, hkeep]
      set x := r.cells ((h + k) % r.size) with hx
      have hcells : ∃ r₁ : Ring α, (if (h + j) % r.size ≠ (h + k) % r.size then
            { r with
              buffer := Function.update r.buffer ((h + j) % r.size)
                (r.buffer ((h + k) % r.size))
              tags := Function.update r.tags ((h + j) % r.size) (r.tags ((h + k) % r.size)) }
          else r) = r₁ ∧ r₁.cells = Function.update r.cells ((h + j) % r.size) x ∧
          r₁.size = r.size ∧ r₁.iget = r.iget ∧ r₁.iput = r.iput := by
        split_ifs with hmove
        · exact ⟨_, rfl, cells_update r _ _ _ r.iput, rfl, rfl, rfl⟩
        · have hsame : (h + j) % r.size = (h + k) % r.size := not_not.mp hmove
          exact ⟨r, rfl, by rw [hx, ← hsame, Function.update_eq_self], rfl, rfl, rfl⟩
      obtain ⟨r₁, hr₁, hc₁, hs₁, hg₁, hp₁⟩ := hcells
      simp only [if_pos hkeep]
      rw [hr₁, hs₁, hwrite]
      obtain ⟨r', j', hloop, hj, hj', hs, hg, hp, hwin⟩ :=
        filterLoop_spec keepGeneration generation fuel (h := h) (n := n) (j := j + 1) (k := k + 1)
          (r := r₁) (kept + 1) (by omega) (by omega) (by omega) (by omega) (by omega)
      rw [hs₁] at hloop hwin hs
      refine ⟨r', j', ?_, by omega, hj', hs, hg.trans hg₁, hp.trans hp₁, ?_⟩
      · rw [hloop]
        have hcount : kept + 1 + (j' - (j + 1)) = kept + (j' - j) := by omega
        rw [hcount]
      · rw [hwin, hc₁, window_update_snoc _ _ (by omega),
          window_update_before _ _ (by omega) (by omega), hrest, List.filter_cons, if_pos htrue,
          List.append_assoc, List.singleton_append]
    · have hfalse : ¬keeps keepGeneration generation (r.cells ((h + k) % r.size)) = true := by
        simpa [keeps, Ring.cells] using hkeep
      simp only [if_neg hkeep]
      obtain ⟨r', j', hloop, hj, hj', hs, hg, hp, hwin⟩ :=
        filterLoop_spec keepGeneration generation fuel (h := h) (n := n) (j := j) (k := k + 1)
          (r := r) kept hn hsize (by omega) (by omega) (by omega)
      exact ⟨r', j', hloop, hj, hj', hs, hg, hp, by
        rw [hwin, hrest, List.filter_cons, if_neg hfalse]⟩

/-- The filter keeps the bytes of one generation, in order, behind an unchanged read index. -/
theorem ringFilter_spec {r : Ring α} (h : r.WellFormed) (keepGeneration : Bool)
    {generation : UInt32} (hg : keepGeneration = true → generation ≠ 0) :
    ∃ r' kept, ringFilter r keepGeneration generation = some (r', kept) ∧ r'.WellFormed ∧
      r'.iget = r.iget ∧ r'.size = r.size ∧
      r'.pairs = r.pairs.filter (keeps keepGeneration generation) ∧ kept = r'.pairs.length := by
  obtain ⟨htwo, hsize, hget, hput⟩ := h
  have hbad : ¬(r.size < 2 ∨ r.iget ≥ r.size ∨ r.iput ≥ r.size ∨
      (keepGeneration = true ∧ generation = 0)) := by
    simp only [not_or]
    exact ⟨by omega, by omega, by omega, fun hk => hg hk.1 hk.2⟩
  have hn := used_lt hget hput
  obtain ⟨r', j, hloop, -, hj, hs, hgr, -, hwin⟩ :=
    filterLoop_spec keepGeneration generation r.size (h := r.iget)
      (n := used r.size r.iget r.iput) (j := 0) (k := 0) (r := r) 0 hn hsize le_rfl
      (Nat.zero_le _) (by omega)
  have hzero : (r.iget + 0) % r.size = r.iget := Nat.mod_eq_of_lt hget
  rw [head_add_used hget hput, hzero] at hloop
  have hpairs : contents r.size r'.cells r.iget ((r.iget + j) % r.size) =
      r.pairs.filter (keeps keepGeneration generation) := by
    unfold contents
    rw [used_add hget (by omega), hwin]
    simp [window, Ring.pairs, contents]
  have hlen := congrArg List.length hpairs
  rw [length_contents, used_add hget (by omega)] at hlen
  have hkept : Ring.pairs { r' with iput := (r.iget + j) % r.size } =
      r.pairs.filter (keeps keepGeneration generation) := by
    change contents r'.size r'.cells r'.iget ((r.iget + j) % r.size) = _
    rw [hs, hgr, hpairs]
  refine ⟨{ r' with iput := (r.iget + j) % r.size }, j, ?_, ⟨?_, ?_, ?_, ?_⟩, hgr, hs, hkept, ?_⟩
  · simp only [ringFilter, if_neg hbad, hloop, Option.map_some]
    simp
  · exact hs ▸ htwo
  · exact hs ▸ hsize
  · simpa only [hs, hgr] using hget
  · simpa only [hs] using Nat.mod_lt _ (by omega)
  · rw [hkept, hlen]

/-! ## The generation -/

/-- What can happen to the bus. -/
inductive Input
  | mount
  | unmount
  | busState (mounted : Bool)
  | dtr (dtr : Bool)
  | restart
  deriving DecidableEq

/-- The state after an input and what the flush callback made of its context. -/
def State.event (state : State) (flush : Option (γ → γ)) (context : γ) : Input → State × γ
  | .mount => ((busMount state flush context).1, (busMount state flush context).2.1)
  | .unmount => ((busUnmount state flush context).1, (busUnmount state flush context).2.1)
  | .busState mounted =>
    ((busState state mounted flush context).1, (busState state mounted flush context).2.1)
  | .dtr dtr => ((dtrUpdate state dtr).1, context)
  | .restart => ((restart state flush context).1, (restart state flush context).2.1)

/-- The state after an input. -/
def State.next (state : State) (i : Input) : State := (state.event none () i).1

/-- The state after some inputs. -/
def State.run (state : State) (inputs : List Input) : State := inputs.foldl State.next state

/-- The input ends the present generation. -/
def State.Retires (state : State) : Input → Prop
  | .mount => state.mountSeen = true
  | .unmount => state.mounted = true
  | .busState mounted => mounted ≠ state.mounted ∧ (mounted = true → state.mountSeen = true)
  | .dtr _ => False
  | .restart => True

/-- No callback has a part in the state. -/
lemma event_fst (state : State) (flush : Option (γ → γ)) (context : γ) (i : Input) :
    (state.event flush context i).1 = state.next i := by
  cases i with
  | mount => rfl
  | unmount => rfl
  | busState mounted =>
    unfold State.next State.event busState
    by_cases hsame : mounted = state.mounted
    · simp [hsame]
    · simp only [if_neg hsame]
      cases mounted <;> rfl
  | dtr d => rfl
  | restart =>
    unfold State.next State.event restart
    split_ifs <;> rfl

/-- A flush callback runs once or not at all. -/
lemma event_snd (state : State) (flush : Option (γ → γ)) (context : γ) (i : Input) :
    (state.event flush context i).2 = context ∨
      (state.event flush context i).2 = runFlush flush context := by
  cases i with
  | mount => exact .inr rfl
  | unmount => exact .inr rfl
  | busState mounted =>
    unfold State.event busState
    by_cases hsame : mounted = state.mounted
    · exact .inl (by simp [hsame])
    · simp only [if_neg hsame]
      cases mounted <;> exact .inr rfl
  | dtr d => exact .inl rfl
  | restart =>
    unfold State.event restart
    split_ifs
    · exact .inl rfl
    · exact .inr rfl

/-- What can follow a state: the same generation, or an invalid one behind the last, or the next
one. -/
def State.Follows (state next : State) (retires : Prop) : Prop :=
  (¬(retires ∧ state.valid = true) ∧
      next.generation = state.generation ∧ next.valid = state.valid) ∨
    (retires ∧ state.valid = true ∧ state.generation = UINT32_MAX ∧
      next.generation = UINT32_MAX ∧ next.valid = false) ∨
    (retires ∧ state.valid = true ∧ state.generation ≠ UINT32_MAX ∧
      next.generation = state.generation + 1 ∧ next.valid = true)

theorem advanceGeneration_follows (state : State) :
    state.Follows (advanceGeneration state) True := by
  unfold State.Follows advanceGeneration
  cases hv : state.valid with
  | false => exact .inl ⟨by simp, by simp [hv]⟩
  | true =>
    by_cases hmax : state.generation = UINT32_MAX
    · exact .inr (.inl ⟨trivial, rfl, hmax, by simp [hmax]⟩)
    · exact .inr (.inr ⟨trivial, rfl, hmax, by simp [hmax]⟩)

/-- A change of the bus advances the generation when it retires one. -/
lemma follows_of {state next : State} {retires : Prop} [Decidable retires]
    (hg : next.generation = (if retires then advanceGeneration state else state).generation)
    (hv : next.valid = (if retires then advanceGeneration state else state).valid) :
    state.Follows next retires := by
  by_cases hr : retires
  · simp only [if_pos hr] at hg hv
    have h := advanceGeneration_follows state
    unfold State.Follows at h ⊢
    rw [hg, hv]
    simpa only [hr] using h
  · simp only [if_neg hr] at hg hv
    exact .inl ⟨fun h => hr h.1, hg, hv⟩

/-- What one input does to the generation. -/
theorem next_follows (state : State) (i : Input) :
    state.Follows (state.next i) (state.Retires i) := by
  have hmount : state.Follows (state.next .mount) (state.Retires .mount) :=
    @follows_of _ _ (state.mountSeen = true) _ rfl rfl
  have hunmount : state.Follows (state.next .unmount) (state.Retires .unmount) :=
    @follows_of _ _ (state.mounted = true) _ rfl rfl
  cases i with
  | mount => exact hmount
  | unmount => exact hunmount
  | dtr d => exact .inl ⟨fun h => h.1, rfl, rfl⟩
  | busState mounted =>
    by_cases hsame : mounted = state.mounted
    · refine .inl ⟨fun h => h.1.1 hsame, ?_⟩
      simp [State.next, State.event, busState, hsame]
    · cases mounted with
      | true =>
        have hnext : state.next (.busState true) = state.next .mount := by
          simp [State.next, State.event, busState, hsame]
        have hretires : state.Retires (.busState true) ↔ state.Retires .mount := by
          simp [State.Retires, hsame]
        rwa [hnext, propext hretires]
      | false =>
        have hnext : state.next (.busState false) = state.next .unmount := by
          simp [State.next, State.event, busState, hsame]
        have hretires : state.Retires (.busState false) ↔ state.Retires .unmount := by
          simp [State.Retires, hsame]
          cases hm : state.mounted with
          | true => simp
          | false => exact absurd hm.symm hsame
        rwa [hnext, propext hretires]
  | restart =>
    unfold State.Follows State.next State.event restart State.Retires
    cases hv : state.valid with
    | false => exact .inl (by simp)
    | true =>
      by_cases hmax : state.generation = UINT32_MAX
      · exact .inr (.inl (by simp [hmax]))
      · exact .inr (.inr (by simp [hmax]))

lemma lt_succ_of_ne_max {g : UInt32} (hg : g ≠ UINT32_MAX) : g < g + 1 := by
  have hne : g.toNat ≠ 0xFFFFFFFF := fun h => hg (UInt32.toNat_inj.mp h)
  have hlt := g.toNat_lt
  rw [UInt32.lt_iff_toNat_lt, UInt32.toNat_add]
  have hone : (1 : UInt32).toNat = 1 := rfl
  omega

/-- No input takes the generation back. -/
theorem le_next (state : State) (i : Input) : state.generation ≤ (state.next i).generation := by
  rcases next_follows state i with ⟨-, hg, -⟩ | ⟨-, -, hmax, hg, -⟩ | ⟨-, -, hne, hg, -⟩
  · rw [hg]
    exact UInt32.le_refl _
  · rw [hg, hmax]
    exact UInt32.le_refl _
  · rw [hg]
    exact UInt32.le_of_lt (lt_succ_of_ne_max hne)

/-- Behind an invalid state there are only invalid ones, all of one generation. -/
theorem run_invalid {state : State} (h : state.valid = false) (inputs : List Input) :
    (state.run inputs).valid = false ∧ (state.run inputs).generation = state.generation := by
  induction inputs generalizing state with
  | nil => exact ⟨h, rfl⟩
  | cons i inputs ih =>
    rcases next_follows state i with ⟨-, hg, hv⟩ | ⟨-, hvalid, -⟩ | ⟨-, hvalid, -⟩
    · rw [← hg]
      exact ih (hv.trans h)
    · simp [h] at hvalid
    · simp [h] at hvalid

theorem le_run (state : State) (inputs : List Input) :
    state.generation ≤ (state.run inputs).generation := by
  induction inputs generalizing state with
  | nil => exact UInt32.le_refl _
  | cons i inputs ih => exact UInt32.le_trans (le_next state i) (ih _)

/-! ## The receiver -/

/-- `mp_usbd_cdc_transport_ring_clear`, what the driver's flush callback does to the ring. -/
def ringClear (r : Ring α) : Ring α := { r with iget := 0, iput := 0 }

/-- The consumer takes a byte. -/
def ringTake (r : Ring α) : Ring α :=
  if r.iget = r.iput then r else { r with iget := ringNext r.iget r.size }

/-- An input with or without the flush callback, or a call on the ring under the present
generation. -/
inductive Op (α : Type*)
  | event (i : Input) (flush : Bool)
  | put (value : α)
  | filter
  | take

structure Receiver (α : Type*) where
  state : State
  ring : Ring α

def Receiver.step (x : Receiver α) : Op α → Receiver α
  | .event i flush =>
    let next := x.state.event (if flush then some ringClear else none) x.ring i
    ⟨next.1, next.2⟩
  | .put value => ⟨x.state, (ringPut x.ring value x.state.generation).1⟩
  | .filter => ⟨x.state, ((ringFilter x.ring true x.state.generation).map (·.1)).getD x.ring⟩
  | .take => ⟨x.state, ringTake x.ring⟩

def Receiver.run (x : Receiver α) (ops : List (Op α)) : Receiver α := ops.foldl Receiver.step x

/-- The bytes that an operation may add. -/
def Op.value : Op α → List α
  | .put value => [value]
  | _ => []

/-- The bytes that some operations put. -/
def put (ops : List (Op α)) : List α := ops.flatMap Op.value

/-- No byte is of a generation that is still to come. -/
structure Receiver.Sound (x : Receiver α) : Prop where
  wellFormed : x.ring.WellFormed
  tags : ∀ p ∈ x.ring.pairs, p.2 ≤ x.state.generation

lemma ringClear_spec {r : Ring α} (h : r.WellFormed) :
    (ringClear r).WellFormed ∧ (ringClear r).pairs = [] := by
  have hpos : 0 < r.size := Nat.lt_of_lt_of_le (by decide) h.two_le
  exact ⟨⟨h.two_le, h.size_le, hpos, hpos⟩, contents_self hpos _⟩

lemma ringTake_spec {r : Ring α} (h : r.WellFormed) :
    (ringTake r).WellFormed ∧ (ringTake r).pairs = r.pairs.tail := by
  unfold ringTake
  by_cases hempty : r.iget = r.iput
  · rw [if_pos hempty]
    have hnil : r.pairs = [] := by
      unfold Ring.pairs
      rw [hempty, contents_self (Nat.lt_of_le_of_lt (Nat.zero_le _) h.iput_lt)]
    exact ⟨h, by rw [hnil]; rfl⟩
  · rw [if_neg hempty, ringNext_eq h.size_le h.iget_lt]
    refine ⟨⟨h.two_le, h.size_le, next_lt (by have := h.two_le; omega) _, h.iput_lt⟩, ?_⟩
    have hpop := contents_pop h.iget_lt h.iput_lt hempty r.cells
    exact (congrArg List.tail hpop).symm

/-- One operation keeps the state's generation or raises it, and adds at most the byte it puts. -/
theorem step_spec {x : Receiver α} (h : x.Sound) (op : Op α) :
    (x.step op).ring.WellFormed ∧ x.state.generation ≤ (x.step op).state.generation ∧
      (x.step op).ring.pairs.Sublist
        (x.ring.pairs ++ op.value.map fun value => (value, x.state.generation)) := by
  cases op with
  | event i flush =>
    have hstate : (x.step (.event i flush)).state = x.state.next i := event_fst _ _ _ i
    rw [hstate]
    have hring : (x.step (.event i flush)).ring = x.ring ∨
        (x.step (.event i flush)).ring = ringClear x.ring := by
      rcases event_snd x.state (if flush then some ringClear else none) x.ring i with hr | hr
      · exact .inl hr
      · cases flush with
        | false => exact .inl hr
        | true => exact .inr hr
    obtain ⟨hw, hnil⟩ := ringClear_spec h.wellFormed
    rcases hring with hr | hr
    · rw [hr]
      exact ⟨h.wellFormed, le_next x.state i, by simp [Op.value]⟩
    · rw [hr, hnil]
      exact ⟨hw, le_next x.state i, List.nil_sublist _⟩
  | put value =>
    suffices hring : (x.step (.put value)).ring.WellFormed ∧
        (x.step (.put value)).ring.pairs.Sublist
          (x.ring.pairs ++ [(value, x.state.generation)]) from
      ⟨hring.1, UInt32.le_refl _, hring.2⟩
    by_cases hg : x.state.generation = 0
    · have hsame : (x.step (.put value)).ring = x.ring := by
        simp [Receiver.step, ringPut, hg]
      rw [hsame]
      exact ⟨h.wellFormed, List.sublist_append_left _ _⟩
    · obtain ⟨hw, -, -, -, hp⟩ := ringPut_spec h.wellFormed value hg
      refine ⟨hw, ?_⟩
      change (ringPut x.ring value x.state.generation).1.pairs.Sublist _
      rw [hp]
      split_ifs
      · exact List.Sublist.refl _
      · exact List.sublist_append_left _ _
  | filter =>
    suffices hring : (x.step .filter).ring.WellFormed ∧
        (x.step .filter).ring.pairs.Sublist (x.ring.pairs ++ []) from
      ⟨hring.1, UInt32.le_refl _, hring.2⟩
    by_cases hg : x.state.generation = 0
    · have hsame : (x.step .filter).ring = x.ring := by
        simp only [Receiver.step, ringFilter, hg]
        split_ifs <;> simp_all
      rw [hsame]
      exact ⟨h.wellFormed, List.sublist_append_left _ _⟩
    · obtain ⟨r', kept, hf, hw, -, -, hp, -⟩ :=
        ringFilter_spec h.wellFormed true (fun _ => hg)
      have hring : (x.step .filter).ring = r' := by
        simp [Receiver.step, hf]
      rw [hring, hp]
      exact ⟨hw, List.filter_sublist.trans (List.sublist_append_left _ _)⟩
  | take =>
    obtain ⟨hw, hp⟩ := ringTake_spec h.wellFormed
    refine ⟨hw, UInt32.le_refl _, ?_⟩
    change (ringTake x.ring).pairs.Sublist _
    rw [hp]
    exact (List.tail_sublist _).trans (List.sublist_append_left _ _)

theorem step_sound {x : Receiver α} (h : x.Sound) (op : Op α) : (x.step op).Sound := by
  obtain ⟨hw, hle, hsub⟩ := step_spec h op
  refine ⟨hw, fun p hp => UInt32.le_trans ?_ hle⟩
  rcases List.mem_append.mp (hsub.subset hp) with hold | hnew
  · exact h.tags p hold
  · obtain ⟨value, -, rfl⟩ := List.mem_map.mp hnew
    exact UInt32.le_refl _

theorem run_sound {x : Receiver α} (h : x.Sound) (ops : List (Op α)) : (x.run ops).Sound := by
  induction ops generalizing x with
  | nil => exact h
  | cons op ops ih => exact ih (step_sound h op)

lemma generation_le_run {x : Receiver α} (h : x.Sound) (ops : List (Op α)) :
    x.state.generation ≤ (x.run ops).state.generation := by
  induction ops generalizing x with
  | nil => exact UInt32.le_refl _
  | cons op ops ih => exact UInt32.le_trans (step_spec h op).2.1 (ih (step_sound h op))

/-- The bytes in the ring that carry the generation `g` or a later one. -/
def Receiver.since (x : Receiver α) (g : UInt32) : List α :=
  (x.ring.pairs.filter fun p => decide (g ≤ p.2)).map (·.1)

/-- Bytes get a tag when they are put, and no other. -/
theorem run_since {x : Receiver α} (h : x.Sound) (g : UInt32) (ops : List (Op α)) :
    ((x.run ops).since g).Sublist (x.since g ++ put ops) := by
  induction ops generalizing x with
  | nil => simp [Receiver.run, put]
  | cons op ops ih =>
    have hstep : ((x.step op).since g).Sublist (x.since g ++ op.value) := by
      have hsub := ((step_spec h op).2.2.filter fun p => decide (g ≤ p.2)).map (·.1)
      rw [List.filter_append, List.map_append] at hsub
      refine hsub.trans ((List.Sublist.refl _).append ?_)
      have htags := (List.filter_sublist (p := fun p : α × UInt32 => decide (g ≤ p.2))
        (l := op.value.map fun value => (value, x.state.generation))).map (·.1)
      rw [List.map_map] at htags
      simpa [Function.comp_def] using htags
    refine (ih (step_sound h op)).trans ?_
    have hput : put (op :: ops) = op.value ++ put ops := rfl
    rw [hput, ← List.append_assoc]
    exact hstep.append (.refl _)

/-- A valid state becomes invalid at the last generation only. -/
theorem run_valid {state : State} (h : state.valid = true) (inputs : List Input) :
    (state.run inputs).valid = true ∨ (state.run inputs).generation = UINT32_MAX := by
  induction inputs generalizing state with
  | nil => exact .inl h
  | cons i inputs ih =>
    rcases next_follows state i with ⟨-, -, hv⟩ | ⟨-, -, -, hg, hv⟩ | ⟨-, -, -, -, hv⟩
    · exact ih (hv.trans h)
    · exact .inr ((run_invalid hv inputs).2.trans hg)
    · exact ih hv

/-- An input that ends a valid generation raises it, or leaves none. -/
theorem next_retires {state : State} {i : Input} (hv : state.valid = true)
    (hr : state.Retires i) :
    state.generation < (state.next i).generation ∨
      (state.generation = UINT32_MAX ∧ (state.next i).valid = false) := by
  rcases next_follows state i with ⟨hno, -⟩ | ⟨-, -, hmax, -, hinvalid⟩ | ⟨-, -, hne, hg, -⟩
  · exact absurd ⟨hr, hv⟩ hno
  · exact .inr ⟨hmax, hinvalid⟩
  · exact .inl (hg ▸ lt_succ_of_ne_max hne)

theorem restart_lt {state : State} {flush : Option (γ → γ)} {context : γ}
    (h : (restart state flush context).2.2 = true) :
    state.generation < (restart state flush context).1.generation := by
  unfold restart at h ⊢
  split_ifs at h ⊢ with hbad
  exact lt_succ_of_ne_max fun hmax => hbad (.inr hmax)

/-- What the filter by the generation that followed an input leaves was put behind that input. -/
theorem filter_since {x : Receiver α} (h : x.Sound) {i : Input} {flush : Bool}
    {after : List (Op α)}
    (hlt : x.state.generation < (x.step (.event i flush)).state.generation) :
    ∃ r kept, ringFilter ((x.step (.event i flush)).run after).ring true
        ((x.step (.event i flush)).run after).state.generation = some (r, kept) ∧
      (r.pairs.map (·.1)).Sublist (put after) := by
  set y := x.step (.event i flush)
  have hsound : y.Sound := step_sound h _
  have hlast := generation_le_run hsound after
  have hpos : (y.run after).state.generation ≠ 0 := by
    intro hzero
    rw [hzero] at hlast
    exact UInt32.not_lt_zero (UInt32.lt_of_lt_of_le hlt hlast)
  -- nothing in the ring at the input is of the generation that follows it
  have hnone : y.since y.state.generation = [] := by
    have hsub := (step_spec h (.event i flush)).2.2
    simp only [Op.value, List.map_nil, List.append_nil] at hsub
    refine List.map_eq_nil_iff.mpr (List.filter_eq_nil_iff.mpr fun p hp => ?_)
    have hold := h.tags p (hsub.subset hp)
    simpa using UInt32.lt_of_le_of_lt hold hlt
  have hsince := run_since hsound y.state.generation after
  rw [hnone, List.nil_append] at hsince
  obtain ⟨r, kept, hf, -, -, -, hp, -⟩ :=
    ringFilter_spec (run_sound hsound after).wellFormed true (fun _ => hpos)
  refine ⟨r, kept, hf, ?_⟩
  rw [hp]
  refine List.Sublist.trans ?_ hsince
  refine List.Sublist.map _ ?_
  refine List.monotone_filter_right _ fun p hkeep => ?_
  have htag : p.2 = (y.run after).state.generation := by simpa [keeps] using hkeep
  simpa [htag] using hlast

/-- On a ring of 2 to 65536 cells, its indices anywhere, `put` appends and the filter filters. No
input takes the generation back; a mount after the first, the unmount of a mounted bus and a
restart that succeeds raise it, and at the last generation there is none that follows. Then the
filter keeps only bytes that came in afterwards. -/
theorem cdc_receive :
    (∀ r : Ring α, r.WellFormed → ∀ value generation, generation ≠ 0 →
      (ringPut r value generation).1.WellFormed ∧
      (ringPut r value generation).1.iget = r.iget ∧
      (ringPut r value generation).1.size = r.size ∧
      (ringPut r value generation).2 = decide (r.pairs.length < r.size - 1) ∧
      (ringPut r value generation).1.pairs =
        if r.pairs.length < r.size - 1 then r.pairs ++ [(value, generation)] else r.pairs) ∧
    (∀ r : Ring α, r.WellFormed → ∀ keepGeneration generation,
      (keepGeneration = true → generation ≠ 0) → ∃ r' kept,
        ringFilter r keepGeneration generation = some (r', kept) ∧ r'.WellFormed ∧
        r'.iget = r.iget ∧ r'.size = r.size ∧
        r'.pairs = r.pairs.filter (keeps keepGeneration generation) ∧ kept = r'.pairs.length) ∧
    (∀ (state : State) inputs, state.generation ≤ (state.run inputs).generation) ∧
    (∀ (state : State) i, state.valid = true → state.Retires i →
      state.generation < (state.next i).generation ∨
        (state.generation = UINT32_MAX ∧ (state.next i).valid = false)) ∧
    (∀ (state : State) (flush : Option (Ring α → Ring α)) context,
      (restart state flush context).2.2 = true →
        state.generation < (restart state flush context).1.generation) ∧
    (∀ (state : State) inputs, state.valid = false →
      (state.run inputs).valid = false ∧ (state.run inputs).generation = state.generation) ∧
    (∀ (state : State) inputs, state.valid = true →
      (state.run inputs).valid = true ∨ (state.run inputs).generation = UINT32_MAX) ∧
    ∀ x : Receiver α, x.Sound → ∀ before i flush after,
      ((x.run before).state.generation <
        ((x.run before).step (.event i flush)).state.generation) →
      ∃ r kept, ringFilter (((x.run before).step (.event i flush)).run after).ring true
          (((x.run before).step (.event i flush)).run after).state.generation =
            some (r, kept) ∧
        (r.pairs.map (·.1)).Sublist (put after) :=
  ⟨fun _ h value _ hg => ringPut_spec h value hg, fun _ h keep _ hg => ringFilter_spec h keep hg,
    le_run, fun _ _ => next_retires, fun _ _ _ => restart_lt, fun _ _ h => run_invalid h _,
    fun _ _ h => run_valid h _, fun _ h before _ _ _ => filter_since (run_sound h before)⟩

/-- The unmount of a bus that is not mounted leaves the generation, and a byte without a
generation is refused by an empty ring. -/
theorem unmount_of_unmounted :
    let state : State := ⟨1, false, false, false, true⟩
    let ring : Ring ℕ := ⟨fun _ => 0, fun _ => 0, 4, 0, 0⟩
    state.next .unmount = state ∧ ring.pairs.length < ring.size - 1 ∧
      (ringPut ring 7 0).2 = false := by
  decide

end EspVision.EvCdcRx
