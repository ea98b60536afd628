import Mathlib.Data.Nat.Bitwise
import EspVision.JpegValidateHost

/-!
# Segments in the two JPEG validators

The parts of the two validators that treat the tables and the headers run alike from matching
states.
-/
namespace EspVision.Jpeg

open Lockstep

/-- Alike, with no failure but a rejection. -/
abbrev Agree {α β : Type} (R : α → β → Prop) (x : Check α) (y : Check β) : Prop :=
  Alike (fun e => e = Stop.rejected) R x y

/-- The byte at a position within the data. -/
def value (data : List UInt8) (i : ℕ) : ℕ := (data[i]?.map UInt8.toNat).getD 0

variable {data : List UInt8}

theorem byteAt_eq {i : ℕ} (h : i < data.length) : byteAt data i = pure (value data i) := by
  rw [byteAt, value, List.getElem?_eq_getElem h]
  rfl

/-- The number of two bytes. -/
def value16 (data : List UInt8) (i : ℕ) : ℕ := (value data i <<< 8) ||| value data (i + 1)

theorem jpegValidationBe16_eq {i : ℕ} (h : i + 1 < data.length) :
    jpegValidationBe16 data i = pure (value16 data i) := by
  rw [jpegValidationBe16, byteAt_eq (by omega), byteAt_eq h]
  rfl

theorem word_eq {i : ℕ} (h : i + 1 < data.length) : word data i = pure (value16 data i) :=
  jpegValidationBe16_eq h

/-! ## Bits of a byte -/

theorem and_shift_eq_zero (x i : ℕ) : x &&& 1 <<< i = 0 ↔ x.testBit i = false := by
  rw [Nat.one_shiftLeft, Nat.and_two_pow]
  cases x.testBit i <;> simp

theorem testBit_or_shift (x i j : ℕ) :
    (x ||| 1 <<< i).testBit j = (x.testBit j || decide (i = j)) := by
  rw [Nat.testBit_or, Nat.one_shiftLeft, Nat.testBit_two_pow]

theorem nibbles_eq_zero {a : ℕ} : a = 0 ↔ a >>> 4 = 0 ∧ a &&& 15 = 0 := by
  rw [Nat.shiftRight_eq_div_pow, show (15 : ℕ) = 2 ^ 4 - 1 from rfl,
    Nat.and_two_pow_sub_one_eq_mod]
  omega

/-! ## Matching states -/

/-- The variables of the two validators between two segments. -/
structure Matches (width height : ℕ) (state : State) (host : HostState) : Prop where
  frame : host.frame = if state.frameMarker = 0 then none
    else some ⟨state.frameMarker, width, height⟩
  components : host.components = (List.range state.componentCount).map fun i =>
    ⟨state.componentIds i, state.quantizerIds i⟩
  tables : ∀ i < state.componentCount, state.quantizerIds i < 4
  frameless : state.frameMarker = 0 → state.componentCount = 0 ∧ state.sawScan = false
  quant : ∀ id < 4, host.quant id =
    if state.quantizers.testBit id then (state.quantizerPrecision id : ℤ) else -1
  dc : ∀ id < 4, (host.huffman id = 0 ↔ state.dcTables.testBit id = false)
  ac : ∀ id < 4, (host.huffman (4 + id) = 0 ↔ state.acTables.testBit id = false)
  covered : host.covered = state.initialComponents
  restart : host.restartInterval = state.restartInterval
  scans : host.scans = 0 ↔ state.sawScan = false

variable {width height : ℕ} {state : State} {host : HostState}

/-- The offset is no part of the match. -/
theorem Matches.move (h : Matches width height state host) (offset : ℕ) :
    Matches width height state { host with offset := offset } :=
  ⟨h.frame, h.components, h.tables, h.frameless, h.quant, h.dc, h.ac, h.covered, h.restart,
    h.scans⟩

/-- What a part of the validators leaves: a match, and the host's offset where it was. -/
def MatchesAt (width height offset : ℕ) (state : State) (host : HostState) : Prop :=
  Matches width height state host ∧ host.offset = offset

/-! ## Quantization tables -/

theorem quantValues_agree (data : List UInt8) (start precision items : ℕ) :
    ∀ offset, start + offset + items * (precision + 1) ≤ data.length → precision ≤ 1 →
      Agree (fun _ cursor => cursor = start + offset + items * (precision + 1))
        (quantizerValues data start precision (offset + items * (precision + 1)) offset)
        (quantValues data precision items (start + offset)) := by
  induction items with
  | zero =>
    intro offset _ _
    rw [quantizerValues, if_neg (by omega)]
    exact Alike.pure (by omega)
  | succ items ih =>
    intro offset h hp
    have hmul : (items + 1) * (precision + 1) = items * (precision + 1) + (precision + 1) := by
      rw [Nat.add_mul, Nat.one_mul]
    have hnext := ih (offset + (precision + 1)) (by omega) hp
    rw [quantizerValues, if_pos (by omega), quantValues]
    have hread : Agree (fun v w => v = w)
        (if precision = 0 then byteAt data (start + offset)
          else jpegValidationBe16 data (start + offset))
        (if precision ≠ 0 then word data (start + offset) else byteAt data (start + offset)) := by
      rw [ite_not]
      by_cases h0 : precision = 0
      · rw [if_pos h0, if_pos h0, byteAt_eq (by omega)]
        exact Alike.pure rfl
      · rw [if_neg h0, if_neg h0, jpegValidationBe16_eq (by omega), word_eq (by omega)]
        exact Alike.pure rfl
    refine Alike.bind hread fun v w hvw => Alike.check rfl rfl (by rw [hvw]) fun _ => ?_
    rw [show start + offset + (precision + 1) = start + (offset + (precision + 1)) by omega,
      show offset + (items + 1) * (precision + 1) =
        offset + (precision + 1) + items * (precision + 1) by omega]
    exact hnext.mono fun _ _ h => by omega

/-- One more table is known to both sides. -/
theorem Matches.quantizer (hm : Matches width height state host) (precision : ℕ) {id : ℕ}
    (hid : id < 4) : Matches width height
      { state with
        quantizers := state.quantizers ||| 1 <<< id
        quantizerPrecision := Function.update state.quantizerPrecision id precision }
      { host with quant := Function.update host.quant id precision } := by
  refine ⟨hm.frame, hm.components, hm.tables, hm.frameless, ?_, hm.dc, hm.ac, hm.covered,
    hm.restart, hm.scans⟩
  intro other hother
  by_cases h : other = id
  · subst h
    simp
  · simp only [testBit_or_shift, Function.update_of_ne h, hm.quant other hother,
      decide_eq_false (Ne.symm h), Bool.or_false]

theorem quantizers_agree (hm : Matches width height state host) {segment size fuel : ℕ}
    (hend : segment + size ≤ data.length) (position : ℕ) (hle : position ≤ size)
    (hne : position < size ∨ position ≠ 0) (hfuel : size - position < fuel) :
    Agree (MatchesAt width height host.offset)
      (jpegValidationQuantizersFrom data segment size state position)
      (whileFuel .outOfFuel (quantTable data (segment + size)) fuel
        (host, segment + position)) := by
  induction fuel generalizing state host position with
  | zero => omega
  | succ fuel ih =>
    rw [whileFuel_succ, jpegValidationQuantizersFrom, quantTable]
    dsimp only
    by_cases hlt : position < size
    · rw [if_pos hlt, if_neg (by omega), byteAt_eq (by omega)]
      simp only [Lockstep.pure_bind, Lockstep.bind_assoc]
      generalize hp : value data (segment + position) >>> 4 = precision
      generalize ht : value data (segment + position) &&& 15 = id
      have hfour : jpegComponentMax = 4 := rfl
      refine Alike.check_left (fun h => Alike.check_right (fun _ => Alike.fail rfl rfl) fun h' =>
        absurd h (by omega)) fun h => ?_
      have hbytes : (if precision = 0 then 64 else 128) = 64 * (precision + 1) := by
        split <;> omega
      rw [hbytes]
      refine Alike.check rfl rfl (by omega) fun h' => ?_
      have hvalues := quantValues_agree data (segment + (position + 1)) precision 64 0 (by omega)
        (by omega)
      rw [Nat.zero_add, Nat.add_zero] at hvalues
      refine Alike.bind hvalues fun _ cursor hcursor => ?_
      have hid : id < 4 := by omega
      have hnext := ih (hm.quantizer precision hid) (position + 1 + 64 * (precision + 1))
        (by omega) (by omega) (by omega)
      rw [show cursor = segment + (position + 1 + 64 * (precision + 1)) by omega]
      exact hnext
    · rw [if_neg hlt, if_pos (by omega)]
      simp only [Lockstep.pure_bind, Sum.elim_inr]
      exact Alike.check_left (by omega) fun _ => Alike.pure ⟨hm, rfl⟩

theorem quantization_agree (hm : Matches width height state host) {segment size last : ℕ}
    (hlast : last = segment + size) (hend : last ≤ data.length) :
    Agree (MatchesAt width height host.offset) (jpegValidationQuantizers state data segment size)
      (quantizationSegment data segment last host) := by
  subst hlast
  rw [jpegValidationQuantizers, quantizationSegment]
  by_cases h0 : size = 0
  · rw [jpegValidationQuantizersFrom, if_neg (by omega), failIf_bind_of Stop.rejected rfl,
      failIf_bind_of Stop.rejected (by omega)]
    exact Alike.fail rfl rfl
  · refine Alike.check_right (by omega) fun _ => ?_
    exact quantizers_agree hm hend 0 (by omega) (by omega) (by omega)

/-! ## Huffman tables -/

/-- With too many symbols the host goes on reading, up to a check that fails. -/
theorem codeCounts_fail {γ δ : Type} {R : γ → δ → Prop} {G : ℕ × ℤ × ℕ → Check δ}
    (hG : ∀ symbols slots cursor, 256 < symbols → G (symbols, slots, cursor) = fail .rejected)
    (depths : ℕ) : ∀ symbols slots cursor, 256 < symbols → cursor + depths ≤ data.length →
      Agree R (fail .rejected) (codeCounts data depths symbols slots cursor >>= G) := by
  induction depths with
  | zero =>
    intro symbols slots cursor h _
    rw [codeCounts, Lockstep.pure_bind, hG symbols slots cursor h]
    exact Alike.fail rfl rfl
  | succ depths ih =>
    intro symbols slots cursor h hlen
    rw [codeCounts, byteAt_eq (by omega)]
    simp only [Lockstep.pure_bind, Lockstep.bind_assoc]
    exact Alike.check_right (fun _ => Alike.fail rfl rfl) fun _ =>
      ih _ _ _ (by omega) (by omega)

theorem counts_agree {γ δ : Type} {R : γ → δ → Prop} {F : ℕ × ℤ → Check γ}
    {G : ℕ × ℤ × ℕ → Check δ} {start : ℕ}
    (hG : ∀ symbols slots cursor, 256 < symbols → G (symbols, slots, cursor) = fail .rejected)
    (depths : ℕ) : ∀ offset symbols slots, start + offset + depths ≤ data.length →
      symbols ≤ 256 →
      (∀ symbols slots, symbols ≤ 256 →
        Agree R (F (symbols, slots)) (G (symbols, slots, start + offset + depths))) →
      Agree R (huffmanCounts data start depths offset symbols slots >>= F)
        (codeCounts data depths symbols slots (start + offset) >>= G) := by
  induction depths with
  | zero =>
    intro offset symbols slots _ hs hF
    rw [huffmanCounts, codeCounts]
    exact hF symbols slots hs
  | succ depths ih =>
    intro offset symbols slots hlen hs hF
    rw [huffmanCounts, codeCounts, byteAt_eq (by omega)]
    simp only [Lockstep.pure_bind, Lockstep.bind_assoc]
    generalize value data (start + offset) = count
    refine Alike.check_left (fun h => ?_) fun h => ?_
    · by_cases hslots : slots * 2 - count < 0
      · rw [failIf_bind_of Stop.rejected hslots]
        exact Alike.fail rfl rfl
      · exact Alike.check_right (fun _ => Alike.fail rfl rfl) fun _ =>
          codeCounts_fail hG depths _ _ _ (by omega) (by omega)
    · refine Alike.check_right (fun h' => absurd h' (by omega)) fun _ => ?_
      rw [show start + offset + 1 = start + (offset + 1) by omega]
      refine ih (offset + 1) _ _ (by omega) (by omega) fun symbols slots hs => ?_
      rw [show start + (offset + 1) + depths = start + offset + (depths + 1) by omega]
      exact hF symbols slots hs

/-- One more table is known to both sides. -/
theorem Matches.huffman (hm : Matches width height state host) {kind id : ℕ} (hkind : kind ≤ 1)
    (hid : id < 4) : Matches width height
      (if kind = 0 then { state with dcTables := state.dcTables ||| 1 <<< id }
        else { state with acTables := state.acTables ||| 1 <<< id })
      { host with huffman := Function.update host.huffman (kind * 4 + id) 1 } := by
  by_cases h0 : kind = 0
  · subst h0
    rw [if_pos rfl, Nat.zero_mul, Nat.zero_add]
    refine ⟨hm.frame, hm.components, hm.tables, hm.frameless, hm.quant, ?_, ?_, hm.covered,
      hm.restart, hm.scans⟩
    · intro other hother
      by_cases h : other = id
      · subst h
        simp
      · simp only [testBit_or_shift, Function.update_of_ne h, hm.dc other hother,
          decide_eq_false (Ne.symm h), Bool.or_false]
    · intro other hother
      simp only [Function.update_of_ne (show 4 + other ≠ id by omega), hm.ac other hother]
  · have h1 : kind = 1 := by omega
    subst h1
    rw [if_neg h0]
    refine ⟨hm.frame, hm.components, hm.tables, hm.frameless, hm.quant, ?_, ?_, hm.covered,
      hm.restart, hm.scans⟩
    · intro other hother
      simp only [Function.update_of_ne (show other ≠ 1 * 4 + id by omega), hm.dc other hother]
    · intro other hother
      by_cases h : other = id
      · subst h
        simp
      · simp only [testBit_or_shift, Function.update_of_ne (show 4 + other ≠ 1 * 4 + id by omega),
          hm.ac other hother, decide_eq_false (Ne.symm h), Bool.or_false]

theorem huffman_agree (hm : Matches width height state host) {segment size fuel : ℕ}
    (hend : segment + size ≤ data.length) (position : ℕ) (hle : position ≤ size)
    (hne : position < size ∨ position ≠ 0) (hfuel : size - position < fuel) :
    Agree (MatchesAt width height host.offset)
      (jpegValidationHuffmanFrom data segment size state position)
      (whileFuel .outOfFuel (huffmanTable data (segment + size)) fuel
        (host, segment + position)) := by
  induction fuel generalizing state host position with
  | zero => omega
  | succ fuel ih =>
    rw [whileFuel_succ, jpegValidationHuffmanFrom, huffmanTable]
    dsimp only
    by_cases hlt : position < size
    · rw [if_pos hlt, if_neg (by omega), byteAt_eq (by omega)]
      simp only [Lockstep.pure_bind, Lockstep.bind_assoc]
      generalize hk : value data (segment + position) >>> 4 = kind
      generalize ht : value data (segment + position) &&& 15 = id
      have hfour : jpegComponentMax = 4 := rfl
      by_cases hbad : 1 < kind ∨ 4 ≤ id ∨ size - (position + 1) < 16
      · rw [failIf_bind_of Stop.rejected (by omega)]
        refine Alike.check_right (fun _ => Alike.fail rfl rfl) fun h' => ?_
        rw [failIf_bind_of Stop.rejected (by omega)]
        exact Alike.fail rfl rfl
      refine Alike.check_left (by omega) fun _ => Alike.check_right (by omega) fun _ =>
        Alike.check_right (by omega) fun _ => ?_
      have hstart : segment + position + 1 = segment + (position + 1) + 0 := by omega
      rw [hstart]
      refine counts_agree ?_ 16 0 0 1 (by omega) (by omega) fun symbols slots _ => ?_
      · intro symbols slots cursor h
        exact failIf_bind_of Stop.rejected (by omega) _
      · dsimp only
        refine Alike.check rfl rfl (by omega) fun h => ?_
        have hkind : kind ≤ 1 := by omega
        have hid : id < 4 := by omega
        have hnext := ih (hm.huffman hkind hid) (position + 1 + 16 + symbols) (by omega)
          (by omega) (by omega)
        rw [show segment + (position + 1) + 0 + 16 + symbols =
          segment + (position + 1 + 16 + symbols) by omega]
        exact hnext
    · rw [if_neg hlt, if_pos (by omega)]
      simp only [Lockstep.pure_bind, Sum.elim_inr]
      exact Alike.check_left (by omega) fun _ => Alike.pure ⟨hm, rfl⟩

theorem huffman_segment_agree (hm : Matches width height state host) {segment size last : ℕ}
    (hlast : last = segment + size) (hend : last ≤ data.length) :
    Agree (MatchesAt width height host.offset) (jpegValidationHuffman state data segment size)
      (huffmanSegment data segment last host) := by
  subst hlast
  rw [jpegValidationHuffman, huffmanSegment]
  by_cases h0 : size = 0
  · rw [jpegValidationHuffmanFrom, if_neg (by omega), failIf_bind_of Stop.rejected rfl,
      failIf_bind_of Stop.rejected (by omega)]
    exact Alike.fail rfl rfl
  · refine Alike.check_right (by omega) fun _ => ?_
    exact huffman_agree hm hend 0 (by omega) (by omega) (by omega)

/-! ## Frame headers -/

/-- The components that the device has stored, in the host's form. -/
def State.stored (state : State) (count : ℕ) : List Component :=
  (List.range count).map fun i => ⟨state.componentIds i, state.quantizerIds i⟩

theorem stored_any (state : State) (id i : ℕ) :
    (state.stored i).any (fun component => component.id == id) ↔
      ∃ previous < i, state.componentIds previous = id := by
  simp [State.stored]

theorem stored_succ (state : State) (id quantizer i : ℕ) :
    State.stored { state with
      componentIds := Function.update state.componentIds i id
      quantizerIds := Function.update state.quantizerIds i quantizer } (i + 1) =
    state.stored i ++ [⟨id, quantizer⟩] := by
  rw [State.stored, List.range_succ, List.map_append]
  simp only [List.map_cons, List.map_nil, Function.update_self]
  congr 1
  refine List.map_congr_left fun j hj => ?_
  have hne : j ≠ i := (List.mem_range.mp hj).ne
  simp only [Function.update_of_ne hne]

/-- What the loop over the components leaves alone. -/
structure SameTables (s t : State) : Prop where
  quantizers : t.quantizers = s.quantizers
  precision : t.quantizerPrecision = s.quantizerPrecision
  dc : t.dcTables = s.dcTables
  ac : t.acTables = s.acTables
  initial : t.initialComponents = s.initialComponents
  restart : t.restartInterval = s.restartInterval
  scan : t.sawScan = s.sawScan

theorem components_agree {segment : ℕ} (count : ℕ)
    (hend : segment + (6 + 3 * count) ≤ data.length) (left : ℕ) :
    ∀ (i : ℕ) (state : State), i + left = count →
      (∀ j < i, state.quantizerIds j < 4) →
      Agree (fun t components => components = t.stored count ∧
          (∀ j < count, t.quantizerIds j < 4) ∧ SameTables state t)
        (frameComponents data segment left i state)
        (frameLayout data segment left i (state.stored i)) := by
  induction left with
  | zero =>
    intro i state hi ht
    obtain rfl : i = count := by omega
    exact Alike.pure ⟨rfl, ht, rfl, rfl, rfl, rfl, rfl, rfl, rfl⟩
  | succ left ih =>
    intro i state hi ht
    rw [frameComponents, frameLayout]
    rw [byteAt_eq (by omega), byteAt_eq (by omega), byteAt_eq (by omega), byteAt_eq (by omega),
      byteAt_eq (by omega), byteAt_eq (by omega)]
    simp only [Lockstep.pure_bind]
    rw [show segment + 6 + i * 3 = segment + (6 + 3 * i) by omega,
      show segment + (6 + 3 * i) + 1 = segment + (7 + 3 * i) by omega,
      show segment + (6 + 3 * i) + 2 = segment + (8 + 3 * i) by omega]
    generalize value data (segment + (6 + 3 * i)) = id
    generalize value data (segment + (7 + 3 * i)) = sampling
    generalize value data (segment + (8 + 3 * i)) = quantizer
    have hany := stored_any state id i
    have hfour : jpegComponentMax = 4 := rfl
    refine Alike.check_left (fun h => ?_) fun h => Alike.check_left (fun h' => ?_) fun h' => ?_
    · rw [failIf_bind_of Stop.rejected (Or.inr (by omega))]
      exact Alike.fail rfl rfl
    · rw [failIf_bind_of Stop.rejected (Or.inl (hany.mpr h'))]
      exact Alike.fail rfl rfl
    · refine Alike.check_right (fun hbad => ?_) fun _ => ?_
      · rcases hbad with hbad | hbad
        · exact absurd (hany.mp hbad) h'
        · exact absurd hbad (by omega)
      · rw [← stored_succ state id quantizer i]
        refine (ih (i + 1) _ (by omega) fun j hj => ?_).mono fun t components hr =>
          ⟨hr.1, hr.2.1, ⟨hr.2.2.quantizers, hr.2.2.precision, hr.2.2.dc, hr.2.2.ac,
            hr.2.2.initial, hr.2.2.restart, hr.2.2.scan⟩⟩
        by_cases hji : j = i
        · subst hji
          simp only [Function.update_self]
          omega
        · simp only [Function.update_of_ne hji]
          exact ht j (by omega)

/-- A frame header makes the frame and the components known to both sides. -/
theorem Matches.framed (hm : Matches width height state host) {marker count : ℕ}
    (hmarker : marker ≠ 0) {t : State} (ht : SameTables state t)
    (htables : ∀ j < count, t.quantizerIds j < 4) :
    Matches width height { t with componentCount := count, frameMarker := marker }
      { host with frame := some ⟨marker, width, height⟩, components := t.stored count } where
  frame := (if_neg hmarker).symm
  components := rfl
  tables := htables
  frameless h := absurd h hmarker
  quant id hid := by
    simp only [ht.quantizers, ht.precision]
    exact hm.quant id hid
  dc id hid := by
    simp only [ht.dc]
    exact hm.dc id hid
  ac id hid := by
    simp only [ht.ac]
    exact hm.ac id hid
  covered := hm.covered.trans ht.initial.symm
  restart := hm.restart.trans ht.restart.symm
  scans := by
    simp only [ht.scan]
    exact hm.scans

theorem frame_agree (hm : Matches width height state host) {segment length marker : ℕ}
    (hlen : 2 ≤ length) (hend : segment + (length - 2) ≤ data.length) (hmarker : marker ≠ 0) :
    Agree (MatchesAt width height host.offset)
      (jpegValidationFrame state marker data segment (length - 2) width height)
      (frameSegment data width height marker segment length host) := by
  have hfour : jpegComponentMax = 4 := rfl
  rw [jpegValidationFrame, frameSegment]
  by_cases h0 : state.frameMarker = 0
  swap
  · have hsome : host.frame.isSome := by rw [hm.frame, if_neg h0]; rfl
    rw [failIf_bind_of Stop.rejected (Or.inl h0), failIf_bind_of Stop.rejected (Or.inl hsome)]
    exact Alike.fail rfl rfl
  have hnone : host.frame = none := by rw [hm.frame, if_pos h0]
  have hscans : host.scans = 0 := hm.scans.mpr (hm.frameless h0).2
  by_cases hshort : length < 11
  · rw [failIf_bind_of Stop.rejected (Or.inr (Or.inr hshort))]
    refine Alike.check_left (fun _ => Alike.fail rfl rfl) fun h => ?_
    rw [byteAt_eq (by omega), byteAt_eq (by omega), jpegValidationBe16_eq (by omega),
      jpegValidationBe16_eq (by omega)]
    simp only [Lockstep.pure_bind]
    refine Alike.check_left (fun _ => Alike.fail rfl rfl) fun _ =>
      Alike.check_left (fun _ => Alike.fail rfl rfl) fun _ =>
      Alike.check_left (fun _ => Alike.fail rfl rfl) fun _ =>
      Alike.check_left (fun _ => Alike.fail rfl rfl) fun h' => ?_
    exact absurd h' (by omega)
  refine Alike.check_left (by omega) fun _ => Alike.check_right (fun h => ?_) fun _ => ?_
  · rw [hnone] at h
    rcases h with h | h | h
    · exact absurd h (by decide)
    · exact absurd hscans h
    · exact absurd h hshort
  rw [byteAt_eq (by omega), byteAt_eq (by omega), jpegValidationBe16_eq (by omega),
    jpegValidationBe16_eq (by omega), word_eq (by omega), word_eq (by omega)]
  simp only [Lockstep.pure_bind]
  generalize hc : value data (segment + 5) = count
  generalize value16 data (segment + 3) = columns
  generalize value16 data (segment + 1) = lines
  generalize value data segment = precision
  by_cases hgood : precision = 8 ∧ lines = height ∧ columns = width ∧ count ≠ 0 ∧ count ≤ 4 ∧
      length - 2 = 6 + 3 * count
  · obtain ⟨rfl, rfl, rfl, hc0, hc4, hsize⟩ := hgood
    refine Alike.check_left (by omega) fun _ => Alike.check_left (by omega) fun _ =>
      Alike.check_left (by omega) fun _ => Alike.check_left (by omega) fun _ =>
      Alike.check_right (by omega) fun _ => Alike.check_right (by omega) fun _ => ?_
    have hempty : host.components = state.stored 0 := by
      rw [hm.components, (hm.frameless h0).1]
      rfl
    rw [hempty]
    refine Alike.bind (components_agree count (by omega) count 0 state (by omega) (by omega)) ?_
    rintro t components ⟨rfl, htables, ht⟩
    exact Alike.pure ⟨hm.framed hmarker ht htables, rfl⟩
  · by_cases hright : precision ≠ 8 ∨ count = 0 ∨ 4 < count ∨ length ≠ 8 + 3 * count
    · rw [failIf_bind_of Stop.rejected hright]
      refine Alike.check_left (fun _ => Alike.fail rfl rfl) fun _ =>
        Alike.check_left (fun _ => Alike.fail rfl rfl) fun _ =>
        Alike.check_left (fun _ => Alike.fail rfl rfl) fun _ =>
        Alike.check_left (fun _ => Alike.fail rfl rfl) fun _ => ?_
      omega
    · refine Alike.check_right (fun h => absurd h hright) fun _ => ?_
      rw [failIf_bind_of Stop.rejected (show columns ≠ width ∨ lines ≠ height by omega)]
      refine Alike.check_left (fun _ => Alike.fail rfl rfl) fun _ =>
        Alike.check_left (fun _ => Alike.fail rfl rfl) fun _ =>
        Alike.check_left (fun _ => Alike.fail rfl rfl) fun _ =>
        Alike.check_left (fun _ => Alike.fail rfl rfl) fun _ => ?_
      omega

/-! ## Scan headers -/

/-- The host's search finds what the device's finds. -/
theorem findIdx?_stored (state : State) (id : ℕ) :
    (state.stored state.componentCount).findIdx? (fun value => value.id == id) =
      if findComponent state id 0 = state.componentCount then none
      else some (findComponent state id 0) := by
  have hfind : ∀ n k, k + n = state.componentCount →
      (∀ j < k, state.componentIds j ≠ id) →
      findComponent state id k ≤ state.componentCount ∧
      (∀ j < findComponent state id k, state.componentIds j ≠ id) ∧
      (findComponent state id k ≠ state.componentCount →
        state.componentIds (findComponent state id k) = id) := by
    intro n
    induction n with
    | zero =>
      intro k hk hbefore
      rw [findComponent, if_neg (by omega)]
      exact ⟨by omega, hbefore, by omega⟩
    | succ n ih =>
      intro k hk hbefore
      rw [findComponent]
      by_cases h : state.componentIds k = id
      · rw [if_neg (by simp [h])]
        exact ⟨by omega, hbefore, fun _ => h⟩
      · rw [if_pos ⟨by omega, h⟩]
        refine ih (k + 1) (by omega) fun j hj => ?_
        by_cases hjk : j = k
        · rwa [hjk]
        · exact hbefore j (by omega)
  obtain ⟨hle, hbefore, hat⟩ := hfind state.componentCount 0 (by omega) (by omega)
  generalize findComponent state id 0 = found at hle hbefore hat
  by_cases h : found = state.componentCount
  · subst h
    rw [if_pos rfl, List.findIdx?_eq_none_iff]
    intro c hc
    obtain ⟨j, hj, rfl⟩ := List.mem_map.mp hc
    simpa using hbefore j (List.mem_range.mp hj)
  · rw [if_neg h, List.findIdx?_eq_some_iff_getElem]
    refine ⟨by simp [State.stored]; omega, ?_, fun j hj => ?_⟩
    · simpa [State.stored] using hat h
    · simpa [State.stored] using hbefore j hj

theorem Matches.stored (hm : Matches width height state host) :
    host.components = state.stored state.componentCount :=
  hm.components

theorem Matches.components_length (hm : Matches width height state host) :
    host.components.length = state.componentCount := by
  rw [hm.components, List.length_map, List.length_range]

theorem Matches.table (hm : Matches width height state host) {i : ℕ}
    (h : i < state.componentCount) :
    (host.components.getD i ⟨0, 0⟩).table = state.quantizerIds i := by
  simp [hm.components, h]

theorem findComponent_le (state : State) (id : ℕ) :
    findComponent state id 0 ≤ state.componentCount := by
  by_cases h : findComponent state id 0 = state.componentCount
  · exact h.le
  · have hfind := findIdx?_stored state id
    rw [if_neg h, List.findIdx?_eq_some_iff_getElem] at hfind
    have hlt := hfind.1
    rw [State.stored, List.length_map, List.length_range] at hlt
    exact hlt.le

/-- Which tables are missing is the same question to both sides. -/
theorem Matches.quant_iff (hm : Matches width height state host) {id : ℕ} (h : id < 4) :
    host.quant id ≠ 0 ↔
      state.quantizers &&& 1 <<< id = 0 ∨ state.quantizerPrecision id ≠ 0 := by
  rw [hm.quant id h, and_shift_eq_zero]
  cases state.quantizers.testBit id <;> simp

theorem selection_agree (hm : Matches width height state host) (data : List UInt8)
    (segment count : ℕ) (hend : segment + (1 + 2 * count) ≤ data.length) (progressive : Bool)
    (first high left : ℕ) :
    ∀ i selected, i + left = count → Agree (fun s t => s = t)
      (scanComponents state data segment progressive first high left i selected)
      (scanSelection data host segment progressive first high left i selected) := by
  induction left with
  | zero =>
    intro i selected _
    exact Alike.pure rfl
  | succ left ih =>
    intro i selected hi
    rw [scanComponents, scanSelection]
    dsimp only
    rw [show segment + 1 + i * 2 = segment + (1 + 2 * i) by omega,
      show segment + (1 + 2 * i) + 1 = segment + (2 + 2 * i) by omega,
      byteAt_eq (by omega), byteAt_eq (by omega)]
    simp only [Lockstep.pure_bind]
    generalize value data (segment + (1 + 2 * i)) = id
    generalize value data (segment + (2 + 2 * i)) >>> 4 = dc
    generalize value data (segment + (2 + 2 * i)) &&& 15 = ac
    have hfour : jpegComponentMax = 4 := rfl
    rw [hm.stored, findIdx?_stored]
    have hle := findComponent_le state id
    generalize findComponent state id 0 = component at hle
    by_cases hnone : component = state.componentCount
    · rw [if_pos hnone, failIf_bind_of Stop.rejected (Or.inl hnone)]
      exact Alike.fail rfl rfl
    · rw [if_neg hnone, ← hm.stored]
      have hlt : component < state.componentCount := by omega
      refine Alike.check rfl rfl (by omega) fun h => ?_
      refine Alike.check rfl rfl ?_ fun _ => ?_
      · rw [hm.table hlt]
        exact (hm.quant_iff (hm.tables component hlt)).symm
      refine Alike.check rfl rfl ?_ fun _ => Alike.check rfl rfl ?_ fun _ =>
        ih (i + 1) _ (by omega)
      · rw [hm.dc dc (by omega), and_shift_eq_zero]
      · rw [hm.ac ac (by omega), and_shift_eq_zero, Nat.pos_iff_ne_zero]

/-- The variables after a scan header. -/
theorem Matches.scanned (hm : Matches width height state host) (h0 : state.frameMarker ≠ 0)
    (initial : Prop) [Decidable initial] (selected : ℕ) :
    Matches width height
      { (if initial then { state with initialComponents := state.initialComponents ||| selected }
          else state) with sawScan := true }
      { host with
        covered := if initial then host.covered ||| selected else host.covered
        scans := host.scans + 1 } := by
  by_cases h : initial
  · rw [if_pos h, if_pos h]
    exact ⟨hm.frame, hm.components, hm.tables, fun h => absurd h h0, hm.quant, hm.dc, hm.ac,
      by rw [hm.covered], hm.restart, by simp⟩
  · rw [if_neg h, if_neg h]
    exact ⟨hm.frame, hm.components, hm.tables, fun h => absurd h h0, hm.quant, hm.dc, hm.ac,
      hm.covered, hm.restart, by simp⟩

theorem scan_agree (hm : Matches width height state host) {segment length last : ℕ}
    (hlast : last = segment + (length - 2)) (hend : last ≤ data.length) :
    Agree (MatchesAt width height host.offset)
      (jpegValidationScan state data segment (length - 2))
      (scanSegment data segment last length host) := by
  subst hlast
  rw [jpegValidationScan, scanSegment, hm.frame]
  by_cases h0 : state.frameMarker = 0
  · rw [if_pos h0, failIf_bind_of Stop.rejected (Or.inl h0)]
    exact Alike.fail rfl rfl
  rw [if_neg h0]
  dsimp only
  by_cases hshort : length < 8
  · rw [failIf_bind_of Stop.rejected hshort]
    refine Alike.check_left (fun _ => Alike.fail rfl rfl) fun h => ?_
    rw [byteAt_eq (by omega)]
    exact Alike.check_left (fun _ => Alike.fail rfl rfl) fun h' => absurd h' (by omega)
  refine Alike.check_left (by omega) fun _ => Alike.check_right (by omega) fun _ => ?_
  rw [byteAt_eq (by omega)]
  simp only [Lockstep.pure_bind]
  generalize value data segment = count
  refine Alike.check rfl rfl (by rw [hm.components_length]; omega) fun h => ?_
  rw [show segment + (length - 2) - 3 = segment + (1 + 2 * count) by omega,
    show segment + (length - 2) - 2 = segment + (2 + 2 * count) by omega,
    show segment + (length - 2) - 1 = segment + (3 + 2 * count) by omega,
    byteAt_eq (by omega), byteAt_eq (by omega), byteAt_eq (by omega)]
  simp only [Lockstep.pure_bind]
  generalize value data (segment + (1 + 2 * count)) = first
  generalize value data (segment + (2 + 2 * count)) = last
  generalize value data (segment + (3 + 2 * count)) = approximation
  have hzero := nibbles_eq_zero (a := approximation)
  have hselect := selection_agree hm data segment count (by omega)
  generalize (state.frameMarker == 0xc2) = progressive at hselect
  generalize approximation >>> 4 = high at *
  generalize approximation &&& 15 = low at *
  have hcheck : (if !progressive then first ≠ 0 ∨ last ≠ 63 ∨ approximation ≠ 0
      else last < first ∨ 63 < last ∨ first = 0 ∧ last ≠ 0 ∨ first ≠ 0 ∧ count ≠ 1 ∨ 13 < high ∨
        13 < low ∨ high ≠ 0 ∧ high ≠ low + 1) ↔
      (!progressive ∧ (first ≠ 0 ∨ last ≠ 63 ∨ high ≠ 0 ∨ low ≠ 0)) ∨
      (progressive ∧ (last < first ∨ 63 < last ∨
        (if first = 0 then last ≠ 0 else count ≠ 1) ∨ 13 < high ∨ 13 < low ∨
        high ≠ 0 ∧ high ≠ low + 1)) := by
    cases progressive
    · simp only [Bool.not_false, if_true, Bool.false_eq_true, false_and, or_false, true_and]
      omega
    · by_cases hf : first = 0
      · simp [hf]
      · simp [hf]
  refine Alike.check_left (fun h => ?_) fun h => ?_
  · rcases hcheck.mp h with h | h
    · rw [failIf_bind_of Stop.rejected h]
      exact Alike.fail rfl rfl
    · refine Alike.check_right (fun _ => Alike.fail rfl rfl) fun _ => ?_
      rw [failIf_bind_of Stop.rejected h]
      exact Alike.fail rfl rfl
  · refine Alike.check_right (fun h' => absurd (hcheck.mpr (Or.inl h')) h) fun _ =>
      Alike.check_right (fun h' => absurd (hcheck.mpr (Or.inr h')) h) fun _ => ?_
    refine Alike.bind (hselect progressive first high count 0 0 (by omega)) ?_
    rintro selected _ rfl
    have hnext := hm.scanned h0 (!progressive ∨ first = 0 ∧ high = 0) selected
    rw [hm.frame, if_neg h0] at hnext
    exact Alike.pure ⟨hnext, rfl⟩

end EspVision.Jpeg
