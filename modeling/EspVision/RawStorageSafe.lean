import EspVision.EventLog
import EspVision.RawStorage

/-!
# Raw access refines an array of bytes

A write that succeeds is one write of its range, and a read gives the range. Of the blocks that a
write erases, only the one in progress can hold anything else when a call fails.
-/
namespace EspVision.RawStorage
open Dialogue EventLog ByteMedium
open BoundedText (overlay overlay_length)

abbrev Log := List (Event Call.Value EspErr)

/-! ## What the calls say -/

/-- The ranges that were to be erased. -/
def erased (log : Log) : List (ℕ × ℕ) := log.filterMap fun e =>
  match e.call with
  | .erase address length => some (address, length)
  | _ => none

/-- A range is programmed right behind the erase of the same range. -/
def ErasedBefore (before : Log) (e : Event Call.Value EspErr) : Prop :=
  ∀ address data, e.call = .write address data →
    before.getLast? = some (succeeded (.erase address data.length) (.ok ()))

/-- The bytes outside the range are as before, except in one block. -/
def OneBlock (size address length : ℕ) (m m' : Medium) : Prop :=
  ∃ b, ∀ i, i < address ∨ address + length ≤ i → i / size ≠ b → m' i = m i

/-! ## Drivers -/

/-- A call that neither erases nor programs. -/
def Call.Plain : Call → Prop
  | .erase _ _ => False
  | .write _ _ => False
  | _ => True

/-- Every range was programmed behind its erase, and these were erased. -/
structure Traced (log : Log) (ranges : List (ℕ × ℕ)) : Prop where
  justified : Justified ErasedBefore log
  erased_eq : erased log = ranges

lemma erased_snoc (log : Log) (e : Event Call.Value EspErr) :
    erased (log ++ [e]) = erased log ++ erased [e] := List.filterMap_append

lemma Traced.plain {log : Log} {ranges : List (ℕ × ℕ)} (h : Traced log ranges)
    {e : Event Call.Value EspErr} (he : e.call.Plain) : Traced (log ++ [e]) ranges := by
  obtain ⟨c, answer⟩ := e
  refine ⟨h.justified.snoc fun address data hc => ?_, ?_⟩
  · rw [hc] at he
    exact absurd he not_false
  · rw [erased_snoc, h.erased_eq]
    cases c <;> first | exact List.append_nil _ | exact absurd he not_false

lemma Traced.erase {log : Log} {ranges : List (ℕ × ℕ)} (h : Traced log ranges) {address length : ℕ}
    {answer : Except EspErr (Except Damage Unit)} :
    Traced (log ++ [⟨.erase address length, answer⟩]) (ranges ++ [(address, length)]) := by
  refine ⟨h.justified.snoc fun address data hc => (nomatch hc), ?_⟩
  rw [erased_snoc, h.erased_eq]
  rfl

lemma Traced.write {log : Log} {ranges : List (ℕ × ℕ)} (h : Traced log ranges) {address : ℕ}
    {data : Bytes} {answer : Except EspErr (Except Damage Unit)}
    (hlast : log.getLast? = some (succeeded (.erase address data.length) (.ok ()))) :
    Traced (log ++ [⟨.write address data, answer⟩]) ranges := by
  refine ⟨h.justified.snoc fun address' data' hc => ?_, ?_⟩
  · obtain ⟨rfl, rfl⟩ := Call.write.inj hc
    exact hlast
  · rw [erased_snoc, h.erased_eq]
    exact List.append_nil _

section Drivers

variable {m : Medium} {ranges : List (ℕ × ℕ)} {size address length : ℕ} {p : Partition}

/-- The medium and the calls so far. -/
structure At (m : Medium) (ranges : List (ℕ × ℕ)) (w : World Medium Call.Value EspErr) : Prop where
  medium : w.state = m
  traced : Traced w.log ranges

/-- The medium outside a block, and what may have been erased. -/
structure Broken (m : Medium) (size b : ℕ) (ranges : List (ℕ × ℕ))
    (w : World Medium Call.Value EspErr) : Prop where
  medium : ∀ i, i / size ≠ b → w.state i = m i
  traced : ∃ done, Traced w.log done ∧ done ⊆ ranges

lemma At.broken {w : World Medium Call.Value EspErr} (h : At m ranges w) (b : ℕ)
    {more : List (ℕ × ℕ)} (hmore : ranges ⊆ more) : Broken m size b more w :=
  ⟨fun i _ => by rw [h.medium], ranges, h.traced, hmore⟩

/-- A plain call that leaves the medium alone. -/
theorem plain_ask {c : Call} (hc : c.Plain) {X : World Medium Call.Value EspErr → Prop}
    (hX : ∀ w, At m ranges w → X w) :
    Triple (At m ranges) (ask c) (fun _ => At m ranges) X :=
  .call (fun _ _ hw => ⟨hw.medium, hw.traced.plain hc⟩)
    fun _ _ hw => hX _ ⟨hw.medium, hw.traced.plain hc⟩

theorem plain_inPartition {P X : World Medium Call.Value EspErr → Prop} (hX : ∀ w, P w → X w) :
    Triple P (inPartition p address length) (fun _ => P) X :=
  .bind (.failIf (fun _ _ h => h) hX) fun _ => .failIf (fun _ _ h => h) hX

theorem reads (hX : ∀ w, At m ranges w → X w) :
    Triple (At m ranges) (partitionRead p address length)
      (fun data w => data = window m address length ∧ At m ranges w) X := by
  refine .bind (plain_inPartition hX) fun _ =>
    .bind (plain_ask (c := .read address length) trivial hX) fun r => ?_
  rcases r with e | ⟨⟩
  · exact .fail hX
  · exact .reading fun s => .pure fun w hw => ⟨by rw [← hw.2, hw.1.medium], hw.1⟩

lemma splice_block {inner : Medium} {base i : ℕ} (hbase : base % size = 0) (hpos : 0 < size)
    (hi : i / size ≠ base / size) : splice base size inner m i = m i := by
  refine splice_outside ?_
  by_contra hin
  push Not at hin
  obtain ⟨k, rfl⟩ := Nat.exists_eq_add_of_le hin.1
  refine hi ?_
  obtain ⟨q, rfl⟩ := Nat.dvd_of_mod_eq_zero hbase
  rw [Nat.mul_add_div hpos, Nat.mul_div_cancel_left _ hpos, Nat.div_eq_of_lt (by omega),
    Nat.add_zero]

/-- An erase, of whole blocks. -/
theorem erases {base : ℕ} (hbase : base % eraseBlockSize = 0) :
    Triple (At m ranges) (partitionErase p base eraseBlockSize)
      (fun _ w => At (splice base eraseBlockSize (fun _ => 0xff) m)
          (ranges ++ [(base, eraseBlockSize)]) w ∧
        w.log.getLast? = some (succeeded (.erase base eraseBlockSize) (.ok ())))
      (Broken m eraseBlockSize (base / eraseBlockSize) (ranges ++ [(base, eraseBlockSize)])) := by
  have hX : ∀ w, At m ranges w → Broken m eraseBlockSize (base / eraseBlockSize)
      (ranges ++ [(base, eraseBlockSize)]) w := fun w hw =>
    hw.broken _ (List.subset_append_left _ _)
  refine .bind (plain_inPartition hX) fun _ => .passed hX fun _ => ?_
  refine .bind (Q := fun r w => At m (ranges ++ [(base, eraseBlockSize)]) w ∧
    w.log.getLast? = some (succeeded (.erase base eraseBlockSize) r)) ?_ fun r => ?_
  · refine .call (fun r w hw => ⟨⟨hw.medium, hw.traced.erase⟩, ?_⟩) fun e w hw => ?_
    · rw [List.getLast?_append_of_ne_nil _ (List.cons_ne_nil _ _)]
      rfl
    · exact ⟨fun i _ => congrFun hw.medium i, _, hw.traced.erase, List.Subset.refl _⟩
  · rcases r with damage | ⟨⟩
    · refine .bind (Q := fun _ => Broken m eraseBlockSize (base / eraseBlockSize)
        (ranges ++ [(base, eraseBlockSize)])) (.update fun w hw => ?_) fun _ => .fail fun _ h => h
      refine ⟨fun i hi => ?_, _, hw.1.traced, List.Subset.refl _⟩
      rw [hw.1.medium]
      exact splice_block hbase (by decide) hi
    · exact .update fun w hw => ⟨⟨by rw [hw.1.medium], hw.1.traced⟩, hw.2⟩

/-- Bits that are set are cleared to the data. -/
lemma programmed {base : ℕ} {data : Bytes} (h : data.length = eraseBlockSize) :
    put base (List.zipWith (· &&& ·)
      (window (splice base eraseBlockSize (fun _ => 0xff) m) base data.length) data)
      (splice base eraseBlockSize (fun _ => 0xff) m) = put base data m := by
  have hand : ∀ d : UInt8, 0xff &&& d = d := fun d => UInt8.neg_one_and
  have hdata : List.zipWith (· &&& ·)
      (window (splice base eraseBlockSize (fun _ => 0xff) m) base data.length) data = data := by
    refine List.ext_getElem (by simp) fun i hi hi' => ?_
    have hw : (window (splice base eraseBlockSize (fun _ => 0xff) m) base data.length)[i]? =
        some 0xff := by
      rw [window_getElem? hi', splice, if_pos (by omega)]
    rw [List.getElem_zipWith, (List.getElem?_eq_some_iff.mp hw).2, hand]
  rw [hdata, put_splice h]

/-- Programming a block behind its erase. -/
theorem writes {base : ℕ} {data : Bytes} (hbase : base % eraseBlockSize = 0)
    (hdata : data.length = eraseBlockSize) :
    Triple (fun w => At (splice base eraseBlockSize (fun _ => 0xff) m)
          (ranges ++ [(base, eraseBlockSize)]) w ∧
        w.log.getLast? = some (succeeded (.erase base eraseBlockSize) (.ok ())))
      (partitionWrite p base data)
      (fun _ => At (put base data m) (ranges ++ [(base, eraseBlockSize)]))
      (Broken m eraseBlockSize (base / eraseBlockSize) (ranges ++ [(base, eraseBlockSize)])) := by
  have hX : ∀ w : World Medium Call.Value EspErr,
      At (splice base eraseBlockSize (fun _ => 0xff) m) (ranges ++ [(base, eraseBlockSize)]) w ∧
        w.log.getLast? = some (succeeded (.erase base eraseBlockSize) (.ok ())) →
      Broken m eraseBlockSize (base / eraseBlockSize) (ranges ++ [(base, eraseBlockSize)]) w := by
    refine fun w hw => ⟨fun i hi => ?_, _, hw.1.traced, List.Subset.refl _⟩
    rw [hw.1.medium]
    exact splice_block hbase (by decide) hi
  refine .bind (plain_inPartition hX) fun _ => .bind (Q := fun _ => At
    (splice base eraseBlockSize (fun _ => 0xff) m) (ranges ++ [(base, eraseBlockSize)])) ?_
    fun r => ?_
  · refine .call (fun r w hw => ⟨hw.1.medium, hw.1.traced.write (by rw [hdata]; exact hw.2)⟩)
      fun e w hw => ⟨(hX w hw).medium, _, hw.1.traced.write (by rw [hdata]; exact hw.2),
        List.Subset.refl _⟩
  · rcases r with damage | ⟨⟩
    · refine .bind (Q := fun _ => Broken m eraseBlockSize (base / eraseBlockSize)
        (ranges ++ [(base, eraseBlockSize)])) (.update fun w hw => ?_) fun _ => .fail fun _ h => h
      refine ⟨fun i hi => ?_, _, hw.traced, List.Subset.refl _⟩
      rw [hw.medium, hdata]
      exact (splice_block hbase (by decide) hi).trans (splice_block hbase (by decide) hi)
    · refine .update fun w hw => ⟨?_, hw.traced⟩
      rw [hw.medium]
      exact programmed hdata

end Drivers

/-! ## The flash loop -/

section Flash

variable {m : Medium} {ranges : List (ℕ × ℕ)} {p : Partition}

/-- The blocks of a range. -/
def touched (address length : ℕ) : List ℕ :=
  if length = 0 then []
  else List.range' (address / eraseBlockSize)
    ((address + length - 1) / eraseBlockSize - address / eraseBlockSize + 1)

/-- The ranges of these blocks. -/
def blockRanges (blocks : List ℕ) : List (ℕ × ℕ) :=
  blocks.map fun b => (b * eraseBlockSize, eraseBlockSize)

theorem mem_touched {address length b : ℕ} :
    b ∈ touched address length ↔
      ∃ i, address ≤ i ∧ i < address + length ∧ i / eraseBlockSize = b := by
  unfold touched
  split_ifs with h
  · simp only [List.not_mem_nil, false_iff]
    rintro ⟨i, hlow, hhigh, -⟩
    omega
  · rw [List.mem_range'_1]
    have hle : address / eraseBlockSize ≤ (address + length - 1) / eraseBlockSize :=
      Nat.div_le_div_right (by omega)
    constructor
    · rintro ⟨hlow, hhigh⟩
      refine ⟨max address (b * eraseBlockSize), le_max_left _ _, ?_, ?_⟩
      · have hb : b * eraseBlockSize ≤ address + length - 1 :=
          (Nat.le_div_iff_mul_le (by decide)).mp (by omega)
        omega
      · rcases le_total address (b * eraseBlockSize) with hmax | hmax
        · rw [max_eq_right hmax, Nat.mul_div_cancel _ (by decide)]
        · rw [max_eq_left hmax]
          exact le_antisymm hlow ((Nat.le_div_iff_mul_le (by decide)).mpr hmax)
    · rintro ⟨i, hlow, hhigh, rfl⟩
      have hi : i / eraseBlockSize ≤ (address + length - 1) / eraseBlockSize :=
        Nat.div_le_div_right (by omega)
      exact ⟨Nat.div_le_div_right hlow, by omega⟩

lemma touched_nodup (address length : ℕ) : (touched address length).Nodup := by
  unfold touched
  split_ifs
  · exact List.nodup_nil
  · exact List.nodup_range'

/-- The first block of a range, and the blocks of the rest. -/
lemma touched_cons {address length n : ℕ} (hpos : 0 < length)
    (hn : n = min (eraseBlockSize - address % eraseBlockSize) length) :
    touched address length =
      address / eraseBlockSize :: touched (address + n) (length - n) := by
  have hmod := Nat.mod_lt address (show 0 < eraseBlockSize by decide)
  have hdiv := Nat.div_add_mod address eraseBlockSize
  set q := address / eraseBlockSize
  set r := address % eraseBlockSize
  unfold touched
  rw [if_neg hpos.ne', List.range'_succ]
  congr 1
  by_cases hlast : length ≤ eraseBlockSize - r
  · have hnl : n = length := by omega
    have hend : (address + length - 1) / eraseBlockSize = q := by
      rw [show address + length - 1 = eraseBlockSize * q + (r + length - 1) by omega,
        Nat.mul_add_div (by decide), Nat.div_eq_of_lt (by omega), Nat.add_zero]
    rw [hend, hnl, Nat.sub_self, Nat.sub_self, if_pos rfl]
    rfl
  · have hnb : n = eraseBlockSize - r := by omega
    have hnext : address + n = eraseBlockSize * (q + 1) := by
      rw [Nat.mul_add, Nat.mul_one]
      omega
    have hle : q + 1 ≤ (address + length - 1) / eraseBlockSize := by
      rw [Nat.le_div_iff_mul_le (by decide), Nat.mul_comm]
      omega
    rw [if_neg (by omega), hnext, Nat.mul_div_cancel_left _ (by decide),
      show eraseBlockSize * (q + 1) + (length - n) - 1 = address + length - 1 by omega]
    congr 1
    omega

/-- One turn writes its part of the range into its block. -/
theorem turn_writes {address : ℕ} {src : Bytes} :
    let eraseBase := address / eraseBlockSize * eraseBlockSize
    let writeLen := min (eraseBlockSize - (address - eraseBase)) src.length
    Triple (At m ranges)
      (flashWriteTurn p eraseBase (address - eraseBase) writeLen src)
      (fun _ => At (put address (src.take writeLen) m) (ranges ++ [(eraseBase, eraseBlockSize)]))
      (Broken m eraseBlockSize (address / eraseBlockSize)
        (ranges ++ [(eraseBase, eraseBlockSize)])) := by
  intro base n
  have hmod := Nat.mod_lt address (show 0 < eraseBlockSize by decide)
  have hdiv := Nat.div_add_mod' address eraseBlockSize
  have hbase : base % eraseBlockSize = 0 := Nat.mul_mod_left _ _
  have hblock : base / eraseBlockSize = address / eraseBlockSize :=
    Nat.mul_div_cancel _ (by decide)
  have hoffset : base + (address - base) = address := by omega
  rw [← hblock]
  have hX : ∀ w, At m ranges w → Broken m eraseBlockSize (base / eraseBlockSize)
      (ranges ++ [(base, eraseBlockSize)]) w := fun w hw =>
    hw.broken _ (List.subset_append_left _ _)
  unfold flashWriteTurn
  split_ifs with hfull
  · have hlen : (src.take eraseBlockSize).length = eraseBlockSize := by
      rw [List.length_take]
      omega
    rw [hfull.2, show address = base by omega]
    exact .bind (erases hbase) fun _ => writes hbase hlen
  · have hfit : address - base + (src.take n).length ≤ eraseBlockSize := by
      rw [List.length_take]
      omega
    refine .bind (reads hX) fun cache => ?_
    intro env w hw
    rw [hw.1]
    replace hw := hw.2
    have hchanged : put base
          (overlay (window m base eraseBlockSize) (address - base) (src.take n)) m =
        put address (src.take n) m := by
      rw [overlay, put_window_changed hfit, hoffset]
    have hlen : (overlay (window m base eraseBlockSize) (address - base) (src.take n)).length =
        eraseBlockSize := by
      rw [overlay_length (by rwa [window_length]), window_length]
    rw [← hchanged]
    exact Triple.bind (erases hbase) (fun _ => writes hbase hlen) env w hw

/-- The loop writes the range; when a call fails, all blocks but one are as before, or written. -/
theorem loop_writes {turns address : ℕ} {src : Bytes} (hturns : src.length ≤ turns)
    (hsize : address + src.length < 2 ^ 32) :
    Triple (At m ranges) (flashWriteLoop p turns address src)
      (fun _ => At (put address src m) (ranges ++ blockRanges (touched address src.length)))
      (fun w => OneBlock eraseBlockSize address src.length m w.state ∧ ∃ done, Traced w.log done ∧
        done ⊆ ranges ++ blockRanges (touched address src.length)) := by
  induction turns generalizing address src m ranges with
  | zero =>
    obtain rfl : src = [] := List.length_eq_zero_iff.mp (by omega)
    refine .pure fun w hw => ?_
    simpa [touched, blockRanges] using hw
  | succ turns ih =>
    unfold flashWriteLoop
    split_ifs with hnil
    · obtain rfl : src = [] := List.length_eq_zero_iff.mp hnil
      refine .pure fun w hw => ?_
      simpa [touched, blockRanges] using hw
    have hpos : 0 < src.length := Nat.pos_of_ne_zero hnil
    have hmod := Nat.mod_lt address (show 0 < eraseBlockSize by decide)
    have hdiv := Nat.div_add_mod' address eraseBlockSize
    dsimp only
    set base := address / eraseBlockSize * eraseBlockSize with hbase
    set n := min (eraseBlockSize - (address - base)) src.length with hn
    have hrest : (src.drop n).length = src.length - n := List.length_drop
    have htouched := touched_cons (n := n) hpos
      (by rw [hn, show address - base = address % eraseBlockSize by omega])
    have hblocks : ranges ++ blockRanges (touched address src.length) =
        ranges ++ [(base, eraseBlockSize)] ++
          blockRanges (touched (address + n) (src.drop n).length) := by
      rw [htouched, hrest, List.append_assoc]
      rfl
    have hput : put address src m =
        put (address + n) (src.drop n) (put address (src.take n) m) := by
      conv_lhs => rw [← List.take_append_drop n src]
      rw [put_append, List.length_take, min_eq_left (min_le_right _ _)]
    rw [hblocks, hput, Nat.mod_eq_of_lt (by omega)]
    refine .bind (turn_writes.conseq (fun _ h => h) (fun _ _ h => h) fun w hw => ?_) fun _ =>
      (ih (by rw [hrest]; omega) (by rw [hrest]; omega)).conseq (fun _ h => h) (fun _ _ h => h)
        fun w hw => ⟨?_, hw.2⟩
    · obtain ⟨done, htraced, hdone⟩ := hw.traced
      refine ⟨⟨_, fun i _ hi => hw.medium i hi⟩, done, htraced, fun x hx => ?_⟩
      exact List.mem_append_left _ (hdone hx)
    · obtain ⟨b, hb⟩ := hw.1
      refine ⟨b, fun i hout hi => ?_⟩
      rw [hb i (by rw [hrest]; omega) hi]
      exact put_outside (by rw [List.length_take]; omega)

end Flash

/-! ## The loops of the card -/

section Card

variable {m : Medium} {c : Card}

/-- The medium is as it was. -/
abbrev Same (m : Medium) (w : World Medium Call.Value EspErr) : Prop := w.state = m

theorem reads_sectors {block count : ℕ} {X : World Medium Call.Value EspErr → Prop}
    (hX : ∀ w, Same m w → X w) :
    Triple (Same m) (readSectors c block count)
      (fun data w => data = window m (block * c.sectorSize) (count * c.sectorSize) ∧ Same m w)
      X := by
  refine .bind (Q := fun _ => Same m) (.call (fun _ _ h => h) fun _ _ h => hX _ h) fun r => ?_
  rcases r with e | ⟨⟩
  · exact .fail hX
  · exact .reading fun s => .pure fun w hw => ⟨by rw [← hw.2, hw.1], hw.1⟩

/-- A write of whole sectors; what a failed one leaves is anywhere in them. -/
theorem writes_sectors (m : Medium) (c : Card) (block : ℕ) (data : Bytes) :
    Triple (Same m) (writeSectors c block data)
      (fun _ => Same (put (block * c.sectorSize) data m))
      (fun w => ∃ left, w.state = splice (block * c.sectorSize) data.length left m) := by
  have hself : m = splice (block * c.sectorSize) data.length m m := by
    funext i
    unfold splice
    split_ifs <;> rfl
  refine .bind (Q := fun _ => Same m) (.call (fun _ _ h => h) fun _ w h => ⟨m, h.trans hself⟩)
    fun r => ?_
  rcases r with damage | ⟨⟩
  · exact .bind (Q := fun _ w => ∃ left, w.state = splice (block * c.sectorSize) data.length left m)
      (.update fun w hw => ⟨damage.left, by rw [hw]⟩) fun _ => .fail fun _ h => h
  · exact .update fun w hw => by rw [hw]

/-- The numbers of a turn: no conversion cuts anything off. -/
structure InCard (c : Card) (address length : ℕ) : Prop where
  sectorSize : c.sectorSize = blockSize
  fits : address + length ≤ c.capacity * c.sectorSize

lemma InCard.block {address length : ℕ} (h : InCard c address length) (hpos : 0 < length) :
    address / c.sectorSize % 2 ^ 32 = address / blockSize := by
  have hcapacity := c.capacity_lt
  have hfits := h.fits
  rw [h.sectorSize] at hfits ⊢
  refine Nat.mod_eq_of_lt ((Nat.div_lt_iff_lt_mul (by decide)).mpr ?_)
  have hlt : c.capacity * blockSize < 2 ^ 32 * blockSize :=
    Nat.mul_lt_mul_of_pos_right (by omega) (by decide)
  omega

lemma InCard.next {address length n : ℕ} (h : InCard c address length) (hn : n ≤ length) :
    (address + n) % 2 ^ 64 = address + n ∧ InCard c (address + n) (length - n) := by
  have hcapacity := c.capacity_lt
  have hfits := h.fits
  rw [h.sectorSize] at hfits
  have hlt : c.capacity * blockSize < 2 ^ 32 * blockSize :=
    Nat.mul_lt_mul_of_pos_right (by omega) (by decide)
  have hsize : 2 ^ 32 * blockSize = 2 ^ 41 := by decide
  refine ⟨Nat.mod_eq_of_lt (by omega), h.sectorSize, ?_⟩
  rw [h.sectorSize]
  omega

/-- The whole sectors at the front of a range. -/
lemma whole_sectors {address length : ℕ} (hoffset : address % blockSize = 0)
    (hchunk : min (blockSize - 0) length = blockSize) :
    address / blockSize * blockSize = address ∧ 0 < length / blockSize * blockSize ∧
      length / blockSize * blockSize ≤ length := by
  have hdiv := Nat.div_add_mod' address blockSize
  have hle : blockSize ≤ length := by omega
  have hpos : 0 < length / blockSize := Nat.div_pos hle (by decide)
  exact ⟨by omega, Nat.mul_pos hpos (by decide), Nat.div_mul_le_self _ _⟩

theorem card_reads {turns address length : ℕ} (hturns : length ≤ turns)
    (hcard : InCard c address length) :
    Triple (Same m) (sdcardReadLoop c turns address length)
      (fun data w => data = window m address length ∧ Same m w) (Same m) := by
  induction turns generalizing address length with
  | zero =>
    obtain rfl : length = 0 := by omega
    exact .pure fun w hw => ⟨rfl, hw⟩
  | succ turns ih =>
    unfold sdcardReadLoop
    by_cases hzero : length = 0
    · rw [if_pos hzero]
      subst hzero
      exact .pure fun w hw => ⟨rfl, hw⟩
    rw [if_neg hzero]
    have hpos : 0 < length := Nat.pos_of_ne_zero hzero
    have hmod := Nat.mod_lt address (show 0 < blockSize by decide)
    have hdiv := Nat.div_add_mod' address blockSize
    dsimp only
    rw [hcard.block hpos, hcard.sectorSize]
    split_ifs with hfull
    · obtain ⟨haddress, hchunk, hle⟩ := whole_sectors hfull.1 (hfull.1 ▸ hfull.2)
      obtain ⟨hnext, hcard'⟩ := hcard.next hle
      rw [hnext]
      refine .bind (reads_sectors fun _ h => h) fun data => ?_
      rw [hcard.sectorSize, haddress]
      intro env w hw
      rw [hw.1]
      refine Triple.bind (ih (by omega) hcard') (fun rest => .pure fun w hw => ?_) env w hw.2
      rw [hw.1, ← window_add, Nat.add_sub_cancel' hle]
      exact ⟨rfl, hw.2⟩
    · set n := min (blockSize - address % blockSize) length with hn
      have hnl : n ≤ length := min_le_right _ _
      obtain ⟨hnext, hcard'⟩ := hcard.next hnl
      rw [hnext]
      refine .bind (reads_sectors fun _ h => h) fun cache => ?_
      rw [hcard.sectorSize, Nat.one_mul]
      intro env w hw
      rw [hw.1, window_part (by omega), hdiv]
      refine Triple.bind (ih (by omega) hcard') (fun rest => .pure fun w hw => ?_) env w hw.2
      rw [hw.1, ← window_add, Nat.add_sub_cancel' hnl]
      exact ⟨rfl, hw.2⟩

theorem card_writes {turns address : ℕ} {src : Bytes} (hturns : src.length ≤ turns)
    (hcard : InCard c address src.length) :
    Triple (Same m) (sdcardWriteLoop c turns address src) (fun _ => Same (put address src m))
      (fun w => OneBlock blockSize address src.length m w.state) := by
  have hsame : ∀ {address length : ℕ} (w : World Medium Call.Value EspErr), Same m w →
      OneBlock blockSize address length m w.state := fun w hw => ⟨0, fun i _ _ => by rw [hw]⟩
  induction turns generalizing address src m with
  | zero =>
    obtain rfl : src = [] := List.length_eq_zero_iff.mp (by omega)
    exact .pure fun w hw => by rw [put_nil]; exact hw
  | succ turns ih =>
    unfold sdcardWriteLoop
    by_cases hzero : src.length = 0
    · rw [if_pos hzero]
      obtain rfl : src = [] := List.length_eq_zero_iff.mp hzero
      exact .pure fun w hw => by rw [put_nil]; exact hw
    rw [if_neg hzero]
    have hpos : 0 < src.length := Nat.pos_of_ne_zero hzero
    have hmod := Nat.mod_lt address (show 0 < blockSize by decide)
    have hdiv := Nat.div_add_mod' address blockSize
    -- the rest of the loop, behind the part that is written
    have hrest : ∀ n, 0 < n → n ≤ src.length → Triple (Same (put address (src.take n) m))
        (sdcardWriteLoop c turns ((address + n) % 2 ^ 64) (src.drop n))
        (fun _ => Same (put address src m))
        (fun w => OneBlock blockSize address src.length m w.state) := by
      intro n hn hle
      obtain ⟨hnext, hcard'⟩ := hcard.next hle
      have hlen : (src.drop n).length = src.length - n := List.length_drop
      have hput : put (address + n) (src.drop n) (put address (src.take n) m) =
          put address src m := by
        conv_rhs => rw [← List.take_append_drop n src]
        rw [put_append, List.length_take, min_eq_left hle]
      rw [hnext, ← hput]
      refine (ih (by omega) (by rw [hlen]; exact hcard') fun w hw => ⟨0, fun i _ _ => by
        rw [hw]⟩).conseq (fun _ h => h) (fun _ _ h => h) fun w hw => ?_
      obtain ⟨b, hb⟩ := hw
      refine ⟨b, fun i hout hi => ?_⟩
      rw [hb i (by omega) hi]
      exact put_outside (by rw [List.length_take]; omega)
    dsimp only
    rw [hcard.block hpos, hcard.sectorSize]
    split_ifs with hfull
    · obtain ⟨haddress, hchunk, hle⟩ := whole_sectors hfull.1 (hfull.1 ▸ hfull.2)
      have hwrite := writes_sectors m c (address / blockSize)
        (src.take (src.length / blockSize * blockSize))
      rw [hcard.sectorSize, haddress] at hwrite
      refine .bind (hwrite.conseq (fun _ h => h) (fun _ _ h => h) ?_) fun _ => hrest _ hchunk hle
      rintro w ⟨left, hleft⟩
      refine ⟨0, fun i hout _ => ?_⟩
      rw [hleft]
      exact splice_outside (by rw [List.length_take]; omega)
    · set n := min (blockSize - address % blockSize) src.length with hn
      have hnl : n ≤ src.length := min_le_right _ _
      have htake : (src.take n).length = n := by rw [List.length_take, min_eq_left hnl]
      refine .bind (reads_sectors hsame) fun cache => ?_
      rw [hcard.sectorSize, Nat.one_mul]
      intro env w hw
      rw [hw.1]
      set cells := overlay (window m (address / blockSize * blockSize) blockSize)
        (address % blockSize) (src.take n) with hcells
      have hchanged : put (address / blockSize * blockSize) cells m =
          put address (src.take n) m := by
        rw [hcells, overlay, put_window_changed (by rw [htake]; omega), hdiv]
      have hlen : cells.length = blockSize := by
        rw [hcells, overlay_length (by rw [window_length, htake]; omega), window_length]
      have hwrite := writes_sectors m c (address / blockSize) cells
      rw [hcard.sectorSize, hchanged, hlen] at hwrite
      refine Triple.bind (hwrite.conseq (fun _ h => h) (fun _ _ h => h) ?_)
        (fun _ => hrest n (by omega) hnl) env w hw.2
      rintro w ⟨left, hleft⟩
      refine ⟨address / blockSize, fun i _ hi => ?_⟩
      rw [hleft]
      have hself : address / blockSize = address / blockSize * blockSize / blockSize :=
        (Nat.mul_div_cancel _ (by decide)).symm
      exact splice_block (Nat.mul_mod_left _ _) (by decide) (hself ▸ hi)

end Card

/-! ## Accesses -/

/-- `take` and `give`. -/
def Call.Lock : Call → Prop
  | .take => True
  | .give => True
  | _ => False

/-- A program under a mutex keeps what its calls do not touch. -/
theorem locked_ends {α : Type} {p : Flow α} {P X : World Medium Call.Value EspErr → Prop}
    {Q : α → World Medium Call.Value EspErr → Prop} (hp : Triple P p Q X)
    (hP : KeptBy Call.Lock P) (hQ : ∀ a, KeptBy Call.Lock (Q a)) (hX : KeptBy Call.Lock X)
    (hPX : ∀ w, P w → X w) (hQX : ∀ a w, Q a w → X w) : Triple P (locked p) Q X := by
  have htake : Call.Lock .take := trivial
  have hgive : Call.Lock .give := trivial
  refine hP.skip hPX htake fun _ => .passed hPX fun _ => .andFinally hp (fun a => ?_) ?_
  · exact ((hQ a).ask (hQX a) hgive).post fun _ _ h => h.1
  · exact (hX.ask (fun _ h => h) hgive).post fun _ _ h => h.1

lemma plain_of_lock {c : Call} (h : c.Lock) : c.Plain := by
  cases c <;> trivial

lemma keptBy_same (m : Medium) : KeptBy Call.Lock (Same m) := fun _ _ _ h => h

lemma keptBy_at (m : Medium) (ranges : List (ℕ × ℕ)) : KeptBy Call.Lock (At m ranges) :=
  fun _ _ he h => ⟨h.medium, h.traced.plain (plain_of_lock he)⟩

/-- The range is in the partition. -/
def InFlash (f : Flash) (address length : ℕ) : Prop :=
  ∃ p, f.partition = some p ∧ address + length ≤ p.size

/-- The range is on the card. -/
def OnCard (s : SdCard) (address length : ℕ) : Prop :=
  s.mounted = true ∧ ∃ c, s.card = some c ∧ InCard c address length

lemma flashChecked_ok {f : Flash} {address length : ℕ} {missing : Bool} {p : Partition}
    (h : flashChecked f address missing length = .ok p) :
    f.partition = some p ∧ address + length ≤ p.size ∧ ¬ (missing = true ∧ length ≠ 0) := by
  unfold flashChecked at h
  by_cases hnull : missing = true ∧ length ≠ 0
  · rw [if_pos hnull] at h
    cases h
  rw [if_neg hnull] at h
  cases hv : flashRangeValid f address length with
  | none =>
    rw [hv] at h
    cases h
  | some p' =>
    rw [hv] at h
    dsimp only at h
    split_ifs at h
    obtain rfl := Except.ok.inj h
    obtain ⟨hsome, hrange⟩ := Option.filter_eq_some_iff.mp hv
    simp only [Bool.and_eq_true, decide_eq_true_eq] at hrange
    exact ⟨hsome, by omega, hnull⟩

lemma flashChecked_outside {f : Flash} {address length : ℕ} (missing : Bool)
    (h : ¬ InFlash f address length) :
    flashChecked f address missing length = .error .invalidArg := by
  unfold flashChecked
  by_cases hnull : missing = true ∧ length ≠ 0
  · rw [if_pos hnull]
  have hnone : flashRangeValid f address length = none := by
    refine Option.filter_eq_none_iff.mpr fun p hp hrange => h ⟨p, hp, ?_⟩
    simp only [Bool.and_eq_true, decide_eq_true_eq] at hrange
    omega
  rw [if_neg hnull, hnone]

lemma sdcardChecked_ok {s : SdCard} {address length : ℕ} {missing : Bool} {c : Card}
    (h : sdcardChecked s address missing length = .ok c) :
    OnCard s address length ∧ s.card = some c ∧ InCard c address length := by
  unfold sdcardChecked at h
  by_cases hnull : missing = true ∧ length ≠ 0
  · rw [if_pos hnull] at h
    cases h
  rw [if_neg hnull] at h
  cases hv : sdcardRangeValid s address length with
  | none =>
    rw [hv] at h
    cases h
  | some c' =>
    rw [hv] at h
    dsimp only at h
    split_ifs at h
    obtain rfl := Except.ok.inj h
    obtain ⟨hsome, hrange⟩ := Option.filter_eq_some_iff.mp hv
    simp only [Bool.and_eq_true, decide_eq_true_eq, beq_iff_eq] at hrange
    have hin : InCard c' address length := ⟨hrange.1.2, by omega⟩
    exact ⟨⟨hrange.1.1, c', hsome, hin⟩, hsome, hin⟩

lemma sdcardChecked_outside {s : SdCard} {address length : ℕ} (missing : Bool)
    (h : ¬ OnCard s address length) :
    sdcardChecked s address missing length = .error .invalidArg := by
  unfold sdcardChecked
  by_cases hnull : missing = true ∧ length ≠ 0
  · rw [if_pos hnull]
  have hnone : sdcardRangeValid s address length = none := by
    refine Option.filter_eq_none_iff.mpr fun c hc hrange => h ?_
    simp only [Bool.and_eq_true, decide_eq_true_eq, beq_iff_eq] at hrange
    exact ⟨hrange.1.1, c, hc, hrange.1.2, by omega⟩
  rw [if_neg hnull, hnone]

/-- A read: outside the medium it is refused without a call, inside it gives the range, and it
changes nothing. -/
structure Reads (m : Medium) (inside : Prop) (address length : ℕ)
    (run : World Medium Call.Value EspErr × Except EspErr Bytes) : Prop where
  refused : ¬ inside → run = (⟨m, []⟩, .error .invalidArg)
  gives : ∀ data, run.2 = .ok data → data = window m address length
  unchanged : run.1.state = m

/-- A write: outside the medium it is refused without a call, when it succeeds it replaces the
range, and when it fails the bytes outside are as before except in one block. -/
structure Writes (m : Medium) (inside : Prop) (size address : ℕ) (data : Bytes)
    (run : World Medium Call.Value EspErr × Except EspErr Unit) : Prop where
  refused : ¬ inside → run = (⟨m, []⟩, .error .invalidArg)
  replaces : run.2 = .ok () → run.1.state = put address data m
  outside : ∀ e, run.2 = .error e → OneBlock size address data.length m run.1.state

/-- The calls of a flash write: what is programmed was erased right before, and the blocks of the
range are erased, each once. -/
structure Erases (address length : ℕ) (log : Log) (succeeded : Prop) : Prop where
  programmed : Justified ErasedBefore log
  exact : succeeded → erased log = blockRanges (touched address length)
  within : erased log ⊆ blockRanges (touched address length)

section Accesses

variable (f : Flash) (s : SdCard) (env : Partner Call.Value EspErr) (m : Medium)

theorem flashRead_reads (address : ℕ) (missing : Bool) (length : ℕ) :
    Reads m (InFlash f address length) address length
      (flashRead f address missing length env ⟨m, []⟩) := by
  have hends : Triple (At m []) (flashRead f address missing length)
      (fun data w => data = window m address length ∧ At m [] w) (At m []) :=
    .given (fun _ h => h) fun p _ => locked_ends (reads fun _ h => h) (keptBy_at m [])
      (fun _ w e he h => ⟨h.1, keptBy_at m [] w e he h.2⟩) (keptBy_at m []) (fun _ h => h)
      fun _ _ h => h.2
  have hrun := hends env ⟨m, []⟩ ⟨rfl, justified_nil, rfl⟩
  refine ⟨fun hout => ?_, ?_, ?_⟩
  · unfold flashRead
    rw [flashChecked_outside missing hout]
    rfl
  · intro data hdata
    rcases hr : flashRead f address missing length env ⟨m, []⟩ with ⟨w, e | data'⟩ <;>
      rw [hr] at hrun hdata
    · cases hdata
    · obtain rfl := Except.ok.inj hdata
      exact hrun.1
  · rcases hr : flashRead f address missing length env ⟨m, []⟩ with ⟨w, e | data'⟩ <;>
      rw [hr] at hrun
    · exact hrun.medium
    · exact hrun.2.medium

/-- What is programmed when nothing is missing. -/
lemma Buffer.data_length {buffer : Buffer} (h : ¬ (buffer.isNull = true ∧ buffer.length ≠ 0)) :
    buffer.data.length = buffer.length := by
  cases buffer with
  | null length =>
    have hzero : length = 0 := by
      by_contra hne
      exact h ⟨rfl, hne⟩
    exact hzero.symm
  | holds data => rfl

theorem flashWrite_writes (address : ℕ) (buffer : Buffer) :
    Writes m (InFlash f address buffer.length) eraseBlockSize address buffer.data
      (flashWrite f address buffer env ⟨m, []⟩) ∧
    Erases address buffer.length (flashWrite f address buffer env ⟨m, []⟩).1.log
      ((flashWrite f address buffer env ⟨m, []⟩).2 = .ok ()) := by
  have hends : Triple (At m []) (flashWrite f address buffer)
      (fun _ => At (put address buffer.data m) (blockRanges (touched address buffer.length)))
      (fun w => OneBlock eraseBlockSize address buffer.data.length m w.state ∧ ∃ done,
        Traced w.log done ∧ done ⊆ blockRanges (touched address buffer.length)) := by
    have hnone : ∀ w, At m [] w → OneBlock eraseBlockSize address buffer.data.length m w.state ∧
        ∃ done, Traced w.log done ∧ done ⊆ blockRanges (touched address buffer.length) :=
      fun w hw => ⟨⟨0, fun i _ _ => by rw [hw.medium]⟩, [], hw.traced, List.nil_subset _⟩
    refine .given hnone fun p hp => ?_
    obtain ⟨-, hfits, hnull⟩ := flashChecked_ok hp
    have hlen := Buffer.data_length hnull
    have hsize := p.size_lt
    rw [← hlen]
    refine locked_ends (loop_writes le_rfl (by omega)) (keptBy_at m []) (fun _ => keptBy_at _ _)
      (fun w e he h => ⟨h.1, ?_⟩) (fun w hw => ?_) fun _ w hw => ⟨⟨0, fun i hi _ => ?_⟩, ?_⟩
    · obtain ⟨done, htraced, hdone⟩ := h.2
      exact ⟨done, htraced.plain (plain_of_lock he), hdone⟩
    · exact ⟨⟨0, fun i _ _ => by rw [hw.medium]⟩, [], hw.traced, List.nil_subset _⟩
    · rw [hw.medium]
      exact put_outside hi
    · exact ⟨_, hw.traced, List.Subset.refl _⟩
  have hrun := hends env ⟨m, []⟩ ⟨rfl, justified_nil, rfl⟩
  have hrefused : ¬ InFlash f address buffer.length →
      flashWrite f address buffer env ⟨m, []⟩ = (⟨m, []⟩, .error .invalidArg) := fun hout => by
    unfold flashWrite
    rw [flashChecked_outside buffer.isNull hout]
    rfl
  generalize flashWrite f address buffer env ⟨m, []⟩ = run at hrun hrefused
  obtain ⟨w, e | ⟨⟩⟩ := run
  · obtain ⟨hone, done, htraced, hdone⟩ := hrun
    refine ⟨⟨hrefused, nofun, fun _ _ => hone⟩, htraced.justified, nofun, ?_⟩
    exact htraced.erased_eq ▸ hdone
  · refine ⟨⟨hrefused, fun _ => hrun.medium, nofun⟩, hrun.traced.justified,
      fun _ => hrun.traced.erased_eq, ?_⟩
    exact hrun.traced.erased_eq ▸ List.Subset.refl _

theorem sdcardRead_reads (address : ℕ) (missing : Bool) (length : ℕ) :
    Reads m (OnCard s address length) address length
      (sdcardRead s address missing length env ⟨m, []⟩) := by
  have hends : Triple (Same m) (sdcardRead s address missing length)
      (fun data w => data = window m address length ∧ Same m w) (Same m) :=
    .given (fun _ h => h) fun c hc => locked_ends (card_reads le_rfl (sdcardChecked_ok hc).2.2)
      (keptBy_same m) (fun _ w e he h => h) (keptBy_same m) (fun _ h => h) fun _ _ h => h.2
  have hrun := hends env ⟨m, []⟩ rfl
  have hrefused : ¬ OnCard s address length →
      sdcardRead s address missing length env ⟨m, []⟩ = (⟨m, []⟩, .error .invalidArg) :=
    fun hout => by
      unfold sdcardRead
      rw [sdcardChecked_outside missing hout]
      rfl
  generalize sdcardRead s address missing length env ⟨m, []⟩ = run at hrun hrefused
  obtain ⟨w, e | data⟩ := run
  · exact ⟨hrefused, nofun, hrun⟩
  · exact ⟨hrefused, fun data' h => (Except.ok.inj h) ▸ hrun.1, hrun.2⟩

theorem sdcardWrite_writes (address : ℕ) (buffer : Buffer) :
    Writes m (OnCard s address buffer.length) blockSize address buffer.data
      (sdcardWrite s address buffer env ⟨m, []⟩) := by
  have hends : Triple (Same m) (sdcardWrite s address buffer)
      (fun _ => Same (put address buffer.data m))
      (fun w => OneBlock blockSize address buffer.data.length m w.state) := by
    have hnone : ∀ w, Same m w → OneBlock blockSize address buffer.data.length m w.state :=
      fun w hw => ⟨0, fun i _ _ => by rw [hw]⟩
    refine .given hnone fun c hc => ?_
    have hlen : buffer.data.length ≤ buffer.length := by
      cases buffer with
      | null length => exact Nat.zero_le _
      | holds data => exact le_rfl
    have hcard := (sdcardChecked_ok hc).2.2
    refine locked_ends (card_writes le_rfl ⟨hcard.sectorSize, ?_⟩) (keptBy_same m)
      (fun _ => keptBy_same _) (fun w e he h => h) hnone fun _ w hw => ⟨0, fun i hi _ => ?_⟩
    · exact (Nat.add_le_add_left hlen address).trans hcard.fits
    · rw [hw]
      exact put_outside hi
  have hrun := hends env ⟨m, []⟩ rfl
  have hrefused : ¬ OnCard s address buffer.length →
      sdcardWrite s address buffer env ⟨m, []⟩ = (⟨m, []⟩, .error .invalidArg) := fun hout => by
    unfold sdcardWrite
    rw [sdcardChecked_outside buffer.isNull hout]
    rfl
  generalize sdcardWrite s address buffer env ⟨m, []⟩ = run at hrun hrefused
  obtain ⟨w, e | ⟨⟩⟩ := run
  · exact ⟨hrefused, nofun, fun _ _ => hrun⟩
  · exact ⟨hrefused, fun _ => hrun, nofun⟩

end Accesses

/-! ## Sectors -/

/-- `diskRead` or `diskWrite` behind its checks: the result of the flash, without its error. -/
lemma attempt_run {α β : Type} (p : Flow α) (g : α → β) (failed : β)
    (env : Partner Call.Value EspErr) (w : World Medium Call.Value EspErr) :
    attempt (p >>= fun a => pure (g a)) (fun _ => pure failed) env w =
      ((p env w).1, .ok (match (p env w).2 with
        | .ok a => g a
        | .error _ => failed)) := by
  unfold attempt
  rw [bind_apply]
  rcases p env w with ⟨w', e | a⟩
  · rfl
  · rfl

/-- The sectors are those of the drive, and lie in the partition. -/
def InDrive (f : Flash) (drive : Bool) (sector count length : ℕ) : Prop :=
  drive = true ∧ count ≠ 0 ∧ InFlash f (sector * blockSize) length

lemma diskRange_some {drive : Bool} {sector count address length : ℕ}
    (h : diskRange drive sector count = some (address, length)) :
    drive = true ∧ count ≠ 0 ∧ address = sector * blockSize ∧ length = count * blockSize := by
  unfold diskRange at h
  dsimp only at h
  split_ifs at h with hrange
  obtain ⟨rfl, rfl⟩ := Prod.mk.inj (Option.some.inj h)
  push Not at hrange
  exact ⟨by simpa using hrange.1, hrange.2.1, Nat.mod_eq_of_lt (by omega), rfl⟩

/-- A read of sectors. -/
structure DiskReads (m : Medium) (inside : Prop) (address length : ℕ)
    (run : World Medium Call.Value EspErr × Except EspErr (DResult × Bytes)) : Prop where
  refused : ¬ inside → run.1 = ⟨m, []⟩ ∧ ∃ r, r ≠ DResult.ok ∧ run.2 = .ok (r, [])
  gives : ∀ data, run.2 = .ok (DResult.ok, data) → data = window m address length
  unchanged : run.1.state = m

/-- A write of sectors. -/
structure DiskWrites (m : Medium) (inside : Prop) (address : ℕ) (data : Bytes)
    (run : World Medium Call.Value EspErr × Except EspErr DResult) : Prop where
  refused : ¬ inside → run.1 = ⟨m, []⟩ ∧ run.2 ≠ .ok DResult.ok
  replaces : run.2 = .ok DResult.ok → run.1.state = put address data m
  outside : run.2 ≠ .ok DResult.ok → OneBlock eraseBlockSize address data.length m run.1.state

section Sectors

variable (f : Flash) (env : Partner Call.Value EspErr) (m : Medium) (drive : Bool)
  (sector count : ℕ)

theorem diskRead_reads (missing : Bool) :
    DiskReads m (InDrive f drive sector count (count * blockSize)) (sector * blockSize)
      (count * blockSize) (diskRead f drive missing sector count env ⟨m, []⟩) := by
  unfold diskRead
  cases hr : diskRange drive sector count with
  | none => exact ⟨fun _ => ⟨rfl, .parErr, by decide, rfl⟩, nofun, rfl⟩
  | some range =>
    obtain ⟨address, length⟩ := range
    obtain ⟨hdrive, hcount, rfl, rfl⟩ := diskRange_some hr
    have hread := flashRead_reads f env m (sector * blockSize) missing (count * blockSize)
    dsimp only
    rw [attempt_run]
    refine ⟨fun hout => ?_, fun data hdata => ?_, hread.unchanged⟩
    · rw [hread.refused fun hin => hout ⟨hdrive, hcount, hin⟩]
      exact ⟨rfl, .error, by decide, rfl⟩
    · rcases hres : (flashRead f (sector * blockSize) missing (count * blockSize) env ⟨m, []⟩).2
        with e | data'
      · rw [hres] at hdata
        cases hdata
      · rw [hres] at hdata
        obtain rfl := (Prod.mk.inj (Except.ok.inj hdata)).2
        exact hread.gives _ hres

theorem diskWrite_writes (buffer : Buffer) :
    let part := buffer.take (count * blockSize)
    let run := diskWrite f drive sector count buffer env ⟨m, []⟩
    DiskWrites m (InDrive f drive sector count part.length) (sector * blockSize) part.data run ∧
    Erases (sector * blockSize) part.length run.1.log (run.2 = .ok DResult.ok) := by
  intro part run
  have hrun : run = diskWrite f drive sector count buffer env ⟨m, []⟩ := rfl
  unfold diskWrite at hrun
  cases hr : diskRange drive sector count with
  | none =>
    rw [hr] at hrun
    rw [hrun]
    exact ⟨⟨fun _ => ⟨rfl, nofun⟩, nofun, fun _ => ⟨0, fun _ _ _ => rfl⟩⟩, justified_nil, nofun,
      List.nil_subset _⟩
  | some range =>
    obtain ⟨address, length⟩ := range
    obtain ⟨hdrive, hcount, rfl, rfl⟩ := diskRange_some hr
    obtain ⟨hwrite, herase⟩ := flashWrite_writes f env m (sector * blockSize) part
    rw [hr] at hrun
    dsimp only at hrun
    rw [attempt_run] at hrun
    rw [hrun]
    have hout : (¬ InDrive f drive sector count part.length) →
        ¬ InFlash f (sector * blockSize) part.length :=
      fun hnot hin => hnot ⟨hdrive, hcount, hin⟩
    generalize flashWrite f (sector * blockSize) part env ⟨m, []⟩ = inner at hwrite herase
    obtain ⟨w, e | ⟨⟩⟩ := inner
    · refine ⟨⟨fun hnot => ?_, nofun, fun _ => hwrite.outside e rfl⟩, herase.programmed, nofun,
        herase.within⟩
      exact ⟨congrArg Prod.fst (hwrite.refused (hout hnot)), nofun⟩
    · refine ⟨⟨fun hnot => ?_, fun _ => hwrite.replaces rfl, fun hne => absurd rfl hne⟩,
        herase.programmed, fun _ => herase.exact rfl, herase.within⟩
      cases congrArg Prod.snd (hwrite.refused (hout hnot))

end Sectors

end EspVision.RawStorage
