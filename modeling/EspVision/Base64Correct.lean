import EspVision.Base64
import EspVision.BitGroups
import EspVision.DeviceParser
import EspVision.LenientAgreement
import EspVision.ScriptWrite
import Mathlib.Data.Bool.AllAny
import Mathlib.Data.List.TakeWhile

/-!
# The base64 text and its bytes

The characters of a text in front of its first `=` that are no spaces write six bits each, and the
decoder gives the whole bytes of these bits: the accumulator is never masked, but the bits above
those that are still pending are never read.
-/
namespace EspVision.Base64

open BitGroups (bits groups bits_add bits_congr bits_length bits_mod bits_push groups_cons
  groups_flatMap groups_length groups_short take_bits_append)

/-! ## What a text stands for -/

/-- The characters that count. -/
def significant (text : List UInt8) : List UInt8 :=
  (text.takeWhile (· ≠ 0x3d)).filter (!isSpace ·)

/-- `s_base64_table` has the character. -/
def inAlphabet (c : UInt8) : Bool := base64Table.contains c

/-- The six bits of a character: its place in the table. -/
def sixBits (c : UInt8) : List Bool := bits 6 (base64Table.idxOf c)

/-- The whole bytes of some bits. -/
def wholeBytes (bs : List Bool) : List UInt8 := (groups 8 bs).map UInt8.ofNat

/-- The bytes that a text completes before its first character outside the alphabet. -/
def completed (text : List UInt8) : List UInt8 :=
  wholeBytes (((significant text).takeWhile inAlphabet).flatMap sixBits)

/-- The answer of a decoder with these bytes for the characters that count. -/
def answer (capacity : ℕ) (bytes chars : List UInt8) : Except DecodeError (List UInt8) :=
  if capacity < bytes.length then .error .invalidSize
  else if chars.all inAlphabet then .ok bytes
  else .error .invalidArg

variable {text src out : List UInt8} {capacity n : ℕ} {acc v : UInt32} {c : UInt8}

@[simp] theorem significant_nil : significant [] = [] := rfl

@[simp] theorem significant_end (text : List UInt8) : significant (0x3d :: text) = [] := rfl

theorem significant_cons (h : c ≠ 0x3d) (text : List UInt8) :
    significant (c :: text) = if isSpace c then significant text else c :: significant text := by
  rw [significant, List.takeWhile_cons_of_pos (by simp [h]), List.filter_cons]
  cases isSpace c <;> rfl

@[simp] theorem sixBits_length (c : UInt8) : (sixBits c).length = 6 := bits_length 6 _

theorem answer_cons (h : inAlphabet c = true) (capacity : ℕ) (bytes chars : List UInt8) :
    answer capacity bytes (c :: chars) = answer capacity bytes chars := by
  rw [answer, List.all_cons, h, Bool.true_and]
  rfl

theorem wholeBytes_short {bs : List Bool} (h : bs.length < 8) : wholeBytes bs = [] := by
  rw [wholeBytes, groups_short h, List.map_nil]

theorem wholeBytes_cons (v : ℕ) (bs : List Bool) :
    wholeBytes (bits 8 v ++ bs) = UInt8.ofNat v :: wholeBytes bs := by
  rw [wholeBytes, groups_cons (by decide), List.map_cons]
  congr 1
  exact UInt8.toNat_inj.mp (by simp)

theorem wholeBytes_length (bs : List Bool) : (wholeBytes bs).length = bs.length / 8 := by
  rw [wholeBytes, List.length_map, groups_length]

/-! ## The decoder -/

/-- The bytes of `s_base64_table`. -/
def tableBytes : List UInt8 :=
  [0x41, 0x42, 0x43, 0x44, 0x45, 0x46, 0x47, 0x48, 0x49, 0x4a, 0x4b, 0x4c, 0x4d, 0x4e, 0x4f, 0x50,
    0x51, 0x52, 0x53, 0x54, 0x55, 0x56, 0x57, 0x58, 0x59, 0x5a, 0x61, 0x62, 0x63, 0x64, 0x65, 0x66,
    0x67, 0x68, 0x69, 0x6a, 0x6b, 0x6c, 0x6d, 0x6e, 0x6f, 0x70, 0x71, 0x72, 0x73, 0x74, 0x75, 0x76,
    0x77, 0x78, 0x79, 0x7a, 0x30, 0x31, 0x32, 0x33, 0x34, 0x35, 0x36, 0x37, 0x38, 0x39, 0x2b, 0x2f]

theorem base64Table_eq : base64Table = tableBytes := by decide +kernel

theorem tableBytes_nodup : tableBytes.Nodup := by decide +kernel

theorem base64Value_getElem {i : ℕ} (hi : i < tableBytes.length) :
    (base64Value tableBytes[i]).map UInt32.toNat = some i := by
  have hall : tableBytes.map (fun x => (base64Value x).map UInt32.toNat) =
      (List.range tableBytes.length).map some := by
    decide +kernel
  have hat := congrArg (·[i]?) hall
  rw [List.getElem?_map, List.getElem?_map, List.getElem?_eq_getElem hi,
    List.getElem?_range hi] at hat
  exact Option.some.inj hat

theorem getElem_base64Value (h : base64Value c = some v) : tableBytes[v.toNat]? = some c := by
  have hall : ∀ c : Fin 256, (base64Value (UInt8.ofNat c)).all
      (fun v => tableBytes[v.toNat]? == some (UInt8.ofNat c)) = true := by
    decide +kernel
  have hc := hall ⟨c.toNat, c.toNat_lt⟩
  rw [UInt8.ofNat_toNat, h] at hc
  exact beq_iff_eq.mp hc

/-- The value of a character is its place in the table. -/
theorem base64Value_eq (c : UInt8) :
    (base64Value c).map UInt32.toNat =
      if inAlphabet c then some (base64Table.idxOf c) else none := by
  rw [inAlphabet, base64Table_eq]
  cases hvalue : base64Value c with
  | none =>
    have hout : c ∉ tableBytes := by
      intro hmem
      obtain ⟨i, hi, rfl⟩ := List.mem_iff_getElem.mp hmem
      have hplace := base64Value_getElem hi
      rw [hvalue] at hplace
      cases hplace
    rw [if_neg (by simpa using hout), Option.map_none]
  | some v =>
    obtain ⟨hi, rfl⟩ := List.getElem?_eq_some_iff.mp (getElem_base64Value hvalue)
    rw [if_pos (by simp), tableBytes_nodup.idxOf_getElem, Option.map_some]

theorem base64Value_none (h : base64Value c = none) : inAlphabet c = false := by
  by_contra hc
  have heq := base64Value_eq c
  rw [h, if_pos (by simpa using hc)] at heq
  cases heq

theorem base64Value_some (h : base64Value c = some v) :
    inAlphabet c = true ∧ v.toNat < 2 ^ 6 ∧ sixBits c = bits 6 v.toNat := by
  have heq := base64Value_eq c
  rw [h, Option.map_some] at heq
  split at heq
  · rename_i hc
    have hv : v.toNat = base64Table.idxOf c := Option.some.inj heq
    have hlt : base64Table.idxOf c < base64Table.length :=
      List.idxOf_lt_length_iff.mpr (List.contains_iff_mem.mp hc)
    exact ⟨hc, hv ▸ hlt, by rw [sixBits, hv]⟩
  · cases heq

/-- The accumulator behind a character: the pending bits and six more. -/
theorem bits_accumulate (hn : n < 8) (hv : v.toNat < 2 ^ 6) :
    bits (n + 6) (acc <<< 6 ||| v).toNat = bits n acc.toNat ++ bits 6 v.toNat := by
  have hcut : (acc <<< 6 ||| v).toNat = (acc.toNat <<< 6) % 2 ^ 32 ||| v.toNat := by
    rw [UInt32.toNat_or, UInt32.toNat_shiftLeft]
    rfl
  rw [← bits_push hv, hcut]
  refine bits_congr fun i hi => ?_
  rw [Nat.testBit_or, Nat.testBit_mod_two_pow, decide_eq_true (by omega), Bool.true_and,
    Nat.testBit_or]

/-- The byte that is stored, and the bits that are left. -/
theorem bits_stored (hn : n < 8) (acc : UInt32) (bs : List Bool) :
    wholeBytes (bits (8 + n) acc.toNat ++ bs) =
      (acc >>> UInt32.ofNat n).toUInt8 :: wholeBytes (bits n acc.toNat ++ bs) := by
  have hbyte : UInt8.ofNat (acc.toNat >>> n) = (acc >>> UInt32.ofNat n).toUInt8 := by
    refine UInt8.toNat_inj.mp ?_
    rw [UInt8.toNat_ofNat', UInt32.toNat_toUInt8, UInt32.toNat_shiftRight, UInt32.toNat_ofNat',
      Nat.mod_eq_of_lt (by omega : n < 2 ^ 32), Nat.mod_eq_of_lt (by omega : n < 32)]
  rw [bits_add, List.append_assoc, wholeBytes_cons, hbyte]

/-- The loop from any state: only the pending bits of the accumulator count. -/
theorem decodeLoop_eq (src : List UInt8) (hn : n < 8) (hout : out.length ≤ capacity) :
    decodeLoop capacity src acc n out =
      answer capacity
        (out ++ wholeBytes (bits n acc.toNat ++
          ((significant src).takeWhile inAlphabet).flatMap sixBits)) (significant src) := by
  -- the bytes are `out` where no character that counts is left
  have hnone : ∀ (acc : UInt32) {n : ℕ}, n < 8 → wholeBytes (bits n acc.toNat ++ []) = [] :=
    fun acc n hn => wholeBytes_short (by rw [List.append_nil, bits_length]; exact hn)
  induction src generalizing acc n out with
  | nil =>
    simp only [decodeLoop, significant_nil, List.takeWhile_nil, List.flatMap_nil, hnone acc hn]
    simp [answer, hout]
  | cons c src ih =>
    rw [decodeLoop]
    by_cases hstop : c = 0x3d
    · subst hstop
      simp only [if_true, significant_end, List.takeWhile_nil, List.flatMap_nil, hnone acc hn]
      simp [answer, hout]
    rw [if_neg hstop, significant_cons hstop]
    by_cases hspace : isSpace c = true
    · simp only [hspace, if_true]
      exact ih hn hout
    simp only [hspace, Bool.false_eq_true, if_false]
    cases hv : base64Value c with
    | none =>
      have hin := base64Value_none hv
      rw [List.takeWhile_cons_of_neg (by rw [hin]; decide), List.flatMap_nil, hnone acc hn]
      simp [answer, hout, hin]
    | some v =>
      obtain ⟨hin, hlt, hsix⟩ := base64Value_some hv
      rw [List.takeWhile_cons_of_pos hin, List.flatMap_cons, hsix, ← List.append_assoc,
        ← bits_accumulate hn hlt, answer_cons hin]
      dsimp only
      generalize acc <<< 6 ||| v = acc
      by_cases h8 : 8 ≤ n + 6
      · have hsplit : n + 6 = 8 + (n + 6 - 8) := by omega
        rw [if_pos h8, hsplit, bits_stored (by omega), Nat.add_sub_cancel_left]
        by_cases hfull : capacity ≤ out.length
        · rw [if_pos hfull, answer, if_pos (by rw [List.length_append, List.length_cons]; omega)]
        · have hroom (b : UInt8) : (out ++ [b]).length ≤ capacity := by
            rw [List.length_append, List.length_singleton]
            omega
          rw [if_neg hfull, ih (by omega) (hroom _), List.append_assoc, List.singleton_append]
      · rw [if_neg h8]
        exact ih (by omega) hout

/-- The decoder over any text, with any capacity. -/
theorem base64Decode_eq (text : List UInt8) (capacity : ℕ) :
    base64Decode text capacity = answer capacity (completed text) (significant text) :=
  decodeLoop_eq text (by decide) (Nat.zero_le _)

/-! ## Capacity -/

/-- Four characters are needed for three bytes. -/
theorem completed_length (text : List UInt8) : (completed text).length ≤ text.length * 3 / 4 := by
  have hchars : ((significant text).takeWhile inAlphabet).length ≤ text.length :=
    calc ((significant text).takeWhile inAlphabet).length
        ≤ (significant text).length := (List.takeWhile_prefix _).length_le
      _ ≤ (text.takeWhile (· ≠ 0x3d)).length := List.length_filter_le _ _
      _ ≤ text.length := (List.takeWhile_prefix _).length_le
  rw [completed, wholeBytes_length, List.length_flatMap]
  simp only [sixBits_length, List.map_const', List.sum_replicate, smul_eq_mul]
  omega

/-- A decoder with room for the bytes of a text never runs out of it. -/
theorem base64Decode_fits (h : (completed text).length ≤ capacity) :
    base64Decode text capacity ≠ .error .invalidSize := by
  rw [base64Decode_eq, answer, if_neg (by omega)]
  split <;> simp

/-! ## The encoder -/

/-- A text of characters that all count and write these bits. -/
structure Writes (text : List UInt8) (bs : List Bool) : Prop where
  alphabet : (significant text).all inAlphabet = true
  written : (significant text).flatMap sixBits = bs
  noNul : 0 ∉ text

theorem writes_nil : Writes [] [] := ⟨rfl, rfl, List.not_mem_nil⟩

theorem writes_end (h : 0 ∉ text) : Writes (0x3d :: text) [] :=
  ⟨rfl, rfl, by simpa using h⟩

theorem tableChar_spec (value : UInt32) :
    tableChar value ≠ 0x3d ∧ isSpace (tableChar value) = false ∧ tableChar value ≠ 0 ∧
      inAlphabet (tableChar value) = true ∧ sixBits (tableChar value) = bits 6 value.toNat := by
  have hall : ∀ x ∈ tableBytes, x ≠ 0x3d ∧ isSpace x = false ∧ x ≠ 0 :=
    List.all_iff_forall_prop.mp (by decide +kernel)
  have hlt : value.toNat % 2 ^ 6 < tableBytes.length := Nat.mod_lt _ (by decide)
  have hvalue : (value &&& 0x3f).toNat = value.toNat % 2 ^ 6 := by
    rw [UInt32.toNat_and]
    exact Nat.and_two_pow_sub_one_eq_mod value.toNat 6
  have hchar : tableChar value = tableBytes[value.toNat % 2 ^ 6] := by
    rw [tableChar, hvalue, base64Table_eq, List.getD_eq_getElem _ _ hlt]
  obtain ⟨hend, hspace, hnul⟩ := hall _ (List.getElem_mem hlt)
  rw [hchar, inAlphabet, sixBits, base64Table_eq, tableBytes_nodup.idxOf_getElem]
  exact ⟨hend, hspace, hnul, by simp, bits_mod le_rfl⟩

theorem Writes.cons {bs : List Bool} (h : Writes text bs) (value : UInt32) :
    Writes (tableChar value :: text) (bits 6 value.toNat ++ bs) := by
  obtain ⟨hend, hspace, hnul, hin, hsix⟩ := tableChar_spec value
  have hchars : significant (tableChar value :: text) = tableChar value :: significant text := by
    rw [significant_cons hend, hspace]
    rfl
  refine ⟨?_, ?_, ?_⟩
  · rw [hchars, List.all_cons, hin, h.alphabet]
    rfl
  · rw [hchars, List.flatMap_cons, hsix, h.written]
  · exact List.not_mem_cons_of_ne_of_not_mem hnul.symm h.noNul

theorem byte_shift (a : UInt8) {k : ℕ} (h : k ≤ 24) :
    (a.toUInt32 <<< UInt32.ofNat k).toNat = a.toNat <<< k := by
  have hk : (UInt32.ofNat k).toNat % 32 = k := by
    rw [UInt32.toNat_ofNat', Nat.mod_eq_of_lt (by omega : k < 2 ^ 32), Nat.mod_eq_of_lt (by omega)]
  have hlt : a.toNat <<< k < 2 ^ 32 :=
    calc a.toNat <<< k = a.toNat * 2 ^ k := Nat.shiftLeft_eq _ _
      _ < 2 ^ 8 * 2 ^ k := Nat.mul_lt_mul_of_pos_right a.toNat_lt (Nat.two_pow_pos k)
      _ = 2 ^ (8 + k) := (pow_add 2 8 k).symm
      _ ≤ 2 ^ 32 := Nat.pow_le_pow_right (by decide) (by omega)
  rw [UInt32.toNat_shiftLeft, UInt8.toNat_toUInt32, hk, Nat.mod_eq_of_lt hlt]

/-- The word of three bytes. -/
def word (a b c : UInt8) : UInt32 := a.toUInt32 <<< 16 ||| b.toUInt32 <<< 8 ||| c.toUInt32

theorem word_bits (a b c : UInt8) :
    bits 6 (word a b c >>> 18).toNat ++ (bits 6 (word a b c >>> 12).toNat ++
      (bits 6 (word a b c >>> 6).toNat ++ bits 6 (word a b c).toNat)) =
        bits 8 a.toNat ++ (bits 8 b.toNat ++ bits 8 c.toNat) := by
  have hword : (word a b c).toNat = (a.toNat <<< 8 ||| b.toNat) <<< 8 ||| c.toNat := by
    have ha : (a.toUInt32 <<< 16).toNat = a.toNat <<< 16 := byte_shift a (by decide)
    have hb : (b.toUInt32 <<< 8).toNat = b.toNat <<< 8 := byte_shift b (by decide)
    rw [word, UInt32.toNat_or, UInt32.toNat_or, ha, hb, UInt8.toNat_toUInt32,
      Nat.shiftLeft_or_distrib, ← Nat.shiftLeft_add]
  have h18 : (word a b c >>> 18).toNat = (word a b c).toNat >>> 18 := UInt32.toNat_shiftRight _ _
  have h12 : (word a b c >>> 12).toNat = (word a b c).toNat >>> 12 := UInt32.toNat_shiftRight _ _
  have h6 : (word a b c >>> 6).toNat = (word a b c).toNat >>> 6 := UInt32.toNat_shiftRight _ _
  rw [h18, h12, h6, ← bits_add 6 6, ← bits_add 6 12, ← bits_add 6 18, hword,
    bits_push (m := 16) c.toNat_lt, bits_push (m := 8) b.toNat_lt, List.append_assoc]

/-- A group of one byte writes it and four bits more. -/
theorem writes_one (a : UInt8) :
    ∃ pad, pad.length = 4 ∧ Writes (encodeGroup a none none) (bits 8 a.toNat ++ pad) := by
  refine ⟨(bits 8 (0 : UInt8).toNat ++ bits 8 (0 : UInt8).toNat).take 4, rfl, ?_⟩
  have hbits : bits 6 (word a 0 0 >>> 18).toNat ++ bits 6 (word a 0 0 >>> 12).toNat =
      bits 8 a.toNat ++ (bits 8 (0 : UInt8).toNat ++ bits 8 (0 : UInt8).toNat).take 4 := by
    rw [← take_bits_append 8 4, ← word_bits, ← List.append_assoc, List.take_left' (by simp)]
  have hwrites := ((writes_end (writes_end List.not_mem_nil).noNul).cons
    (word a 0 0 >>> 12)).cons (word a 0 0 >>> 18)
  rw [List.append_nil, hbits] at hwrites
  exact hwrites

/-- A group of two bytes writes them and two bits more. -/
theorem writes_two (a b : UInt8) :
    ∃ pad, pad.length = 2 ∧
      Writes (encodeGroup a (some b) none) (bits 8 a.toNat ++ (bits 8 b.toNat ++ pad)) := by
  refine ⟨(bits 8 (0 : UInt8).toNat).take 2, rfl, ?_⟩
  have hbits : bits 6 (word a b 0 >>> 18).toNat ++ bits 6 (word a b 0 >>> 12).toNat ++
      bits 6 (word a b 0 >>> 6).toNat =
        bits 8 a.toNat ++ (bits 8 b.toNat ++ (bits 8 (0 : UInt8).toNat).take 2) := by
    rw [← take_bits_append 8 2, ← take_bits_append 8 (8 + 2), ← word_bits, ← List.append_assoc,
      ← List.append_assoc, List.take_left' (by simp)]
  have hwrites := (((writes_end List.not_mem_nil).cons (word a b 0 >>> 6)).cons
    (word a b 0 >>> 12)).cons (word a b 0 >>> 18)
  rw [List.append_nil, ← List.append_assoc, hbits] at hwrites
  exact hwrites

theorem writes_three {bs : List Bool} (h : Writes text bs) (a b c : UInt8) :
    Writes (encodeGroup a (some b) (some c) ++ text)
      (bits 8 a.toNat ++ (bits 8 b.toNat ++ (bits 8 c.toNat ++ bs))) := by
  have hbits := congrArg (· ++ bs) (word_bits a b c)
  simp only [List.append_assoc] at hbits
  rw [← hbits]
  exact (((h.cons _).cons _).cons _).cons _

/-- The text of a source writes its bytes, and less than a byte behind them. -/
theorem encodeLoop_writes (src : List UInt8) :
    ∃ pad, pad.length < 8 ∧
      Writes (encodeLoop src) ((src.map UInt8.toNat).flatMap (bits 8) ++ pad) := by
  induction src using encodeLoop.induct with
  | case1 => exact ⟨[], by decide, writes_nil⟩
  | case2 a =>
    obtain ⟨pad, hpad, hwrites⟩ := writes_one a
    exact ⟨pad, by omega, by simpa [encodeLoop] using hwrites⟩
  | case3 a b =>
    obtain ⟨pad, hpad, hwrites⟩ := writes_two a b
    exact ⟨pad, by omega, by simpa [encodeLoop] using hwrites⟩
  | case4 a b c src ih =>
    obtain ⟨pad, hpad, hwrites⟩ := ih
    refine ⟨pad, hpad, ?_⟩
    have hthree := writes_three hwrites a b c
    simp only [List.map_cons, List.flatMap_cons, List.append_assoc]
    exact hthree

theorem encodeLoop_length (src : List UInt8) :
    (encodeLoop src).length = (src.length + 2) / 3 * 4 := by
  induction src using encodeLoop.induct with
  | case1 => rfl
  | case2 a => simp [encodeLoop, encodeGroup]
  | case3 a b => simp [encodeLoop, encodeGroup]
  | case4 a b c src ih =>
    have hgroup : (encodeGroup a (some b) (some c)).length = 4 := rfl
    rw [encodeLoop, List.length_append, ih, hgroup]
    simp only [List.length_cons]
    omega

/-- What the encoder stores where the buffer has room for the text and its end. -/
theorem base64Encode_eq {dstLen : UInt32} (h : (src.length + 2) / 3 * 4 < dstLen.toNat) :
    base64Encode src dstLen = .ok (encodeLoop src ++ [0]) := by
  have hlen := dstLen.toNat_lt
  have hsrc : src.length < 3 * 2 ^ 30 := by omega
  have hroom : ((UInt32.ofNat src.length + 2) / 3 * 4).toNat = (src.length + 2) / 3 * 4 := by
    simp only [UInt32.toNat_mul, UInt32.toNat_div, UInt32.toNat_add, UInt32.toNat_ofNat',
      UInt32.reduceToNat]
    omega
  rw [base64Encode]
  refine if_neg ?_
  rw [UInt32.le_iff_toNat_le, hroom]
  omega

/-- What was encoded is decoded. -/
theorem base64Decode_encodeLoop (h : src.length ≤ capacity) :
    base64Decode (encodeLoop src) capacity = .ok src := by
  obtain ⟨pad, hpad, hwrites⟩ := encodeLoop_writes src
  have hall : (significant (encodeLoop src)).takeWhile inAlphabet = significant (encodeLoop src) :=
    List.takeWhile_eq_self_iff.mpr fun c hc => List.all_eq_true.mp hwrites.alphabet c hc
  have hbytes : completed (encodeLoop src) = src := by
    have hlt : ∀ v ∈ src.map UInt8.toNat, v < 2 ^ 8 := by
      intro v hv
      obtain ⟨b, -, rfl⟩ := List.mem_map.mp hv
      exact b.toNat_lt
    rw [completed, hall, hwrites.written, wholeBytes, groups_flatMap hlt hpad, List.map_map]
    simp [Function.comp_def]
  rw [base64Decode_eq, hbytes, answer, if_neg (by omega), if_pos hwrites.alphabet]

/-! ## The chunks of `script.write` -/

/-- The C string in `content_base64`, an array of `EV_CONTROL_PAYLOAD_MAX` characters, behind
`ev_control_json_get_string`. -/
def contentBase64 (request : List UInt8) : List UInt8 :=
  (LenientJson.getString request (LenientJson.ascii "contentBase64") EvControl.payloadMax).2.takeWhile
    (· ≠ 0)

theorem getString_length (json name : List UInt8) {outLen : ℕ} (h : 0 < outLen) :
    (LenientJson.getString json name outLen).2.length ≤ outLen := by
  unfold LenientJson.getString
  rw [if_neg h.ne']
  split
  · exact Nat.zero_le _
  · exact Nat.zero_le _
  · rename_i c pos _
    split_ifs
    · exact Nat.zero_le _
    · have hcopied := (LenientJson.copyString_spec (outLen - 1) pos).2.2
      rw [List.length_append, List.length_singleton]
      omega

/-- No `size_t` overflows while the capacity is computed. -/
theorem decodedCapacity_eq (request : List UInt8) :
    (decodedCapacity (UInt32.ofNat (contentBase64 request).length)).toNat =
      (contentBase64 request).length * 3 / 4 + 4 := by
  have hlength : (contentBase64 request).length ≤ 2048 :=
    (List.takeWhile_prefix _).length_le.trans (getString_length request _ (by decide))
  have hlen : (UInt32.ofNat (contentBase64 request).length).toNat =
      (contentBase64 request).length := Nat.mod_eq_of_lt (by omega)
  simp only [decodedCapacity, UInt32.toNat_mul, UInt32.toNat_div, UInt32.toNat_add, hlen,
    UInt32.reduceToNat]
  rw [Nat.mod_eq_of_lt (by omega : (contentBase64 request).length * 3 < 2 ^ 32)]
  omega

section Handler
open ScriptWrite FileSystem

variable {α : Type*} [DecidableEq α] (locate : Path → α)

theorem checkContent_fits (r : Request) (path : Path) (content : List UInt8) (a : Answers) :
    checkContent r path content a ≠ .error (.invalidBase64 .invalidSize) := by
  have hroom : base64Decode content (content.length * 3 / 4 + 4) ≠ .error .invalidSize :=
    base64Decode_fits ((completed_length content).trans (Nat.le_add_right _ _))
  unfold checkContent
  cases hdecode : base64Decode content (content.length * 3 / 4 + 4) with
  | error e =>
    have he : e ≠ .invalidSize := by
      rintro rfl
      exact hroom hdecode
    split_ifs <;> simp [he]
  | ok bytes =>
    cases r.totalBytes with
    | none =>
      dsimp only
      split_ifs <;> simp
    | some total =>
      dsimp only
      split_ifs <;> simp

omit [DecidableEq α] in
theorem check_fits (fs : Files α) (r : Request) (a : Answers) :
    check locate fs r a ≠ .error (.invalidBase64 .invalidSize) := by
  have hfields (path : Path) : checkFields r path ≠ some (.invalidBase64 .invalidSize) := by
    unfold checkFields
    split_ifs <;> simp
  have htarget (path : Path) :
      checkTarget locate fs r path a ≠ some (.invalidBase64 .invalidSize) := by
    unfold checkTarget
    split_ifs
    · split <;> simp
    · simp
  unfold check
  split
  · rename_i path content _ _
    cases hf : checkFields r path with
    | some f => simpa [hf] using hfields path
    | none =>
      cases ht : checkTarget locate fs r path a with
      | some f => simpa [ht] using htarget path
      | none => exact checkContent_fits r path content a
  · simp

theorem stage_fits (fs : Files α) (tmp : α) (c : Chunk) (a : Answers) :
    (stage fs tmp c a).2 ≠ some (.invalidBase64 .invalidSize) := by
  have hsettle (written : Files α × Bool) :
      (stage.settle a tmp written).2 ≠ some (.invalidBase64 .invalidSize) := by
    obtain ⟨fs, done⟩ := written
    cases done <;> simp [stage.settle]
  unfold stage
  split_ifs
  · split
    · simp
    · exact hsettle _
  · split
    · exact hsettle _
    · simp

/-- No answer of the handler is `ESP_ERR_INVALID_SIZE`. -/
theorem scriptWrite_fits (fs : Files α) (r : Request) (a : Answers) :
    (scriptWrite locate fs r a).2 ≠ .error (.invalidBase64 .invalidSize) := by
  unfold scriptWrite
  cases hcheck : check locate fs r a with
  | error f => simpa [hcheck] using check_fits locate fs r a
  | ok c =>
    have hstage := stage_fits fs (locate (tmpPath c.path)) c a
    dsimp only
    split
    · rename_i f heq
      simpa [heq] using hstage
    · split_ifs
      · split <;> simp
      · simp

end Handler

/-- What is encoded comes back. A text is rejected at a character outside the alphabet, and any
other text gives the whole bytes of the bits that it writes. The buffer of `script.write` has room
for every text. -/
theorem base64_exact {α : Type*} [DecidableEq α] (locate : ScriptWrite.Path → α) :
    (∀ (bytes : List UInt8) (dstLen : UInt32), (bytes.length + 2) / 3 * 4 < dstLen.toNat →
      ∃ text, base64Encode bytes dstLen = .ok (text ++ [0]) ∧ 0 ∉ text ∧
        (text ++ [0]).length ≤ dstLen.toNat ∧
        ∀ capacity, bytes.length ≤ capacity → base64Decode text capacity = .ok bytes) ∧
    (∀ (text : List UInt8) (capacity : ℕ), base64Decode text capacity =
      if capacity < (completed text).length then .error .invalidSize
      else if (significant text).all inAlphabet then
        .ok (wholeBytes ((significant text).flatMap sixBits))
      else .error .invalidArg) ∧
    (∀ text : List UInt8, (completed text).length ≤ text.length * 3 / 4 + 4 ∧
      base64Decode text (text.length * 3 / 4 + 4) ≠ .error .invalidSize) ∧
    (∀ request : List UInt8,
      let content := contentBase64 request
      let capacity := (decodedCapacity (UInt32.ofNat content.length)).toNat
      capacity = content.length * 3 / 4 + 4 ∧
        base64Decode content capacity ≠ .error .invalidSize) ∧
    ∀ (fs : FileSystem.Files α) (r : ScriptWrite.Request) (a : ScriptWrite.Answers),
      (ScriptWrite.scriptWrite locate fs r a).2 ≠ .error (.invalidBase64 .invalidSize) := by
  have hfits (text : List UInt8) : (completed text).length ≤ text.length * 3 / 4 + 4 :=
    (completed_length text).trans (Nat.le_add_right _ _)
  refine ⟨?_, ?_, fun text => ⟨hfits text, base64Decode_fits (hfits text)⟩, fun request => ?_,
    scriptWrite_fits locate⟩
  · intro bytes dstLen h
    obtain ⟨pad, -, hwrites⟩ := encodeLoop_writes bytes
    refine ⟨encodeLoop bytes, base64Encode_eq h, hwrites.noNul, ?_,
      fun capacity hcapacity => base64Decode_encodeLoop hcapacity⟩
    rw [List.length_append, encodeLoop_length, List.length_singleton]
    omega
  · intro text capacity
    rw [base64Decode_eq, answer]
    by_cases hin : (significant text).all inAlphabet = true
    · have hself : (significant text).takeWhile inAlphabet = significant text :=
        List.takeWhile_eq_self_iff.mpr fun c hc => List.all_eq_true.mp hin c hc
      rw [if_pos hin, if_pos hin, completed, hself]
    · rw [if_neg hin, if_neg hin]
  · have hcapacity := decodedCapacity_eq request
    exact ⟨hcapacity, base64Decode_fits ((hfits _).trans hcapacity.ge)⟩

theorem base64_exact_fourBytes :
    ∃ text, base64Encode [0x00, 0xff, 0x41, 0x80] 9 = .ok (text ++ [0]) ∧ 0 ∉ text ∧
      (text ++ [0]).length ≤ (9 : UInt32).toNat ∧
      ∀ capacity, 4 ≤ capacity → base64Decode text capacity = .ok [0x00, 0xff, 0x41, 0x80] :=
  (base64_exact (id : ScriptWrite.Path → ScriptWrite.Path)).1 [0x00, 0xff, 0x41, 0x80] 9
    (by decide)

end EspVision.Base64
