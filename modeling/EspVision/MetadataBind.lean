import EspVision.DeviceParser

/-!
# Binding stream metadata to its owner (`ev_mux_stream_metadata_bind`)

The session id and the VM epoch of the submit options are written into the metadata text
before its closing brace, unless they are there already. The text is parsed by the strict
metadata parser first; the splice itself only looks for the last brace.
-/
namespace EspVision.MetadataBind
open Json EvControlJson EvControl

/-! ## C strings -/

/-- The bytes before the terminator. -/
structure CString where
  bytes : List UInt8
  noNul : ∀ b ∈ bytes, b ≠ 0

/-- The bytes with the terminator. -/
def CString.cells (s : CString) : List UInt8 := s.bytes ++ [0]

def strnlen (s : CString) (bound : ℕ) : ℕ := min s.bytes.length bound

/-! ## The arguments -/

/-- `EV_SESSION_ID_HEX_LEN`. -/
def sessionIdHexLen : ℕ := 32

/-- The fields of `ev_mux_submit_options_t` that the binding reads. -/
structure SubmitOptions where
  sessionId : Option CString
  vmEpoch : UInt32

/-- The session id, when the options name an owner. -/
def SubmitOptions.owner (options : SubmitOptions) : Option CString :=
  options.sessionId.filter fun id => id.bytes ≠ []

inductive Status
  | ok | invalidArg | invalidSize | invalidState
  deriving DecidableEq

/-- The status returned, and the cells written to `output` with the length written to
`*output_len`. -/
structure Bind where
  status : Status
  output : Option (List UInt8 × ℕ) := none
  deriving DecidableEq

/-! ## The splice -/

/-- The loop that steps back over the white space at the end. -/
def closeEnd (metadata : List UInt8) : ℕ → ℕ
  | 0 => 0
  | n + 1 => if (metadata[n]?).any isWs then closeEnd metadata n else n + 1

/-- `sizeof(additions)`. -/
def additionsSize : ℕ := 96

/-- `,"sessionId":"%s"`. -/
def sessionAddition (id : List UInt8) : List UInt8 :=
  [comma, quote] ++ (sessionIdKey ++ ([quote, colon, quote] ++ (id ++ [quote])))

/-- `,"vmEpoch":%u`. -/
def epochAddition (epoch : UInt32) : List UInt8 :=
  [comma, quote] ++ (vmEpochKey ++ ([quote, colon] ++ Scanf.numeral 10 epoch.toNat))

/-- `snprintf` printed the whole text and its terminator into `size` cells. -/
def printed (text : List UInt8) (size : ℕ) : Bool := 0 < text.length && text.length < size

def isLowerHex (c : UInt8) : Bool := (0x30 ≤ c && c ≤ 0x39) || (0x61 ≤ c && c ≤ 0x66)

/-- `memcpy(output, metadata, metadata_len + 1)`. -/
def copyOf (metadata : CString) (metadataLen : ℕ) : List UInt8 × ℕ :=
  (metadata.cells.take (metadataLen + 1), metadataLen)

/-- From the search for the closing brace to the end. -/
def splice (metadata : CString) (metadataLen : ℕ) (id : List UInt8) (epoch : UInt32)
    (addSession addEpoch output : Bool) : Bind :=
  let close := closeEnd metadata.bytes metadataLen
  if close = 0 ∨ metadata.bytes[close - 1]? ≠ some rbrace then ⟨.invalidArg, none⟩
  else
    let closePos := close - 1
    let session := if addSession then sessionAddition id else []
    let epochText := if addEpoch then epochAddition epoch else []
    if addSession && !printed session additionsSize then ⟨.invalidSize, none⟩
    else if addEpoch && !printed epochText (additionsSize - session.length) then
      ⟨.invalidSize, none⟩
    else
      let additions := session ++ epochText
      let finalLen := metadataLen + additions.length
      if metadataMax < finalLen then ⟨.invalidSize, none⟩
      else if !output then ⟨.ok, none⟩
      else
        ⟨.ok, some (metadata.cells.take closePos ++ (additions ++
          (metadata.cells.drop closePos).take (metadataLen - closePos + 1)), finalLen)⟩

/-- The checks against the parsed metadata. -/
def bindParsed (metadata : CString) (metadataLen : ℕ) (parsed : Metadata)
    (options : SubmitOptions) (output : Bool) : Bind :=
  match options.owner with
  | none =>
    if parsed.hasSessionId || parsed.hasVmEpoch then ⟨.invalidState, none⟩
    else ⟨.ok, if output then some (copyOf metadata metadataLen) else none⟩
  | some id =>
    if strnlen id (sessionIdHexLen + 1) ≠ sessionIdHexLen then ⟨.invalidState, none⟩
    else if !(id.bytes.take sessionIdHexLen).all isLowerHex then ⟨.invalidState, none⟩
    else if (parsed.hasSessionId = true ∧ parsed.sessionId ≠ id.bytes) ∨
        (parsed.hasVmEpoch = true ∧ parsed.vmEpoch ≠ options.vmEpoch) then ⟨.invalidState, none⟩
    else if parsed.hasSessionId && parsed.hasVmEpoch then
      ⟨.ok, if output then some (copyOf metadata metadataLen) else none⟩
    else splice metadata metadataLen id.bytes options.vmEpoch (!parsed.hasSessionId)
      (!parsed.hasVmEpoch) output

/-- `ev_mux_stream_metadata_bind`; `none` is a null pointer, and `output` and `outputLen` say
whether those two pointers are given. -/
def metadataBind (metadata : Option CString) (options : Option SubmitOptions)
    (output outputLen : Bool) : Outcome Bind :=
  match metadata, options with
  | some metadata, some options =>
    if output ≠ outputLen then .ok ⟨.invalidArg, none⟩
    else
      let metadataLen := strnlen metadata (metadataMax + 1)
      if metadataMax < metadataLen then .ok ⟨.invalidSize, none⟩
      else match parseMetadata (metadata.bytes.take metadataLen) with
        | .fault => .fault
        | .reject => .ok ⟨.invalidArg, none⟩
        | .ok parsed => .ok (bindParsed metadata metadataLen parsed options output)
  | _, _ => .ok ⟨.invalidArg, none⟩

/-! ## Numerals -/

lemma digitByte_digit {d : ℕ} (h : d < 10) :
    isDigit (Scanf.digitByte d) = true ∧ (Scanf.digitByte d).toNat - 0x30 = d ∧
      (0 < d → 0x31 ≤ Scanf.digitByte d ∧ Scanf.digitByte d ≤ 0x39) := by
  have hall : ∀ d : Fin 10, isDigit (Scanf.digitByte d) = true ∧
      (Scanf.digitByte d).toNat - 0x30 = d ∧
      (0 < d.val → 0x31 ≤ Scanf.digitByte d ∧ Scanf.digitByte d ≤ 0x39) := by decide
  exact hall ⟨d, h⟩

lemma natValue_snoc (t : List UInt8) (b : UInt8) :
    natValue (t ++ [b]) = natValue t * 10 + (b.toNat - 0x30) := by
  simp [natValue]

/-- A positive numeral has no leading zero. -/
lemma numeral_pos {n : ℕ} (hn : 0 < n) :
    ∃ d ds, Scanf.numeral 10 n = d :: ds ∧ 0x31 ≤ d ∧ d ≤ 0x39 ∧ Digits ds := by
  induction n using Nat.strong_induction_on with
  | _ n ih =>
    by_cases h : n < 10
    · obtain ⟨-, -, hd⟩ := digitByte_digit h
      exact ⟨_, [], Scanf.numeral_of_lt h, (hd hn).1, (hd hn).2, by simp [Digits]⟩
    · obtain ⟨d, ds, heq, h1, h9, hds⟩ := ih (n / 10) (by omega) (by omega)
      have hlast := (digitByte_digit (Nat.mod_lt n (by omega : 10 > 0))).1
      refine ⟨d, ds ++ [Scanf.digitByte (n % 10)], ?_, h1, h9, ?_⟩
      · rw [Scanf.numeral_of_le (by omega) (by omega), heq, List.cons_append]
      · intro b hb
        rcases List.mem_append.mp hb with hb | hb
        · exact hds b hb
        · rwa [List.mem_singleton.mp hb]

lemma numeral_intPart (n : ℕ) : IntPart (Scanf.numeral 10 n) := by
  rcases Nat.eq_zero_or_pos n with rfl | hn
  · exact .inl rfl
  · exact .inr (numeral_pos hn)

lemma numeral_digits (n : ℕ) : Digits (Scanf.numeral 10 n) := by
  rcases numeral_intPart n with h | ⟨d, ds, h, h1, h9, hds⟩
  · rw [h]
    simp [Digits, isDigit]
  · rw [h]
    refine List.forall_mem_cons.mpr ⟨?_, hds⟩
    have h0 : (0x30 : UInt8) ≤ d := UInt8.le_trans (by decide) h1
    simp [isDigit, h0, h9]

lemma numeral_text (n : ℕ) : NumberText (Scanf.numeral 10 n) :=
  ⟨[], _, [], [], by simp, .inl rfl, numeral_intPart n, .inl rfl, .inl rfl⟩

lemma natValue_numeral (n : ℕ) : natValue (Scanf.numeral 10 n) = n := by
  induction n using Nat.strong_induction_on with
  | _ n ih =>
    by_cases h : n < 10
    · obtain ⟨-, hv, -⟩ := digitByte_digit h
      rw [Scanf.numeral_of_lt h]
      simpa [natValue] using hv
    · obtain ⟨-, hv, -⟩ := digitByte_digit (Nat.mod_lt n (by omega : 10 > 0))
      rw [Scanf.numeral_of_le (by omega) (by omega), natValue_snoc, ih _ (by omega), hv]
      omega

/-! ## A member at the end of an object -/

/-- The text of a further member, with the comma before it. -/
def addition (key value : List UInt8) : List UInt8 :=
  comma :: (quote :: (key ++ [quote]) ++ (colon :: value))

lemma sessionAddition_eq (id : List UInt8) :
    sessionAddition id = addition sessionIdKey (quote :: (id ++ [quote])) := by
  simp [sessionAddition, addition]

lemma epochAddition_eq (epoch : UInt32) :
    epochAddition epoch = addition vmEpochKey (Scanf.numeral 10 epoch.toNat) := by
  simp [epochAddition, addition]

/-- Bytes that stand for themselves in a string. -/
def Plain (t : List UInt8) : Prop := ∀ b ∈ t, 0x20 ≤ b ∧ b < 0x80 ∧ b ≠ quote ∧ b ≠ backslash

theorem membersText_snoc {t key value : List UInt8} {ms : List Member} {v : Value}
    (ht : MembersText t ms) (hk : Plain key) (hv : ValueText value v) :
    MembersText (t ++ addition key value) (ms ++ [(key.map UInt8.toNat, v)]) := by
  have hnil : Ws [] := by simp [Ws]
  have hone := MembersText.one (stringText_plain hk) hnil hnil hv hnil
  induction ms generalizing t with
  | nil => cases ht
  | cons m ms ih =>
    cases ht with
    | one hk' ha hb hv' hc =>
      have h := MembersText.cons hk' ha hb hv' hc hnil hone
      simpa [addition] using h
    | cons hk' ha hb hv' hc hd hu =>
      have h := MembersText.cons hk' ha hb hv' hc hd (ih hu)
      simpa [addition] using h

/-- The text before the closing brace, the brace and the white space after it, of an object
with members. -/
structure Closed (text front tail : List UInt8) (ms : List Member) : Prop where
  eq : text = front ++ rbrace :: tail
  ws : Ws tail
  opened : ∃ a b t, front = a ++ lbrace :: (b ++ t) ∧ Ws a ∧ Ws b ∧ MembersText t ms

lemma document_closed {text : List UInt8} {ms : List Member} (hd : Document text ms)
    (hne : ms ≠ []) : ∃ front tail, Closed text front tail ms := by
  obtain ⟨a, u, c, rfl, ha, hc, hu⟩ := hd
  obtain ⟨b, t, rfl, hb, ht⟩ := objectText_split hu
  rcases ht with ⟨-, rfl⟩ | ht
  · exact absurd rfl hne
  · exact ⟨_, c, by simp, hc, a, b, t, rfl, ha, hb, ht⟩

lemma Closed.document {text front tail : List UInt8} {ms : List Member}
    (h : Closed text front tail ms) : Document text ms := by
  obtain ⟨rfl, hws, a, b, t, rfl, ha, hb, ht⟩ := h
  exact ⟨a, _, tail, by simp, ha, hws, .object hb ht⟩

lemma Closed.snoc {text front tail key value : List UInt8} {ms : List Member} {v : Value}
    (h : Closed text front tail ms) (hk : Plain key) (hv : ValueText value v) :
    Closed (front ++ addition key value ++ rbrace :: tail) (front ++ addition key value) tail
      (ms ++ [(key.map UInt8.toNat, v)]) := by
  obtain ⟨-, hws, a, b, t, rfl, ha, hb, ht⟩ := h
  exact ⟨rfl, hws, a, b, _, by simp, ha, hb, membersText_snoc ht hk hv⟩

/-! ## The search for the brace -/

lemma closeEnd_eq {m : List UInt8} {k n : ℕ} (hk : k < n) (hend : (m[k]?).any isWs = false)
    (hws : ∀ j, k < j → j < n → (m[j]?).any isWs = true) : closeEnd m n = k + 1 := by
  induction n with
  | zero => omega
  | succ n ih =>
    rw [closeEnd]
    by_cases h : k = n
    · subst h
      simp [hend]
    · rw [if_pos (hws n (by omega) (by omega))]
      exact ih (by omega) fun j h1 h2 => hws j h1 (by omega)

lemma closeEnd_closed {text front tail : List UInt8} {ms : List Member}
    (h : Closed text front tail ms) : closeEnd text text.length = front.length + 1 := by
  obtain ⟨rfl, hws, -⟩ := h
  refine closeEnd_eq (by simp) (by simp [isWs, rbrace]) fun j h1 h2 => ?_
  obtain ⟨i, rfl⟩ := Nat.exists_eq_add_of_lt h1
  have hi : i < tail.length := by
    simp only [List.length_append, List.length_cons] at h2
    omega
  rw [List.getElem?_append_right (by omega), show front.length + i + 1 - front.length = i + 1 by
    omega, List.getElem?_cons_succ, List.getElem?_eq_getElem hi]
  exact hws _ (List.getElem_mem hi)

/-! ## The table with a further member -/

lemma admissible_snoc {fields : List Field} {ms : List Member} {m : Member} {i : ℕ} {f : Field}
    (h : Admissible fields ms) (hb : boundTo fields m.1 = some i) (hf : fields[i]? = some f)
    (hn : valueOf fields ms i = none) (hv : f.value.Admits m.2) :
    Admissible fields (ms ++ [m]) where
  unknown := by
    simp only [List.forall_mem_append, List.forall_mem_singleton]
    exact ⟨h.unknown, fun hnone => by simp [hb] at hnone⟩
  known := by
    simp only [List.forall_mem_append, List.forall_mem_singleton]
    refine ⟨h.known, fun j g hj hg => ?_⟩
    obtain rfl : i = j := by simpa [hb] using hj
    obtain rfl : f = g := by simpa [hf] using hg
    exact hv
  once := by
    refine List.pairwise_append.mpr ⟨h.once, by simp, fun x hx y hy j hj hy' => ?_⟩
    obtain rfl : y = m := by simpa using hy
    obtain rfl : i = j := by simpa [hb] using hy'
    exact valueOf_eq_none.mp hn x hx hj
  required := fun j g hg hr => by
    obtain ⟨x, hx, hxb⟩ := h.required j g hg hr
    exact ⟨x, by simp [hx], hxb⟩

lemma metadataFields_sized : ∀ f ∈ metadataFields, f.value.WellSized := by
  simp [metadataFields, stringField, FieldValue.WellSized, zeros]

/-- What the metadata parser takes, as the members of the object. -/
lemma parseMetadata_members {text : List UInt8} {parsed : Metadata}
    (h : parseMetadata text = .ok parsed) :
    ∃ ms, Document text ms ∧ Admissible metadataFields ms ∧
      readMetadata (decoded metadataFields ms) = .ok parsed := by
  obtain ⟨fields, hparse, hread⟩ := Outcome.bind_eq_ok.mp h
  obtain ⟨ms, hd, ha, rfl⟩ := parseObject_sound metadataFields_sized hparse
  exact ⟨ms, hd, ha, hread⟩

lemma parseMetadata_of_members {text : List UInt8} {ms : List Member} {parsed : Metadata}
    (hd : Document text ms) (ha : Admissible metadataFields ms)
    (hread : readMetadata (decoded metadataFields ms) = .ok parsed) :
    parseMetadata text = .ok parsed := by
  rw [parseMetadata, parseObject_complete metadataFields_sized hd ha]
  exact hread

/-- A cleared buffer keeps a terminator whatever is decoded into it. -/
lemma fieldText_after (name : List UInt8) (required : Bool) {capacity : ℕ} (hc : 0 < capacity)
    (x : Option Value) :
    ∃ t, fieldText ((stringField name required capacity).after x) = .ok t := by
  have hfill : ∀ bytes, (fill capacity bytes (zeros capacity)).contains 0 = true := fun bytes => by
    rw [fill]
    split_ifs
    · simp
    · simp [zeros]
      omega
  have hzeros : (zeros capacity).contains 0 = true := by
    simp [zeros]
    omega
  cases x with
  | none => exact ⟨_, if_pos (hfill [])⟩
  | some v =>
    cases v with
    | string s => exact ⟨_, if_pos (hfill (encode s))⟩
    | _ => exact ⟨_, if_pos hzeros⟩

lemma parseMetadata_ne_fault (text : List UInt8) : parseMetadata text ≠ .fault := by
  refine Outcome.bind_ne_fault (parseObject_ne_fault metadataFields_sized text) fun fs hfs => ?_
  obtain ⟨ms, -, -, rfl⟩ := parseObject_sound metadataFields_sized hfs
  have hread : ∀ name required capacity x, 0 < capacity →
      ∃ t, fieldText ((stringField name required capacity).after x) = .ok t :=
    fun name required _ x hc => fieldText_after name required hc x
  obtain ⟨a, ha⟩ := hread channelKey true channelCapacity (valueOf metadataFields ms 0) (by decide)
  obtain ⟨b, hb⟩ := hread typeKey true typeCapacity (valueOf metadataFields ms 1) (by decide)
  obtain ⟨c, hc⟩ := hread methodKey false methodCapacity (valueOf metadataFields ms 3) (by decide)
  obtain ⟨d, hd⟩ := hread encodingKey false encodingCapacity (valueOf metadataFields ms 5)
    (by decide)
  obtain ⟨e, he⟩ := hread sessionIdKey false sessionIdCapacity (valueOf metadataFields ms 6)
    (by decide)
  unfold decoded
  generalize hval : valueOf metadataFields ms = value at ha hb hc hd he ⊢
  simp only [metadataFields, List.mapIdx_cons, List.mapIdx_nil, readMetadata, ha, hb, hc, hd, he,
    Outcome.ok_bind]
  split_ifs <;> simp

lemma readMetadata_set_session {fields : List Field} {f : Field} {parsed : Metadata}
    {id : List UInt8} (h : readMetadata fields = .ok parsed) (hf : fieldText f = .ok id) :
    readMetadata (fields.set 6 f) =
      .ok { parsed with sessionId := id, hasSessionId := f.present } := by
  unfold readMetadata at h
  split at h
  · obtain ⟨a, ha, h⟩ := Outcome.bind_eq_ok.mp h
    obtain ⟨b, hb, h⟩ := Outcome.bind_eq_ok.mp h
    obtain ⟨c, hc, h⟩ := Outcome.bind_eq_ok.mp h
    obtain ⟨d, hd, h⟩ := Outcome.bind_eq_ok.mp h
    obtain ⟨e, -, h⟩ := Outcome.bind_eq_ok.mp h
    dsimp only at h
    split_ifs at h with hrpc
    obtain rfl := Outcome.ok.inj h
    simp only [List.set_cons_succ, List.set_cons_zero, readMetadata, ha, hb, hc, hd, hf,
      Outcome.ok_bind, if_neg hrpc]
  · cases h

lemma readMetadata_set_epoch {fields : List Field} {f : Field} {parsed : Metadata}
    (h : readMetadata fields = .ok parsed) :
    readMetadata (fields.set 7 f) =
      .ok { parsed with vmEpoch := fieldNumber f, hasVmEpoch := f.present } := by
  unfold readMetadata at h
  split at h
  · obtain ⟨a, ha, h⟩ := Outcome.bind_eq_ok.mp h
    obtain ⟨b, hb, h⟩ := Outcome.bind_eq_ok.mp h
    obtain ⟨c, hc, h⟩ := Outcome.bind_eq_ok.mp h
    obtain ⟨d, hd, h⟩ := Outcome.bind_eq_ok.mp h
    obtain ⟨e, he, h⟩ := Outcome.bind_eq_ok.mp h
    dsimp only at h
    split_ifs at h with hrpc
    obtain rfl := Outcome.ok.inj h
    simp only [List.set_cons_succ, List.set_cons_zero, readMetadata, ha, hb, hc, hd, he,
      Outcome.ok_bind, if_neg hrpc]
  · cases h

/-- The two flags are the presence of the two fields. -/
lemma readMetadata_present {fields : List Field} {parsed : Metadata}
    (h : readMetadata fields = .ok parsed) :
    (fields[6]?).map (·.present) = some parsed.hasSessionId ∧
      (fields[7]?).map (·.present) = some parsed.hasVmEpoch := by
  unfold readMetadata at h
  split at h
  · obtain ⟨a, -, h⟩ := Outcome.bind_eq_ok.mp h
    obtain ⟨b, -, h⟩ := Outcome.bind_eq_ok.mp h
    obtain ⟨c, -, h⟩ := Outcome.bind_eq_ok.mp h
    obtain ⟨d, -, h⟩ := Outcome.bind_eq_ok.mp h
    obtain ⟨e, -, h⟩ := Outcome.bind_eq_ok.mp h
    dsimp only at h
    split_ifs at h
    obtain rfl := Outcome.ok.inj h
    exact ⟨rfl, rfl⟩
  · cases h

/-! ## The two members of the owner -/

/-- A session id as the binding demands it. -/
def SessionHex (id : List UInt8) : Prop := id.length = sessionIdHexLen ∧ id.all isLowerHex = true

lemma isLowerHex_plain {b : UInt8} (h : isLowerHex b = true) :
    0x20 ≤ b ∧ b < 0x80 ∧ b ≠ quote ∧ b ≠ backslash := by
  have hall : ∀ n : Fin 256, isLowerHex ⟨⟨n⟩⟩ = true → (0x20 : UInt8) ≤ ⟨⟨n⟩⟩ ∧
      (⟨⟨n⟩⟩ : UInt8) < 0x80 ∧ (⟨⟨n⟩⟩ : UInt8) ≠ quote ∧ (⟨⟨n⟩⟩ : UInt8) ≠ backslash := by
    decide +kernel
  exact hall b.toFin h

lemma SessionHex.plain {id : List UInt8} (h : SessionHex id) : Plain id :=
  fun b hb => isLowerHex_plain (List.all_eq_true.mp h.2 b hb)

def sessionMember (id : List UInt8) : Member :=
  (sessionIdKey.map UInt8.toNat, .string (id.map UInt8.toNat))

def epochMember (epoch : UInt32) : Member :=
  (vmEpochKey.map UInt8.toNat, .number (Scanf.numeral 10 epoch.toNat))

/-- The table entry of `sessionId`. -/
def sessionField : Field := stringField sessionIdKey false sessionIdCapacity

def epochField : Field := ⟨vmEpochKey, false, false, .uint32 0⟩

lemma decoded_present {ms : List Member} {i : ℕ} {f : Field} {present : Bool}
    (hf : metadataFields[i]? = some f)
    (h : ((decoded metadataFields ms)[i]?).map (·.present) = some present) :
    present = (valueOf metadataFields ms i).isSome := by
  rw [decoded_getElem?, hf] at h
  cases hv : valueOf metadataFields ms i with
  | none => simpa [hv, Field.after] using h.symm
  | some v => simpa [hv, Field.after] using h.symm

section Owner

variable {ms : List Member} {parsed : Metadata}

theorem snoc_session (ha : Admissible metadataFields ms)
    (hread : readMetadata (decoded metadataFields ms) = .ok parsed)
    (hno : parsed.hasSessionId = false) {id : List UInt8} (hid : SessionHex id) :
    Admissible metadataFields (ms ++ [sessionMember id]) ∧
      readMetadata (decoded metadataFields (ms ++ [sessionMember id])) =
        .ok { parsed with sessionId := id, hasSessionId := true } := by
  have hb : boundTo metadataFields (sessionMember id).1 = some 6 := by
    show boundTo metadataFields (sessionIdKey.map UInt8.toNat) = some 6
    decide
  have hf : metadataFields[6]? = some sessionField := rfl
  have hn : valueOf metadataFields ms 6 = none := by
    have h := decoded_present hf (readMetadata_present hread).1
    rw [hno] at h
    exact Option.isNone_iff_eq_none.mp (by simpa using h)
  have hnul : ∀ b ∈ id, b ≠ 0 := fun b hb h0 => by
    have h := (hid.plain b hb).1
    rw [h0] at h
    exact absurd h (by decide)
  have hlen : id.length < sessionIdCapacity := by
    rw [hid.1]
    decide
  have hv : sessionField.value.Admits (sessionMember id).2 := by
    refine ⟨?_, .inr (.inr ?_)⟩
    · simpa [← UInt8.toNat_inj] using hnul
    · rw [encode_plain hid.plain]
      exact hlen
  refine ⟨admissible_snoc ha hb hf hn hv, ?_⟩
  rw [decoded_snoc_known hb hf hn]
  refine readMetadata_set_session hread ?_
  show fieldText (sessionField.after (some (.string (id.map UInt8.toNat)))) = _
  have hfill : fill sessionIdCapacity id (zeros sessionIdCapacity) =
      id ++ 0 :: (zeros sessionIdCapacity).drop (id.length + 1) := if_pos hlen
  simp only [fieldText, Field.after, sessionField, stringField, FieldValue.decoded,
    Option.map_some, encode_plain hid.plain, hfill]
  exact cString_append hnul

theorem snoc_epoch (ha : Admissible metadataFields ms)
    (hread : readMetadata (decoded metadataFields ms) = .ok parsed)
    (hno : parsed.hasVmEpoch = false) (epoch : UInt32) :
    Admissible metadataFields (ms ++ [epochMember epoch]) ∧
      readMetadata (decoded metadataFields (ms ++ [epochMember epoch])) =
        .ok { parsed with vmEpoch := epoch, hasVmEpoch := true } := by
  have hb : boundTo metadataFields (epochMember epoch).1 = some 7 := by
    show boundTo metadataFields (vmEpochKey.map UInt8.toNat) = some 7
    decide
  have hf : metadataFields[7]? = some epochField := rfl
  have hn : valueOf metadataFields ms 7 = none := by
    have h := decoded_present hf (readMetadata_present hread).2
    rw [hno] at h
    exact Option.isNone_iff_eq_none.mp (by simpa using h)
  have hv : epochField.value.Admits (epochMember epoch).2 := by
    refine ⟨numeral_digits _, ?_⟩
    rw [natValue_numeral]
    exact epoch.toNat_lt
  refine ⟨admissible_snoc ha hb hf hn hv, ?_⟩
  rw [decoded_snoc_known hb hf hn, readMetadata_set_epoch hread]
  simp [epochField, epochMember, Field.after, FieldValue.decoded, fieldNumber, natValue_numeral]

end Owner

/-! ## What is written -/

/-- The text that the splice adds. -/
def additions (id : List UInt8) (epoch : UInt32) (addSession addEpoch : Bool) : List UInt8 :=
  (if addSession then sessionAddition id else []) ++ if addEpoch then epochAddition epoch else []

lemma sessionAddition_length {id : List UInt8} (h : SessionHex id) :
    (sessionAddition id).length = 47 := by
  simp [sessionAddition, sessionIdKey, h.1, sessionIdHexLen]

lemma epochAddition_length (epoch : UInt32) :
    0 < (epochAddition epoch).length ∧ (epochAddition epoch).length ≤ 21 := by
  have h := Scanf.numeral_length 10 (k := 10) (by omega) (by omega)
    (show epoch.toNat < 10 ^ 10 from lt_trans epoch.toNat_lt (by decide))
  simp only [epochAddition, vmEpochKey, List.length_append, List.length_cons, List.length_nil]
  omega

/-- Both additions fit the buffer, so only the length of the result decides. -/
theorem splice_eq {metadata : CString} {front tail : List UInt8} {ms : List Member}
    (h : Closed metadata.bytes front tail ms) {id : List UInt8} (hid : SessionHex id)
    (epoch : UInt32) (addSession addEpoch output : Bool) :
    splice metadata metadata.bytes.length id epoch addSession addEpoch output =
      let out := front ++ additions id epoch addSession addEpoch ++ rbrace :: tail
      if metadataMax < out.length then ⟨.invalidSize, none⟩
      else ⟨.ok, if output then some (out ++ [0], out.length) else none⟩ := by
  have hfound : ¬ (front.length + 1 = 0 ∨ metadata.bytes[front.length]? ≠ some rbrace) := by
    simp [h.eq]
  have hs : (addSession && !printed (if addSession then sessionAddition id else [])
      additionsSize) = false := by
    cases addSession
    · rfl
    · simp [printed, sessionAddition_length hid, additionsSize]
  have he : (addEpoch && !printed (if addEpoch then epochAddition epoch else [])
      (additionsSize - (if addSession then sessionAddition id else []).length)) = false := by
    obtain ⟨hpos, hle⟩ := epochAddition_length epoch
    cases addEpoch
    · rfl
    · cases addSession <;> simp [printed, sessionAddition_length hid, additionsSize] <;> omega
  have hlen : metadata.bytes.length = front.length + 1 + tail.length := by
    simp [h.eq]
    omega
  have hfront : metadata.cells.take front.length = front := by
    simp [CString.cells, h.eq]
  have htail : (metadata.cells.drop front.length).take
      (metadata.bytes.length - front.length + 1) = rbrace :: tail ++ [0] := by
    rw [CString.cells, h.eq, List.append_assoc, List.drop_left]
    exact List.take_of_length_le (by simp)
  have hadd : ((if addSession then sessionAddition id else []) ++
      if addEpoch then epochAddition epoch else []) =
        additions id epoch addSession addEpoch := rfl
  have hout : (front ++ additions id epoch addSession addEpoch ++ rbrace :: tail).length =
      metadata.bytes.length + (additions id epoch addSession addEpoch).length := by
    simp [hlen]
    omega
  rw [splice, closeEnd_closed h]
  simp only [Nat.add_sub_cancel, if_neg hfound, hs, he, Bool.false_eq_true, if_false, hadd,
    hfront, htail, hout]
  by_cases hmax : metadataMax < metadata.bytes.length +
      (additions id epoch addSession addEpoch).length
  · rw [if_pos hmax, if_pos hmax]
  · rw [if_neg hmax, if_neg hmax]
    cases output
    · rfl
    · simp

/-- The members that the splice adds. -/
def addedMembers (id : List UInt8) (epoch : UInt32) (addSession addEpoch : Bool) : List Member :=
  (if addSession then [sessionMember id] else []) ++ if addEpoch then [epochMember epoch] else []

theorem splice_closed {text front tail : List UInt8} {ms : List Member}
    (h : Closed text front tail ms) {id : List UInt8} (hid : SessionHex id) (epoch : UInt32)
    (addSession addEpoch : Bool) :
    Document (front ++ additions id epoch addSession addEpoch ++ rbrace :: tail)
      (ms ++ addedMembers id epoch addSession addEpoch) := by
  have hkey : Plain sessionIdKey ∧ Plain vmEpochKey := by
    constructor <;> unfold Plain <;> decide +kernel
  have hsession : ∀ {text front ms}, Closed text front tail ms →
      Closed (front ++ sessionAddition id ++ rbrace :: tail) (front ++ sessionAddition id) tail
        (ms ++ [sessionMember id]) := fun h => by
    rw [sessionAddition_eq]
    exact h.snoc hkey.1 (.string (stringText_plain hid.plain))
  have hepoch : ∀ {text front ms}, Closed text front tail ms →
      Closed (front ++ epochAddition epoch ++ rbrace :: tail) (front ++ epochAddition epoch) tail
        (ms ++ [epochMember epoch]) := fun h => by
    rw [epochAddition_eq]
    exact h.snoc hkey.2 (.number (numeral_text _))
  cases addSession <;> cases addEpoch
  · simpa [additions, addedMembers, ← h.eq] using h.document
  · simpa [additions, addedMembers] using (hepoch h).document
  · simpa [additions, addedMembers] using (hsession h).document
  · simpa [additions, addedMembers] using (hepoch (hsession h)).document

/-- The spliced object is admitted again and carries the owner. -/
theorem added_admitted {ms : List Member} {parsed : Metadata}
    (ha : Admissible metadataFields ms)
    (hread : readMetadata (decoded metadataFields ms) = .ok parsed)
    {id : List UInt8} (hid : SessionHex id) (epoch : UInt32)
    (hsame : parsed.hasSessionId = true → parsed.sessionId = id)
    (hepoch : parsed.hasVmEpoch = true → parsed.vmEpoch = epoch) :
    let ms' := ms ++ addedMembers id epoch (!parsed.hasSessionId) (!parsed.hasVmEpoch)
    Admissible metadataFields ms' ∧ readMetadata (decoded metadataFields ms') =
      .ok { parsed with sessionId := id, hasSessionId := true, vmEpoch := epoch,
                        hasVmEpoch := true } := by
  obtain ⟨ms₁, hms₁, ha₁, hread₁⟩ : ∃ ms₁,
      ms₁ = ms ++ (if !parsed.hasSessionId then [sessionMember id] else []) ∧
      Admissible metadataFields ms₁ ∧ readMetadata (decoded metadataFields ms₁) =
        .ok { parsed with sessionId := id, hasSessionId := true } := by
    cases hs : parsed.hasSessionId with
    | false =>
      obtain ⟨h1, h2⟩ := snoc_session ha hread hs hid
      exact ⟨_, by simp, h1, h2⟩
    | true => exact ⟨ms, by simp, ha, by rw [hread, ← hsame hs, ← hs]⟩
  dsimp only
  rw [addedMembers, ← List.append_assoc, ← hms₁]
  cases he : parsed.hasVmEpoch with
  | false =>
    obtain ⟨h1, h2⟩ := snoc_epoch ha₁ hread₁ he epoch
    exact ⟨by simpa using h1, by simpa using h2⟩
  | true => exact ⟨by simpa using ha₁, by simp [hread₁, ← hepoch he, ← he]⟩

/-! ## The binding -/

/-- The metadata carries what the options ask for. -/
def SubmitOptions.CarriedBy (options : SubmitOptions) (m : Metadata) : Prop :=
  match options.owner with
  | some id => m.hasSessionId = true ∧ m.sessionId = id.bytes ∧ m.hasVmEpoch = true ∧
      m.vmEpoch = options.vmEpoch
  | none => m.hasSessionId = false ∧ m.hasVmEpoch = false

/-- The metadata carries a session id or an epoch that is not the owner's. -/
def SubmitOptions.ConflictsWith (options : SubmitOptions) (m : Metadata) : Prop :=
  match options.owner with
  | some id => (m.hasSessionId = true ∧ m.sessionId ≠ id.bytes) ∨
      (m.hasVmEpoch = true ∧ m.vmEpoch ≠ options.vmEpoch)
  | none => m.hasSessionId = true ∨ m.hasVmEpoch = true

/-- The members that name neither a session id nor an epoch. -/
def others (ms : List Member) : List Member :=
  ms.filter fun m => m.1 ≠ sessionIdKey.map UInt8.toNat ∧ m.1 ≠ vmEpochKey.map UInt8.toNat

/-- `out` is `text` bound to the options. -/
structure Bound (text : List UInt8) (options : SubmitOptions) (out : List UInt8) : Prop where
  accepted : ∃ parsed, parseMetadata out = .ok parsed ∧ options.CarriedBy parsed
  length_le : out.length ≤ metadataMax
  members : ∃ ms ms', Document text ms ∧ Document out ms' ∧ others ms' = others ms

/-- The real run and the dry run of one call. -/
structure Run (text : CString) (options : SubmitOptions) (run : Bool → Bind) : Prop where
  dry : run false = ⟨(run true).status, none⟩
  failed : (run true).status ≠ .ok → (run true).output = none
  bound : (run true).status = .ok → ∃ out,
    (run true).output = some (out ++ [0], out.length) ∧ Bound text.bytes options out
  conflict : ∀ parsed, parseMetadata text.bytes = .ok parsed → options.ConflictsWith parsed →
    (run true).status = if metadataMax < text.bytes.length then .invalidSize else .invalidState

section Runs

variable {text : CString} {options : SubmitOptions}

lemma run_refused {status : Status} (hs : status ≠ .ok)
    (hc : ∀ parsed, parseMetadata text.bytes = .ok parsed → options.ConflictsWith parsed →
      status = if metadataMax < text.bytes.length then .invalidSize else .invalidState) :
    Run text options fun _ => ⟨status, none⟩ :=
  ⟨rfl, fun _ => rfl, fun h => absurd h hs, hc⟩

lemma others_added {ms : List Member} (id : List UInt8) (epoch : UInt32)
    (addSession addEpoch : Bool) :
    others (ms ++ addedMembers id epoch addSession addEpoch) = others ms := by
  cases addSession <;> cases addEpoch <;>
    simp [others, addedMembers, sessionMember, epochMember]

lemma copyOf_eq (text : CString) :
    copyOf text text.bytes.length = (text.bytes ++ [0], text.bytes.length) := by
  simp [copyOf, CString.cells]

lemma run_state (hlen : text.bytes.length ≤ metadataMax) :
    Run text options fun _ => ⟨.invalidState, none⟩ :=
  run_refused (by decide) fun _ _ _ => by rw [if_neg (by omega)]

variable {parsed : Metadata}

lemma run_copy (hlen : text.bytes.length ≤ metadataMax)
    (hparse : parseMetadata text.bytes = .ok parsed) (hcarried : options.CarriedBy parsed)
    (hc : ¬ options.ConflictsWith parsed) :
    Run text options fun output =>
      ⟨.ok, if output then some (copyOf text text.bytes.length) else none⟩ := by
  obtain ⟨ms, hd, -, -⟩ := parseMetadata_members hparse
  refine ⟨rfl, fun h => absurd rfl h, fun _ => ⟨text.bytes, by rw [if_pos rfl, copyOf_eq],
    ⟨parsed, hparse, hcarried⟩, hlen, ms, ms, hd, hd, rfl⟩, fun p hp h => ?_⟩
  obtain rfl := Outcome.ok.inj (hparse.symm.trans hp)
  exact absurd h hc

lemma run_splice (hparse : parseMetadata text.bytes = .ok parsed) {id : CString}
    (howner : options.owner = some id) (hid : SessionHex id.bytes)
    (hc : ¬ options.ConflictsWith parsed) :
    Run text options fun output => splice text text.bytes.length id.bytes
      options.vmEpoch (!parsed.hasSessionId) (!parsed.hasVmEpoch) output := by
  obtain ⟨ms, hd, ha, hread⟩ := parseMetadata_members hparse
  have hne : ms ≠ [] := by
    rintro rfl
    obtain ⟨m, hm, -⟩ := ha.required 0 _ rfl rfl
    exact absurd hm (by simp)
  obtain ⟨front, tail, hclosed⟩ := document_closed hd hne
  have hsame : (parsed.hasSessionId = true → parsed.sessionId = id.bytes) ∧
      (parsed.hasVmEpoch = true → parsed.vmEpoch = options.vmEpoch) := by
    simpa [SubmitOptions.ConflictsWith, howner, not_or] using hc
  have hconflict : ∀ p, parseMetadata text.bytes = .ok p → ¬ options.ConflictsWith p :=
    fun p hp => Outcome.ok.inj (hparse.symm.trans hp) ▸ hc
  have hdoc := splice_closed hclosed hid options.vmEpoch (!parsed.hasSessionId)
    (!parsed.hasVmEpoch)
  obtain ⟨hadm, hcarry⟩ := added_admitted ha hread hid options.vmEpoch hsame.1 hsame.2
  simp only [splice_eq hclosed hid]
  split_ifs with hmax
  · exact run_refused (by decide) fun p hp h => absurd h (hconflict p hp)
  · refine ⟨by simp, fun h => absurd rfl h, fun _ => ⟨_, rfl, ⟨_,
      parseMetadata_of_members hdoc hadm hcarry, ?_⟩, by omega, ms, _, hd, hdoc,
      others_added _ _ _ _⟩, fun p hp h => absurd h (hconflict p hp)⟩
    simp [SubmitOptions.CarriedBy, howner]

theorem bindParsed_run (hlen : text.bytes.length ≤ metadataMax)
    (hparse : parseMetadata text.bytes = .ok parsed) :
    Run text options (bindParsed text text.bytes.length parsed options) := by
  unfold bindParsed
  cases howner : options.owner with
  | none =>
    simp only
    split_ifs with h
    · exact run_state hlen
    · obtain ⟨hs, he⟩ : parsed.hasSessionId = false ∧ parsed.hasVmEpoch = false := by
        simpa using h
      refine run_copy hlen hparse ?_ ?_
      · simp [SubmitOptions.CarriedBy, howner, hs, he]
      · simp [SubmitOptions.ConflictsWith, howner, hs, he]
  | some id =>
    simp only
    split_ifs with hl hhex hconf hboth
    · exact run_state hlen
    · exact run_state hlen
    · exact run_state hlen
    · have hc : ¬ options.ConflictsWith parsed := by
        simpa only [SubmitOptions.ConflictsWith, howner] using hconf
      obtain ⟨hs, he⟩ : parsed.hasSessionId = true ∧ parsed.hasVmEpoch = true := by
        simpa using hboth
      refine run_copy hlen hparse ?_ hc
      simpa [SubmitOptions.CarriedBy, howner, hs, he] using hconf
    · have hc : ¬ options.ConflictsWith parsed := by
        simpa only [SubmitOptions.ConflictsWith, howner] using hconf
      have hidlen : id.bytes.length = sessionIdHexLen := by
        simp only [strnlen, not_not] at hl
        omega
      have hid : SessionHex id.bytes := by
        refine ⟨hidlen, ?_⟩
        rw [← hidlen, List.take_length] at hhex
        simpa using hhex
      exact run_splice hparse howner hid hc

end Runs

/-- Whatever the text and the options: the dry run answers as the real run does and writes
nothing; a refusal writes nothing; success writes a text that the strict parser accepts, within
the limit, with the owner of the options and the other members as they were; and a text with
another owner is refused. -/
theorem metadataBind_correct (text : CString) (options : SubmitOptions) :
    ∃ run : Bool → Bind,
      (∀ output, metadataBind (some text) (some options) output output = .ok (run output)) ∧
      Run text options run := by
  by_cases hmax : metadataMax < text.bytes.length
  · have hlen : metadataMax < strnlen text (metadataMax + 1) := by
      rw [strnlen]
      omega
    refine ⟨fun _ => ⟨.invalidSize, none⟩, fun output => ?_, run_refused (by decide)
      fun _ _ _ => by rw [if_pos hmax]⟩
    rw [metadataBind, if_neg (by simp)]
    exact if_pos hlen
  · have hlen : strnlen text (metadataMax + 1) = text.bytes.length := by
      rw [strnlen]
      omega
    have hbind : ∀ output, metadataBind (some text) (some options) output output =
        match parseMetadata text.bytes with
        | .fault => .fault
        | .reject => .ok ⟨.invalidArg, none⟩
        | .ok parsed => .ok (bindParsed text text.bytes.length parsed options output) := by
      intro output
      simp only [metadataBind, ne_eq, not_true_eq_false, if_false, hlen, if_neg hmax,
        List.take_length]
    cases hparse : parseMetadata text.bytes with
    | fault => exact absurd hparse (parseMetadata_ne_fault text.bytes)
    | reject =>
      exact ⟨_, fun output => by rw [hbind, hparse],
        run_refused (by decide) fun p hp => by simp [hparse] at hp⟩
    | ok parsed =>
      exact ⟨_, fun output => by rw [hbind, hparse], bindParsed_run (by omega) hparse⟩

end EspVision.MetadataBind
