import EspVision.ControlJsonObject
import EspVision.Replace
import EspVision.Scanf

/-!
# The lenient field helpers of legacy requests (`ev_control_transport.c`)

The helpers look for the quoted name in the text of the request and read what stands behind
the colon. What they find is compared with the first top-level member of that name in the
decoded object.
-/
namespace EspVision.LenientJson
open Json EvControlJson Scanf

/-! ## The helpers -/

/-- `sizeof(pattern)`. -/
def patternSize : ℕ := 40

/-- The name in quotes. -/
def pattern (name : List UInt8) : List UInt8 := quote :: (name ++ [quote])

/-- `strstr`: the text from the first occurrence of the word on. -/
def strstr (word : List UInt8) : List UInt8 → Option (List UInt8)
  | [] => if word = [] then some [] else none
  | c :: s => if word.isPrefixOf (c :: s) then some (c :: s) else strstr word s

/-- `ev_control_json_find_value`; a position is what is left of the C string there. -/
def findValue (json name : List UInt8) : Option (List UInt8) :=
  if patternSize ≤ (pattern name).length then none
  else
    match strstr (pattern name) json with
    | none => none
    | some pos =>
      match space (pos.drop (pattern name).length) with
      | [] => none
      | c :: rest => if c = colon then some (space rest) else none

/-- The copy loop of `ev_control_json_get_string`: what it copies into `room` cells and where
it stops. -/
def copyString : ℕ → List UInt8 → List UInt8 × List UInt8
  | 0, s => ([], s)
  | _ + 1, [] => ([], [])
  | room + 1, c :: s =>
    if c = quote then ([], c :: s)
    else
      let (copied, rest) := copyString room s
      (c :: copied, rest)

/-- `ev_control_json_get_string`: the answer and the cells written to `out`. -/
def getString (json name : List UInt8) (outLen : ℕ) : Bool × List UInt8 :=
  if outLen = 0 then (false, [])
  else
    match findValue json name with
    | none => (false, [])
    | some [] => (false, [])
    | some (c :: pos) =>
      if c ≠ quote then (false, [])
      else
        let (copied, rest) := copyString (outLen - 1) pos
        (rest.head? = some quote, copied ++ [0])

/-- What may follow a literal. -/
def delimited : List UInt8 → Bool
  | [] => true
  | c :: _ => c == comma || c == rbrace || isSpace c

/-- `ev_control_json_get_bool`. -/
def getBool (json name : List UInt8) (fallback : Bool) : Bool :=
  match findValue json name with
  | none => fallback
  | some pos =>
    if (boolText true).isPrefixOf pos && delimited (pos.drop 4) then true
    else if (boolText false).isPrefixOf pos && delimited (pos.drop 5) then false
    else fallback

/-- `strtoul` in base 10, where an `unsigned long` has 32 bits. -/
def strtoul (s : List UInt8) : UInt32 := ((decimal s).map (·.1)).getD 0

/-- `ev_control_json_get_u32`. -/
def getU32 (json name : List UInt8) (fallback : UInt32) : UInt32 :=
  match findValue json name with
  | none => fallback
  | some pos => strtoul pos

/-! ## Requests and names -/

/-- A payload that is one JSON object. -/
structure Request where
  text : List UInt8
  members : List Member
  document : Document text members

/-- A field name: printable characters that need no escape, within the pattern buffer. -/
structure FieldName where
  text : List UInt8
  plain : ∀ b ∈ text, 0x20 ≤ b ∧ b < 0x80 ∧ b ≠ quote ∧ b ≠ backslash
  fits : (pattern text).length < patternSize

def ascii (s : String) : List UInt8 := s.toList.map fun c => UInt8.ofNat c.toNat

/-- The bytes of a literal, character for character. -/
theorem ascii_ofList (l : List Char) :
    ascii (String.ofList l) = l.map fun c => UInt8.ofNat c.toNat := by
  rw [ascii, String.toList_ofList]

theorem ascii_length (l : List Char) : (ascii (String.ofList l)).length = l.length := by
  rw [ascii_ofList, List.length_map]

theorem ascii_length_le {l : List Char} {n : ℕ} (h : l.length ≤ n) :
    (ascii (String.ofList l)).length ≤ n := by
  rwa [ascii_length]

theorem ascii_all {p : UInt8 → Prop} [DecidablePred p] {l : List Char}
    (h : (l.all fun c => decide (p (UInt8.ofNat c.toNat))) = true) :
    ∀ b ∈ ascii (String.ofList l), p b := by
  rw [ascii_ofList]
  intro b hb
  obtain ⟨c, hc, rfl⟩ := List.mem_map.mp hb
  exact of_decide_eq_true (List.all_eq_true.mp h c hc)

theorem pattern_fits {l : List Char} (h : l.length + 2 < patternSize) :
    (pattern (ascii (String.ofList l))).length < patternSize := by
  simpa [pattern, ascii_length] using h

/-- The names that the handlers ask for. -/
def handlerNames : List FieldName :=
  [⟨ascii "stream", ascii_all (by decide), pattern_fits (by decide)⟩,
    ⟨ascii "path", ascii_all (by decide), pattern_fits (by decide)⟩,
    ⟨ascii "contentBase64", ascii_all (by decide), pattern_fits (by decide)⟩,
    ⟨ascii "mode", ascii_all (by decide), pattern_fits (by decide)⟩,
    ⟨ascii "encoding", ascii_all (by decide), pattern_fits (by decide)⟩,
    ⟨ascii "offset", ascii_all (by decide), pattern_fits (by decide)⟩,
    ⟨ascii "totalBytes", ascii_all (by decide), pattern_fits (by decide)⟩,
    ⟨ascii "runAfterWrite", ascii_all (by decide), pattern_fits (by decide)⟩,
    ⟨ascii "trial_operation_id", ascii_all (by decide), pattern_fits (by decide)⟩,
    ⟨ascii "trial_source_path", ascii_all (by decide), pattern_fits (by decide)⟩,
    ⟨ascii "trial_source_hash", ascii_all (by decide), pattern_fits (by decide)⟩,
    ⟨ascii "scope", ascii_all (by decide), pattern_fits (by decide)⟩,
    ⟨ascii "quality", ascii_all (by decide), pattern_fits (by decide)⟩,
    ⟨ascii "volume", ascii_all (by decide), pattern_fits (by decide)⟩,
    ⟨ascii "operationId", ascii_all (by decide), pattern_fits (by decide)⟩,
    ⟨ascii "leaseId", ascii_all (by decide), pattern_fits (by decide)⟩,
    ⟨ascii "safeHandoff", ascii_all (by decide), pattern_fits (by decide)⟩,
    ⟨ascii "action", ascii_all (by decide), pattern_fits (by decide)⟩,
    ⟨ascii "operation_id", ascii_all (by decide), pattern_fits (by decide)⟩]

/-- The decoded key of a name. -/
def FieldName.key (name : FieldName) : List ℕ := name.text.map UInt8.toNat

/-- The value of the top-level member of the name (the first one, where the object repeats it). -/
def Request.member (r : Request) (name : FieldName) : Option Value :=
  (r.members.find? fun m => m.1 = name.key).map (·.2)

/-- The bytes of a string. -/
def asString : Value → Option (List UInt8)
  | .string s => some (encode s)
  | _ => none

/-- A number of the type that `ev_control_json_number` reads. -/
def asU32 : Value → Option UInt32
  | .number t =>
    if t.all isDigit && natValue t < 2 ^ 32 then some (UInt32.ofNat (natValue t)) else none
  | _ => none

def asBool : Value → Option Bool
  | .bool b => some b
  | _ => none

/-! ## The first occurrence -/

/-- `word` occurs in `text` behind `before`, and nowhere earlier. -/
structure FirstAt (word text before after : List UInt8) : Prop where
  eq : text = before ++ (word ++ after)
  first : ∀ before' after', text = before' ++ (word ++ after') → before.length ≤ before'.length

theorem strstr_spec (word text : List UInt8) :
    match strstr word text with
    | none => ∀ before after, text ≠ before ++ (word ++ after)
    | some s => ∃ before after, s = word ++ after ∧ FirstAt word text before after := by
  induction text with
  | nil =>
    rw [strstr]
    split_ifs with h
    · subst h
      exact ⟨[], [], rfl, rfl, by simp⟩
    · rintro before after heq
      simp only [List.nil_eq, List.append_eq_nil_iff] at heq
      exact h heq.2.1
  | cons c text ih =>
    rw [strstr]
    split_ifs with h
    · obtain ⟨after, hafter⟩ := List.isPrefixOf_iff_prefix.mp h
      exact ⟨[], after, hafter.symm, hafter.symm, by simp⟩
    · have hhead : ∀ after, c :: text ≠ word ++ after := fun after heq =>
        h (List.isPrefixOf_iff_prefix.mpr ⟨after, heq.symm⟩)
      cases hs : strstr word text with
      | none =>
        rw [hs] at ih
        rintro (_ | ⟨b, before⟩) after heq
        · exact hhead after heq
        · exact ih before after (List.cons_eq_cons.mp heq).2
      | some s =>
        rw [hs] at ih
        obtain ⟨before, after, rfl, rfl, hfirst⟩ := ih
        refine ⟨c :: before, after, rfl, rfl, ?_⟩
        rintro (_ | ⟨b, before'⟩) after' heq
        · exact absurd heq (hhead after')
        · have h := hfirst before' after' (List.cons_eq_cons.mp heq).2
          simpa using h

theorem strstr_eq_some {word text before after : List UInt8} (h : FirstAt word text before after) :
    strstr word text = some (word ++ after) := by
  have hspec := strstr_spec word text
  cases hs : strstr word text with
  | none =>
    rw [hs] at hspec
    exact absurd h.eq (hspec before after)
  | some s =>
    rw [hs] at hspec
    obtain ⟨before', after', rfl, h'⟩ := hspec
    have hlen : before.length = before'.length :=
      Nat.le_antisymm (h.first _ _ h'.eq) (h'.first _ _ h.eq)
    rw [(List.append_inj (h.eq.symm.trans h'.eq) hlen).2]

/-- The first occurrence of the quoted name, if there is one, is not in front of a colon. -/
def Unfound (text : List UInt8) (name : FieldName) : Prop :=
  ∀ before after, FirstAt (pattern name.text) text before after →
    (space after).head? ≠ some colon

theorem findValue_eq_none (text : List UInt8) (name : FieldName) :
    findValue text name.text = none ↔ Unfound text name := by
  rw [findValue, if_neg (Nat.not_le.mpr name.fits)]
  constructor
  · intro h before after hfirst hcolon
    rw [strstr_eq_some hfirst] at h
    simp only [List.drop_left] at h
    cases hs : space after with
    | nil => simp [hs] at hcolon
    | cons c rest =>
      obtain rfl : c = colon := by simpa [hs] using hcolon
      simp [hs] at h
  · intro h
    have hspec := strstr_spec (pattern name.text) text
    cases hs : strstr (pattern name.text) text with
    | none => rfl
    | some s =>
      rw [hs] at hspec
      obtain ⟨before, after, rfl, hfirst⟩ := hspec
      have hcolon := h before after hfirst
      simp only [List.drop_left]
      cases hsp : space after with
      | nil => rfl
      | cons c rest =>
        rw [hsp] at hcolon
        exact if_neg (by simpa using hcolon)

/-- Where `findValue` looks: behind the colon of the first occurrence. -/
theorem findValue_eq_some {text s : List UInt8} {name : FieldName} :
    findValue text name.text = some s ↔ ∃ before after gap rest,
      FirstAt (pattern name.text) text before after ∧ after = gap ++ colon :: rest ∧
      (∀ b ∈ gap, isSpace b = true) ∧ s = space rest := by
  rw [findValue, if_neg (Nat.not_le.mpr name.fits)]
  constructor
  · intro h
    have hspec := strstr_spec (pattern name.text) text
    cases hs : strstr (pattern name.text) text with
    | none => simp [hs] at h
    | some pos =>
      rw [hs] at hspec h
      obtain ⟨before, after, rfl, hfirst⟩ := hspec
      simp only [List.drop_left] at h
      cases hsp : space after with
      | nil => simp [hsp] at h
      | cons c rest =>
        simp only [hsp] at h
        split_ifs at h with hc
        subst hc
        refine ⟨before, after, after.takeWhile isSpace, rest, hfirst, ?_,
          fun b hb => List.mem_takeWhile_imp hb, (Option.some.inj h).symm⟩
        rw [← hsp, space, List.takeWhile_append_dropWhile]
  · rintro ⟨before, after, gap, rest, hfirst, rfl, hgap, rfl⟩
    have hsp : space (gap ++ colon :: rest) = colon :: rest := by
      rw [space, List.dropWhile_append_of_pos hgap]
      rfl
    simp only [strstr_eq_some hfirst, List.drop_left, hsp, if_true]

/-! ## Strings with and without escapes -/

lemma utf8_high {c : ℕ} (h : 0x80 ≤ c) (hs : Scalar c) : ∀ b ∈ utf8 c, 0x80 ≤ b := by
  have hmax := hs.1
  intro b hb
  rw [UInt8.le_iff_toNat_le]
  unfold utf8 at hb
  split_ifs at hb <;> simp only [List.mem_cons, List.not_mem_nil, or_false] at hb
  · omega
  · rcases hb with rfl | rfl <;> simp <;> omega
  · rcases hb with rfl | rfl | rfl <;> simp <;> omega
  · rcases hb with rfl | rfl | rfl | rfl <;> simp <;> omega

lemma utf8_length_le (c : ℕ) : (utf8 c).length ≤ 4 := by
  unfold utf8
  split_ifs <;> simp

lemma hexValue_not_quote {b : UInt8} {v : ℕ} (h : hexValue b = some v) : b ≠ quote := by
  rintro rfl
  simp [hexValue, quote] at h

lemma hex4_not_quote {t : List UInt8} {v : ℕ} (h : Hex4 t v) : quote ∉ t := by
  obtain ⟨a, b, c, d, x, y, z, w, rfl, ha, hb, hc, hd, -⟩ := h
  simp only [List.mem_cons, List.not_mem_nil, or_false, not_or]
  exact ⟨(hexValue_not_quote ha).symm, (hexValue_not_quote hb).symm,
    (hexValue_not_quote hc).symm, (hexValue_not_quote hd).symm⟩

lemma hex4_length {t : List UInt8} {v : ℕ} (h : Hex4 t v) : t.length = 4 := by
  obtain ⟨a, b, c, d, x, y, z, w, rfl, -⟩ := h
  rfl

/-- How one character is written, and what its decoded form keeps. -/
structure PieceShape (p : List UInt8) (c : ℕ) : Prop where
  shorter : (backslash ∉ p ∧ utf8 c = p) ∨ (backslash ∈ p ∧ (utf8 c).length < p.length)
  quoted : quote ∈ p → backslash ∈ p ∧ quote ∈ utf8 c

lemma piece_shape {p : List UInt8} {c : ℕ} (h : Piece p c) : PieceShape p c := by
  cases h with
  | @plain b h1 h2 hq hb =>
    have heq := utf8_ascii h2
    exact ⟨.inl ⟨fun hm => hb (List.mem_singleton.mp hm).symm, heq⟩,
      fun hm => absurd (List.mem_singleton.mp hm).symm hq⟩
  | utf8 h1 hs =>
    have hhigh := utf8_high h1 hs
    exact ⟨.inl ⟨fun hm => absurd (hhigh _ hm) (by decide), rfl⟩,
      fun hm => absurd (hhigh _ hm) (by decide)⟩
  | @escape b d he =>
    have heq := utf8_ascii (simpleEscape_ascii he).2.2
    refine ⟨.inr ⟨by simp, by simp [heq]⟩, fun hm => ?_⟩
    obtain rfl : quote = b := by simpa [quote, backslash] using hm
    obtain rfl : quote = d := by simpa [simpleEscape] using he
    exact ⟨by simp, by simp [heq]⟩
  | @unicode t v ht hs =>
    have hlen := hex4_length ht
    have hle := utf8_length_le c
    have hlt : (utf8 c).length < (backslash :: 0x75 :: t).length := by
      simp only [List.length_cons]
      omega
    refine ⟨.inr ⟨by simp, hlt⟩, fun hm => ?_⟩
    exact absurd (by simpa [quote, backslash] using hm) (hex4_not_quote ht)
  | @surrogates t u hi lo ht hu h1 h2 h3 h4 =>
    have hlen := hex4_length ht
    have hlen' := hex4_length hu
    have hle := utf8_length_le (surrogatePair hi lo)
    have hlt : (utf8 (surrogatePair hi lo)).length <
        (backslash :: 0x75 :: t ++ backslash :: 0x75 :: u).length := by
      simp only [List.cons_append, List.length_cons, List.length_append]
      omega
    refine ⟨.inr ⟨by simp, hlt⟩, fun hm => ?_⟩
    have hm' : quote ∈ t ∨ quote ∈ u := by simpa [quote, backslash] using hm
    exact absurd hm' (not_or.mpr ⟨hex4_not_quote ht, hex4_not_quote hu⟩)

/-- A string body without a backslash is its own decoding; any other one is longer. -/
theorem stringBody_shorter {body : List UInt8} {s : List ℕ} (h : StringBody body s) :
    (backslash ∉ body ∧ encode s = body) ∨
      (backslash ∈ body ∧ (encode s).length < body.length) := by
  induction h with
  | nil => exact .inl ⟨by simp, rfl⟩
  | cons hp _ ih =>
    simp only [encode_cons, List.mem_append, List.length_append]
    rcases (piece_shape hp).shorter with ⟨h1, h2⟩ | ⟨h1, h2⟩ <;>
      rcases ih with ⟨h3, h4⟩ | ⟨h3, h4⟩
    · exact .inl ⟨not_or.mpr ⟨h1, h3⟩, by rw [h2, h4]⟩
    · exact .inr ⟨.inr h3, by rw [h2]; omega⟩
    · exact .inr ⟨.inl h1, by rw [h4]; omega⟩
    · exact .inr ⟨.inl h1, by omega⟩

/-- A quote in a string body is escaped, and a quote of the decoded string. -/
theorem stringBody_quoted {body : List UInt8} {s : List ℕ} (h : StringBody body s)
    (hq : quote ∈ body) : backslash ∈ body ∧ quote ∈ encode s := by
  induction h with
  | nil => simp at hq
  | cons hp _ ih =>
    rw [encode_cons, List.mem_append, List.mem_append]
    rcases List.mem_append.mp hq with hm | hm
    · exact ((piece_shape hp).quoted hm).imp .inl .inl
    · exact (ih hm).imp .inr .inr

lemma FieldName.encode_key (name : FieldName) : encode name.key = name.text :=
  encode_plain name.plain

lemma FieldName.quote_not_mem (name : FieldName) : quote ∉ name.text := fun h =>
  (name.plain _ h).2.2.1 rfl

end EspVision.LenientJson
