import EspVision.NetworkJson

/-!
# What `parse_network_json` accepts

Besides complete objects the member loop accepts an object that stops after a comma,
because it ends without an error when no byte is left. The lemmas follow the member loop
as those of the control parser do; the progress after the members `done` is
`Progress.decoded done`.
-/
namespace EspVision.NetworkService
open Json
open EvControlJson (Member boundTo valueOf fill Admissible Field MemberOk Admitted MemberText
  set_append_drop cString_append encode_ne_zero valueOf_eq_none valueOf_snoc admitted_iff)

/-! ## Decoded strings -/

/-- The output after the bytes `bytes`. -/
structure Output.Holds (cells : List UInt8) (capacity : ℕ) (bytes : List UInt8) (out : Output) :
    Prop where
  cap_eq : out.capacity = capacity
  length_eq : out.length = bytes.length
  size_eq : out.cells.length = cells.length
  overflow_eq : out.overflow = decide (capacity < bytes.length)
  fits : bytes.length ≤ capacity → out.cells = bytes ++ cells.drop bytes.length

variable {cells : List UInt8} {capacity : ℕ}

lemma parserByte_holds (hs : cells.length = capacity + 1) {bytes : List UInt8} {out : Output}
    (h : out.Holds cells capacity bytes) (b : UInt8) :
    ∃ out', parserByte b out = .ok out' ∧ out'.Holds cells capacity (bytes ++ [b]) := by
  by_cases hroom : bytes.length < capacity
  · have hlt : out.length < out.cells.length := by rw [h.length_eq, h.size_eq]; omega
    have hov : out.overflow = false := by rw [h.overflow_eq, decide_eq_false_iff_not]; omega
    refine ⟨{ out with cells := out.cells.set out.length b, length := out.length + 1 }, ?_, ?_⟩
    · have hcap : out.length < out.capacity := by rw [h.length_eq, h.cap_eq]; exact hroom
      simp [parserByte, hcap, Output.store, hlt]
    · refine ⟨h.cap_eq, by simp [h.length_eq], by simp [h.size_eq], ?_, fun _ => ?_⟩
      · simp only [hov, List.length_append, List.length_singleton]
        exact (decide_eq_false (by omega)).symm
      · simp only
        rw [h.fits (by omega), h.length_eq, set_append_drop _ _ _ (by omega)]
        simp
  · refine ⟨{ out with overflow := true, length := out.length + 1 }, ?_, ?_⟩
    · simp [parserByte, h.length_eq, h.cap_eq, hroom]
    · refine ⟨h.cap_eq, by simp [h.length_eq], h.size_eq, ?_, fun hle => ?_⟩
      · simp only [List.length_append, List.length_singleton]
        exact (decide_eq_true (by omega)).symm
      · simp only [List.length_append, List.length_singleton] at hle
        omega

lemma bytes_holds (hs : cells.length = capacity + 1) (bs : List UInt8) {bytes : List UInt8}
    {out : Output} (h : out.Holds cells capacity bytes) :
    ∃ out', sink.bytes bs out = .ok out' ∧ out'.Holds cells capacity (bytes ++ bs) := by
  induction bs generalizing bytes out with
  | nil => exact ⟨out, rfl, by simpa using h⟩
  | cons b bs ih =>
    obtain ⟨out1, h1, hh1⟩ := parserByte_holds hs h b
    obtain ⟨out2, h2, hh2⟩ := ih hh1
    refine ⟨out2, ?_, by simpa using hh2⟩
    simp only [Sink.bytes, sink] at h2 ⊢
    simp [h1, h2]

lemma feed_holds (hs : cells.length = capacity + 1) {s : List ℕ} (hsc : ∀ c ∈ s, Scalar c)
    (hn : s.contains 0 = false) {bytes : List UInt8} {out : Output}
    (h : out.Holds cells capacity bytes) :
    ∃ out', sink.feed s out = .ok out' ∧ out'.Holds cells capacity (bytes ++ encode s) := by
  induction s generalizing bytes out with
  | nil => exact ⟨out, rfl, by simpa using h⟩
  | cons c s ih =>
    rw [List.contains_cons, Bool.or_eq_false_iff] at hn
    have hc : c ≠ 0 := by
      rintro rfl
      simp at hn
    obtain ⟨out1, h1, hh1⟩ := bytes_holds hs (utf8 c) h
    obtain ⟨out2, h2, hh2⟩ := ih (fun x hx => hsc x (by simp [hx])) hn.2 hh1
    refine ⟨out2, ?_, by simpa [List.append_assoc] using hh2⟩
    simp only [Sink.feed, codepoint_scalar _ hc (hsc c (by simp)), h1, Outcome.ok_bind, h2]

lemma feed_nul {s : List ℕ} (hsc : ∀ c ∈ s, Scalar c) (hn : s.contains 0 = true)
    (hs : cells.length = capacity + 1) {bytes : List UInt8} {out : Output}
    (h : out.Holds cells capacity bytes) : sink.feed s out = .reject := by
  induction s generalizing bytes out with
  | nil => simp at hn
  | cons c s ih =>
    by_cases hc : c = 0
    · subst hc
      rfl
    · obtain ⟨out1, h1, hh1⟩ := bytes_holds hs (utf8 c) h
      have h0 : ((0 : ℕ) == c) = false := by simpa using fun h : 0 = c => hc h.symm
      rw [List.contains_cons, h0, Bool.false_or] at hn
      have hrest := ih (fun x hx => hsc x (by simp [hx])) hn hh1
      simp only [Sink.feed, codepoint_scalar _ hc (hsc c (by simp)), h1, Outcome.ok_bind, hrest]

/-- What `parser_string` reports about a decoded string without NUL. -/
structure StringResult (cells : List UInt8) (capacity : ℕ) (s : List ℕ) (out : Output) : Prop where
  length_eq : out.length = (encode s).length
  overflow_eq : out.overflow = decide (capacity < (encode s).length)
  fits : out.overflow = false → out.cells = fill (capacity + 1) (encode s) cells

lemma holds_init : Output.Holds cells capacity [] { cells := cells, capacity := capacity } where
  cap_eq := rfl
  length_eq := rfl
  size_eq := rfl
  overflow_eq := by simp
  fits _ := by simp

theorem parserString_complete (hs : cells.length = capacity + 1) {t : List UInt8} {s : List ℕ}
    (ht : StringText t s) (hn : s.contains 0 = false) (rest : List UInt8) :
    ∃ out, parserString (t ++ rest) cells capacity = .ok (out, rest) ∧
      StringResult cells capacity s out := by
  obtain ⟨out1, h1, hh⟩ := feed_holds hs (stringText_scalar ht) hn
    (holds_init : Output.Holds cells capacity [] _)
  rw [List.nil_append] at hh
  have hrun : parserString (t ++ rest) cells capacity =
      (terminate out1 >>= fun out => .ok (out, rest)) := by
    simp only [parserString, Json.string_complete sink ht, h1, Outcome.ok_bind]
  by_cases hroom : (encode s).length ≤ capacity
  · have hlt : out1.length < out1.cells.length := by rw [hh.length_eq, hh.size_eq]; omega
    have hle : out1.length ≤ out1.capacity := by rw [hh.length_eq, hh.cap_eq]; exact hroom
    refine ⟨{ out1 with cells := out1.cells.set out1.length 0 }, ?_, hh.length_eq, hh.overflow_eq,
      fun _ => ?_⟩
    · simp [hrun, terminate, hle, Output.store, hlt]
    · simp only
      rw [hh.fits hroom, hh.length_eq, set_append_drop _ _ _ (by omega), fill, if_pos (by omega)]
  · have hgt : ¬ out1.length ≤ out1.capacity := by rw [hh.length_eq, hh.cap_eq]; exact hroom
    refine ⟨out1, by simp [hrun, terminate, hgt], hh.length_eq, hh.overflow_eq, fun hno => ?_⟩
    rw [hh.overflow_eq, decide_eq_false_iff_not] at hno
    omega

theorem parserString_nul (hs : cells.length = capacity + 1) {t : List UInt8} {s : List ℕ}
    (ht : StringText t s) (hn : s.contains 0 = true) (rest : List UInt8) :
    parserString (t ++ rest) cells capacity = .reject := by
  have h := feed_nul (stringText_scalar ht) hn hs (holds_init : Output.Holds cells capacity [] _)
  simp only [parserString, Json.string_complete sink ht, h, Outcome.reject_bind]

theorem parserString_sound (hs : cells.length = capacity + 1) {s rest : List UInt8} {out : Output}
    (h : parserString s cells capacity = .ok (out, rest)) :
    ∃ t cps, s = t ++ rest ∧ StringText t cps ∧ cps.contains 0 = false ∧
      StringResult cells capacity cps out := by
  obtain ⟨⟨out1, r⟩, h1, -⟩ := Outcome.bind_eq_ok.mp h
  obtain ⟨t, cps, rfl, ht, -⟩ := Json.string_sound sink h1
  cases hn : cps.contains 0 with
  | true => simp [parserString_nul hs ht hn] at h
  | false =>
    obtain ⟨out2, h2, hres⟩ := parserString_complete hs ht hn r
    rw [h2, Outcome.ok.injEq, Prod.mk.injEq] at h
    obtain ⟨rfl, rfl⟩ := h
    exact ⟨t, cps, rfl, ht, hn, hres⟩

lemma sink_safe (hs : cells.length = capacity + 1) :
    sink.Safe fun out => ∃ bytes, out.Holds cells capacity bytes where
  byte b out h := by
    obtain ⟨bytes, h⟩ := h
    obtain ⟨out', h1, hh⟩ := parserByte_holds hs h b
    exact ⟨out', h1, _, hh⟩
  nul out _ := by simp [sink]

theorem parserString_ne_fault (hs : cells.length = capacity + 1) (s : List UInt8) :
    parserString s cells capacity ≠ .fault := by
  intro h
  cases h1 : string sink s { cells := cells, capacity := capacity } with
  | ok r =>
    obtain ⟨out, rest⟩ := r
    obtain ⟨t, cps, rfl, ht, -⟩ := Json.string_sound sink h1
    cases hn : cps.contains 0 with
    | true => simp [parserString_nul hs ht hn] at h
    | false =>
      obtain ⟨out2, h2, -⟩ := parserString_complete hs ht hn rest
      simp [h] at h2
  | reject => simp [parserString, h1] at h
  | fault => exact Json.string_ne_fault (sink_safe hs) s ⟨[], holds_init⟩ h1

/-! ## A known string -/

lemma textOf_length (size : ℕ) (x : Option Value) : (textOf size x).length = size := by
  have hc : (cleared size).length = size := by simp [cleared]
  unfold textOf
  split
  · exact EvControlJson.fill_length hc
  · exact hc

/-- A string member that was not seen before and leaves room for its terminator. -/
theorem knownOnce_sound {size : ℕ} (hpos : 0 < size) {x : Option Value} {s rest : List UInt8}
    {out : Output} (h : knownOnce x.isSome s (textOf size x) size = .ok (out, rest)) :
    x = none ∧ ∃ t str, s = t ++ rest ∧ StringText t str ∧ str.contains 0 = false ∧
      (encode str).length < size ∧ out.cells = textOf size (some (.string str)) ∧
      out.length = (encode str).length := by
  cases x with
  | some v => simp [knownOnce] at h
  | none =>
    simp only [knownOnce, Option.isSome_none, Bool.false_eq_true, if_false] at h
    have hs : (textOf size none).length = size - 1 + 1 := by rw [textOf_length]; omega
    obtain ⟨⟨out1, r⟩, h1, h2⟩ := Outcome.bind_eq_ok.mp h
    clear h
    obtain ⟨t, str, rfl, ht, hn, hres⟩ := parserString_sound hs h1
    simp only at h2
    split_ifs at h2 with hov
    simp only [Outcome.ok.injEq, Prod.mk.injEq] at h2
    obtain ⟨rfl, rfl⟩ := h2
    have hov' : out1.overflow = false := by simpa using hov
    have hlen := hres.overflow_eq
    rw [hov', eq_comm, decide_eq_false_iff_not] at hlen
    have hsize : size - 1 + 1 = size := by omega
    exact ⟨rfl, t, str, rfl, ht, hn, by omega,
      by rw [hres.fits hov', hsize]; rfl, hres.length_eq⟩

theorem knownOnce_complete {size : ℕ} {t : List UInt8} {str : List ℕ} (ht : StringText t str)
    (hn : str.contains 0 = false) (hlen : (encode str).length < size) (rest : List UInt8) :
    ∃ out, knownOnce false (t ++ rest) (textOf size none) size = .ok (out, rest) ∧
      out.cells = textOf size (some (.string str)) ∧ out.length = (encode str).length := by
  have hs : (textOf size none).length = size - 1 + 1 := by rw [textOf_length]; omega
  obtain ⟨out, hout, hres⟩ := parserString_complete hs ht hn rest
  have hov : out.overflow = false := by rw [hres.overflow_eq, decide_eq_false_iff_not]; omega
  have hsize : size - 1 + 1 = size := by omega
  refine ⟨out, ?_, by rw [hres.fits hov, hsize]; rfl, hres.length_eq⟩
  simp [knownOnce, parserKnownString, hout, hov]

lemma knownOnce_ne_fault {size : ℕ} (hpos : 0 < size) (seen : Bool) (x : Option Value)
    (s : List UInt8) : knownOnce seen s (textOf size x) size ≠ .fault := by
  have hs : (textOf size x).length = size - 1 + 1 := by rw [textOf_length]; omega
  unfold knownOnce
  split_ifs
  · simp
  · refine Outcome.bind_ne_fault (parserString_ne_fault hs s) ?_
    rintro ⟨out, r⟩ -
    simp only
    split_ifs <;> simp

lemma parserBoolean_eq_ok {s rest : List UInt8} {b : Bool} :
    parserBoolean s = .ok (b, rest) ↔ s = boolText b ++ rest := by
  unfold parserBoolean
  cases h : literal (boolText true) s with
  | ok r =>
    rw [literal_eq_ok] at h
    subst h
    simp only [Outcome.ok.injEq, Prod.mk.injEq]
    constructor
    · rintro ⟨rfl, rfl⟩
      rfl
    · intro h
      cases b with
      | true => simpa [boolText] using h
      | false => simp [boolText] at h
  | fault => exact absurd h (literal_ne_fault _ _)
  | reject =>
    have hnt : ∀ r, s ≠ boolText true ++ r := fun r hr => by simp [literal_eq_ok.mpr hr] at h
    constructor
    · intro h2
      obtain ⟨r, hr, h3⟩ := Outcome.bind_eq_ok.mp h2
      obtain ⟨rfl, rfl⟩ : false = b ∧ r = rest := by simpa using h3
      exact literal_eq_ok.mp hr
    · intro h2
      cases b with
      | true => exact absurd h2 (hnt rest)
      | false => simp [literal_eq_ok.mpr h2]

/-! ## One member -/

/-- The key text that the comparisons see. -/
def keyText (key : List ℕ) : Option (List UInt8) :=
  if keySize ≤ (encode key).length then none else some (encode key)

lemma keyName_eq {key : List ℕ} (hk : ∀ c ∈ key, Scalar c) (hn : key.contains 0 = false)
    {out : Output} (h : StringResult (List.replicate keySize 0xff) (keySize - 1) key out) :
    keyName out = .ok (keyText key) := by
  have hov := h.overflow_eq
  by_cases hlen : keySize ≤ (encode key).length
  · have hover : out.overflow = true := by
      rw [hov, decide_eq_true_iff]
      simp only [keySize] at hlen ⊢
      omega
    simp [keyName, keyText, hover, hlen]
  · have hover : out.overflow = false := by
      rw [hov, decide_eq_false_iff_not]
      simp only [keySize] at hlen ⊢
      omega
    have hcells := h.fits hover
    rw [fill, if_pos (by simp only [keySize] at hlen ⊢; omega)] at hcells
    simp only [keyName, hover, Bool.false_eq_true, if_false, hcells,
      cString_append (encode_ne_zero hk hn), Outcome.ok_bind, keyText, if_neg hlen]

/-- The chain of comparisons finds the field the table binds the key to. -/
lemma boundTo_table {key : List ℕ} (hn : key.contains 0 = false) :
    boundTo table key =
      if keyText key = some actionName then some 0
      else if keyText key = some operationIdName then some 1
      else if keyText key = some ssidName then some 2
      else if keyText key = some passwordName then some 3
      else if keyText key = some enabledName then some 4
      else none := by
  have hsize : EvControlJson.keyCapacity = keySize := rfl
  by_cases hlen : keySize ≤ (encode key).length
  · simp [boundTo, keyText, hlen, hsize]
  · rw [boundTo, hn, Bool.false_or, hsize, if_neg (by simpa using hlen), keyText, if_neg hlen]
    generalize encode key = e
    simp only [table, List.findIdx?_cons, List.findIdx?_nil, decide_eq_true_eq, Option.some.injEq,
      eq_comm (a := e)]
    split_ifs <;> rfl

lemma valueOf_bound {done : List Member} {m : Member} {i : ℕ}
    (hb : boundTo table m.1 = some i) (hx : valueOf table done i = none) (j : ℕ) :
    valueOf table (done ++ [m]) j = if i = j then some m.2 else valueOf table done j := by
  rw [valueOf_snoc, hb]
  by_cases hij : i = j
  · subst hij
    simp [hx]
  · simp [hij]

lemma valueOf_unbound {done : List Member} {m : Member} (hb : boundTo table m.1 = none) (j : ℕ) :
    valueOf table (done ++ [m]) j = valueOf table done j := by
  rw [valueOf_snoc, hb]
  simp

lemma memberOk_known {done : List Member} {m : Member} {i : ℕ} {f : Field}
    (hb : boundTo table m.1 = some i) (hf : table[i]? = some f)
    (hx : valueOf table done i = none) (hv : f.value.Admits m.2) : MemberOk table done m := by
  refine ⟨fun h => by simp [hb] at h, fun j hj => ?_⟩
  obtain rfl : i = j := by simpa [hb] using hj
  refine ⟨valueOf_eq_none.mp hx, fun g hg => ?_⟩
  obtain rfl : f = g := by simpa [hf] using hg
  exact hv

/-- The progress after `done` read the value `v` of `key`. -/
structure Reads (done : List Member) (key : List ℕ) (p : Progress) (s rest : List UInt8)
    (t : List UInt8) (v : Value) : Prop where
  split : s = t ++ rest
  text : ValueText t v
  noNul : v.hasNul = false
  ok : MemberOk table done (key, v)
  progress : p = Progress.decoded (done ++ [(key, v)])

theorem parseValue_sound {done : List Member} {key : List ℕ} (hn : key.contains 0 = false)
    {p : Progress} {s rest : List UInt8}
    (h : parseValue (Progress.decoded done) (keyText key) s = .ok (p, rest)) :
    ∃ t v, Reads done key p s rest t v := by
  have hb := boundTo_table hn
  unfold parseValue at h
  split_ifs at h hb with h0 h1 h2 h3 h4 hseen
  iterate 2
    · obtain ⟨⟨out, r⟩, hk, hp⟩ := Outcome.bind_eq_ok.mp h
      obtain ⟨hx, t, str, rfl, ht, hnul, hlen, hcells, -⟩ := knownOnce_sound (by decide) hk
      obtain ⟨rfl, rfl⟩ : _ ∧ r = rest := by simpa using hp
      refine ⟨t, .string str, rfl, .string ht, hnul,
        memberOk_known hb rfl hx ⟨hnul, .inr (.inr hlen)⟩, ?_⟩
      simp [Progress.decoded, Request.decoded, valueOf_bound (m := (key, .string str)) hb hx, hcells]
  iterate 2
    · obtain ⟨⟨out, r⟩, hk, hp⟩ := Outcome.bind_eq_ok.mp h
      obtain ⟨hx, t, str, rfl, ht, hnul, hlen, hcells, hl⟩ := knownOnce_sound (by decide) hk
      obtain ⟨rfl, rfl⟩ : _ ∧ r = rest := by simpa using hp
      refine ⟨t, .string str, rfl, .string ht, hnul,
        memberOk_known hb rfl hx ⟨hnul, .inr (.inr hlen)⟩, ?_⟩
      simp [Progress.decoded, Request.decoded, valueOf_bound (m := (key, .string str)) hb hx, hcells,
        hl, lengthOf]
  · obtain ⟨⟨b, r⟩, hk, hp⟩ := Outcome.bind_eq_ok.mp h
    obtain ⟨rfl, rfl⟩ : _ ∧ r = rest := by simpa using hp
    have hx : valueOf table done 4 = none := by
      simpa [Progress.decoded] using hseen
    refine ⟨boolText b, .bool b, parserBoolean_eq_ok.mp hk, .bool b, rfl,
      memberOk_known hb rfl hx trivial, ?_⟩
    simp [Progress.decoded, Request.decoded, valueOf_bound (m := (key, .bool b)) hb hx, boolOf]
  · obtain ⟨r, hk, hp⟩ := Outcome.bind_eq_ok.mp h
    obtain ⟨rfl, rfl⟩ : _ ∧ r = rest := by simpa using hp
    obtain ⟨t, v, rfl, ht, hd, hnul⟩ := (skip_sound dialect _).value _ _ _ hk
    have hnul' : v.hasNul = false := by simpa [Allowed, dialect] using hnul
    refine ⟨t, v, rfl, ht, hnul', ⟨fun _ => show v.depth ≤ depthMax by omega, fun i hi => by simp [hb] at hi⟩, ?_⟩
    simp [Progress.decoded, Request.decoded, valueOf_unbound (m := (key, v)) hb]

lemma admits_string {size : ℕ} (hpos : 0 < size) {v : Value}
    (h : (EvControlJson.FieldValue.string (some (cleared size)) size 0).Admits v) :
    ∃ str, v = .string str ∧ str.contains 0 = false ∧ (encode str).length < size := by
  cases v <;> simp only [EvControlJson.FieldValue.Admits] at h
  case string str =>
    refine ⟨str, rfl, h.1, ?_⟩
    rcases h.2 with h | h | h
    · simp at h
    · simpa [h] using hpos
    · exact h

lemma stringText_of_value {t : List UInt8} {str : List ℕ} (h : ValueText t (.string str)) :
    StringText t str := by
  cases h with
  | string h => exact h

/-- A known string member that was not seen is read. -/
lemma knownString_run {done : List Member} {key : List ℕ} {v : Value} {i size : ℕ} {f : Field}
    (hb : boundTo table key = some i) (hf : table[i]? = some f)
    (hv : f.value = .string (some (cleared size)) size 0) (hpos : 0 < size)
    (hok : MemberOk table done (key, v)) {t : List UInt8} (ht : ValueText t v) (rest : List UInt8) :
    valueOf table done i = none ∧ ∃ str out, v = .string str ∧
      knownOnce false (t ++ rest) (textOf size none) size = .ok (out, rest) ∧
      out.cells = textOf size (some (.string str)) ∧ out.length = (encode str).length := by
  obtain ⟨hnew, hadm⟩ := hok.2 i hb
  have hadm' := hadm f hf
  rw [hv] at hadm'
  obtain ⟨str, rfl, hn, hlen⟩ := admits_string hpos hadm'
  obtain ⟨out, hout⟩ := knownOnce_complete (stringText_of_value ht) hn hlen rest
  exact ⟨valueOf_eq_none.mpr hnew, str, out, rfl, hout⟩

theorem parseValue_complete {done : List Member} {key : List ℕ} {v : Value} {t rest : List UInt8}
    (hn : key.contains 0 = false) (ht : ValueText t v) (hvn : v.hasNul = false)
    (hok : MemberOk table done (key, v)) (hr : NumberEnd rest) :
    parseValue (Progress.decoded done) (keyText key) (t ++ rest) =
      .ok (Progress.decoded (done ++ [(key, v)]), rest) := by
  have hb := boundTo_table hn
  unfold parseValue
  split_ifs at hb ⊢ with h0 h1 h2 h3 h4 hseen
  iterate 2
    · obtain ⟨hx, str, out, rfl, hout, hcells, -⟩ := knownString_run hb rfl rfl (by decide) hok ht rest
      simp [Progress.decoded, Request.decoded, hx, hout, hcells,
        valueOf_bound (m := (key, .string str)) hb hx]
  iterate 2
    · obtain ⟨hx, str, out, rfl, hout, hcells, hl⟩ :=
        knownString_run hb rfl rfl (by decide) hok ht rest
      simp [Progress.decoded, Request.decoded, hx, hout, hcells, hl, lengthOf,
        valueOf_bound (m := (key, .string str)) hb hx]
  · have hx := valueOf_eq_none.mpr (hok.2 4 hb).1
    simp [Progress.decoded, hx] at hseen
  · obtain ⟨hnew, hadm⟩ := hok.2 4 hb
    have hx := valueOf_eq_none.mpr hnew
    have hadm' := hadm _ rfl
    cases v <;> simp only [EvControlJson.FieldValue.Admits] at hadm'
    case bool b =>
      cases ht
      have hrun : parserBoolean (boolText b ++ rest) = .ok (b, rest) := parserBoolean_eq_ok.mpr rfl
      simp [Progress.decoded, Request.decoded, hrun, boolOf, valueOf_bound (m := (key, .bool b)) hb hx]
  · have hskip : skipValue dialect (skipFuel (t ++ rest)) 0 (t ++ rest) = .ok rest :=
      skipValue_complete ht (by simp [skipFuel]) (by simpa using hok.1 hb) (.inr hvn) hr
    simp [Progress.decoded, Request.decoded, hskip, valueOf_unbound (m := (key, v)) hb]

lemma parseValue_ne_fault (done : List Member) (name : Option (List UInt8)) (s : List UInt8) :
    parseValue (Progress.decoded done) name s ≠ .fault := by
  unfold parseValue
  split_ifs
  · exact Outcome.bind_ne_fault (knownOnce_ne_fault (by decide) _ _ s) fun _ _ => by simp
  · exact Outcome.bind_ne_fault (knownOnce_ne_fault (by decide) _ _ s) fun _ _ => by simp
  · exact Outcome.bind_ne_fault (knownOnce_ne_fault (by decide) _ _ s) fun _ _ => by simp
  · exact Outcome.bind_ne_fault (knownOnce_ne_fault (by decide) _ _ s) fun _ _ => by simp
  · simp
  · refine Outcome.bind_ne_fault ?_ fun _ _ => by simp
    unfold parserBoolean
    cases h : literal (boolText true) s with
    | ok r => simp
    | fault => exact absurd h (literal_ne_fault _ _)
    | reject => exact Outcome.bind_ne_fault (literal_ne_fault _ _) fun _ _ => by simp
  · exact Outcome.bind_ne_fault (skipValue_ne_fault _ _ _) fun _ _ => by simp

lemma keyCells_length : (List.replicate keySize (0xff : UInt8)).length = keySize - 1 + 1 := by
  simp [keySize]

theorem parseMember_sound {done : List Member} {p : Progress} {s rest : List UInt8}
    (h : parseMember (Progress.decoded done) s = .ok (p, rest)) :
    ∃ k a b t m, s = k ++ (a ++ colon :: (b ++ (t ++ rest))) ∧ MemberText k a b t m ∧
      MemberOk table done m ∧ m.1.contains 0 = false ∧ m.2.hasNul = false ∧
      p = Progress.decoded (done ++ [m]) := by
  obtain ⟨⟨out, s1⟩, h1, h2⟩ := Outcome.bind_eq_ok.mp h
  obtain ⟨s2, hcol, h3⟩ := Outcome.bind_eq_ok.mp h2
  clear h h2
  obtain ⟨k, key, rfl, hk, hn, hres⟩ := parserString_sound keyCells_length h1
  obtain ⟨a, ha, hs1, -⟩ := whitespace_split s1
  rw [expect_eq_ok.mp hcol] at hs1
  obtain ⟨b, hb, hs2, -⟩ := whitespace_split s2
  simp only [keyName_eq (stringText_scalar hk) hn hres, Outcome.ok_bind] at h3
  obtain ⟨t, v, hr⟩ := parseValue_sound hn h3
  exact ⟨k, a, b, t, (key, v), by rw [hs1, hs2, hr.split], ⟨hk, ha, hb, hr.text⟩, hr.ok, hn,
    hr.noNul, hr.progress⟩

theorem parseMember_complete {done : List Member} {k a b t rest : List UInt8} {m : Member}
    (hm : MemberText k a b t m) (hok : MemberOk table done m) (hkn : m.1.contains 0 = false)
    (hvn : m.2.hasNul = false) (hr : NumberEnd rest) :
    parseMember (Progress.decoded done) (k ++ (a ++ colon :: (b ++ (t ++ rest)))) =
      .ok (Progress.decoded (done ++ [m]), rest) := by
  obtain ⟨hk, ha, hb, ht⟩ := hm
  obtain ⟨out, hout, hres⟩ := parserString_complete keyCells_length hk hkn
    (a ++ colon :: (b ++ (t ++ rest)))
  have hcolon : NotWs (colon :: (b ++ (t ++ rest))) := notWs_cons.mpr (by decide)
  simp only [parseMember, hout, Outcome.ok_bind, whitespace_append ha hcolon, expect_cons,
    whitespace_append hb (valueText_notWs ht rest), keyName_eq (stringText_scalar hk) hkn hres]
  exact parseValue_complete hkn ht hvn hok hr

theorem parseMember_ne_fault (done : List Member) (s : List UInt8) :
    parseMember (Progress.decoded done) s ≠ .fault := by
  refine Outcome.bind_ne_fault (parserString_ne_fault keyCells_length s) ?_
  rintro ⟨out, s1⟩ h1
  refine Outcome.bind_ne_fault (expect_ne_fault _ _) fun s2 _ => ?_
  obtain ⟨k, key, -, hk, hn, hres⟩ := parserString_sound keyCells_length h1
  simp only [keyName_eq (stringText_scalar hk) hn hres, Outcome.ok_bind]
  exact parseValue_ne_fault _ _ _

end EspVision.NetworkService
