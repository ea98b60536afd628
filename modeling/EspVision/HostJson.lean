import EspVision.JsonReaderCorrect

/-!
# Host values and their JSON text

The values that `JSON.stringify` is given, and the UTF-8 bytes `TextEncoder` makes of its
result. Strings are UTF-16 code units; a unit of a broken pair is escaped by `stringify`, so
the text is well formed whatever the strings are.
-/
namespace EspVision.Host
open Json

/-- A number, by what it prints as. -/
inductive Number
  | finite (token : {t : List UInt8 // NumberText t})
  | nan
  | infinite

/-- A value. `callable` stands for functions and symbols; objects list their enumerable
properties in order. -/
inductive Value
  | undefined
  | callable
  | null
  | bool (b : Bool)
  | number (n : Number)
  | string (units : List UInt16)
  | array (items : List Value)
  | object (members : List (List UInt16 × Value))

/-! ## Strings -/

def isHigh (u : UInt16) : Bool := 0xd800 ≤ u && u ≤ 0xdbff

def isLow (u : UInt16) : Bool := 0xdc00 ≤ u && u ≤ 0xdfff

/-- `StringToCodePoints`: a unit without its partner stays a surrogate. -/
def codePoints : List UInt16 → List ℕ
  | [] => []
  | [u] => [u.toNat]
  | hi :: lo :: rest =>
    if isHigh hi && isLow lo then surrogatePair hi.toNat lo.toNat :: codePoints rest
    else hi.toNat :: codePoints (lo :: rest)

/-- `TextEncoder`: a surrogate becomes U+FFFD. -/
def encodeText (units : List UInt16) : List UInt8 :=
  (codePoints units).flatMap fun c => if Scalar c then utf8 c else utf8 0xfffd

def hexByte (d : ℕ) : UInt8 := UInt8.ofNat (if d < 10 then 0x30 + d else 0x57 + d)

/-- `\u` and four digits. -/
def unicodeEscape (c : ℕ) : List UInt8 :=
  [backslash, 0x75, hexByte (c / 4096 % 16), hexByte (c / 256 % 16), hexByte (c / 16 % 16),
    hexByte (c % 16)]

/-- The escape of a code point that has a short one. -/
def shortEscape (c : ℕ) : Option UInt8 :=
  if c = 0x08 then some 0x62
  else if c = 0x09 then some 0x74
  else if c = 0x0a then some 0x6e
  else if c = 0x0c then some 0x66
  else if c = 0x0d then some 0x72
  else if c = 0x22 then some 0x22
  else if c = 0x5c then some 0x5c
  else none

/-- One code point between the quotes. -/
def quoteChar (c : ℕ) : List UInt8 :=
  match shortEscape c with
  | some b => [backslash, b]
  | none => if c < 0x20 ∨ ¬Scalar c then unicodeEscape c else utf8 c

/-- `QuoteJSONString`. -/
def quoteJson (units : List UInt16) : List UInt8 :=
  quote :: ((codePoints units).flatMap quoteChar ++ [quote])

/-! ## Values -/

mutual

/-- `JSON.stringify`; without a text the property is left out. -/
def jsonText : Value → Option (List UInt8)
  | .undefined => none
  | .callable => none
  | .null => some nullText
  | .bool b => some (boolText b)
  | .number (.finite token) => some token.val
  | .number _ => some nullText
  | .string units => some (quoteJson units)
  | .array items => some (lbracket :: ([comma].intercalate (itemsText items) ++ [rbracket]))
  | .object members => some (lbrace :: ([comma].intercalate (membersText members) ++ [rbrace]))

/-- The items of an array; one without a text is `null`. -/
def itemsText : List Value → List (List UInt8)
  | [] => []
  | v :: vs => (jsonText v).getD nullText :: itemsText vs

/-- The properties of an object that have a text. -/
def membersText : List (List UInt16 × Value) → List (List UInt8)
  | [] => []
  | (k, v) :: ms =>
    match jsonText v with
    | some t => (quoteJson k ++ colon :: t) :: membersText ms
    | none => membersText ms

end

/-- Whether a value counts as true in a condition. -/
def Value.truthy : Value → Bool
  | .undefined | .null | .number .nan => false
  | .bool b => b
  | .number (.finite token) => token.val ≠ [0x30]
  | .number .infinite | .callable | .array _ | .object _ => true
  | .string units => units ≠ []

/-- `Number.isFinite`. -/
def Value.isFinite : Value → Bool
  | .number (.finite _) => true
  | _ => false

/-- The value of a parameter with a default. -/
def Value.orDefault (d : Value) : Value → Value
  | .undefined => d
  | v => v

/-! ## No NUL in a JSON text -/

/-- No byte of the text is NUL. -/
def NoNul (t : List UInt8) : Prop := ∀ b ∈ t, b ≠ 0

@[simp] theorem noNul_nil : NoNul [] := by simp [NoNul]

@[simp] theorem noNul_cons {b : UInt8} {t : List UInt8} : NoNul (b :: t) ↔ b ≠ 0 ∧ NoNul t := by
  simp [NoNul]

@[simp] theorem noNul_append {s t : List UInt8} : NoNul (s ++ t) ↔ NoNul s ∧ NoNul t := by
  simp only [NoNul, List.mem_append]
  exact ⟨fun h => ⟨fun b hb => h b (.inl hb), fun b hb => h b (.inr hb)⟩,
    fun h b hb => hb.elim (h.1 b) (h.2 b)⟩

lemma utf8_noNul {c : ℕ} (h : c ≠ 0) (hs : Scalar c) : NoNul (utf8 c) := utf8_ne_zero h hs

lemma hexByte_ne_zero (d : ℕ) : hexByte (d % 16) ≠ 0 := by
  have hall : ∀ d : Fin 16, hexByte d ≠ 0 := by decide
  exact hall ⟨d % 16, Nat.mod_lt _ (by decide)⟩

lemma shortEscape_ne_zero {c : ℕ} {b : UInt8} (h : shortEscape c = some b) : b ≠ 0 := by
  unfold shortEscape at h
  split_ifs at h <;> simp only [Option.some.injEq] at h <;> subst h <;> decide

lemma quoteChar_noNul (c : ℕ) : NoNul (quoteChar c) := by
  unfold quoteChar
  cases h : shortEscape c with
  | some b => simpa using ⟨by decide, shortEscape_ne_zero h⟩
  | none =>
    simp only
    split_ifs with hc
    · simp only [unicodeEscape, noNul_cons, noNul_nil, and_true]
      exact ⟨by decide, by decide, hexByte_ne_zero _, hexByte_ne_zero _, hexByte_ne_zero _,
        hexByte_ne_zero _⟩
    · rw [not_or, not_not] at hc
      exact utf8_noNul (by omega) hc.2

lemma quoteJson_noNul (units : List UInt16) : NoNul (quoteJson units) := by
  have h : NoNul ((codePoints units).flatMap quoteChar) := by
    intro b hb
    obtain ⟨c, -, hc⟩ := List.mem_flatMap.mp hb
    exact quoteChar_noNul c b hc
  simp only [quoteJson, noNul_cons, noNul_append, noNul_nil, and_true]
  exact ⟨by decide, h, by decide⟩

lemma digits_noNul {t : List UInt8} (h : Digits t) : NoNul t := by
  rintro b hb rfl
  exact absurd (h 0 hb) (by decide)

lemma numberText_noNul {t : List UInt8} (h : NumberText t) : NoNul t := by
  obtain ⟨sign, int, frac, exp, rfl, hs, hi, hf, he⟩ := h
  simp only [noNul_append]
  refine ⟨?_, ?_, ?_, ?_⟩
  · rcases hs with rfl | rfl <;> simp
  · rcases hi with rfl | ⟨d, ds, rfl, hd, -, hds⟩
    · simp
    · refine noNul_cons.mpr ⟨?_, digits_noNul hds⟩
      rintro rfl
      exact absurd hd (by decide)
  · rcases hf with rfl | ⟨ds, rfl, -, hds⟩
    · simp
    · exact noNul_cons.mpr ⟨by decide, digits_noNul hds⟩
  · rcases he with rfl | ⟨e, s, ds, rfl, hexp, hsig, -, hds⟩
    · simp
    · refine noNul_cons.mpr ⟨?_, noNul_append.mpr ⟨?_, digits_noNul hds⟩⟩
      · rcases hexp with rfl | rfl <;> decide
      · rcases hsig with rfl | rfl | rfl <;> simp

lemma intercalate_noNul {ts : List (List UInt8)} (h : ∀ t ∈ ts, NoNul t) :
    NoNul ([comma].intercalate ts) := by
  induction ts with
  | nil => simp
  | cons t ts ih =>
    cases ts with
    | nil => simpa using h t
    | cons u ts =>
      rw [List.intercalate_cons_cons, noNul_append, noNul_append]
      refine ⟨⟨h t (by simp), ?_⟩, ih fun x hx => h x (by simp [hx])⟩
      simp [comma]

lemma nullText_noNul : NoNul nullText := by simp [nullText]

mutual

theorem jsonText_noNul (v : Value) : ∀ t ∈ jsonText v, NoNul t := by
  intro t ht
  cases v with
  | undefined => simp [jsonText] at ht
  | callable => simp [jsonText] at ht
  | null =>
    obtain rfl : nullText = t := by simpa [jsonText] using ht
    exact nullText_noNul
  | bool b =>
    obtain rfl : boolText b = t := by simpa [jsonText] using ht
    cases b <;> simp [boolText]
  | number n =>
    cases n with
    | finite token =>
      obtain rfl : token.val = t := by simpa [jsonText] using ht
      exact numberText_noNul token.property
    | nan | infinite =>
      obtain rfl : nullText = t := by simpa [jsonText] using ht
      exact nullText_noNul
  | string units =>
    obtain rfl : quoteJson units = t := by simpa [jsonText] using ht
    exact quoteJson_noNul units
  | array items =>
    simp only [jsonText, Option.mem_def, Option.some.injEq] at ht
    subst ht
    simp only [noNul_cons, noNul_append, noNul_nil, and_true]
    exact ⟨by decide, intercalate_noNul (itemsText_noNul items), by decide⟩
  | object members =>
    simp only [jsonText, Option.mem_def, Option.some.injEq] at ht
    subst ht
    simp only [noNul_cons, noNul_append, noNul_nil, and_true]
    exact ⟨by decide, intercalate_noNul (membersText_noNul members), by decide⟩

theorem itemsText_noNul (vs : List Value) : ∀ t ∈ itemsText vs, NoNul t := by
  cases vs with
  | nil => simp [itemsText]
  | cons v vs =>
    simp only [itemsText, List.forall_mem_cons]
    refine ⟨?_, itemsText_noNul vs⟩
    cases h : jsonText v with
    | none => exact nullText_noNul
    | some t => exact jsonText_noNul v t h

theorem membersText_noNul (ms : List (List UInt16 × Value)) :
    ∀ t ∈ membersText ms, NoNul t := by
  cases ms with
  | nil => simp [membersText]
  | cons m ms =>
    obtain ⟨k, v⟩ := m
    simp only [membersText]
    cases h : jsonText v with
    | none => exact membersText_noNul ms
    | some t =>
      simp only [List.forall_mem_cons]
      refine ⟨?_, membersText_noNul ms⟩
      simp only [noNul_append, noNul_cons]
      exact ⟨quoteJson_noNul k, by decide, jsonText_noNul v t h⟩

end

end EspVision.Host
