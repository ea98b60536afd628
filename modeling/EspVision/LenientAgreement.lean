import EspVision.LenientJson

/-!
# When the lenient helpers agree with the decoded object

A helper agrees when what it takes for the member is the top-level member and its answer is
that member's decoded value. For each helper the requests on which it agrees are those where
the quoted name first occurs as the key of the member, with a value that needs no decoding,
and those where it finds nothing and there is nothing to find.
-/
namespace EspVision.LenientJson
open Json EvControlJson Scanf

/-! ## A top-level member in its text -/

/-- The text in front of a member with the members `before`. -/
def FrontText (front : List UInt8) (before : List Member) : Prop :=
  ∃ a b u, front = a ++ lbrace :: (b ++ u) ∧ Ws a ∧ Ws b ∧
    ((u = [] ∧ before = []) ∨ ∃ t c, u = t ++ comma :: c ∧ MembersText t before ∧ Ws c)

/-- The text behind the value of a member with the members `after`. -/
def TailText (tail : List UInt8) (after : List Member) : Prop :=
  ∃ a, Ws a ∧ ((∃ d, tail = a ++ rbrace :: d ∧ Ws d ∧ after = []) ∨
    ∃ b t d, tail = a ++ comma :: (b ++ (t ++ rbrace :: d)) ∧ Ws b ∧ Ws d ∧ MembersText t after)

/-- The first top-level member of a name, with the texts of its key and its value. -/
structure TopMember (r : Request) (name : FieldName) where
  front : List UInt8
  keyText : List UInt8
  gap : List UInt8
  gap' : List UInt8
  valueText : List UInt8
  tail : List UInt8
  value : Value
  before : List Member
  after : List Member
  text_eq : r.text = front ++ (keyText ++ (gap ++ colon :: (gap' ++ (valueText ++ tail))))
  members_eq : r.members = before ++ (name.key, value) :: after
  isFirst : ∀ m ∈ before, m.1 ≠ name.key
  front_text : FrontText front before
  key_text : StringText keyText name.key
  gap_ws : Ws gap
  gap_ws' : Ws gap'
  value_text : ValueText valueText value
  tail_text : TailText tail after

section Members

variable {r : Request} {name : FieldName}

/-- The key is written without escapes, and the quoted name does not occur earlier. -/
structure TopMember.Leads (m : TopMember r name) : Prop where
  plain : m.keyText = pattern name.text
  first : ∀ before after, r.text = before ++ (pattern name.text ++ after) →
    m.front.length ≤ before.length

lemma TopMember.member_eq (m : TopMember r name) : r.member name = some m.value := by
  rw [Request.member, m.members_eq, List.find?_append, List.find?_eq_none.mpr]
  · simp
  · simpa using m.isFirst

lemma isSpace_of_ws {t : List UInt8} (h : Ws t) : ∀ b ∈ t, isSpace b = true := by
  intro b hb
  have hws := h b hb
  simp only [isWs, Bool.or_eq_true, beq_iff_eq] at hws
  rcases hws with ((rfl | rfl) | rfl) | rfl <;> decide

/-- What the first byte of a value tells. -/
structure Head (b : UInt8) (v : Value) : Prop where
  notSpace : isSpace b = false
  quoted : b = quote → ∃ s, v = .string s
  literal : b = 0x74 ∨ b = 0x66 → ∃ x, v = .bool x

lemma valueText_first {t : List UInt8} {v : Value} (h : ValueText t v) :
    ∃ b t', t = b :: t' ∧ Head b v := by
  have hhead : ∀ {b t' v}, isSpace b = false → b ≠ quote → b ≠ 0x74 → b ≠ 0x66 →
      ∃ c t'', b :: t' = c :: t'' ∧ Head c v := fun hs hq ht hf =>
    ⟨_, _, rfl, hs, fun h => absurd h hq, fun h => (h.elim ht hf).elim⟩
  cases h with
  | null => exact hhead (by decide) (by decide) (by decide) (by decide)
  | bool b => cases b <;> exact ⟨_, _, rfl, by decide, fun h => absurd h (by decide),
      fun _ => ⟨_, rfl⟩⟩
  | number ht =>
    obtain ⟨b, t', rfl, hb⟩ := numberText_head ht
    have hlt : isSpace b = false ∧ b ≠ quote ∧ b ≠ 0x74 ∧ b ≠ 0x66 := by
      rcases hb with rfl | ⟨h1, h2⟩
      · decide
      · rw [UInt8.le_iff_toNat_le] at h1 h2
        simp only [UInt8.reduceToNat] at h1 h2
        simp only [isSpace, quote, ne_eq, ← UInt8.toNat_inj, UInt8.le_iff_toNat_le,
          UInt8.reduceToNat, Bool.or_eq_false_iff, beq_eq_false_iff_ne, Bool.and_eq_false_iff,
          decide_eq_false_iff_not]
        omega
    exact hhead hlt.1 hlt.2.1 hlt.2.2.1 hlt.2.2.2
  | string ht =>
    obtain ⟨k', rfl⟩ := stringText_head ht
    exact ⟨_, _, rfl, by decide, fun _ => ⟨_, rfl⟩, fun h => absurd h (by decide)⟩
  | emptyArray _ => exact hhead (by decide) (by decide) (by decide) (by decide)
  | array _ _ => exact hhead (by decide) (by decide) (by decide) (by decide)
  | emptyObject _ => exact hhead (by decide) (by decide) (by decide) (by decide)
  | object _ _ => exact hhead (by decide) (by decide) (by decide) (by decide)

/-- A text is cut at the last place of a letter in one way only. -/
lemma append_cons_inj_last {c : UInt8} {before before' after after' : List UInt8} (h : c ∉ after)
    (h' : c ∉ after') (heq : before ++ c :: after = before' ++ c :: after') :
    before = before' ∧ after = after' := by
  have hrev := congrArg List.reverse heq
  simp only [List.reverse_append, List.reverse_cons, List.append_assoc, List.singleton_append]
    at hrev
  obtain ⟨h1, h2⟩ := (Replace.append_cons_inj (by simpa using h) (by simpa using h')).mp hrev
  exact ⟨List.reverse_injective h2, List.reverse_injective h1⟩

/-- The helper looks at the member exactly when the member leads. -/
theorem findValue_iff_leads (m : TopMember r name) :
    findValue r.text name.text = some (m.valueText ++ m.tail) ↔ m.Leads := by
  have hspace : ∀ {c : UInt8} {t : List UInt8}, isSpace c = false →
      (∀ b ∈ t, isSpace b = true) → c ∉ t := fun hc ht hm => by simp [ht _ hm] at hc
  constructor
  · intro h
    obtain ⟨before, after, gap, rest, hfirst, rfl, hgap, hs⟩ := findValue_eq_some.mp h
    obtain ⟨body, hkey, hbody⟩ := m.key_text
    have hrest : rest = rest.takeWhile isSpace ++ (m.valueText ++ m.tail) := by
      rw [hs, space, List.takeWhile_append_dropWhile]
    have hws : ∀ b ∈ rest.takeWhile isSpace, isSpace b = true :=
      fun b hb => List.mem_takeWhile_imp hb
    have heq := m.text_eq.symm.trans hfirst.eq
    rw [hrest, hkey] at heq
    -- the texts up to the value
    have hhead : (m.front ++ (quote :: body) ++ quote :: m.gap) ++ colon :: m.gap' =
        (before ++ (quote :: name.text) ++ quote :: gap) ++ colon :: rest.takeWhile isSpace :=
      @List.append_cancel_right _ _ (m.valueText ++ m.tail) _ (by simpa [pattern] using heq)
    obtain ⟨hkeys, -⟩ := append_cons_inj_last (hspace (by decide) (isSpace_of_ws m.gap_ws'))
      (hspace (by decide) hws) hhead
    obtain ⟨hnames, -⟩ := append_cons_inj_last (hspace (by decide) (isSpace_of_ws m.gap_ws))
      (hspace (by decide) hgap) hkeys
    have hquote : quote ∉ body := fun hm => by
      have hmem := (stringBody_quoted hbody hm).2
      rw [name.encode_key] at hmem
      exact name.quote_not_mem hmem
    obtain ⟨hfront, rfl⟩ := append_cons_inj_last hquote name.quote_not_mem hnames
    exact ⟨hkey, fun before' after' h' => hfront ▸ hfirst.first before' after' h'⟩
  · intro h
    have hfirst : FirstAt (pattern name.text) r.text m.front
        (m.gap ++ colon :: (m.gap' ++ (m.valueText ++ m.tail))) :=
      ⟨by rw [← h.plain, ← m.text_eq], h.first⟩
    refine findValue_eq_some.mpr ⟨_, _, m.gap, _, hfirst, rfl, isSpace_of_ws m.gap_ws, ?_⟩
    obtain ⟨b, t, hb, hhead⟩ := valueText_first m.value_text
    rw [space, List.dropWhile_append_of_pos (isSpace_of_ws m.gap_ws'), hb, List.cons_append]
    simp [hhead.notSpace]

/-! ## Agreement -/

/-- What the helper takes for the member is the member, and its answer is what decoding
gives. -/
structure Agrees {α : Type} (r : Request) (name : FieldName) (answers : Option α → Prop)
    (as : Value → Option α) : Prop where
  taken : ∀ s, findValue r.text name.text = some s →
    ∃ m : TopMember r name, s = m.valueText ++ m.tail
  answer : answers ((r.member name).bind as)

/-- Nothing is found and nothing is there, or the member leads and its value is `ok`. -/
def HoldsWhen {α : Type} (r : Request) (name : FieldName) (as : Value → Option α)
    (ok : TopMember r name → Prop) : Prop :=
  (Unfound r.text name ∧ (r.member name).bind as = none) ∨ ∃ m, m.Leads ∧ ok m

theorem agrees_iff {α : Type} {answers : Option α → Prop} {as : Value → Option α}
    {ok : TopMember r name → Prop}
    (hnone : findValue r.text name.text = none → ∀ x, answers x ↔ x = none)
    (hsome : ∀ m : TopMember r name, findValue r.text name.text = some (m.valueText ++ m.tail) →
      (answers (as m.value) ↔ ok m)) :
    Agrees r name answers as ↔ HoldsWhen r name as ok := by
  constructor
  · rintro ⟨htaken, hanswer⟩
    cases hf : findValue r.text name.text with
    | none => exact .inl ⟨(findValue_eq_none _ _).mp hf, (hnone hf _).mp hanswer⟩
    | some s =>
      obtain ⟨m, rfl⟩ := htaken s hf
      rw [m.member_eq] at hanswer
      exact .inr ⟨m, (findValue_iff_leads m).mp hf, (hsome m hf).mp hanswer⟩
  · rintro (⟨hun, habsent⟩ | ⟨m, hleads, hok⟩)
    · have hf := (findValue_eq_none _ _).mpr hun
      exact ⟨fun s hs => by simp [hf] at hs, (hnone hf _).mpr habsent⟩
    · have hf := (findValue_iff_leads m).mpr hleads
      refine ⟨fun s hs => ⟨m, (Option.some.inj (hf.symm.trans hs)).symm⟩, ?_⟩
      rw [m.member_eq]
      exact (hsome m hf).mpr hok

end Members

/-! ## `get_string` -/

theorem copyString_spec (room : ℕ) (s : List UInt8) :
    s = (copyString room s).1 ++ (copyString room s).2 ∧ quote ∉ (copyString room s).1 ∧
      (copyString room s).1.length ≤ room := by
  induction room generalizing s with
  | zero => exact ⟨rfl, by simp [copyString], by simp [copyString]⟩
  | succ room ih =>
    cases s with
    | nil => exact ⟨rfl, by simp [copyString], by simp [copyString]⟩
    | cons c s =>
      rw [copyString]
      split_ifs with hc
      · exact ⟨rfl, by simp, by simp⟩
      · obtain ⟨h1, h2, h3⟩ := ih s
        refine ⟨congrArg (c :: ·) h1, ?_, Nat.succ_le_succ h3⟩
        rw [List.mem_cons, not_or]
        exact ⟨Ne.symm hc, h2⟩

lemma copyString_plain {room : ℕ} {body : List UInt8} (hq : quote ∉ body)
    (hlen : body.length ≤ room) (rest : List UInt8) :
    copyString room (body ++ quote :: rest) = (body, quote :: rest) := by
  induction body generalizing room with
  | nil => cases room <;> simp [copyString]
  | cons c body ih =>
    obtain ⟨room, rfl⟩ := Nat.exists_eq_add_one_of_ne_zero
      (show room ≠ 0 by simp only [List.length_cons] at hlen; omega)
    obtain ⟨hc, hq⟩ := not_or.mp (List.mem_cons.not.mp hq)
    rw [List.cons_append, copyString, if_neg (Ne.symm hc),
      ih hq (by simp only [List.length_cons] at hlen; omega)]

/-- The string as `get_string` must give it, or no string. -/
def StringAnswer (r : Request) (name : FieldName) (outLen : ℕ) : Option (List UInt8) → Prop
  | some t => getString r.text name.text outLen = (true, t ++ [0])
  | none => (getString r.text name.text outLen).1 = false

/-- A string value is written without escapes and leaves room for its terminator. -/
def PlainString {r : Request} {name : FieldName} (outLen : ℕ) (m : TopMember r name) : Prop :=
  ∀ s, m.value = .string s → backslash ∉ m.valueText ∧ (encode s).length < outLen

theorem string_answer {r : Request} {name : FieldName} {outLen : ℕ} (m : TopMember r name)
    (hf : findValue r.text name.text = some (m.valueText ++ m.tail)) :
    StringAnswer r name outLen (asString m.value) ↔ PlainString outLen m := by
  have hval := m.value_text
  have hother : (∀ s, m.value ≠ .string s) →
      (StringAnswer r name outLen none ↔ PlainString outLen m) := fun hno => by
    refine iff_of_true ?_ fun s hs => absurd hs (hno s)
    obtain ⟨b, t, hb, hhead⟩ := valueText_first hval
    have hq : b ≠ quote := fun h => by
      obtain ⟨s, hs⟩ := hhead.quoted h
      exact hno s hs
    rw [StringAnswer, getString, hf, hb]
    split_ifs
    · rfl
    · simp [hq]
  cases hv : m.value with
  | string s =>
    rw [hv] at hval
    obtain ⟨body, hbody, hs⟩ : StringText m.valueText s := by
      generalize m.valueText = u at hval
      cases hval with
      | string h => exact h
    have hpos : findValue r.text name.text = some (quote :: (body ++ quote :: m.tail)) := by
      rw [hf, hbody]
      simp
    have hplain : PlainString outLen m ↔ backslash ∉ body ∧ (encode s).length < outLen := by
      constructor
      · intro h
        obtain ⟨h1, h2⟩ := h s hv
        rw [hbody] at h1
        exact ⟨fun hm => h1 (by simp [hm]), h2⟩
      · rintro ⟨h1, h2⟩ s' hs'
        obtain rfl : s = s' := by simpa [hv] using hs'
        refine ⟨?_, h2⟩
        rw [hbody]
        simpa [backslash, quote] using h1
    rw [hplain]
    show getString r.text name.text outLen = (true, encode s ++ [0]) ↔ _
    simp only [getString, hpos, ne_eq, not_true_eq_false, if_false]
    split_ifs with h0
    · subst h0
      simp
    · obtain ⟨hsplit, hcopied, hroom⟩ := copyString_spec (outLen - 1) (body ++ quote :: m.tail)
      constructor
      · intro h
        obtain ⟨hend, hcells⟩ := Prod.mk.inj h
        have hcopy : (copyString (outLen - 1) (body ++ quote :: m.tail)).1 = encode s :=
          List.append_cancel_right hcells
        rw [hcopy] at hsplit hcopied hroom
        have hbq : quote ∉ body := fun hm => hcopied (stringBody_quoted hs hm).2
        obtain ⟨rest, hrest⟩ : ∃ rest,
            (copyString (outLen - 1) (body ++ quote :: m.tail)).2 = quote :: rest := by
          cases hr : (copyString (outLen - 1) (body ++ quote :: m.tail)).2 with
          | nil => simp [hr] at hend
          | cons c rest => exact ⟨rest, by simpa [hr] using hend⟩
        rw [hrest] at hsplit
        have hsame := ((Replace.append_cons_inj hbq hcopied).mp hsplit).1
        rcases stringBody_shorter hs with ⟨h1, -⟩ | ⟨-, h2⟩
        · exact ⟨h1, by omega⟩
        · rw [← hsame] at h2
          exact absurd h2 (lt_irrefl _)
      · rintro ⟨h1, h2⟩
        have hbq : quote ∉ body := fun hm => h1 (stringBody_quoted hs hm).1
        have hsame : encode s = body := by
          rcases stringBody_shorter hs with ⟨-, h⟩ | ⟨h, -⟩
          · exact h
          · exact absurd h h1
        rw [copyString_plain hbq (by rw [← hsame]; omega), hsame]
        simp
  | _ => exact hother (by simp [hv])

/-! ## `get_u32` -/

lemma strtoul_digits {t tail : List UInt8} (ht : t ≠ []) (hd : Digits t)
    (htail : ∀ c ∈ tail.head?, isDigit c = false ∧ c ≠ 0x78 ∧ c ≠ 0x58)
    (hlt : natValue t < 2 ^ 32) : strtoul (t ++ tail) = UInt32.ofNat (natValue t) := by
  have hdigit : ∀ b, isDigit b = true → digitValue 10 b = some (b.toNat - 0x30) := by
    intro b hb
    have hb' : 0x30 ≤ b ∧ b ≤ 0x39 := by simpa [isDigit] using hb
    rw [digitValue, rawDigit, if_pos hb']
    have h9 : b.toNat ≤ 0x39 := hb'.2
    exact Option.filter_some_pos (by simp only [decide_eq_true_eq]; omega)
  have hreads : Reads 10 t (natValue t) := by
    refine ⟨fun b hb => by rw [hdigit b (hd b hb)]; rfl, ?_⟩
    rw [natValue]
    refine List.foldl_ext _ _ _ fun v b hb => ?_
    rw [hdigit b (hd b hb), Option.getD_some]
  have hstart : Scanf.startsWithDigit 10 tail = false := by
    cases tail with
    | nil => rfl
    | cons c tail =>
      have hc := (htail c rfl).1
      rw [Scanf.startsWithDigit, digitValue]
      cases hr : rawDigit c with
      | none => rfl
      | some d =>
        have hge : 10 ≤ d := by
          unfold rawDigit at hr
          split_ifs at hr with h1 <;> obtain rfl := Option.some.inj hr
          · simp [isDigit, h1.1, h1.2] at hc
          · omega
          · omega
        rw [Option.filter_some_neg (by simpa using hge)]
        rfl
  rw [strtoul, decimal, space_digit ht hreads.digit,
    unsigned_reads hreads ht hstart (fun c hc => (htail c hc).2) hlt]
  rfl

/-- What the byte behind a member's value can be. -/
lemma tailText_head {tail : List UInt8} {after : List Member} (h : TailText tail after) :
    ∃ c t, tail = c :: t ∧ (c = comma ∨ c = rbrace ∨ isWs c = true) := by
  obtain ⟨a, ha, ⟨d, rfl, -, -⟩ | ⟨b, t, d, rfl, -, -, -⟩⟩ := h <;> cases a with
  | nil => exact ⟨_, _, rfl, by simp⟩
  | cons c a => exact ⟨c, _, rfl, .inr (.inr (ha c (by simp)))⟩

lemma tail_byte {c : UInt8} (h : c = comma ∨ c = rbrace ∨ isWs c = true) :
    (isDigit c = false ∧ c ≠ 0x78 ∧ c ≠ 0x58) ∧ ∀ t, delimited (c :: t) = true := by
  simp only [isWs, Bool.or_eq_true, beq_iff_eq] at h
  rcases h with rfl | rfl | ((rfl | rfl) | rfl) | rfl <;> exact ⟨by decide, fun _ => rfl⟩

/-- The number as `get_u32` must give it, or whatever fallback it is given. -/
def U32Answer (r : Request) (name : FieldName) (x : Option UInt32) : Prop :=
  ∀ fallback, getU32 r.text name.text fallback = x.getD fallback

theorem u32_answer {r : Request} {name : FieldName} (m : TopMember r name)
    (hf : findValue r.text name.text = some (m.valueText ++ m.tail)) :
    U32Answer r name (asU32 m.value) ↔ (asU32 m.value).isSome = true := by
  have hval := m.value_text
  simp only [U32Answer, getU32, hf]
  constructor
  · intro h
    cases hu : asU32 m.value with
    | some n => rfl
    | none =>
      rw [hu] at h
      exact absurd ((h 0).symm.trans (h 1)) (by decide)
  · intro h fallback
    cases hv : m.value with
    | number t =>
      rw [hv] at hval h
      have htext : m.valueText = t ∧ NumberText t := by
        generalize m.valueText = u at hval
        cases hval with
        | number ht => exact ⟨rfl, ht⟩
      have hu : (t.all isDigit && decide (natValue t < 2 ^ 32)) = true := by
        by_contra hno
        rw [asU32, if_neg hno] at h
        exact absurd h (by decide)
      obtain ⟨hd, hlt⟩ : Digits t ∧ natValue t < 2 ^ 32 := by simpa [Digits] using hu
      have hne : t ≠ [] := by
        obtain ⟨b, t', rfl, -⟩ := numberText_head htext.2
        simp
      obtain ⟨c, tail, htail, hc⟩ := tailText_head m.tail_text
      rw [htext.1, strtoul_digits hne hd (by simpa [htail] using (tail_byte hc).1) hlt, asU32,
        if_pos hu, Option.getD_some]
    | _ => simp [hv, asU32] at h

/-! ## `get_bool` -/

def BoolAnswer (r : Request) (name : FieldName) (x : Option Bool) : Prop :=
  ∀ fallback, getBool r.text name.text fallback = x.getD fallback

theorem bool_answer {r : Request} {name : FieldName} (m : TopMember r name)
    (hf : findValue r.text name.text = some (m.valueText ++ m.tail)) :
    BoolAnswer r name (asBool m.value) := by
  have hval := m.value_text
  intro fallback
  simp only [getBool, hf]
  obtain ⟨c, tail, htail, hc⟩ := tailText_head m.tail_text
  have hdelim : delimited m.tail = true := by
    rw [htail]
    exact (tail_byte hc).2 tail
  cases hv : m.value with
  | bool b =>
    rw [hv] at hval
    have htext : m.valueText = boolText b := by
      generalize m.valueText = u at hval
      cases hval with
      | bool => rfl
    rw [htext]
    cases b <;> simp [boolText, asBool, hdelim]
  | _ =>
    obtain ⟨b, t, hb, hhead⟩ := valueText_first m.value_text
    have hno : ¬ (b = 0x74 ∨ b = 0x66) := fun h => by
      obtain ⟨x, hx⟩ := hhead.literal h
      simp [hv] at hx
    obtain ⟨h1, h2⟩ := not_or.mp hno
    rw [hb]
    simp [boolText, asBool, Ne.symm h1, Ne.symm h2]

/-! ## When the helpers agree -/

/-- On every JSON object and for every name, each helper agrees with the decoded object exactly
when it finds nothing where nothing is, or the quoted name first occurs as the key of the
top-level member and the value is a string without escapes that fits, a number of the type, or,
for `get_bool`, anything. -/
theorem helpers_agree_iff (r : Request) (name : FieldName) :
    (∀ outLen, Agrees r name (StringAnswer r name outLen) asString ↔
      HoldsWhen r name asString (PlainString outLen)) ∧
    (Agrees r name (U32Answer r name) asU32 ↔
      HoldsWhen r name asU32 fun m => (asU32 m.value).isSome = true) ∧
    (Agrees r name (BoolAnswer r name) asBool ↔ HoldsWhen r name asBool fun _ => True) := by
  refine ⟨fun outLen => agrees_iff (fun hf x => ?_) string_answer,
    agrees_iff (fun hf x => ?_) u32_answer,
    agrees_iff (fun hf x => ?_) fun m hf => iff_of_true (bool_answer m hf) trivial⟩
  · have hnone : getString r.text name.text outLen = (false, []) := by
      rw [getString, hf, ite_self]
    cases x <;> simp [StringAnswer, hnone]
  · have hnone : ∀ fallback, getU32 r.text name.text fallback = fallback := fun _ => by
      rw [getU32, hf]
    cases x with
    | none => simp [U32Answer, hnone]
    | some n =>
      refine iff_of_false (fun h => ?_) (by simp)
      have h0 := (hnone 0).symm.trans (h 0)
      have h1 := (hnone 1).symm.trans (h 1)
      exact absurd (h0.trans h1.symm) (by decide)
  · have hnone : ∀ fallback, getBool r.text name.text fallback = fallback := fun _ => by
      rw [getBool, hf]
    cases x with
    | none => simp [BoolAnswer, hnone]
    | some b =>
      refine iff_of_false (fun h => ?_) (by simp)
      have h0 := (hnone true).symm.trans (h true)
      have h1 := (hnone false).symm.trans (h false)
      exact absurd (h0.trans h1.symm) (by decide)

lemma path_plain : ∀ b ∈ ascii "path", 0x20 ≤ b ∧ b < 0x80 ∧ b ≠ quote ∧ b ≠ backslash := by
  decide +kernel

lemma path_fits : (pattern (ascii "path")).length < patternSize := by decide +kernel

/-- `path`. -/
def pathName : FieldName := ⟨ascii "path", path_plain, path_fits⟩

/-- The text `{"x":{"path":"a"},"path":"b"}`. -/
def nestedText : List UInt8 := ascii "\x7b\"x\":\x7b\"path\":\"a\"\x7d,\"path\":\"b\"\x7d"

def nestedMembers : List Member :=
  [([0x78], .object [(pathName.key, .string [0x61])]), (pathName.key, .string [0x62])]

lemma nested_document : Document nestedText nestedMembers := by
  have hnil : Ws [] := by simp [Ws]
  have hstring : ∀ c : UInt8, 0x20 ≤ c ∧ c < 0x80 ∧ c ≠ quote ∧ c ≠ backslash →
      StringText [quote, c, quote] [c.toNat] := fun c hc =>
    @stringText_plain [c] (by simpa using hc)
  have hkey : StringText (pattern (ascii "path")) pathName.key :=
    @stringText_plain (ascii "path") path_plain
  have hlast := MembersText.one hkey hnil hnil
    (ValueText.string (hstring 0x62 (by decide))) hnil
  have hinner := ValueText.object hnil (MembersText.one hkey hnil hnil
    (ValueText.string (hstring 0x61 (by decide))) hnil)
  have hmembers := MembersText.cons (hstring 0x78 (by decide)) hnil hnil hinner hnil hnil hlast
  exact ⟨[], _, [], by decide +kernel, hnil, hnil, .object hnil hmembers⟩

def nestedPath : Request := ⟨nestedText, nestedMembers, nested_document⟩

/-- The name in the nested object is taken for the member. -/
theorem nested_name_taken :
    ¬ ∀ (r : Request) (name : FieldName), name ∈ handlerNames → ∀ outLen,
      Agrees r name (StringAnswer r name outLen) asString := by
  intro h
  have hagrees := (h nestedPath pathName (by simp [handlerNames, pathName]) 64).answer
  have hmember : nestedPath.member pathName = some (.string [0x62]) := by
    simp [Request.member, nestedPath, nestedMembers, pathName, FieldName.key, ascii]
  rw [hmember] at hagrees
  have hgot : getString nestedPath.text pathName.text 64 = (true, [0x61, 0]) := by
    decide +kernel
  exact absurd (hgot.symm.trans hagrees) (by decide +kernel)

end EspVision.LenientJson
