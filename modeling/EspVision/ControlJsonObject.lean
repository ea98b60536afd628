import EspVision.ControlJsonCorrect

/-!
# Whole objects: `ev_control_json_parse_object`

The member loop adds one member to `decoded fields done` in each pass. What it accepts,
and the table it leaves, follow by induction on the fuel and on the members.
-/
namespace EspVision.EvControlJson
open Json

/-! ## The table after some members -/

lemma decoded_getElem? (fields : List Field) (ms : List Member) (i : ℕ) :
    (decoded fields ms)[i]? = (fields[i]?).map fun f => f.after (valueOf fields ms i) := by
  simp [decoded, List.getElem?_mapIdx]

lemma after_name (f : Field) (x : Option Value) : (f.after x).name = f.name := by
  cases x <;> rfl

lemma decoded_names (fields : List Field) (ms : List Member) :
    (decoded fields ms).map (·.name) = fields.map (·.name) := by
  apply List.ext_getElem?
  intro i
  simp only [List.getElem?_map, decoded_getElem?, Option.map_map]
  congr 1
  funext f
  exact after_name f _

lemma valueOf_snoc (fields : List Field) (done : List Member) (m : Member) (i : ℕ) :
    valueOf fields (done ++ [m]) i =
      (valueOf fields done i).or (if boundTo fields m.1 = some i then some m.2 else none) := by
  unfold valueOf
  rw [List.find?_append]
  cases (done.find? fun m => boundTo fields m.1 = some i) with
  | some x => rfl
  | none =>
    by_cases h : boundTo fields m.1 = some i <;> simp [h]

lemma valueOf_eq_none {fields : List Field} {ms : List Member} {i : ℕ} :
    valueOf fields ms i = none ↔ ∀ m ∈ ms, boundTo fields m.1 ≠ some i := by
  simp [valueOf]

lemma decoded_snoc_unknown {fields : List Field} {done : List Member} {m : Member}
    (h : boundTo fields m.1 = none) : decoded fields (done ++ [m]) = decoded fields done := by
  unfold decoded
  congr 1
  funext i f
  rw [valueOf_snoc, h]
  simp

lemma decoded_snoc_known {fields : List Field} {done : List Member} {m : Member} {i : ℕ}
    {f : Field} (hb : boundTo fields m.1 = some i) (hf : fields[i]? = some f)
    (hn : valueOf fields done i = none) :
    decoded fields (done ++ [m]) = (decoded fields done).set i (f.after (some m.2)) := by
  apply List.ext_getElem?
  intro j
  rw [List.getElem?_set, decoded_getElem?, decoded_getElem?, valueOf_snoc, hb]
  by_cases hij : i = j
  · subst hij
    have hlen : i < (decoded fields done).length := by
      have h1 := (List.getElem?_eq_some_iff.mp hf).1
      simpa [decoded] using h1
    simp [hn, hf, hlen]
  · have hji : some i ≠ some j := by simpa using hij
    simp [hij]

lemma boundTo_lt {fields : List Field} {key : List ℕ} {i : ℕ} (h : boundTo fields key = some i) :
    ∃ f, fields[i]? = some f := by
  unfold boundTo at h
  split_ifs at h
  obtain ⟨hlt, -⟩ := List.findIdx?_eq_some_iff_getElem.mp h
  exact ⟨_, List.getElem?_eq_getElem hlt⟩

/-! ## One member -/

/-- The member may follow the members `done`. -/
def MemberOk (fields : List Field) (done : List Member) (m : Member) : Prop :=
  (boundTo fields m.1 = none → m.2.depth ≤ depthMax) ∧
    ∀ i, boundTo fields m.1 = some i → (∀ m' ∈ done, boundTo fields m'.1 ≠ some i) ∧
      ∀ f, fields[i]? = some f → f.value.Admits m.2

variable {fields : List Field}

lemma skipUnknown_sound {s rest : List UInt8} (h : skipUnknown s = .ok rest) :
    ∃ t v, s = t ++ rest ∧ ValueText t v ∧ v.depth ≤ depthMax := by
  obtain ⟨t, v, hs, ht, hd, -⟩ := (skip_sound dialect _).value _ _ _ h
  exact ⟨t, v, hs, ht, by omega⟩

lemma skipUnknown_complete {t rest : List UInt8} {v : Value} (ht : ValueText t v)
    (hd : v.depth ≤ depthMax) (hr : NumberEnd rest) : skipUnknown (t ++ rest) = .ok rest :=
  skipValue_complete ht (by simp [skipFuel]) (by omega) (.inl rfl) hr

lemma lookup_decoded {key : List ℕ} (hk : ∀ c ∈ key, Scalar c) {out : Output}
    (h : StringResult (some keyBuffer) keyCapacity key out) (done : List Member) :
    lookup (decoded fields done) out = .ok (boundTo fields key) := by
  rw [lookup_eq hk h, boundTo_map_name (decoded_names fields done)]

/-- The key text, the colon and the whitespace of a member. -/
def MemberText (k a b t : List UInt8) (m : Member) : Prop :=
  StringText k m.1 ∧ Ws a ∧ Ws b ∧ ValueText t m.2

theorem parseMember_sound (hw : ∀ f ∈ fields, f.value.WellSized) {done : List Member}
    {fs : List Field} {s rest : List UInt8}
    (h : parseMember (decoded fields done) s = .ok (fs, rest)) :
    ∃ k a b t m, s = k ++ (a ++ colon :: (b ++ (t ++ rest))) ∧ MemberText k a b t m ∧
      MemberOk fields done m ∧ fs = decoded fields (done ++ [m]) := by
  obtain ⟨⟨out, s1⟩, h1, h2⟩ := Outcome.bind_eq_ok.mp h
  obtain ⟨s2, hcol, h3⟩ := Outcome.bind_eq_ok.mp h2
  clear h h2
  obtain ⟨k, key, rfl, hk, hres⟩ := string_sound keyBuffer_sized h1
  obtain ⟨a, ha, hs1, -⟩ := whitespace_split s1
  rw [expect_eq_ok.mp hcol] at hs1
  obtain ⟨b, hb, hs2, -⟩ := whitespace_split s2
  simp only [lookup_decoded (stringText_scalar hk) hres done, Outcome.ok_bind] at h3
  cases hbound : boundTo fields key with
  | none =>
    simp only [hbound] at h3
    obtain ⟨r, hskip, hr⟩ := Outcome.bind_eq_ok.mp h3
    obtain ⟨rfl, rfl⟩ : _ ∧ r = rest := by simpa using hr
    obtain ⟨t, v, hst, ht, hd⟩ := skipUnknown_sound hskip
    refine ⟨k, a, b, t, (key, v), by rw [hs1, hs2, hst], ⟨hk, ha, hb, ht⟩,
      ⟨fun _ => hd, fun i hi => by simp [hbound] at hi⟩, ?_⟩
    exact (decoded_snoc_unknown hbound).symm
  | some i =>
    obtain ⟨f, hf⟩ := boundTo_lt hbound
    simp only [hbound, decoded_getElem?, hf, Option.map_some] at h3
    obtain ⟨⟨f', r⟩, hfield, hr⟩ := Outcome.bind_eq_ok.mp h3
    obtain ⟨rfl, rfl⟩ : _ ∧ r = rest := by simpa using hr
    cases hval : valueOf fields done i with
    | some v => simp [hval, parseField_present] at hfield
    | none =>
      rw [hval] at hfield
      have hwf := hw f (List.mem_of_getElem? hf)
      obtain ⟨t, v, hst, ht, hadm, rfl⟩ := parseField_sound hwf hfield
      refine ⟨k, a, b, t, (key, v), by rw [hs1, hs2, hst], ⟨hk, ha, hb, ht⟩,
        ⟨fun hnone => by simp [hbound] at hnone, ?_⟩, ?_⟩
      · intro j hj
        obtain rfl : i = j := by simpa [hbound] using hj
        refine ⟨valueOf_eq_none.mp hval, fun g hg => ?_⟩
        obtain rfl : f = g := by simpa [hf] using hg
        exact hadm
      · exact (decoded_snoc_known (m := (key, v)) hbound hf hval).symm

theorem parseMember_complete (hw : ∀ f ∈ fields, f.value.WellSized) {done : List Member}
    {k a b t rest : List UInt8} {m : Member} (hm : MemberText k a b t m)
    (hok : MemberOk fields done m) (hr : NumberEnd rest) :
    parseMember (decoded fields done) (k ++ (a ++ colon :: (b ++ (t ++ rest)))) =
      .ok (decoded fields (done ++ [m]), rest) := by
  obtain ⟨hk, ha, hb, ht⟩ := hm
  obtain ⟨out, hout, hres⟩ := string_complete keyBuffer_sized hk
    (a ++ colon :: (b ++ (t ++ rest)))
  have hcolon : NotWs (colon :: (b ++ (t ++ rest))) := notWs_cons.mpr (by decide)
  simp only [parseMember, hout, Outcome.ok_bind, whitespace_append ha hcolon, expect_cons,
    whitespace_append hb (valueText_notWs ht rest),
    lookup_decoded (stringText_scalar hk) hres done]
  cases hbound : boundTo fields m.1 with
  | none =>
    simp only [skipUnknown_complete ht (hok.1 hbound) hr, Outcome.ok_bind,
      decoded_snoc_unknown hbound]
  | some i =>
    obtain ⟨f, hf⟩ := boundTo_lt hbound
    obtain ⟨hnew, hadm⟩ := hok.2 i hbound
    have hval : valueOf fields done i = none := valueOf_eq_none.mpr hnew
    have hfield := parseField_complete (hw f (List.mem_of_getElem? hf)) ht (hadm f hf) hr
    simp only [decoded_getElem?, hf, Option.map_some, hval, hfield, Outcome.ok_bind,
      decoded_snoc_known hbound hf hval]

theorem parseMember_ne_fault (hw : ∀ f ∈ fields, f.value.WellSized) (done : List Member)
    (s : List UInt8) : parseMember (decoded fields done) s ≠ .fault := by
  refine Outcome.bind_ne_fault (string_ne_fault keyBuffer_sized s) ?_
  rintro ⟨out, s1⟩ h1
  refine Outcome.bind_ne_fault (expect_ne_fault _ _) fun s2 _ => ?_
  obtain ⟨k, key, -, hk, hres⟩ := string_sound keyBuffer_sized h1
  simp only [lookup_decoded (stringText_scalar hk) hres done, Outcome.ok_bind]
  cases hbound : boundTo fields key with
  | none => exact Outcome.bind_ne_fault (skipValue_ne_fault _ _ _) fun _ _ => by simp
  | some i =>
    obtain ⟨f, hf⟩ := boundTo_lt hbound
    simp only [decoded_getElem?, hf, Option.map_some]
    exact Outcome.bind_ne_fault (parseField_ne_fault (hw f (List.mem_of_getElem? hf)) _ _)
      fun _ _ => by simp

/-! ## The member loop -/

/-- The members `ms` may follow the members `done` one after the other. -/
def Admitted (fields : List Field) : List Member → List Member → Prop
  | _, [] => True
  | done, m :: ms => MemberOk fields done m ∧ Admitted fields (done ++ [m]) ms

theorem membersLoop_sound (hw : ∀ f ∈ fields, f.value.WellSized) {fuel : ℕ} {done : List Member}
    {fs : List Field} {s rest : List UInt8}
    (h : membersLoop fuel (decoded fields done) s = .ok (fs, rest)) :
    ∃ t ms, s = t ++ rbrace :: rest ∧ MembersText t ms ∧ Admitted fields done ms ∧
      fs = decoded fields (done ++ ms) := by
  induction fuel generalizing done s with
  | zero => simp [membersLoop] at h
  | succ fuel ih =>
    obtain ⟨⟨fs1, s1⟩, h1, h2⟩ := Outcome.bind_eq_ok.mp h
    obtain ⟨⟨closed, s2⟩, hsep, h3⟩ := Outcome.bind_eq_ok.mp h2
    clear h h2
    obtain ⟨k, a, b, t, m, rfl, ⟨hk, ha, hb, ht⟩, hok, rfl⟩ := parseMember_sound hw h1
    obtain ⟨c, hc, hs1, -⟩ := whitespace_split s1
    cases closed with
    | true =>
      obtain ⟨rfl, rfl⟩ : _ ∧ s2 = rest := by simpa using h3
      rw [separator_close hsep] at hs1
      exact ⟨_, [m], by simp only [hs1, List.append_assoc, List.cons_append],
        .one hk ha hb ht hc, ⟨hok, trivial⟩, rfl⟩
    | false =>
      obtain ⟨e, he, hs2⟩ := separator_comma hsep
      obtain ⟨u, ms, rfl, hu, hadm, rfl⟩ := ih (by simpa using h3)
      rw [hs2] at hs1
      exact ⟨_, m :: ms, by simp only [hs1, List.append_assoc, List.cons_append],
        .cons hk ha hb ht hc he hu, ⟨hok, hadm⟩, by simp⟩

theorem membersLoop_complete (hw : ∀ f ∈ fields, f.value.WellSized) {ms : List Member}
    {done : List Member} {t rest : List UInt8} (ht : MembersText t ms)
    (hadm : Admitted fields done ms) {fuel : ℕ} (hf : t.length < fuel) :
    membersLoop fuel (decoded fields done) (t ++ rbrace :: rest) =
      .ok (decoded fields (done ++ ms), rest) := by
  have hclose : NumberEnd (rbrace :: rest) := numberEnd_cons.mpr (by decide)
  have hcomma : ∀ s, NumberEnd (comma :: s) := fun s => numberEnd_cons.mpr (by decide)
  induction ms generalizing done t fuel with
  | nil => cases ht
  | cons m ms ih =>
    obtain ⟨fuel, rfl⟩ := Nat.exists_eq_add_one_of_ne_zero (by omega : fuel ≠ 0)
    obtain ⟨hok, hrest⟩ := hadm
    cases ht with
    | @one k a b t c key v hk ha hb ht hc =>
      have hm : MemberText k a b t (key, v) := ⟨hk, ha, hb, ht⟩
      simp only [List.append_assoc, List.cons_append, membersLoop,
        parseMember_complete hw hm hok (numberEnd_ws hc hclose), Outcome.ok_bind,
        separator_of_close hc (show isWs rbrace = false by decide), if_true]
    | @cons k a b t c e u key v _ hk ha hb ht hc he hu =>
      have hm : MemberText k a b t (key, v) := ⟨hk, ha, hb, ht⟩
      simp only [List.length_append, List.length_cons] at hf
      obtain ⟨u', rfl⟩ := membersText_head hu
      have hnext : NotWs (quote :: (u' ++ rbrace :: rest)) := notWs_cons.mpr (by decide)
      have hlen : (quote :: u').length < fuel := by
        simp only [List.length_cons] at hf ⊢
        omega
      have hloop := ih hu hrest hlen
      simp only [List.append_assoc, List.cons_append] at hloop ⊢
      simp only [membersLoop, parseMember_complete hw hm hok (numberEnd_ws hc (hcomma _)),
        Outcome.ok_bind, separator_of_comma hc he (show comma ≠ rbrace by decide) hnext,
        Bool.false_eq_true, if_false, hloop, List.nil_append]

theorem membersLoop_ne_fault (hw : ∀ f ∈ fields, f.value.WellSized) {fuel : ℕ}
    {done : List Member} {s : List UInt8} (hf : s.length < fuel) :
    membersLoop fuel (decoded fields done) s ≠ .fault := by
  induction fuel generalizing done s with
  | zero => simp at hf
  | succ fuel ih =>
    refine Outcome.bind_ne_fault (parseMember_ne_fault hw done s) ?_
    rintro ⟨fs, s1⟩ h1
    refine Outcome.bind_ne_fault (separator_ne_fault _ _) ?_
    rintro ⟨closed, s2⟩ hsep
    obtain ⟨k, a, b, t, m, rfl, -, -, rfl⟩ := parseMember_sound hw h1
    have hw1 := whitespace_length s1
    have hlt := separator_length hsep
    simp only [List.length_append, List.length_cons] at hf
    cases closed with
    | true => simp
    | false => exact ih (show s2.length < fuel by omega)

/-! ## The whole text -/

theorem members_sound (hw : ∀ f ∈ fields, f.value.WellSized) {fs : List Field}
    {s rest : List UInt8} (h : members (decoded fields []) s = .ok (fs, rest)) :
    ∃ u ms, s = u ++ rest ∧ (∀ a, Ws a → ValueText (lbrace :: (a ++ u)) (.object ms)) ∧
      Admitted fields [] ms ∧ fs = decoded fields ms := by
  unfold members at h
  split_ifs at h with hb
  · obtain ⟨rfl, rfl⟩ : decoded fields [] = fs ∧ s.tail = rest := by simpa using h
    cases s with
    | nil => simp at hb
    | cons c s =>
      obtain rfl : c = rbrace := by simpa using hb
      exact ⟨[rbrace], [], rfl, fun a ha => .emptyObject ha, trivial, rfl⟩
  · obtain ⟨t, ms, rfl, ht, hadm, rfl⟩ := membersLoop_sound hw h
    exact ⟨t ++ [rbrace], ms, by simp, fun a ha => .object ha ht, hadm, by simp⟩

/-- The object after its opening brace. -/
lemma objectText_split {u : List UInt8} {ms : List Member} (h : ValueText u (.object ms)) :
    ∃ a t, u = lbrace :: (a ++ (t ++ [rbrace])) ∧ Ws a ∧
      ((t = [] ∧ ms = []) ∨ MembersText t ms) := by
  cases h with
  | emptyObject ha => exact ⟨_, [], rfl, ha, .inl ⟨rfl, rfl⟩⟩
  | object ha ht => exact ⟨_, _, rfl, ha, .inr ht⟩

theorem members_complete (hw : ∀ f ∈ fields, f.value.WellSized) {t rest : List UInt8}
    {ms : List Member} (ht : (t = [] ∧ ms = []) ∨ MembersText t ms)
    (hadm : Admitted fields [] ms) :
    members (decoded fields []) (t ++ rbrace :: rest) = .ok (decoded fields ms, rest) := by
  rcases ht with ⟨rfl, rfl⟩ | ht
  · simp [members]
  · have hhead : (t ++ rbrace :: rest).head? ≠ some rbrace := by
      obtain ⟨t', rfl⟩ := membersText_head ht
      simp [quote, rbrace]
    rw [members, if_neg hhead]
    exact membersLoop_complete hw ht hadm (by simp)

lemma reset_eq {f : Field} (h : f.value.WellSized) : f.reset = .ok (f.after none) := by
  obtain ⟨name, required, present, value⟩ := f
  cases value with
  | string buffer capacity length =>
    cases buffer with
    | none => rfl
    | some cells =>
      have hlen : cells.length = capacity := h
      by_cases h0 : capacity = 0
      · simp [Field.reset, h0, Field.after, FieldValue.cleared, fill]
      · cases cells with
        | nil => exact absurd hlen.symm h0
        | cons c cells =>
          have hpos : 0 < capacity := Nat.pos_of_ne_zero h0
          simp [Field.reset, h0, Field.after, FieldValue.cleared, fill, hpos]
  | uint32 n => rfl
  | boolean b => rfl

lemma decoded_nil (fields : List Field) :
    decoded fields [] = fields.map fun f => f.after none := by
  apply List.ext_getElem?
  intro i
  simp [decoded_getElem?, valueOf]

lemma resetAll_eq (hw : ∀ f ∈ fields, f.value.WellSized) :
    resetAll fields = .ok (decoded fields []) := by
  rw [decoded_nil]
  induction fields with
  | nil => rfl
  | cons f fields ih =>
    simp [resetAll, reset_eq (hw f (by simp)), ih fun g hg => hw g (by simp [hg])]

lemma admitted_iff {ms done : List Member} :
    Admitted fields done ms ↔
      (∀ m ∈ ms, boundTo fields m.1 = none → m.2.depth ≤ depthMax) ∧
        (∀ m ∈ ms, ∀ i f, boundTo fields m.1 = some i → fields[i]? = some f →
          f.value.Admits m.2) ∧
        (ms.Pairwise fun m m' =>
          ∀ i, boundTo fields m.1 = some i → boundTo fields m'.1 ≠ some i) ∧
        ∀ m ∈ ms, ∀ i, boundTo fields m.1 = some i →
          ∀ m' ∈ done, boundTo fields m'.1 ≠ some i := by
  induction ms generalizing done with
  | nil => simp [Admitted]
  | cons m ms ih =>
    rw [Admitted, ih, List.pairwise_cons]
    simp only [List.forall_mem_cons, MemberOk]
    constructor
    · rintro ⟨⟨h1, h2⟩, h3, h4, h5, h6⟩
      refine ⟨⟨h1, h3⟩, ⟨fun i f hi hf => (h2 i hi).2 f hf, h4⟩, ⟨fun m' hm' i hi hi' => ?_, h5⟩,
        fun i hi => (h2 i hi).1, fun m' hm' i hi x hx => h6 m' hm' i hi x (by simp [hx])⟩
      exact h6 m' hm' i hi' m (by simp) hi
    · rintro ⟨⟨h1, h3⟩, ⟨h2, h4⟩, ⟨h7, h5⟩, h8, h6⟩
      refine ⟨⟨h1, fun i hi => ⟨h8 i hi, fun f hf => h2 i f hi hf⟩⟩, h3, h4, h5, ?_⟩
      intro m' hm' i hi x hx
      rcases List.mem_append.mp hx with hx | hx
      · exact h6 m' hm' i hi x hx
      · obtain rfl : x = m := by simpa using hx
        exact fun hb => h7 m' hm' i hb hi

lemma required_iff {ms : List Member} :
    ((decoded fields ms).any fun f => f.required && !f.present) = false ↔
      ∀ i f, fields[i]? = some f → f.required = true → ∃ m ∈ ms, boundTo fields m.1 = some i := by
  have hpres : ∀ (f : Field) (x : Option Value),
      ((f.after x).required && !(f.after x).present) = (f.required && x.isNone) := by
    intro f x
    cases x <;> rfl
  rw [List.any_eq_false]
  constructor
  · intro h i f hf hr
    have hmem : f.after (valueOf fields ms i) ∈ decoded fields ms := by
      refine List.mem_of_getElem? (i := i) ?_
      rw [decoded_getElem?, hf, Option.map_some]
    have hn := h _ hmem
    rw [hpres, hr, Bool.true_and, Option.isNone_iff_eq_none, valueOf_eq_none] at hn
    simpa using hn
  · intro h g hg
    obtain ⟨i, hi⟩ := List.mem_iff_getElem?.mp hg
    rw [decoded_getElem?, Option.map_eq_some_iff] at hi
    obtain ⟨f, hf, rfl⟩ := hi
    rw [hpres, Bool.and_eq_true, Option.isNone_iff_eq_none, valueOf_eq_none]
    rintro ⟨hr, hnone⟩
    obtain ⟨m, hm, hb⟩ := h i f hf hr
    exact hnone m hm hb

/-- An admitted object whose required fields are there is admissible, and conversely. -/
lemma admissible_iff {ms : List Member} :
    Admissible fields ms ↔ Admitted fields [] ms ∧
      ((decoded fields ms).any fun f => f.required && !f.present) = false := by
  rw [admitted_iff, required_iff]
  constructor
  · rintro ⟨h1, h2, h3, h4⟩
    exact ⟨⟨h1, h2, h3, by simp⟩, h4⟩
  · rintro ⟨⟨h1, h2, h3, -⟩, h4⟩
    exact ⟨h1, h2, h3, h4⟩

/-- Every document that the table admits is accepted, with the reference table. -/
theorem parseObject_complete (hw : ∀ f ∈ fields, f.value.WellSized) {text : List UInt8}
    {ms : List Member} (hd : Document text ms) (ha : Admissible fields ms) :
    parseObject fields text = .ok (decoded fields ms) := by
  obtain ⟨hadm, hreq⟩ := admissible_iff.mp ha
  obtain ⟨a, u, c, rfl, hwa, hwc, hu⟩ := hd
  obtain ⟨b, t, rfl, hwb, ht⟩ := objectText_split hu
  have hhead : NotWs (t ++ rbrace :: c) := by
    rcases ht with ⟨rfl, -⟩ | ht
    · exact notWs_cons.mpr (by decide)
    · obtain ⟨t', rfl⟩ := membersText_head ht
      exact notWs_cons.mpr (by decide)
  have hbrace : NotWs (lbrace :: (b ++ (t ++ rbrace :: c))) := notWs_cons.mpr (by decide)
  have hend : whitespace c = [] := by simpa using whitespace_append hwc notWs_nil
  have hne : a ++ (lbrace :: (b ++ (t ++ [rbrace])) ++ c) ≠ [] := by simp
  have hopen : whitespace (a ++ (lbrace :: (b ++ (t ++ [rbrace])) ++ c)) =
      lbrace :: (b ++ (t ++ rbrace :: c)) := by
    rw [← whitespace_append hwa hbrace]
    simp
  simp only [parseObject, if_neg hne, resetAll_eq hw, Outcome.ok_bind, hopen, expect_cons,
    whitespace_append hwb hhead, members_complete hw ht hadm, hend, ne_eq, not_true_eq_false,
    if_false, hreq, Bool.false_eq_true]

/-- Whatever is accepted is a document that the table admits. -/
theorem parseObject_sound (hw : ∀ f ∈ fields, f.value.WellSized) {text : List UInt8}
    {fs : List Field} (h : parseObject fields text = .ok fs) :
    ∃ ms, Document text ms ∧ Admissible fields ms ∧ fs = decoded fields ms := by
  unfold parseObject at h
  split_ifs at h
  simp only [resetAll_eq hw, Outcome.ok_bind] at h
  obtain ⟨s, hopen, h⟩ := Outcome.bind_eq_ok.mp h
  obtain ⟨⟨fs', s'⟩, hmem, h⟩ := Outcome.bind_eq_ok.mp h
  obtain ⟨a, ha, htext, -⟩ := whitespace_split text
  rw [expect_eq_ok.mp hopen] at htext
  obtain ⟨b, hb, hs, -⟩ := whitespace_split s
  obtain ⟨u, ms, hu, hval, hadm, rfl⟩ := members_sound hw hmem
  obtain ⟨c, hc, hs', -⟩ := whitespace_split s'
  simp only at h
  split_ifs at h with hend hreq
  obtain rfl : decoded fields ms = fs := by simpa using h
  rw [not_not] at hend
  rw [hend, List.append_nil] at hs'
  rw [hu] at hs
  refine ⟨ms, ⟨a, lbrace :: (b ++ u), c, ?_, ha, hc, hval b hb⟩,
    admissible_iff.mpr ⟨hadm, by simpa using hreq⟩, rfl⟩
  rw [htext, hs, ← hs']
  simp

theorem parseObject_ne_fault (hw : ∀ f ∈ fields, f.value.WellSized) (text : List UInt8) :
    parseObject fields text ≠ .fault := by
  unfold parseObject
  split_ifs
  · simp
  · simp only [resetAll_eq hw, Outcome.ok_bind]
    refine Outcome.bind_ne_fault (expect_ne_fault _ _) fun s _ => ?_
    refine Outcome.bind_ne_fault ?_ ?_
    · unfold members
      split_ifs
      · simp
      · exact membersLoop_ne_fault hw (by omega)
    · rintro ⟨fs, s'⟩ -
      simp only
      split_ifs <;> simp

/-- The parser answers true exactly on the documents its table admits, and then leaves the
reference table; no call goes wrong. -/
theorem parseObject_correct (fields : List Field) (hw : ∀ f ∈ fields, f.value.WellSized)
    (text : List UInt8) :
    parseObject fields text ≠ .fault ∧
      ∀ fs, parseObject fields text = .ok fs ↔
        ∃ ms, Document text ms ∧ Admissible fields ms ∧ fs = decoded fields ms := by
  refine ⟨parseObject_ne_fault hw text, fun fs => ⟨parseObject_sound hw, ?_⟩⟩
  rintro ⟨ms, hd, ha, rfl⟩
  exact parseObject_complete hw hd ha

/-- One field of each type. -/
def sampleTable : List Field :=
  [⟨[0x61], true, false, .string (some [7, 7]) 2 0⟩, ⟨[0x6e], false, true, .uint32 3⟩,
    ⟨[0x74], false, false, .boolean true⟩]

/-- The text `{"a":"b"}`. -/
def sampleText : List UInt8 := [0x7b, 0x22, 0x61, 0x22, 0x3a, 0x22, 0x62, 0x22, 0x7d]

theorem parseObject_correct_sample :
    parseObject sampleTable sampleText = .ok
        [⟨[0x61], true, true, .string (some [0x62, 0]) 2 1⟩, ⟨[0x6e], false, false, .uint32 0⟩,
          ⟨[0x74], false, false, .boolean false⟩] ∧
      ∃ ms, Document sampleText ms ∧ Admissible sampleTable ms := by
  have hok : parseObject sampleTable sampleText = .ok
      [⟨[0x61], true, true, .string (some [0x62, 0]) 2 1⟩, ⟨[0x6e], false, false, .uint32 0⟩,
        ⟨[0x74], false, false, .boolean false⟩] := by decide
  have hw : ∀ f ∈ sampleTable, f.value.WellSized := by
    simp [sampleTable, FieldValue.WellSized]
  obtain ⟨ms, hd, ha, -⟩ := ((parseObject_correct sampleTable hw sampleText).2 _).mp hok
  exact ⟨hok, ms, hd, ha⟩

lemma stringText_plain {bs : List UInt8}
    (h : ∀ b ∈ bs, 0x20 ≤ b ∧ b < 0x80 ∧ b ≠ quote ∧ b ≠ backslash) :
    StringText (quote :: (bs ++ [quote])) (bs.map UInt8.toNat) := by
  refine ⟨bs, rfl, ?_⟩
  induction bs with
  | nil => exact .nil
  | cons b bs ih =>
    obtain ⟨h1, h2, h3, h4⟩ := h b (by simp)
    exact .cons (.plain h1 h2 h3 h4) (ih fun x hx => h x (by simp [hx]))

lemma utf8_ascii {b : UInt8} (h : b < 0x80) : utf8 b.toNat = [b] := by
  have hlt : b.toNat < 0x80 := h
  rw [utf8, if_pos hlt, UInt8.ofNat_toNat]

lemma encode_plain {bs : List UInt8}
    (h : ∀ b ∈ bs, 0x20 ≤ b ∧ b < 0x80 ∧ b ≠ quote ∧ b ≠ backslash) :
    encode (bs.map UInt8.toNat) = bs := by
  induction bs with
  | nil => rfl
  | cons b bs ih =>
    obtain ⟨⟨-, hb, -⟩, hbs⟩ := List.forall_mem_cons.mp h
    rw [List.map_cons, encode_cons, ih hbs, utf8_ascii hb, List.singleton_append]

/-- The text of an object with one member. -/
def oneMember (name value : List UInt8) : List UInt8 :=
  lbrace :: (quote :: (name ++ [quote]) ++ (colon :: value ++ [rbrace]))

lemma oneMember_document {name value : List UInt8} {v : Value}
    (h : ∀ b ∈ name, 0x20 ≤ b ∧ b < 0x80 ∧ b ≠ quote ∧ b ≠ backslash) (hv : ValueText value v) :
    Document (oneMember name value) [(name.map UInt8.toNat, v)] := by
  have hnil : Ws [] := by simp [Ws]
  have hm := MembersText.one (stringText_plain h) hnil hnil hv hnil
  exact ⟨[], _, [], by simp [oneMember], hnil, hnil, .object hnil hm⟩

/-- A name of 32 bytes. -/
def longName : List UInt8 := List.replicate 32 0x61

/-- A string as long as its buffer leaves no room for the terminator, a name of 32 bytes never
matches, and a field without a buffer takes a string of any length. -/
theorem capacity_is_not_the_bound :
    Document sampleText [([0x61], .string [0x62])] ∧
      parseObject [⟨[0x61], true, false, .string (some [7]) 1 0⟩] sampleText = .reject ∧
      Document (oneMember longName (boolText true)) [(List.replicate 32 0x61, .bool true)] ∧
      parseObject [⟨longName, true, false, .boolean false⟩] (oneMember longName (boolText true)) =
        .reject ∧
      parseObject [⟨[0x61], true, false, .string none 0 0⟩] sampleText =
        .ok [⟨[0x61], true, true, .string none 0 1⟩] := by
  have hplain : ∀ {t : List UInt8} {c : UInt8}, 0x20 ≤ c ∧ c < 0x80 ∧ c ≠ quote ∧ c ≠ backslash →
      (∀ b ∈ t, b = c) → ∀ b ∈ t, 0x20 ≤ b ∧ b < 0x80 ∧ b ≠ quote ∧ b ≠ backslash :=
    fun hc ht b hb => ht b hb ▸ hc
  have ha : (0x20 : UInt8) ≤ 0x61 ∧ (0x61 : UInt8) < 0x80 ∧ 0x61 ≠ quote ∧ 0x61 ≠ backslash := by
    decide
  refine ⟨?_, by decide, ?_, by decide, by decide⟩
  · have hb : StringText [quote, 0x62, quote] [0x62] :=
      stringText_plain (hplain (t := [0x62]) (c := 0x62) (by decide) (by simp))
    exact oneMember_document (hplain (t := [0x61]) ha (by simp)) (.string hb)
  · exact oneMember_document (hplain (t := longName) ha fun b hb => List.eq_of_mem_replicate hb)
      (.bool true)

end EspVision.EvControlJson
