import EspVision.JsonReaderCorrect

/-!
# Skipped values

The number scanner and the recursive value skipper accept exactly the texts of the
grammar, the skipper up to its depth limit. The induction for what is accepted is
on the fuel, the one for completeness on the length of the text.
-/
namespace EspVision.Json

/-! ## Numbers -/

/-- What may follow a number: nothing that could continue it. -/
def NumberEnd (s : List UInt8) : Prop :=
  ∀ b ∈ s.head?, isDigit b = false ∧ b ≠ 0x2e ∧ b ≠ 0x65 ∧ b ≠ 0x45

@[simp] theorem numberEnd_nil : NumberEnd [] := by simp [NumberEnd]

@[simp] theorem numberEnd_cons {b : UInt8} {s : List UInt8} :
    NumberEnd (b :: s) ↔ isDigit b = false ∧ b ≠ 0x2e ∧ b ≠ 0x65 ∧ b ≠ 0x45 := by
  simp [NumberEnd]

lemma NumberEnd.noDigit {s : List UInt8} (h : NumberEnd s) : startsWithDigit s = false := by
  cases s with
  | nil => rfl
  | cons b s => exact (numberEnd_cons.mp h).1

lemma dropDigits {ds s : List UInt8} (hd : Digits ds) (hs : startsWithDigit s = false) :
    (ds ++ s).dropWhile isDigit = s := by
  rw [List.dropWhile_append_of_pos hd]
  cases s with
  | nil => rfl
  | cons b s => simpa [startsWithDigit] using hs

lemma splitDigits (s : List UInt8) :
    ∃ ds, Digits ds ∧ s = ds ++ s.dropWhile isDigit :=
  ⟨s.takeWhile isDigit, fun _ hb => List.mem_takeWhile_imp hb,
    (List.takeWhile_append_dropWhile).symm⟩

lemma digits1_sound {s rest : List UInt8} (h : digits1 s = .ok rest) :
    ∃ ds, s = ds ++ rest ∧ ds ≠ [] ∧ Digits ds := by
  unfold digits1 at h
  split_ifs at h with hd
  obtain ⟨ds, hds, heq⟩ := splitDigits s
  obtain rfl : s.dropWhile isDigit = rest := by simpa using h
  refine ⟨ds, heq, ?_, hds⟩
  rintro rfl
  cases s with
  | nil => simp [startsWithDigit] at hd
  | cons b s =>
    have hb : isDigit b = true := hd
    simp only [List.nil_append, List.dropWhile_cons, hb, if_true] at heq
    have := congrArg List.length heq
    have hle := (List.dropWhile_sublist isDigit (l := s)).length_le
    simp only [List.length_cons] at this
    omega

lemma digits1_complete {ds rest : List UInt8} (hne : ds ≠ []) (hd : Digits ds)
    (hr : startsWithDigit rest = false) : digits1 (ds ++ rest) = .ok rest := by
  cases ds with
  | nil => exact absurd rfl hne
  | cons b ds =>
    have hb : startsWithDigit (b :: ds ++ rest) = true := hd b (by simp)
    rw [digits1, if_pos hb, dropDigits hd hr]

lemma exponentPart_sound {s rest : List UInt8} (h : exponentPart s = .ok rest) :
    ∃ t, s = t ++ rest ∧ Exponent t := by
  match s, h with
  | [], h =>
    obtain rfl : [] = rest := by simpa [exponentPart] using h
    exact ⟨[], rfl, .inl rfl⟩
  | [e], h =>
    by_cases he : e = 0x65 ∨ e = 0x45
    · simp [exponentPart, he, digits1, startsWithDigit] at h
    · obtain rfl : [e] = rest := by simpa [exponentPart, he] using h
      exact ⟨[], rfl, .inl rfl⟩
  | e :: b :: s, h =>
    simp only [exponentPart] at h
    split_ifs at h with he hb
    · obtain ⟨ds, rfl, hne, hd⟩ := digits1_sound h
      exact ⟨e :: ([b] ++ ds), by simp,
        .inr ⟨e, [b], ds, rfl, he, by rcases hb with rfl | rfl <;> simp, hne, hd⟩⟩
    · obtain ⟨ds, heq, hne, hd⟩ := digits1_sound h
      exact ⟨e :: ([] ++ ds), by simp [heq], .inr ⟨e, [], ds, rfl, he, .inl rfl, hne, hd⟩⟩
    · obtain rfl : e :: b :: s = rest := by simpa using h
      exact ⟨[], rfl, .inl rfl⟩

lemma exponentPart_complete {t rest : List UInt8} (ht : Exponent t) (hr : NumberEnd rest) :
    exponentPart (t ++ rest) = .ok rest := by
  rcases ht with rfl | ⟨e, sign, ds, rfl, he, hs, hne, hd⟩
  · cases rest with
    | nil => rfl
    | cons b rest =>
      obtain ⟨-, -, h1, h2⟩ := numberEnd_cons.mp hr
      simp [exponentPart, h1, h2]
  · have hdig := digits1_complete hne hd hr.noDigit
    rcases hs with rfl | rfl | rfl
    · cases ds with
      | nil => exact absurd rfl hne
      | cons d ds =>
        have hsign : ¬ (d = 0x2b ∨ d = 0x2d) := by
          have hb : isDigit d = true := hd d (by simp)
          rintro (rfl | rfl) <;> exact absurd hb (by decide)
        simp only [List.nil_append, List.cons_append, exponentPart, if_pos he, if_neg hsign]
        exact hdig
    · simp only [List.cons_append, List.nil_append, exponentPart, if_pos he, true_or, if_true]
      exact hdig
    · simp only [List.cons_append, List.nil_append, exponentPart, if_pos he, or_true, if_true]
      exact hdig

lemma fractionPart_sound {s rest : List UInt8} (h : fractionPart s = .ok rest) :
    ∃ frac exp, s = frac ++ (exp ++ rest) ∧ Fraction frac ∧ Exponent exp := by
  cases s with
  | nil =>
    rw [fractionPart] at h
    obtain ⟨t, heq, ht⟩ := exponentPart_sound h
    exact ⟨[], t, heq, .inl rfl, ht⟩
  | cons b s =>
    simp only [fractionPart] at h
    split_ifs at h with hb
    · obtain ⟨s', hd, h'⟩ := Outcome.bind_eq_ok.mp h
      obtain ⟨ds, rfl, hne, hds⟩ := digits1_sound hd
      obtain ⟨t, rfl, ht⟩ := exponentPart_sound h'
      exact ⟨b :: ds, t, by simp, .inr ⟨ds, by rw [hb], hne, hds⟩, ht⟩
    · obtain ⟨t, heq, ht⟩ := exponentPart_sound h
      exact ⟨[], t, heq, .inl rfl, ht⟩

lemma exponent_append_noDigit {exp rest : List UInt8} (he : Exponent exp)
    (hr : NumberEnd rest) : startsWithDigit (exp ++ rest) = false := by
  rcases he with rfl | ⟨e, sign, ds, rfl, he, -⟩
  · exact hr.noDigit
  · rcases he with rfl | rfl <;> rfl

lemma fractionPart_complete {frac exp rest : List UInt8} (hf : Fraction frac)
    (he : Exponent exp) (hr : NumberEnd rest) :
    fractionPart (frac ++ (exp ++ rest)) = .ok rest := by
  have hexp := exponentPart_complete he hr
  rcases hf with rfl | ⟨ds, rfl, hne, hd⟩
  · have hdot : ∀ b s, exp ++ rest = b :: s → b ≠ 0x2e := by
      intro b s heq
      rcases he with rfl | ⟨e, sign, ds, rfl, he, -⟩
      · obtain rfl : rest = b :: s := heq
        exact (numberEnd_cons.mp hr).2.1
      · obtain ⟨rfl, -⟩ : e = b ∧ _ := by simpa using heq
        rcases he with rfl | rfl <;> decide
    rw [List.nil_append]
    cases hc : exp ++ rest with
    | nil => rw [← hexp, hc]; rfl
    | cons b s => rw [fractionPart, if_neg (hdot b s hc), ← hc, hexp]
  · have hdig := digits1_complete hne hd (exponent_append_noDigit he hr)
    simp only [List.cons_append, fractionPart, if_true, hdig, Outcome.ok_bind, hexp]

lemma fraction_append_noDigit {frac exp rest : List UInt8} (hf : Fraction frac)
    (he : Exponent exp) (hr : NumberEnd rest) :
    startsWithDigit (frac ++ (exp ++ rest)) = false := by
  rcases hf with rfl | ⟨ds, rfl, -⟩
  · rw [List.nil_append]
    exact exponent_append_noDigit he hr
  · rfl

/-- The number without its sign. -/
lemma number_unsigned_sound {z : Bool} {b : UInt8} {s rest : List UInt8}
    (h : (if b = 0x30 then
        if z && startsWithDigit s then Outcome.reject else fractionPart s
      else if 0x31 ≤ b ∧ b ≤ 0x39 then fractionPart (s.dropWhile isDigit)
      else .reject) = .ok rest) :
    ∃ int frac exp, b :: s = int ++ (frac ++ (exp ++ rest)) ∧ IntPart int ∧ Fraction frac ∧
      Exponent exp := by
  split_ifs at h with hb hz hd
  · obtain ⟨frac, exp, rfl, hf, he⟩ := fractionPart_sound h
    exact ⟨[0x30], frac, exp, by simp [hb], .inl rfl, hf, he⟩
  · obtain ⟨frac, exp, heq, hf, he⟩ := fractionPart_sound h
    obtain ⟨ds, hds, hs⟩ := splitDigits s
    exact ⟨b :: ds, frac, exp, by rw [List.cons_append, ← heq, ← hs],
      .inr ⟨b, ds, rfl, hd.1, hd.2, hds⟩, hf, he⟩

theorem number_sound {z : Bool} {s rest : List UInt8} (h : number z s = .ok rest) :
    ∃ t, s = t ++ rest ∧ NumberText t := by
  have key : ∀ sign, (sign = [] ∨ sign = [0x2d]) → ∀ b s', s = sign ++ b :: s' →
      (if b = 0x30 then
          if z && startsWithDigit s' then Outcome.reject else fractionPart s'
        else if 0x31 ≤ b ∧ b ≤ 0x39 then fractionPart (s'.dropWhile isDigit)
        else .reject) = .ok rest → ∃ t, s = t ++ rest ∧ NumberText t := by
    intro sign hsign b s' hs h'
    obtain ⟨int, frac, exp, heq, hi, hf, he⟩ := number_unsigned_sound h'
    exact ⟨sign ++ (int ++ (frac ++ exp)), by simp [hs, heq],
      ⟨sign, int, frac, exp, rfl, hsign, hi, hf, he⟩⟩
  cases s with
  | nil => simp [number] at h
  | cons b s =>
    by_cases hb : b = 0x2d
    · subst hb
      cases s with
      | nil => simp [number] at h
      | cons c s =>
        simp only [number, if_true] at h
        exact key [0x2d] (.inr rfl) c s rfl h
    · simp only [number, if_neg hb] at h
      exact key [] (.inl rfl) b s rfl h

theorem number_complete {z : Bool} {t rest : List UInt8} (ht : NumberText t)
    (hr : NumberEnd rest) : number z (t ++ rest) = .ok rest := by
  obtain ⟨sign, int, frac, exp, rfl, hs, hi, hf, he⟩ := ht
  have hfrac := fractionPart_complete hf he hr
  have hnd := fraction_append_noDigit hf he hr
  have hstrip : number z (sign ++ (int ++ (frac ++ exp)) ++ rest) =
      number z (int ++ (frac ++ (exp ++ rest))) := by
    rcases hs with rfl | rfl
    · simp
    · rcases hi with rfl | ⟨d, ds, rfl, h1, -, -⟩
      · simp [number]
      · have hd : d ≠ 0x2d := by
          rintro rfl
          exact absurd h1 (by decide)
        simp [number, hd]
  rw [hstrip]
  rcases hi with rfl | ⟨d, ds, rfl, h1, h2, hds⟩
  · simp only [List.cons_append, List.nil_append, number, if_neg (show (0x30 : UInt8) ≠ 0x2d by decide),
      if_true, hnd, Bool.and_false, Bool.false_eq_true, if_false, hfrac]
  · have hm : d ≠ 0x2d := by
      rintro rfl
      exact absurd h1 (by decide)
    have h0 : d ≠ 0x30 := by
      rintro rfl
      exact absurd h1 (by decide)
    simp only [List.cons_append, number, if_neg hm, if_neg h0, if_pos (And.intro h1 h2),
      dropDigits hds hnd, hfrac]

lemma digits1_ne_fault (s : List UInt8) : digits1 s ≠ .fault := by
  unfold digits1; split_ifs <;> simp

lemma exponentPart_ne_fault (s : List UInt8) : exponentPart s ≠ .fault := by
  unfold exponentPart
  split
  · simp
  · split_ifs
    · split
      · split_ifs <;> exact digits1_ne_fault _
      · exact digits1_ne_fault _
    · simp

lemma fractionPart_ne_fault (s : List UInt8) : fractionPart s ≠ .fault := by
  unfold fractionPart
  split
  · exact exponentPart_ne_fault _
  · split_ifs
    · exact Outcome.bind_ne_fault (digits1_ne_fault _) fun _ _ => exponentPart_ne_fault _
    · exact exponentPart_ne_fault _

theorem number_ne_fault (z : Bool) (s : List UInt8) : number z s ≠ .fault := by
  cases s with
  | nil => simp [number]
  | cons b s =>
    simp only [number]
    cases (if b = 0x2d then s else b :: s) with
    | nil => simp
    | cons c s =>
      simp only
      split_ifs <;> first | exact fractionPart_ne_fault _ | simp

/-! ## Strings without a sink -/

lemma piece_scalar {p : List UInt8} {c : ℕ} (h : Piece p c) : Scalar c := by
  cases h with
  | plain _ h80 =>
    have := UInt8.lt_iff_toNat_lt.mp h80
    unfold Scalar
    simp only [UInt8.reduceToNat] at this
    omega
  | utf8 _ hs => exact hs
  | escape hd =>
    have := UInt8.lt_iff_toNat_lt.mp (simpleEscape_ascii hd).2.2
    unfold Scalar
    simp only [UInt8.reduceToNat] at this
    omega
  | unicode _ hv => exact hv
  | surrogates _ _ h1 h2 h3 h4 =>
    unfold Scalar surrogatePair
    omega

lemma stringBody_scalar {t : List UInt8} {s : List ℕ} (h : StringBody t s) :
    ∀ c ∈ s, Scalar c := by
  induction h with
  | nil => simp
  | cons hp _ ih =>
    intro c hc
    rcases List.mem_cons.mp hc with rfl | hc
    · exact piece_scalar hp
    · exact ih c hc

lemma stringText_scalar {t : List UInt8} {s : List ℕ} (h : StringText t s) : ∀ c ∈ s, Scalar c := by
  obtain ⟨body, -, hb⟩ := h
  exact stringBody_scalar hb

@[simp] lemma skipSink_bytes (d : Dialect) (bs : List UInt8) (u : Unit) :
    (skipSink d).bytes bs u = .ok () := by
  induction bs with
  | nil => rfl
  | cons b bs ih => simpa [Sink.bytes, skipSink] using ih

lemma skipSink_feed (d : Dialect) {s : List ℕ} (hs : ∀ c ∈ s, Scalar c) :
    (skipSink d).feed s () = if d.nulAllowed || !s.contains 0 then .ok () else .reject := by
  induction s with
  | nil => simp [Sink.feed]
  | cons c s ih =>
    have ih' := ih fun x hx => hs x (by simp [hx])
    by_cases hc : c = 0
    · subst hc
      cases hd : d.nulAllowed <;> simp [Sink.feed, Sink.codepoint, skipSink, hd]
      simpa [skipSink, hd] using ih'
    · have h0 : ((0 : ℕ) == c) = false := by simpa using fun h : 0 = c => hc h.symm
      simp only [Sink.feed, codepoint_scalar _ hc (hs c (by simp)), skipSink_bytes,
        Outcome.ok_bind, ih', List.contains_cons, h0, Bool.false_or]

/-- A skipped string is a string text, without NUL where the dialect refuses it. -/
theorem skipString_sound {d : Dialect} {s rest : List UInt8} (h : skipString d s = .ok rest) :
    ∃ t cps, s = t ++ rest ∧ StringText t cps ∧
      (d.nulAllowed = true ∨ cps.contains 0 = false) := by
  obtain ⟨⟨u, r⟩, hs, h'⟩ := Outcome.bind_eq_ok.mp h
  obtain rfl : r = rest := by simpa using h'
  obtain ⟨t, cps, rfl, ht, hf⟩ := string_sound _ hs
  refine ⟨t, cps, rfl, ht, ?_⟩
  rw [skipSink_feed d (stringText_scalar ht)] at hf
  cases hd : d.nulAllowed with
  | true => exact .inl rfl
  | false =>
    cases hc : cps.contains 0 with
    | false => exact .inr rfl
    | true => simp only [hd, hc, Bool.not_true, Bool.or_self, Bool.false_eq_true, if_false,
        reduceCtorEq] at hf

theorem skipString_complete {d : Dialect} {t : List UInt8} {cps : List ℕ} (ht : StringText t cps)
    (hn : d.nulAllowed = true ∨ cps.contains 0 = false) (rest : List UInt8) :
    skipString d (t ++ rest) = .ok rest := by
  have hok : (d.nulAllowed || !cps.contains 0) = true := by
    rcases hn with hn | hn <;> rw [hn] <;> simp
  simp only [skipString, string_complete _ ht, skipSink_feed d (stringText_scalar ht), hok,
    if_true, Outcome.ok_bind]

/-- A sink that never faults as long as `I` holds, and keeps `I`. -/
structure Sink.Safe {σ : Type} (k : Sink σ) (I : σ → Prop) : Prop where
  byte : ∀ b o, I o → ∃ o', k.byte b o = .ok o' ∧ I o'
  nul : ∀ o, I o → k.nul o ≠ .fault ∧ ∀ o', k.nul o = .ok o' → I o'

section
variable {σ : Type} {k : Sink σ} {I : σ → Prop}

lemma Sink.Safe.bytes (hk : k.Safe I) (bs : List UInt8) {o : σ} (ho : I o) :
    ∃ o', k.bytes bs o = .ok o' ∧ I o' := by
  induction bs generalizing o with
  | nil => exact ⟨o, rfl, ho⟩
  | cons b bs ih =>
    obtain ⟨o1, h1, ho1⟩ := hk.byte b o ho
    obtain ⟨o2, h2, ho2⟩ := ih ho1
    exact ⟨o2, by simp [Sink.bytes, h1, h2], ho2⟩

lemma Sink.Safe.codepoint (hk : k.Safe I) (c : ℕ) {o : σ} (ho : I o) :
    k.codepoint c o ≠ .fault ∧ ∀ o', k.codepoint c o = .ok o' → I o' := by
  unfold Sink.codepoint
  split_ifs with hc
  · exact hk.nul o ho
  · refine ⟨Outcome.bind_ne_fault (codepointBytes_ne_fault c) fun bs _ => ?_, fun o' h => ?_⟩
    · obtain ⟨o1, h1, -⟩ := hk.bytes bs ho
      simp [h1]
    · obtain ⟨bs, -, h⟩ := Outcome.bind_eq_ok.mp h
      obtain ⟨o1, h1, ho1⟩ := hk.bytes bs ho
      obtain rfl : o1 = o' := by simpa [h1] using h
      exact ho1

lemma stringStep_ne_fault (hk : k.Safe I) {c : UInt8} (rest : List UInt8) {o : σ} (ho : I o) :
    stringStep k c rest o ≠ .fault := by
  unfold stringStep
  split_ifs
  · simp
  · obtain ⟨o1, h1, -⟩ := hk.byte c o ho
    simp [h1]
  · refine Outcome.bind_ne_fault (rawUtf8_ne_fault c rest) ?_
    rintro ⟨enc, r⟩ -
    obtain ⟨o1, h1, -⟩ := hk.bytes enc ho
    simp [h1]
  · cases rest with
    | nil => simp
    | cons e rest =>
      simp only
      cases simpleEscape e with
      | some d =>
        obtain ⟨o1, h1, -⟩ := hk.byte d o ho
        simp [h1]
      | none =>
        simp only
        split_ifs
        · refine Outcome.bind_ne_fault (unicodeEscape_ne_fault rest) ?_
          rintro ⟨cp, r⟩ -
          exact Outcome.bind_ne_fault (hk.codepoint cp ho).1 fun _ _ => by simp
        · simp

lemma stringLoop_ne_fault (hk : k.Safe I) {fuel : ℕ} {s : List UInt8} {o : σ}
    (hf : s.length < fuel) (ho : I o) : stringLoop k fuel s o ≠ .fault := by
  induction fuel generalizing s o with
  | zero => simp at hf
  | succ fuel ih =>
    cases s with
    | nil => simp [stringLoop]
    | cons c s =>
      simp only [stringLoop]
      split_ifs with hq
      · simp
      · refine Outcome.bind_ne_fault (stringStep_ne_fault hk s ho) ?_
        rintro ⟨o1, r⟩ hstep
        obtain ⟨p, cp, hp, heq, hcp⟩ := stringStep_sound k hq hstep
        obtain ⟨c', t, rfl, -, -⟩ := stringStep_complete k hp
        have hlen := congrArg List.length heq
        simp only [List.length_cons, List.length_append] at hlen hf
        exact ih (show r.length < fuel by omega) ((hk.codepoint cp ho).2 o1 hcp)

theorem string_ne_fault (hk : k.Safe I) (s : List UInt8) {o : σ} (ho : I o) :
    string k s o ≠ .fault :=
  Outcome.bind_ne_fault (expect_ne_fault _ _) fun _ _ => stringLoop_ne_fault hk (by omega) ho

end

lemma skipSink_safe (d : Dialect) : (skipSink d).Safe fun _ => True where
  byte _ _ _ := ⟨(), rfl, trivial⟩
  nul _ _ := by cases hd : d.nulAllowed <;> simp [skipSink, hd]

theorem skipString_ne_fault (d : Dialect) (s : List UInt8) : skipString d s ≠ .fault :=
  Outcome.bind_ne_fault (string_ne_fault (skipSink_safe d) s trivial) fun _ _ => by simp

/-! ## Values -/

/-- The value has no NUL code point, or the dialect does not mind. -/
def Allowed (d : Dialect) (nul : Bool) : Prop := d.nulAllowed = true ∨ nul = false

lemma allowed_or {d : Dialect} {a b : Bool} :
    Allowed d (a || b) ↔ Allowed d a ∧ Allowed d b := by
  unfold Allowed
  cases a <;> cases b <;> simp

lemma separator_close {close : UInt8} {s rest : List UInt8}
    (h : separator close s = .ok (true, rest)) : s = close :: rest := by
  cases s with
  | nil => simp [separator] at h
  | cons b s =>
    simp only [separator] at h
    split_ifs at h with h1
    · simp only [Outcome.ok.injEq, Prod.mk.injEq, true_and] at h
      rw [h1, h]
    · simp at h

lemma separator_comma {close : UInt8} {s rest : List UInt8}
    (h : separator close s = .ok (false, rest)) : ∃ a, Ws a ∧ s = comma :: (a ++ rest) := by
  cases s with
  | nil => simp [separator] at h
  | cons b s =>
    simp only [separator] at h
    split_ifs at h with h1 h2
    · simp at h
    · simp only [Outcome.ok.injEq, Prod.mk.injEq, true_and] at h
      obtain ⟨a, ha, heq, -⟩ := whitespace_split s
      exact ⟨a, ha, by rw [h2, ← h, ← heq]⟩

lemma separator_ne_fault (close : UInt8) (s : List UInt8) : separator close s ≠ .fault := by
  cases s with
  | nil => simp [separator]
  | cons b s => simp only [separator]; split_ifs <;> simp

/-- What the three skipping functions accept with `fuel`. -/
structure SkipSound (d : Dialect) (fuel : ℕ) : Prop where
  value : ∀ depth s rest, skipValue d fuel depth s = .ok rest →
    ∃ t v, s = t ++ rest ∧ ValueText t v ∧ depth + v.depth ≤ depthMax ∧ Allowed d v.hasNul
  members : ∀ depth s rest, skipMembers d fuel depth s = .ok rest →
    ∃ t ms, s = t ++ rbrace :: rest ∧ MembersText t ms ∧ depth + depthMembers ms ≤ depthMax ∧
      Allowed d (hasNulMembers ms)
  items : ∀ depth s rest, skipItems d fuel depth s = .ok rest →
    ∃ t vs, s = t ++ rbracket :: rest ∧ ItemsText t vs ∧ depth + depthItems vs ≤ depthMax ∧
      Allowed d (hasNulItems vs)

lemma skipMembers_sound_step {d : Dialect} {fuel : ℕ} (ih : SkipSound d fuel) {depth : ℕ}
    {s rest : List UInt8} (h : skipMembers d (fuel + 1) depth s = .ok rest) :
    ∃ t ms, s = t ++ rbrace :: rest ∧ MembersText t ms ∧ depth + depthMembers ms ≤ depthMax ∧
      Allowed d (hasNulMembers ms) := by
  simp only [skipMembers] at h
  obtain ⟨s1, h1, h⟩ := Outcome.bind_eq_ok.mp h
  obtain ⟨s2, h2, h⟩ := Outcome.bind_eq_ok.mp h
  obtain ⟨s3, h3, h⟩ := Outcome.bind_eq_ok.mp h
  obtain ⟨⟨closed, s4⟩, h4, h⟩ := Outcome.bind_eq_ok.mp h
  obtain ⟨k, key, rfl, hk, hkn⟩ := skipString_sound h1
  obtain ⟨a, ha, hs1, -⟩ := whitespace_split s1
  rw [expect_eq_ok.mp h2] at hs1
  obtain ⟨b, hb, hs2, -⟩ := whitespace_split s2
  obtain ⟨t, v, hs2', ht, hdep, hvn⟩ := ih.value _ _ _ h3
  rw [hs2'] at hs2
  obtain ⟨c, hc, hs3, -⟩ := whitespace_split s3
  cases closed with
  | true =>
    obtain rfl : s4 = rest := by simpa using h
    rw [separator_close h4] at hs3
    refine ⟨_, _, ?_, .one hk ha hb ht hc, by simp only [depthMembers]; omega, ?_⟩
    · simp only [hs1, hs2, hs3, List.append_assoc, List.cons_append]
    · simp only [hasNulMembers, Bool.or_false, allowed_or]
      exact ⟨hkn, hvn⟩
  | false =>
    obtain ⟨e, he, hsep⟩ := separator_comma h4
    obtain ⟨u, ms, rfl, hu, hud, hun⟩ := ih.members _ _ _ h
    rw [hsep] at hs3
    refine ⟨_, _, ?_, .cons hk ha hb ht hc he hu, by simp only [depthMembers]; omega, ?_⟩
    · simp only [hs1, hs2, hs3, List.append_assoc, List.cons_append]
    · simp only [hasNulMembers, allowed_or]
      exact ⟨⟨hkn, hvn⟩, hun⟩

lemma skipItems_sound_step {d : Dialect} {fuel : ℕ} (ih : SkipSound d fuel) {depth : ℕ}
    {s rest : List UInt8} (h : skipItems d (fuel + 1) depth s = .ok rest) :
    ∃ t vs, s = t ++ rbracket :: rest ∧ ItemsText t vs ∧ depth + depthItems vs ≤ depthMax ∧
      Allowed d (hasNulItems vs) := by
  simp only [skipItems] at h
  obtain ⟨s1, h1, h⟩ := Outcome.bind_eq_ok.mp h
  obtain ⟨⟨closed, s2⟩, h2, h⟩ := Outcome.bind_eq_ok.mp h
  obtain ⟨t, v, rfl, ht, hdep, hvn⟩ := ih.value _ _ _ h1
  obtain ⟨a, ha, hs1, -⟩ := whitespace_split s1
  cases closed with
  | true =>
    obtain rfl : s2 = rest := by simpa using h
    rw [separator_close h2] at hs1
    refine ⟨_, _, ?_, .one ht ha, by simp only [depthItems]; omega, ?_⟩
    · simp only [hs1, List.append_assoc]
    · simpa only [hasNulItems, Bool.or_false] using hvn
  | false =>
    obtain ⟨b, hb, hsep⟩ := separator_comma h2
    obtain ⟨u, vs, rfl, hu, hud, hun⟩ := ih.items _ _ _ h
    rw [hsep] at hs1
    refine ⟨_, _, ?_, .cons ht ha hb hu, by simp only [depthItems]; omega, ?_⟩
    · simp only [hs1, List.append_assoc, List.cons_append]
    · simp only [hasNulItems, allowed_or]
      exact ⟨hvn, hun⟩

/-- The shared head of `parser_skip_object` and `parser_skip_array`. -/
lemma openBracket_sound {close : UInt8} {loop : List UInt8 → Outcome (List UInt8)}
    {s rest : List UInt8}
    (h : (match whitespace s with
      | [] => loop []
      | b :: s' => if b = close then .ok s' else loop (b :: s')) = .ok rest) :
    ∃ a, Ws a ∧ (s = a ++ close :: rest ∨ ∃ s', s = a ++ s' ∧ loop s' = .ok rest) := by
  obtain ⟨a, ha, hs, -⟩ := whitespace_split s
  refine ⟨a, ha, ?_⟩
  cases hw : whitespace s with
  | nil =>
    rw [hw] at h hs
    exact .inr ⟨[], hs, h⟩
  | cons b s' =>
    rw [hw] at h hs
    simp only at h
    split_ifs at h with hb
    · obtain rfl : s' = rest := by simpa using h
      exact .inl (by rw [hs, hb])
    · exact .inr ⟨b :: s', hs, h⟩

lemma skipValue_sound_step {d : Dialect} {fuel : ℕ} (ih : SkipSound d fuel) {depth : ℕ}
    {s rest : List UInt8} (h : skipValue d (fuel + 1) depth s = .ok rest) :
    ∃ t v, s = t ++ rest ∧ ValueText t v ∧ depth + v.depth ≤ depthMax ∧ Allowed d v.hasNul := by
  simp only [skipValue] at h
  split_ifs at h with hdep
  have hdep' : depth ≤ depthMax := by omega
  cases s with
  | nil => simp at h
  | cons c s =>
    simp only at h
    split_ifs at h with hq hbrace hbracket ht hf hn
    · obtain ⟨t, cps, heq, ht, hnul⟩ := skipString_sound h
      exact ⟨t, _, heq, .string ht, by simpa [Value.depth] using hdep', hnul⟩
    · obtain ⟨a, ha, hs | ⟨s', rfl, hloop⟩⟩ := openBracket_sound h
      · exact ⟨_, _, by rw [hs, hbrace, List.cons_append, List.append_assoc]; rfl, .emptyObject ha,
          by simpa [Value.depth, depthMembers] using hdep', .inr rfl⟩
      · obtain ⟨t, ms, rfl, htxt, hd, hnul⟩ := ih.members _ _ _ hloop
        exact ⟨_, _, by rw [hbrace]; simp, .object ha htxt, hd, hnul⟩
    · obtain ⟨a, ha, hs | ⟨s', rfl, hloop⟩⟩ := openBracket_sound h
      · exact ⟨_, _, by rw [hs, hbracket, List.cons_append, List.append_assoc]; rfl, .emptyArray ha,
          by simpa [Value.depth, depthItems] using hdep', .inr rfl⟩
      · obtain ⟨t, vs, rfl, htxt, hd, hnul⟩ := ih.items _ _ _ hloop
        exact ⟨_, _, by rw [hbracket]; simp, .array ha htxt, hd, hnul⟩
    · exact ⟨_, _, literal_eq_ok.mp h, .bool true, by simpa [Value.depth] using hdep', .inr rfl⟩
    · exact ⟨_, _, literal_eq_ok.mp h, .bool false, by simpa [Value.depth] using hdep', .inr rfl⟩
    · exact ⟨_, _, literal_eq_ok.mp h, .null, by simpa [Value.depth] using hdep', .inr rfl⟩
    · obtain ⟨t, heq, htxt⟩ := number_sound h
      exact ⟨t, _, heq, .number htxt, by simpa [Value.depth] using hdep', .inr rfl⟩

theorem skip_sound (d : Dialect) (fuel : ℕ) : SkipSound d fuel := by
  induction fuel with
  | zero =>
    constructor <;> intro depth s rest h
    · simp [skipValue] at h
    · simp [skipMembers] at h
    · simp [skipItems] at h
  | succ fuel ih =>
    exact ⟨fun _ _ _ h => skipValue_sound_step ih h, fun _ _ _ h => skipMembers_sound_step ih h,
      fun _ _ _ h => skipItems_sound_step ih h⟩

/-! ### Completeness -/

/-- A text that follows a value inside an array or object: whitespace and a structural byte. -/
lemma numberEnd_ws {a s : List UInt8} (ha : Ws a) (hs : NumberEnd s) : NumberEnd (a ++ s) := by
  cases a with
  | nil => exact hs
  | cons b a =>
    have hb : isWs b = true := ha b (by simp)
    simp only [isWs, Bool.or_eq_true, beq_iff_eq] at hb
    rw [List.cons_append, numberEnd_cons]
    rcases hb with ((rfl | rfl) | rfl) | rfl <;> decide

lemma stringText_head {k : List UInt8} {s : List ℕ} (h : StringText k s) :
    ∃ k', k = quote :: k' := by
  obtain ⟨body, rfl, -⟩ := h
  exact ⟨_, rfl⟩

lemma numberText_head {t : List UInt8} (h : NumberText t) :
    ∃ b t', t = b :: t' ∧ (b = 0x2d ∨ (0x30 ≤ b ∧ b ≤ 0x39)) := by
  obtain ⟨sign, int, frac, exp, rfl, hs, hi, -, -⟩ := h
  rcases hs with rfl | rfl
  · rcases hi with rfl | ⟨d, ds, rfl, h1, h2, -⟩
    · exact ⟨_, _, rfl, .inr (by decide)⟩
    · exact ⟨_, _, rfl, .inr ⟨UInt8.le_trans (by decide) h1, h2⟩⟩
  · exact ⟨_, _, rfl, .inl rfl⟩

/-- The first byte of a value is not whitespace and not a closing bracket. -/
lemma valueText_head {t : List UInt8} {v : Value} (h : ValueText t v) :
    ∃ b t', t = b :: t' ∧ isWs b = false ∧ b ≠ rbracket := by
  cases h with
  | null => exact ⟨_, _, rfl, by decide, by decide⟩
  | bool b => cases b <;> exact ⟨_, _, rfl, by decide, by decide⟩
  | number ht =>
    obtain ⟨b, t', rfl, hb⟩ := numberText_head ht
    refine ⟨b, t', rfl, ?_⟩
    rcases hb with rfl | ⟨h1, h2⟩
    · decide
    · constructor
      · by_contra hw
        simp only [isWs, Bool.not_eq_false, Bool.or_eq_true, beq_iff_eq] at hw
        rcases hw with ((rfl | rfl) | rfl) | rfl <;> exact absurd h1 (by decide)
      · rintro rfl
        exact absurd h2 (by decide)
  | string ht =>
    obtain ⟨k', rfl⟩ := stringText_head ht
    exact ⟨_, _, rfl, by decide, by decide⟩
  | emptyArray _ => exact ⟨_, _, rfl, by decide, by decide⟩
  | array _ _ => exact ⟨_, _, rfl, by decide, by decide⟩
  | emptyObject _ => exact ⟨_, _, rfl, by decide, by decide⟩
  | object _ _ => exact ⟨_, _, rfl, by decide, by decide⟩

lemma valueText_notWs {t : List UInt8} {v : Value} (h : ValueText t v) (rest : List UInt8) :
    NotWs (t ++ rest) := by
  obtain ⟨b, t', rfl, hb, -⟩ := valueText_head h
  exact notWs_cons.mpr hb

lemma membersText_head {t : List UInt8} {ms : List (List ℕ × Value)} (h : MembersText t ms) :
    ∃ t', t = quote :: t' := by
  cases h with
  | one hk => obtain ⟨k', rfl⟩ := stringText_head hk; exact ⟨_, rfl⟩
  | cons hk => obtain ⟨k', rfl⟩ := stringText_head hk; exact ⟨_, rfl⟩

lemma itemsText_head {t : List UInt8} {vs : List Value} (h : ItemsText t vs) :
    ∃ b t', t = b :: t' ∧ isWs b = false ∧ b ≠ rbracket := by
  cases h with
  | one ht => obtain ⟨b, t', rfl, hb⟩ := valueText_head ht; exact ⟨b, _, rfl, hb⟩
  | cons ht => obtain ⟨b, t', rfl, hb⟩ := valueText_head ht; exact ⟨b, _, rfl, hb⟩

lemma separator_of_close {a : List UInt8} (ha : Ws a) {close : UInt8} (hc : isWs close = false)
    (rest : List UInt8) :
    separator close (whitespace (a ++ close :: rest)) = .ok (true, rest) := by
  rw [whitespace_append ha (notWs_cons.mpr hc)]
  simp [separator]

lemma separator_of_comma {a b : List UInt8} (ha : Ws a) (hb : Ws b) {close : UInt8}
    (hc : comma ≠ close) {rest : List UInt8} (hr : NotWs rest) :
    separator close (whitespace (a ++ comma :: (b ++ rest))) = .ok (false, rest) := by
  rw [whitespace_append ha (notWs_cons.mpr (by decide))]
  simp [separator, hc, whitespace_append hb hr]

/-- Every value text of at most `n` bytes within the limits is skipped. -/
def ValueComplete (d : Dialect) (n : ℕ) : Prop :=
  ∀ {t v}, ValueText t v → t.length ≤ n → ∀ {fuel depth rest}, 2 * t.length + 1 ≤ fuel →
    depth + v.depth ≤ depthMax → Allowed d v.hasNul → NumberEnd rest →
    skipValue d fuel depth (t ++ rest) = .ok rest

/-- The same for the three kinds of texts. -/
structure SkipComplete (d : Dialect) (n : ℕ) : Prop where
  value : ValueComplete d n
  members : ∀ {t ms}, MembersText t ms → t.length ≤ n → ∀ {fuel depth rest},
    2 * t.length + 2 ≤ fuel → depth + depthMembers ms ≤ depthMax →
    Allowed d (hasNulMembers ms) → skipMembers d fuel depth (t ++ rbrace :: rest) = .ok rest
  items : ∀ {t vs}, ItemsText t vs → t.length ≤ n → ∀ {fuel depth rest},
    2 * t.length + 2 ≤ fuel → depth + depthItems vs ≤ depthMax →
    Allowed d (hasNulItems vs) → skipItems d fuel depth (t ++ rbracket :: rest) = .ok rest

/-- One pass of the object loop over a key and its value. -/
lemma skipMembers_pass {d : Dialect} {n fuel depth : ℕ} (ih : SkipComplete d n)
    {k a b t s : List UInt8} {key : List ℕ} {v : Value} (hk : StringText k key)
    (hkn : Allowed d (key.contains 0)) (ha : Ws a) (hb : Ws b) (ht : ValueText t v)
    (htn : t.length ≤ n) (hf : 2 * t.length + 1 ≤ fuel) (hd : depth + 1 + v.depth ≤ depthMax)
    (hvn : Allowed d v.hasNul) (hs : NumberEnd s) :
    skipMembers d (fuel + 1) depth (k ++ (a ++ colon :: (b ++ (t ++ s)))) =
      (separator rbrace (whitespace s) >>= fun r =>
        if r.1 then .ok r.2 else skipMembers d fuel depth r.2) := by
  have hcolon : NotWs (colon :: (b ++ (t ++ s))) := notWs_cons.mpr (by decide)
  simp only [skipMembers, skipString_complete hk hkn, Outcome.ok_bind,
    whitespace_append ha hcolon, expect_cons, whitespace_append hb (valueText_notWs ht s),
    ih.value ht htn hf hd hvn hs]

lemma skipItems_pass {d : Dialect} {n fuel depth : ℕ} (hval : ValueComplete d n)
    {t s : List UInt8} {v : Value} (ht : ValueText t v)
    (htn : t.length ≤ n) (hf : 2 * t.length + 1 ≤ fuel) (hd : depth + 1 + v.depth ≤ depthMax)
    (hvn : Allowed d v.hasNul) (hs : NumberEnd s) :
    skipItems d (fuel + 1) depth (t ++ s) =
      (separator rbracket (whitespace s) >>= fun r =>
        if r.1 then .ok r.2 else skipItems d fuel depth r.2) := by
  simp only [skipItems, hval ht htn hf hd hvn hs, Outcome.ok_bind]

lemma skipMembers_complete_step {d : Dialect} {n : ℕ} (ih : SkipComplete d n) {t : List UInt8}
    {ms : List (List ℕ × Value)} (h : MembersText t ms) (hn : t.length ≤ n + 1)
    {fuel depth : ℕ} {rest : List UInt8} (hf : 2 * t.length + 2 ≤ fuel)
    (hd : depth + depthMembers ms ≤ depthMax) (hnul : Allowed d (hasNulMembers ms)) :
    skipMembers d fuel depth (t ++ rbrace :: rest) = .ok rest := by
  obtain ⟨fuel, rfl⟩ := Nat.exists_eq_add_one_of_ne_zero (by omega : fuel ≠ 0)
  have hclose : NumberEnd (rbrace :: rest) := numberEnd_cons.mpr (by decide)
  have hcomma : ∀ s, NumberEnd (comma :: s) := fun s => numberEnd_cons.mpr (by decide)
  cases h with
  | @one k a b t c key v hk ha hb ht hc =>
    simp only [List.length_append, List.length_cons] at hn hf
    simp only [depthMembers, hasNulMembers, Bool.or_false, allowed_or] at hd hnul
    simp only [List.append_assoc, List.cons_append]
    rw [skipMembers_pass ih hk hnul.1 ha hb ht (by omega) (by omega) (by omega) hnul.2
      (numberEnd_ws hc hclose), separator_of_close hc (by decide)]
    simp
  | @cons k a b t c e u key v ms hk ha hb ht hc he hu =>
    simp only [List.length_append, List.length_cons] at hn hf
    simp only [depthMembers, hasNulMembers, allowed_or] at hd hnul
    obtain ⟨u', rfl⟩ := membersText_head hu
    simp only [List.append_assoc, List.cons_append]
    rw [skipMembers_pass ih hk hnul.1.1 ha hb ht (by omega) (by omega) (by omega) hnul.1.2
      (numberEnd_ws hc (hcomma _)),
      separator_of_comma hc he (by decide) (notWs_cons.mpr (by decide))]
    simp only [Outcome.ok_bind, Bool.false_eq_true, if_false]
    exact ih.members hu (by omega) (by omega) (by omega) hnul.2

lemma skipItems_complete_step {d : Dialect} {n : ℕ} (ih : SkipComplete d n)
    (hval : ValueComplete d (n + 1)) {t : List UInt8} {vs : List Value} (h : ItemsText t vs)
    (hn : t.length ≤ n + 1) {fuel depth : ℕ} {rest : List UInt8} (hf : 2 * t.length + 2 ≤ fuel)
    (hd : depth + depthItems vs ≤ depthMax) (hnul : Allowed d (hasNulItems vs)) :
    skipItems d fuel depth (t ++ rbracket :: rest) = .ok rest := by
  obtain ⟨fuel, rfl⟩ := Nat.exists_eq_add_one_of_ne_zero (by omega : fuel ≠ 0)
  have hclose : NumberEnd (rbracket :: rest) := numberEnd_cons.mpr (by decide)
  have hcomma : ∀ s, NumberEnd (comma :: s) := fun s => numberEnd_cons.mpr (by decide)
  cases h with
  | @one t a v ht ha =>
    simp only [List.length_append] at hn hf
    simp only [depthItems, hasNulItems, Bool.or_false] at hd hnul
    rw [List.append_assoc, skipItems_pass hval ht (by omega) (by omega) (by omega) hnul
      (numberEnd_ws ha hclose), separator_of_close ha (by decide)]
    simp
  | @cons t a b u v vs ht ha hb hu =>
    simp only [List.length_append, List.length_cons] at hn hf
    simp only [depthItems, hasNulItems, allowed_or] at hd hnul
    obtain ⟨c, u', rfl, hc, -⟩ := itemsText_head hu
    simp only [List.append_assoc, List.cons_append]
    rw [skipItems_pass hval ht (by omega) (by omega) (by omega) hnul.1
      (numberEnd_ws ha (hcomma _)), separator_of_comma ha hb (by decide) (notWs_cons.mpr hc)]
    simp only [Outcome.ok_bind, Bool.false_eq_true, if_false]
    exact ih.items hu (by omega) (by omega) (by omega) hnul.2

lemma whitespace_close {a : List UInt8} (ha : Ws a) {close : UInt8} (hc : isWs close = false)
    (rest : List UInt8) : whitespace (a ++ [close] ++ rest) = close :: rest := by
  simp only [List.append_assoc, List.cons_append, List.nil_append]
  exact whitespace_append ha (notWs_cons.mpr hc)

lemma skipValue_complete_step {d : Dialect} {n : ℕ} (ih : SkipComplete d n) :
    ValueComplete d (n + 1) := by
  intro t v h hn fuel depth rest hf hd hnul hrest
  obtain ⟨fuel, rfl⟩ := Nat.exists_eq_add_one_of_ne_zero (by omega : fuel ≠ 0)
  have hdep : ¬ depthMax < depth := by omega
  cases h with
  | null =>
    have hlit : literal nullText (nullText ++ rest) = .ok rest := literal_eq_ok.mpr rfl
    simp only [skipValue, if_neg hdep]
    exact hlit
  | bool b =>
    have hlit : literal (boolText b) (boolText b ++ rest) = .ok rest := literal_eq_ok.mpr rfl
    cases b <;> simp only [skipValue, if_neg hdep] <;> exact hlit
  | number ht =>
    have hnum : number d.zeroAlone (t ++ rest) = .ok rest := number_complete ht hrest
    obtain ⟨b, t', rfl, hb⟩ := numberText_head ht
    have hne : ∀ c : UInt8, c = quote ∨ 0x39 < c → b ≠ c := by
      rintro c hc rfl
      rcases hb with rfl | ⟨h1, h2⟩
      · revert hc; decide
      · rcases hc with rfl | hc
        · exact absurd h1 (by decide)
        · exact absurd h2 (UInt8.not_le.mpr hc)
    simp only [skipValue, if_neg hdep, List.cons_append,
      if_neg (hne quote (.inl rfl)), if_neg (hne lbrace (.inr (by decide))),
      if_neg (hne lbracket (.inr (by decide))), if_neg (hne 0x74 (.inr (by decide))),
      if_neg (hne 0x66 (.inr (by decide))), if_neg (hne 0x6e (.inr (by decide)))]
    exact hnum
  | string ht =>
    have hstr : skipString d (t ++ rest) = .ok rest := skipString_complete ht hnul rest
    obtain ⟨k', rfl⟩ := stringText_head ht
    simp only [skipValue, if_neg hdep, List.cons_append, if_true]
    exact hstr
  | @emptyArray a ha =>
    simp only [skipValue, if_neg hdep, List.cons_append,
      if_neg (show lbracket ≠ quote by decide), if_neg (show lbracket ≠ lbrace by decide), if_true,
      whitespace_close ha (show isWs rbracket = false by decide)]
  | @array a u vs ha hu =>
    simp only [List.length_cons, List.length_append] at hn hf
    have hitems : skipItems d fuel depth (u ++ rbracket :: rest) = .ok rest :=
      ih.items hu (by omega) (by omega) hd hnul
    obtain ⟨c, u', rfl, hc, hcb⟩ := itemsText_head hu
    have hw : whitespace (a ++ (c :: (u' ++ rbracket :: rest))) = c :: (u' ++ rbracket :: rest) :=
      whitespace_append ha (notWs_cons.mpr hc)
    simp only [skipValue, if_neg hdep, List.cons_append, List.append_assoc, List.nil_append,
      if_neg (show lbracket ≠ quote by decide), if_neg (show lbracket ≠ lbrace by decide), if_true,
      hw, if_neg hcb]
    exact hitems
  | @emptyObject a ha =>
    simp only [skipValue, if_neg hdep, List.cons_append,
      if_neg (show lbrace ≠ quote by decide), if_true,
      whitespace_close ha (show isWs rbrace = false by decide)]
  | @object a u ms ha hu =>
    simp only [List.length_cons, List.length_append] at hn hf
    have hmembers : skipMembers d fuel depth (u ++ rbrace :: rest) = .ok rest :=
      ih.members hu (by omega) (by omega) hd hnul
    obtain ⟨u', rfl⟩ := membersText_head hu
    have hw : whitespace (a ++ (quote :: (u' ++ rbrace :: rest))) =
        quote :: (u' ++ rbrace :: rest) := whitespace_append ha (notWs_cons.mpr (by decide))
    simp only [skipValue, if_neg hdep, List.cons_append, List.append_assoc, List.nil_append,
      if_neg (show lbrace ≠ quote by decide), if_true, hw,
      if_neg (show quote ≠ rbrace by decide)]
    exact hmembers

theorem skip_complete (d : Dialect) (n : ℕ) : SkipComplete d n := by
  induction n with
  | zero =>
    refine ⟨?_, ?_, ?_⟩
    · intro t v h hn
      obtain ⟨b, t', rfl, -⟩ := valueText_head h
      simp at hn
    · intro t ms h hn
      obtain ⟨t', rfl⟩ := membersText_head h
      simp at hn
    · intro t vs h hn
      obtain ⟨b, t', rfl, -⟩ := itemsText_head h
      simp at hn
  | succ n ih =>
    have hval : ValueComplete d (n + 1) := @skipValue_complete_step d n ih
    exact ⟨hval, fun h hn _ _ _ hf hd hnul => skipMembers_complete_step ih h hn hf hd hnul,
      fun h hn _ _ _ hf hd hnul => skipItems_complete_step ih hval h hn hf hd hnul⟩

/-- A value text within the limits is skipped, whatever follows it that cannot continue it. -/
theorem skipValue_complete {d : Dialect} {t : List UInt8} {v : Value} (h : ValueText t v)
    {fuel depth : ℕ} {rest : List UInt8} (hf : 2 * t.length + 1 ≤ fuel)
    (hd : depth + v.depth ≤ depthMax) (hnul : Allowed d v.hasNul) (hrest : NumberEnd rest) :
    skipValue d fuel depth (t ++ rest) = .ok rest :=
  (skip_complete d t.length).value h le_rfl hf hd hnul hrest

/-! ### No fault -/

structure SkipSafe (d : Dialect) (fuel : ℕ) : Prop where
  value : ∀ depth s, 2 * s.length + 1 ≤ fuel → skipValue d fuel depth s ≠ .fault
  members : ∀ depth s, 2 * s.length + 2 ≤ fuel → skipMembers d fuel depth s ≠ .fault
  items : ∀ depth s, 2 * s.length + 2 ≤ fuel → skipItems d fuel depth s ≠ .fault

lemma whitespace_length (s : List UInt8) : (whitespace s).length ≤ s.length :=
  (List.dropWhile_sublist isWs).length_le

lemma separator_length {close : UInt8} {s rest : List UInt8} {closed : Bool}
    (h : separator close s = .ok (closed, rest)) : rest.length < s.length := by
  cases closed with
  | true => simp [separator_close h]
  | false =>
    obtain ⟨a, -, rfl⟩ := separator_comma h
    simp only [List.length_cons, List.length_append]
    omega

lemma openBracket_ne_fault {close : UInt8} {loop : List UInt8 → Outcome (List UInt8)}
    {s : List UInt8} (h : ∀ s', s'.length ≤ s.length → loop s' ≠ .fault) :
    (match whitespace s with
      | [] => loop []
      | b :: s' => if b = close then .ok s' else loop (b :: s')) ≠ .fault := by
  have hlen := whitespace_length s
  cases hw : whitespace s with
  | nil => exact h [] (by simp)
  | cons b s' =>
    simp only
    split_ifs
    · simp
    · exact h _ (by rwa [hw] at hlen)

theorem skip_safe (d : Dialect) (fuel : ℕ) : SkipSafe d fuel := by
  induction fuel with
  | zero => constructor <;> intro depth s hf <;> omega
  | succ fuel ih =>
    refine ⟨fun depth s hf => ?_, fun depth s hf => ?_, fun depth s hf => ?_⟩
    · simp only [skipValue]
      split_ifs
      · simp
      · cases s with
        | nil => simp
        | cons c s =>
          simp only [List.length_cons] at hf
          simp only
          split_ifs
          · exact skipString_ne_fault d _
          · exact openBracket_ne_fault fun s' hs' => ih.members _ _ (by omega)
          · exact openBracket_ne_fault fun s' hs' => ih.items _ _ (by omega)
          all_goals first | exact literal_ne_fault _ _ | exact number_ne_fault _ _
    · simp only [skipMembers]
      refine Outcome.bind_ne_fault (skipString_ne_fault d s) fun s1 h1 => ?_
      refine Outcome.bind_ne_fault (expect_ne_fault _ _) fun s2 h2 => ?_
      obtain ⟨k, key, rfl, -, -⟩ := skipString_sound h1
      have hw1 := whitespace_length s1
      rw [expect_eq_ok.mp h2] at hw1
      have hw2 := whitespace_length s2
      simp only [List.length_append, List.length_cons] at hf hw1
      refine Outcome.bind_ne_fault (ih.value _ _ (by omega)) fun s3 h3 => ?_
      obtain ⟨t, v, ht, -⟩ := (skip_sound d fuel).value _ _ _ h3
      have hlen := congrArg List.length ht
      have hw3 := whitespace_length s3
      rw [List.length_append] at hlen
      refine Outcome.bind_ne_fault (separator_ne_fault _ _) ?_
      rintro ⟨closed, s4⟩ h4
      have hsep := separator_length h4
      simp only
      split_ifs
      · simp
      · exact ih.members _ _ (by omega)
    · simp only [skipItems]
      refine Outcome.bind_ne_fault (ih.value _ _ (by omega)) fun s1 h1 => ?_
      obtain ⟨t, v, ht, -⟩ := (skip_sound d fuel).value _ _ _ h1
      have hlen := congrArg List.length ht
      have hw1 := whitespace_length s1
      rw [List.length_append] at hlen
      refine Outcome.bind_ne_fault (separator_ne_fault _ _) ?_
      rintro ⟨closed, s2⟩ h2
      have hsep := separator_length h2
      simp only
      split_ifs
      · simp
      · exact ih.items _ _ (by omega)

theorem skipValue_ne_fault (d : Dialect) (depth : ℕ) (s : List UInt8) :
    skipValue d (skipFuel s) depth s ≠ .fault :=
  (skip_safe d _).value depth s le_rfl

end EspVision.Json
