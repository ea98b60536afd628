import EspVision.JsonReader
import Mathlib.Data.List.TakeWhile

/-!
# The scanning functions read exactly the grammar

For each function of `JsonReader`: what it accepts is a text of the grammar followed
by the bytes it leaves, every such text is accepted with those bytes left, and no
input leads to a fault.
-/
namespace EspVision.Json

/-! ## Whitespace and literals -/

/-- The text does not begin with whitespace. -/
def NotWs (s : List UInt8) : Prop := ∀ b ∈ s.head?, isWs b = false

@[simp] theorem notWs_nil : NotWs [] := by simp [NotWs]

@[simp] theorem notWs_cons {b : UInt8} {s : List UInt8} : NotWs (b :: s) ↔ isWs b = false := by
  simp [NotWs]

theorem whitespace_eq {s : List UInt8} (h : NotWs s) : whitespace s = s := by
  cases s with
  | nil => rfl
  | cons b s => simp [whitespace, notWs_cons.mp h]

theorem whitespace_append {a s : List UInt8} (ha : Ws a) (hs : NotWs s) :
    whitespace (a ++ s) = s := by
  induction a with
  | nil => exact whitespace_eq hs
  | cons b a ih =>
    have hb : isWs b = true := ha b (by simp)
    have ha' : Ws a := fun x hx => ha x (by simp [hx])
    simpa [whitespace, List.dropWhile_cons, hb] using ih ha'

/-- Whitespace splits off a whitespace text. -/
theorem whitespace_split (s : List UInt8) :
    ∃ a, Ws a ∧ s = a ++ whitespace s ∧ NotWs (whitespace s) := by
  refine ⟨s.takeWhile isWs, fun b hb => List.mem_takeWhile_imp hb,
    (List.takeWhile_append_dropWhile).symm, ?_⟩
  intro b hb
  have h := List.head?_dropWhile_not isWs s
  simp only [Option.mem_def] at hb
  rw [whitespace] at hb
  simpa [hb] using h

theorem expect_eq_ok {b : UInt8} {s rest : List UInt8} :
    expect b s = .ok rest ↔ s = b :: rest := by
  cases s with
  | nil => simp [expect]
  | cons c s =>
    by_cases h : c = b <;> simp [expect, h]

@[simp] theorem expect_cons (b : UInt8) (rest : List UInt8) : expect b (b :: rest) = .ok rest := by
  simp [expect]

theorem expect_ne_fault (b : UInt8) (s : List UInt8) : expect b s ≠ .fault := by
  cases s with
  | nil => simp [expect]
  | cons c s => by_cases h : c = b <;> simp [expect, h]

theorem literal_eq_ok {text s rest : List UInt8} :
    literal text s = .ok rest ↔ s = text ++ rest := by
  unfold literal
  split_ifs with hl ht
  · refine ⟨fun h => by simp at h, ?_⟩
    rintro rfl
    simp at hl
  · refine ⟨fun h => by simp at h, ?_⟩
    rintro rfl
    simp at ht
  · simp only [Outcome.ok.injEq]
    rw [not_not] at ht
    constructor
    · rintro rfl
      conv_lhs => rw [← List.take_append_drop text.length s, ht]
    · rintro rfl
      simp

theorem literal_ne_fault (text s : List UInt8) : literal text s ≠ .fault := by
  unfold literal
  split_ifs <;> simp

/-! ## Hexadecimal escapes -/

lemma hexValue_lt {b : UInt8} {x : ℕ} (h : hexValue b = some x) : x < 16 := by
  simp only [hexValue, UInt8.le_iff_toNat_le] at h
  split_ifs at h with h1 h2 h3 <;> simp at h h1 <;> (try simp at h2) <;> (try simp at h3) <;> omega

lemma hexShift {v x : ℕ} (hv : v < 4096) (hx : x < 16) :
    (v <<< 4 ||| x) % 65536 = v * 16 + x := by
  rw [← Nat.shiftLeft_add_eq_or_of_lt (by simpa using hx), Nat.shiftLeft_eq]
  omega

lemma hex4_digits {a b c d : UInt8} {x y z w : ℕ} (ha : hexValue a = some x)
    (hb : hexValue b = some y) (hc : hexValue c = some z) (hd : hexValue d = some w)
    (s : List UInt8) :
    hex4 (a :: b :: c :: d :: s) = .ok (((x * 16 + y) * 16 + z) * 16 + w, s) := by
  have hx := hexValue_lt ha
  have hy := hexValue_lt hb
  have hz := hexValue_lt hc
  have hw := hexValue_lt hd
  have h0 := hexShift (show 0 < 4096 by omega) hx
  have h1 := hexShift (show 0 * 16 + x < 4096 by omega) hy
  have h2 := hexShift (show (0 * 16 + x) * 16 + y < 4096 by omega) hz
  have h3 := hexShift (show ((0 * 16 + x) * 16 + y) * 16 + z < 4096 by omega) hw
  have hl : ¬ (a :: b :: c :: d :: s).length < 4 := by simp
  simp only [hex4, if_neg hl, hexLoop, ha, hb, hc, hd, h0, h1, h2, h3]
  simp

theorem hex4_eq_ok {s rest : List UInt8} {v : ℕ} :
    hex4 s = .ok (v, rest) ↔ ∃ t, Hex4 t v ∧ s = t ++ rest := by
  constructor
  · intro h
    match s, h with
    | a :: b :: c :: d :: s, h =>
      cases ha : hexValue a with
      | none => simp [hex4, hexLoop, ha] at h
      | some x =>
        cases hb : hexValue b with
        | none => simp [hex4, hexLoop, ha, hb] at h
        | some y =>
          cases hc : hexValue c with
          | none => simp [hex4, hexLoop, ha, hb, hc] at h
          | some z =>
            cases hd : hexValue d with
            | none => simp [hex4, hexLoop, ha, hb, hc, hd] at h
            | some w =>
              rw [hex4_digits ha hb hc hd, Outcome.ok.injEq, Prod.mk.injEq] at h
              obtain ⟨rfl, rfl⟩ := h
              exact ⟨[a, b, c, d], ⟨a, b, c, d, x, y, z, w, rfl, ha, hb, hc, hd, rfl⟩, rfl⟩
    | [], h => simp [hex4] at h
    | [_], h => simp [hex4] at h
    | [_, _], h => simp [hex4] at h
    | [_, _, _], h => simp [hex4] at h
  · rintro ⟨t, ⟨a, b, c, d, x, y, z, w, rfl, ha, hb, hc, hd, rfl⟩, rfl⟩
    exact hex4_digits ha hb hc hd rest

theorem hex4_ne_fault (s : List UInt8) : hex4 s ≠ .fault := by
  match s with
  | a :: b :: c :: d :: s =>
    simp only [hex4, List.length_cons, show ¬ s.length + 1 + 1 + 1 + 1 < 4 by omega, if_false,
      hexLoop]
    cases hexValue a <;> simp
    cases hexValue b <;> simp
    cases hexValue c <;> simp
    cases hexValue d <;> simp
  | [] => simp [hex4]
  | [_] => simp [hex4]
  | [_, _] => simp [hex4]
  | [_, _, _] => simp [hex4]

lemma hex4_lt {t : List UInt8} {v : ℕ} (h : Hex4 t v) : v < 65536 := by
  obtain ⟨a, b, c, d, x, y, z, w, -, ha, hb, hc, hd, rfl⟩ := h
  have hx := hexValue_lt ha
  have hy := hexValue_lt hb
  have hz := hexValue_lt hc
  have hw := hexValue_lt hd
  omega

/-! ## UTF-8 -/

lemma continuation_iff (b : UInt8) : b &&& 0xc0 = 0x80 ↔ 0x80 ≤ b.toNat ∧ b.toNat < 0xc0 := by
  have h : ∀ v : BitVec 8, v &&& 0xc0#8 = 0x80#8 ↔ 0x80 ≤ v.toNat ∧ v.toNat < 0xc0 := by decide
  rw [← UInt8.toBitVec_inj]
  exact h b.toBitVec

lemma payload6 (b : UInt8) : (b &&& 0x3f).toNat = b.toNat % 64 := by
  rw [UInt8.toNat_and]
  exact Nat.and_two_pow_sub_one_eq_mod b.toNat 6

lemma payload5 (b : UInt8) : (b &&& 0x1f).toNat = b.toNat % 32 := by
  rw [UInt8.toNat_and]
  exact Nat.and_two_pow_sub_one_eq_mod b.toNat 5

lemma payload4 (b : UInt8) : (b &&& 0x0f).toNat = b.toNat % 16 := by
  rw [UInt8.toNat_and]
  exact Nat.and_two_pow_sub_one_eq_mod b.toNat 4

lemma payload3 (b : UInt8) : (b &&& 0x07).toNat = b.toNat % 8 := by
  rw [UInt8.toNat_and]
  exact Nat.and_two_pow_sub_one_eq_mod b.toNat 3

lemma shift6 (c x : ℕ) (hx : x < 64) : c <<< 6 ||| x = c * 64 + x := by
  rw [← Nat.shiftLeft_add_eq_or_of_lt (by simpa using hx), Nat.shiftLeft_eq]

/-- One trailing byte. -/
lemma trailLoop_cons {n c : ℕ} {encoded rest : List UInt8} {b : UInt8}
    (hb : 0x80 ≤ b.toNat ∧ b.toNat < 0xc0) :
    trailLoop (n + 1) c encoded (b :: rest) =
      trailLoop n (c * 64 + (b.toNat - 0x80)) (encoded ++ [b]) rest := by
  have hm : b.toNat % 64 = b.toNat - 0x80 := by omega
  simp only [trailLoop, ne_eq, (continuation_iff b).mpr hb, not_true_eq_false, if_false, payload6]
  rw [shift6 _ _ (Nat.mod_lt _ (by omega)), hm]

lemma trailLoop_ne_fault {n c : ℕ} {encoded s : List UInt8} (h : n ≤ s.length) :
    trailLoop n c encoded s ≠ .fault := by
  induction n generalizing c encoded s with
  | zero => simp [trailLoop]
  | succ n ih =>
    cases s with
    | nil => simp at h
    | cons b s =>
      simp only [trailLoop]
      split_ifs
      · simp
      · exact ih (by simpa using h)

lemma utf8Lead_eq_some {lead : UInt8} {payload n : ℕ} :
    utf8Lead lead = some (payload, n) ↔
      (n = 1 ∧ 0xc2 ≤ lead.toNat ∧ lead.toNat ≤ 0xdf ∧ payload = lead.toNat - 0xc0) ∨
        (n = 2 ∧ 0xe0 ≤ lead.toNat ∧ lead.toNat ≤ 0xef ∧ payload = lead.toNat - 0xe0) ∨
        (n = 3 ∧ 0xf0 ≤ lead.toNat ∧ lead.toNat ≤ 0xf4 ∧ payload = lead.toNat - 0xf0) := by
  simp only [utf8Lead, UInt8.le_iff_toNat_le, payload5, payload4, payload3, UInt8.reduceToNat]
  by_cases h1 : 0xc2 ≤ lead.toNat ∧ lead.toNat ≤ 0xdf
  · have hp : lead.toNat % 32 = lead.toNat - 0xc0 := by omega
    rw [if_pos h1, hp, Option.some.injEq, Prod.mk.injEq]
    constructor
    · rintro ⟨rfl, rfl⟩
      exact .inl ⟨rfl, h1.1, h1.2, rfl⟩
    · rintro (⟨hn, -, -, heq⟩ | ⟨-, h, -⟩ | ⟨-, h, -⟩)
      · exact ⟨heq.symm, hn.symm⟩
      all_goals omega
  by_cases h2 : 0xe0 ≤ lead.toNat ∧ lead.toNat ≤ 0xef
  · have hp : lead.toNat % 16 = lead.toNat - 0xe0 := by omega
    rw [if_neg h1, if_pos h2, hp, Option.some.injEq, Prod.mk.injEq]
    constructor
    · rintro ⟨rfl, rfl⟩
      exact .inr (.inl ⟨rfl, h2.1, h2.2, rfl⟩)
    · rintro (⟨-, h, h', -⟩ | ⟨hn, -, -, heq⟩ | ⟨-, h, -⟩)
      · exact absurd ⟨h, h'⟩ h1
      · exact ⟨heq.symm, hn.symm⟩
      · omega
  by_cases h3 : 0xf0 ≤ lead.toNat ∧ lead.toNat ≤ 0xf4
  · have hp : lead.toNat % 8 = lead.toNat - 0xf0 := by omega
    rw [if_neg h1, if_neg h2, if_pos h3, hp, Option.some.injEq, Prod.mk.injEq]
    constructor
    · rintro ⟨rfl, rfl⟩
      exact .inr (.inr ⟨rfl, h3.1, h3.2, rfl⟩)
    · rintro (⟨-, h, h', -⟩ | ⟨-, h, h', -⟩ | ⟨hn, -, -, heq⟩)
      · exact absurd ⟨h, h'⟩ h1
      · exact absurd ⟨h, h'⟩ h2
      · exact ⟨heq.symm, hn.symm⟩
  · rw [if_neg h1, if_neg h2, if_neg h3]
    constructor
    · rintro ⟨⟩
    · rintro (⟨-, h, h', -⟩ | ⟨-, h, h', -⟩ | ⟨-, h, h', -⟩)
      · exact absurd ⟨h, h'⟩ h1
      · exact absurd ⟨h, h'⟩ h2
      · exact absurd ⟨h, h'⟩ h3

lemma ofNat_eq_iff (b : UInt8) (n : ℕ) (hn : n < 256) : UInt8.ofNat n = b ↔ n = b.toNat := by
  rw [← UInt8.toNat_inj, UInt8.toNat_ofNat_of_lt' hn]

/-- The bytes of a code point of the two-byte range and above. -/
lemma utf8_ne_zero {c : ℕ} (hc : c ≠ 0) (hs : Scalar c) : ∀ b ∈ utf8 c, b ≠ 0 := by
  have key : ∀ n, 0 < n → n < 256 → UInt8.ofNat n ≠ 0 := by
    intro n h0 h1 h
    rw [ofNat_eq_iff _ _ h1] at h
    simp at h
    omega
  unfold Scalar at hs
  intro b hb
  unfold utf8 at hb
  split_ifs at hb <;> simp only [List.mem_cons, List.not_mem_nil, or_false] at hb
  · subst hb
    exact key _ (by omega) (by omega)
  · rcases hb with rfl | rfl <;> exact key _ (by omega) (by omega)
  · rcases hb with rfl | rfl | rfl <;> exact key _ (by omega) (by omega)
  · rcases hb with rfl | rfl | rfl | rfl <;> exact key _ (by omega) (by omega)

/-- The last `n` bytes of a code point. -/
def trailing : ℕ → ℕ → List UInt8
  | 0, _ => []
  | n + 1, c => UInt8.ofNat (0x80 + c / 64 ^ n % 64) :: trailing n c

lemma trailing_length (n c : ℕ) : (trailing n c).length = n := by
  induction n with
  | zero => rfl
  | succ n ih => rw [trailing, List.length_cons, ih]

lemma trailing_byte {b : UInt8} {v c : ℕ} : (UInt8.ofNat (0x80 + c % 64) = b ∧ c / 64 = v) ↔
    (0x80 ≤ b.toNat ∧ b.toNat < 0xc0) ∧ c = v * 64 + (b.toNat - 0x80) := by
  rw [ofNat_eq_iff _ _ (by omega)]
  constructor
  · rintro ⟨hb, rfl⟩
    omega
  · rintro ⟨hb, hc⟩
    omega

/-- The loop accepts just the trailing bytes of the code point that it returns. -/
lemma trailLoop_eq_ok {n v c : ℕ} {encoded s out rest : List UInt8} :
    trailLoop n v encoded s = .ok (c, out, rest) ↔
      s = trailing n c ++ rest ∧ out = encoded ++ trailing n c ∧ c / 64 ^ n = v := by
  induction n generalizing v encoded s with
  | zero =>
    simp only [trailLoop, trailing, Outcome.ok.injEq, Prod.mk.injEq, List.nil_append,
      List.append_nil, Nat.pow_zero, Nat.div_one]
    exact ⟨fun h => ⟨h.2.2, h.2.1.symm, h.1.symm⟩, fun h => ⟨h.2.2.symm, h.2.1.symm, h.1⟩⟩
  | succ n ih =>
    rw [trailing, Nat.pow_succ, ← Nat.div_div_eq_div_mul]
    cases s with
    | nil => simp [trailLoop]
    | cons b s =>
      rw [List.cons_append, List.cons.injEq]
      by_cases hb : 0x80 ≤ b.toNat ∧ b.toNat < 0xc0
      · rw [trailLoop_cons hb, ih, List.append_assoc]
        constructor
        · rintro ⟨rfl, rfl, hv⟩
          obtain ⟨rfl, hd⟩ := trailing_byte.mpr ⟨hb, hv⟩
          exact ⟨⟨rfl, rfl⟩, rfl, hd⟩
        · rintro ⟨⟨rfl, rfl⟩, rfl, hd⟩
          exact ⟨rfl, rfl, (trailing_byte.mp ⟨rfl, hd⟩).2⟩
      · constructor
        · intro h
          simp [trailLoop, mt (continuation_iff b).mp hb] at h
        · rintro ⟨⟨rfl, -⟩, -, hd⟩
          exact absurd (trailing_byte.mp ⟨rfl, hd⟩).1 hb

lemma utf8_two {c : ℕ} (h1 : 0x80 ≤ c) (h2 : c < 0x800) :
    utf8 c = UInt8.ofNat (0xc0 + c / 64 ^ 1) :: trailing 1 c := by
  rw [utf8, if_neg (Nat.not_lt.mpr h1), if_pos h2]
  simp [trailing]

lemma utf8_three {c : ℕ} (h1 : 0x800 ≤ c) (h2 : c < 0x10000) :
    utf8 c = UInt8.ofNat (0xe0 + c / 64 ^ 2) :: trailing 2 c := by
  rw [utf8, if_neg (by omega), if_neg (Nat.not_lt.mpr h1), if_pos h2]
  simp [trailing]

lemma utf8_four {c : ℕ} (h : 0x10000 ≤ c) :
    utf8 c = UInt8.ofNat (0xf0 + c / 64 ^ 3) :: trailing 3 c := by
  rw [utf8, if_neg (by omega), if_neg (by omega), if_neg (Nat.not_lt.mpr h)]
  simp [trailing]

/-- The final range check of `parser_raw_utf8`. -/
def RawRange (n c : ℕ) : Prop :=
  ¬ ((n = 1 ∧ c < 0x80) ∨ (n = 2 ∧ c < 0x800) ∨ (n = 3 ∧ c < 0x10000) ∨ 0x10ffff < c ∨
    (0xd800 ≤ c ∧ c ≤ 0xdfff))

lemma rawRange_iff {n c : ℕ} : RawRange n c ↔
    Scalar c ∧ (n = 1 → 0x80 ≤ c) ∧ (n = 2 → 0x800 ≤ c) ∧ (n = 3 → 0x10000 ≤ c) := by
  simp only [RawRange, Scalar, not_or, not_and, not_lt]
  tauto

lemma rawUtf8_of_trail {lead : UInt8} {rest rest' encoded : List UInt8} {payload n c : ℕ}
    (hl : utf8Lead lead = some (payload, n)) (hn : n ≤ rest.length)
    (ht : trailLoop n payload [lead] rest = .ok (c, encoded, rest')) (hc : RawRange n c) :
    rawUtf8 (lead :: rest) = .ok (encoded, rest') := by
  simp only [rawUtf8, hl, if_neg (Nat.not_lt.mpr hn), ht, Outcome.ok_bind, if_neg hc]

lemma trail_of_rawUtf8 {lead : UInt8} {rest rest' encoded : List UInt8}
    (h : rawUtf8 (lead :: rest) = .ok (encoded, rest')) :
    ∃ payload n c, utf8Lead lead = some (payload, n) ∧
      trailLoop n payload [lead] rest = .ok (c, encoded, rest') ∧ RawRange n c := by
  simp only [rawUtf8] at h
  cases hl : utf8Lead lead with
  | none => simp [hl] at h
  | some pn =>
    obtain ⟨payload, n⟩ := pn
    simp only [hl] at h
    split_ifs at h with hn
    obtain ⟨⟨c, enc, r⟩, ht, h⟩ := Outcome.bind_eq_ok.mp h
    by_cases hc : RawRange n c
    · rw [if_neg hc, Outcome.ok.injEq, Prod.mk.injEq] at h
      obtain ⟨rfl, rfl⟩ := h
      exact ⟨payload, n, c, rfl, ht, hc⟩
    · rw [if_pos (not_not.mp hc)] at h
      simp at h

/-- A raw multi-byte character is accepted exactly when it is the UTF-8 form of a scalar. -/
theorem rawUtf8_eq_ok {s rest encoded : List UInt8} :
    rawUtf8 s = .ok (encoded, rest) ↔
      ∃ c, 0x80 ≤ c ∧ Scalar c ∧ encoded = utf8 c ∧ s = utf8 c ++ rest := by
  constructor
  · intro h
    cases s with
    | nil => simp [rawUtf8] at h
    | cons lead s =>
    obtain ⟨payload, n, c, hl, ht, hc⟩ := trail_of_rawUtf8 h
    obtain ⟨hs, h80, h800, h10000⟩ := rawRange_iff.mp hc
    obtain ⟨rfl, rfl, rfl⟩ := trailLoop_eq_ok.mp ht
    have hu : 0x80 ≤ c ∧ utf8 c = lead :: trailing n c := by
      rcases utf8Lead_eq_some.mp hl with ⟨rfl, h1, h2, hp⟩ | ⟨rfl, h1, h2, hp⟩ | ⟨rfl, h1, h2, hp⟩
      · rw [utf8_two (h80 rfl) (by omega), hp, Nat.add_sub_cancel' (by omega), UInt8.ofNat_toNat]
        exact ⟨h80 rfl, rfl⟩
      · have hlow := h800 rfl
        rw [utf8_three hlow (by omega), hp, Nat.add_sub_cancel' h1, UInt8.ofNat_toNat]
        exact ⟨by omega, rfl⟩
      · have hlow := h10000 rfl
        rw [utf8_four hlow, hp, Nat.add_sub_cancel' h1, UInt8.ofNat_toNat]
        exact ⟨by omega, rfl⟩
    exact ⟨c, hu.1, hs, hu.2.symm, by rw [hu.2]; rfl⟩
  · rintro ⟨c, hc, hs, rfl, rfl⟩
    have hread : ∀ n k : ℕ, utf8 c = UInt8.ofNat (k + c / 64 ^ n) :: trailing n c →
        utf8Lead (UInt8.ofNat (k + c / 64 ^ n)) = some (c / 64 ^ n, n) → RawRange n c →
        rawUtf8 (utf8 c ++ rest) = .ok (utf8 c, rest) := fun n k hu hl hr => by
      rw [hu, List.cons_append]
      refine rawUtf8_of_trail hl ?_ (trailLoop_eq_ok.mpr ⟨rfl, rfl, rfl⟩) hr
      rw [List.length_append, trailing_length]
      exact Nat.le_add_right n _
    have hbyte : ∀ k q : ℕ, k + q < 256 → (UInt8.ofNat (k + q)).toNat = k + q := fun k q h =>
      UInt8.toNat_ofNat_of_lt' h
    by_cases h2 : c < 0x800
    · refine hread 1 0xc0 (utf8_two hc h2) (utf8Lead_eq_some.mpr (.inl ?_))
        (rawRange_iff.mpr ⟨hs, fun _ => hc, nofun, nofun⟩)
      rw [hbyte _ _ (by omega)]
      omega
    by_cases h3 : c < 0x10000
    · refine hread 2 0xe0 (utf8_three (Nat.not_lt.mp h2) h3)
        (utf8Lead_eq_some.mpr (.inr (.inl ?_)))
        (rawRange_iff.mpr ⟨hs, nofun, fun _ => Nat.not_lt.mp h2, nofun⟩)
      rw [hbyte _ _ (by omega)]
      omega
    · have hmax := hs.1
      refine hread 3 0xf0 (utf8_four (Nat.not_lt.mp h3)) (utf8Lead_eq_some.mpr (.inr (.inr ?_)))
        (rawRange_iff.mpr ⟨hs, nofun, nofun, fun _ => Nat.not_lt.mp h3⟩)
      rw [hbyte _ _ (by omega)]
      omega

theorem rawUtf8_ne_fault (lead : UInt8) (rest : List UInt8) : rawUtf8 (lead :: rest) ≠ .fault := by
  simp only [rawUtf8]
  cases utf8Lead lead with
  | none => simp
  | some pn =>
    simp only
    split_ifs with hn
    · simp
    · refine Outcome.bind_ne_fault (trailLoop_ne_fault (by omega)) ?_
      rintro ⟨c, enc, r⟩ -
      simp only
      split_ifs <;> simp

/-- The bytes stored for a code point are its UTF-8 form. -/
theorem codepointBytes_eq_ok {c : ℕ} {bytes : List UInt8} :
    codepointBytes c = .ok bytes ↔ Scalar c ∧ bytes = utf8 c := by
  have hmask : ∀ n, n &&& 0x3f = n % 64 := fun n => Nat.and_two_pow_sub_one_eq_mod n 6
  have h80 : ∀ n, n < 64 → 0x80 ||| n = 0x80 + n := fun n hn => shift6 2 n hn
  have hc0 : ∀ n, n < 32 → 0xc0 ||| n = 0xc0 + n := fun n hn =>
    (Nat.shiftLeft_add_eq_or_of_lt (i := 5) hn 6).symm
  have he0 : ∀ n, n < 16 → 0xe0 ||| n = 0xe0 + n := fun n hn =>
    (Nat.shiftLeft_add_eq_or_of_lt (i := 4) hn 14).symm
  have hf0 : ∀ n, n < 8 → 0xf0 ||| n = 0xf0 + n := fun n hn =>
    (Nat.shiftLeft_add_eq_or_of_lt (i := 3) hn 30).symm
  by_cases hs : Scalar c
  · have hs' : ¬ (0x10ffff < c ∨ (0xd800 ≤ c ∧ c ≤ 0xdfff)) := by unfold Scalar at hs; omega
    have heq : codepointBytes c = .ok (utf8 c) := by
      simp only [codepointBytes, if_neg hs', utf8, Nat.shiftRight_eq_div_pow, hmask]
      split_ifs with h1 h2 h3
      · rfl
      · rw [hc0 _ (by omega), h80 _ (by omega)]
      · rw [he0 _ (by omega), h80 _ (by omega), h80 _ (by omega)]
      · unfold Scalar at hs
        rw [hf0 _ (by omega), h80 _ (by omega), h80 _ (by omega), h80 _ (by omega)]
    simp only [heq, Outcome.ok.injEq, hs, true_and]
    exact eq_comm
  · have hs' : 0x10ffff < c ∨ (0xd800 ≤ c ∧ c ≤ 0xdfff) := by unfold Scalar at hs; omega
    simp [codepointBytes, hs', hs]

theorem codepointBytes_ne_fault (c : ℕ) : codepointBytes c ≠ .fault := by
  unfold codepointBytes
  split_ifs <;> simp

/-! ## Strings -/

lemma surrogatePair_eq (hi lo : ℕ) :
    0x10000 + (hi - 0xd800) <<< 10 + (lo - 0xdc00) = surrogatePair hi lo := by
  unfold surrogatePair
  omega

/-- An accepted `\u` escape is one of the two escapes of the grammar. -/
theorem unicodeEscape_sound {s rest : List UInt8} {c : ℕ}
    (h : unicodeEscape s = .ok (c, rest)) :
    ∃ t, s = t ++ rest ∧ Piece (backslash :: 0x75 :: t) c := by
  obtain ⟨⟨first, s1⟩, h1, h'⟩ := Outcome.bind_eq_ok.mp h
  clear h
  obtain ⟨t, ht, rfl⟩ := hex4_eq_ok.mp h1
  have hlt := hex4_lt ht
  simp only at h'
  split_ifs at h' with hhi hlen hlo
  · match s1, h' with
    | b :: u :: s2, h' =>
      simp only at h'
      split_ifs at h' with hbu
      obtain ⟨⟨second, s3⟩, h2, h3⟩ := Outcome.bind_eq_ok.mp h'
      clear h' h1
      obtain ⟨t', ht', rfl⟩ := hex4_eq_ok.mp h2
      simp only at h3
      split_ifs at h3 with hr
      simp only [Outcome.ok.injEq, Prod.mk.injEq, surrogatePair_eq] at h3
      obtain ⟨rfl, rfl⟩ := h3
      obtain ⟨rfl, rfl⟩ : b = backslash ∧ u = 0x75 := by tauto
      exact ⟨t ++ backslash :: 0x75 :: t', by simp,
        .surrogates ht ht' hhi.1 hhi.2 (by omega) (by omega)⟩
  · simp only [Outcome.ok.injEq, Prod.mk.injEq] at h'
    obtain ⟨rfl, rfl⟩ := h'
    exact ⟨t, rfl, .unicode ht (by unfold Scalar; omega)⟩

theorem unicodeEscape_scalar {t rest : List UInt8} {v : ℕ} (ht : Hex4 t v) (hv : Scalar v) :
    unicodeEscape (t ++ rest) = .ok (v, rest) := by
  unfold Scalar at hv
  have h1 : hex4 (t ++ rest) = .ok (v, rest) := hex4_eq_ok.mpr ⟨t, ht, rfl⟩
  simp only [unicodeEscape, h1, Outcome.ok_bind]
  rw [if_neg (by omega), if_neg (by omega)]

theorem unicodeEscape_surrogates {t u rest : List UInt8} {hi lo : ℕ} (ht : Hex4 t hi)
    (hu : Hex4 u lo) (h1 : 0xd800 ≤ hi) (h2 : hi ≤ 0xdbff) (h3 : 0xdc00 ≤ lo) (h4 : lo ≤ 0xdfff) :
    unicodeEscape (t ++ (backslash :: 0x75 :: (u ++ rest))) =
      .ok (surrogatePair hi lo, rest) := by
  have ha : hex4 (t ++ (backslash :: 0x75 :: (u ++ rest))) =
      .ok (hi, backslash :: 0x75 :: (u ++ rest)) := hex4_eq_ok.mpr ⟨t, ht, rfl⟩
  have hb : hex4 (u ++ rest) = .ok (lo, rest) := hex4_eq_ok.mpr ⟨u, hu, rfl⟩
  have hl : ¬ (backslash :: 0x75 :: (u ++ rest)).length < 6 := by
    obtain ⟨a, b, c, d, x, y, z, w, rfl, -⟩ := hu
    simp
  have hr : ¬ (lo < 0xdc00 ∨ 0xdfff < lo) := by omega
  simp only [unicodeEscape, ha, Outcome.ok_bind, if_pos (And.intro h1 h2), if_neg hl, ne_eq,
    not_true_eq_false, or_self, if_false, hb, if_neg hr, surrogatePair_eq]

theorem unicodeEscape_ne_fault (s : List UInt8) : unicodeEscape s ≠ .fault := by
  refine Outcome.bind_ne_fault (hex4_ne_fault s) ?_
  rintro ⟨first, s1⟩ -
  simp only
  split_ifs with hhi hlen
  · simp
  · match s1, hlen with
    | b :: u :: s2, _ =>
      simp only
      split_ifs
      · simp
      · refine Outcome.bind_ne_fault (hex4_ne_fault s2) ?_
        rintro ⟨second, s3⟩ -
        simp only
        split_ifs <;> simp
    | [], h => simp at h
    | [_], h => simp at h
  · simp
  · simp

section
variable {σ : Type} (k : Sink σ)

lemma codepoint_scalar {c : ℕ} (hc : c ≠ 0) (hs : Scalar c) (out : σ) :
    k.codepoint c out = k.bytes (utf8 c) out := by
  have h : codepointBytes c = .ok (utf8 c) := codepointBytes_eq_ok.mpr ⟨hs, rfl⟩
  simp only [Sink.codepoint, if_neg hc, h, Outcome.ok_bind]

lemma codepoint_ascii {b : UInt8} (h0 : b ≠ 0) (h1 : b < 0x80) (out : σ) :
    k.codepoint b.toNat out = k.byte b out := by
  have hlt : b.toNat < 0x80 := UInt8.lt_iff_toNat_lt.mp h1
  have hne : b.toNat ≠ 0 := fun h => h0 (UInt8.toNat_inj.mp h)
  rw [codepoint_scalar k hne (by unfold Scalar; omega), utf8, if_pos hlt, UInt8.ofNat_toNat]
  simp [Sink.bytes]

lemma simpleEscape_ascii {b d : UInt8} (h : simpleEscape b = some d) :
    b < 0x80 ∧ d ≠ 0 ∧ d < 0x80 := by
  unfold simpleEscape at h
  split_ifs at h <;> obtain rfl := Option.some.inj h <;> subst b <;> decide

lemma simpleEscape_u : simpleEscape 0x75 = none := by decide

lemma utf8_head {c : ℕ} (h : 0x80 ≤ c) (hs : Scalar c) :
    ∃ b t, utf8 c = b :: t ∧ 0x80 ≤ b := by
  unfold Scalar at hs
  unfold utf8
  rw [if_neg (by omega)]
  split_ifs <;> refine ⟨_, _, rfl, ?_⟩ <;>
    rw [UInt8.le_iff_toNat_le, UInt8.toNat_ofNat_of_lt' (show _ < 256 by omega)] <;>
    show 128 ≤ _ <;> omega

/-- A step of the string loop consumes one character of the grammar and feeds its code point. -/
theorem stringStep_sound {c : UInt8} {rest rest' : List UInt8} {out out' : σ} (hq : c ≠ quote)
    (h : stringStep k c rest out = .ok (out', rest')) :
    ∃ p cp, Piece p cp ∧ c :: rest = p ++ rest' ∧ k.codepoint cp out = .ok out' := by
  unfold stringStep at h
  split_ifs at h with h20 hb h80
  · obtain ⟨o, ho, h⟩ := Outcome.bind_eq_ok.mp h
    simp only [Outcome.ok.injEq, Prod.mk.injEq] at h
    obtain ⟨rfl, rfl⟩ := h
    have hle : 0x20 ≤ c := UInt8.not_lt.mp h20
    refine ⟨[c], c.toNat, .plain hle h80 hq hb, rfl, ?_⟩
    rw [codepoint_ascii k (by rintro rfl; exact absurd hle (by decide)) h80, ho]
  · obtain ⟨⟨enc, s⟩, hr, h⟩ := Outcome.bind_eq_ok.mp h
    obtain ⟨o, ho, h⟩ := Outcome.bind_eq_ok.mp h
    simp only [Outcome.ok.injEq, Prod.mk.injEq] at h
    obtain ⟨rfl, rfl⟩ := h
    obtain ⟨cp, hcp, hs, rfl, heq⟩ := rawUtf8_eq_ok.mp hr
    exact ⟨utf8 cp, cp, .utf8 hcp hs, heq, by rw [codepoint_scalar k (by omega) hs]; exact ho⟩
  · have hb' : c = backslash := not_not.mp hb
    subst hb'
    cases rest with
    | nil => simp at h
    | cons e rest =>
      simp only at h
      cases he : simpleEscape e with
      | some d =>
        simp only [he] at h
        obtain ⟨o, ho, h⟩ := Outcome.bind_eq_ok.mp h
        simp only [Outcome.ok.injEq, Prod.mk.injEq] at h
        obtain ⟨rfl, rfl⟩ := h
        obtain ⟨-, hd0, hd1⟩ := simpleEscape_ascii he
        exact ⟨[backslash, e], d.toNat, .escape he, rfl, by rw [codepoint_ascii k hd0 hd1, ho]⟩
      | none =>
        simp only [he] at h
        split_ifs at h with hu
        subst hu
        obtain ⟨⟨cp, s⟩, hx, h⟩ := Outcome.bind_eq_ok.mp h
        obtain ⟨o, ho, h⟩ := Outcome.bind_eq_ok.mp h
        simp only [Outcome.ok.injEq, Prod.mk.injEq] at h
        obtain ⟨rfl, rfl⟩ := h
        obtain ⟨t, rfl, hp⟩ := unicodeEscape_sound hx
        exact ⟨backslash :: 0x75 :: t, cp, hp, rfl, ho⟩

lemma stringStep_unicode {s rest : List UInt8} {v : ℕ} (h : unicodeEscape s = .ok (v, rest))
    (out : σ) :
    stringStep k backslash (0x75 :: s) out = (k.codepoint v out >>= fun o => .ok (o, rest)) := by
  simp only [stringStep, if_neg (show ¬ backslash < 0x20 by decide), ne_eq, not_true_eq_false,
    if_false, simpleEscape_u, if_true, h, Outcome.ok_bind]

/-- Every character of the grammar is one step of the string loop. -/
theorem stringStep_complete {p : List UInt8} {cp : ℕ} (hp : Piece p cp) :
    ∃ c t, p = c :: t ∧ c ≠ quote ∧ ∀ rest out,
      stringStep k c (t ++ rest) out = (k.codepoint cp out >>= fun o => .ok (o, rest)) := by
  cases hp with
  | @plain b h20 h80 hq hb =>
    refine ⟨b, [], rfl, hq, fun rest out => ?_⟩
    have h0 : b ≠ 0 := by
      rintro rfl
      exact absurd h20 (by decide)
    simp only [stringStep, if_neg (UInt8.not_lt.mpr h20), if_pos hb, if_pos h80,
      codepoint_ascii k h0 h80, List.nil_append]
  | utf8 hc hs =>
    obtain ⟨b, t, hu, hb⟩ := utf8_head hc hs
    refine ⟨b, t, hu, by rintro rfl; exact absurd hb (by decide), fun rest out => ?_⟩
    have h20 : ¬ b < 0x20 := by rw [UInt8.not_lt]; exact UInt8.le_trans (by decide) hb
    have hbs : b ≠ backslash := by rintro rfl; exact absurd hb (by decide)
    have hr : rawUtf8 (b :: (t ++ rest)) = .ok (utf8 cp, rest) :=
      rawUtf8_eq_ok.mpr ⟨cp, hc, hs, rfl, by rw [hu, List.cons_append]⟩
    simp only [stringStep, if_neg h20, if_pos hbs, if_neg (UInt8.not_lt.mpr hb), hr,
      Outcome.ok_bind, codepoint_scalar k (show cp ≠ 0 by omega) hs]
  | @escape b d hd =>
    refine ⟨backslash, [b], rfl, by decide, fun rest out => ?_⟩
    obtain ⟨-, hd0, hd1⟩ := simpleEscape_ascii hd
    simp only [stringStep, if_neg (show ¬ backslash < 0x20 by decide), ne_eq, not_true_eq_false,
      if_false, List.cons_append, List.nil_append, hd, codepoint_ascii k hd0 hd1]
  | @unicode t v ht hv =>
    refine ⟨backslash, 0x75 :: t, rfl, by decide, fun rest out => ?_⟩
    exact stringStep_unicode k (unicodeEscape_scalar ht hv) out
  | @surrogates t u hi lo ht hu h1 h2 h3 h4 =>
    refine ⟨backslash, 0x75 :: (t ++ backslash :: 0x75 :: u), rfl, by decide, fun rest out => ?_⟩
    rw [List.cons_append, List.append_assoc]
    exact stringStep_unicode k (unicodeEscape_surrogates ht hu h1 h2 h3 h4) out

theorem stringLoop_sound {fuel : ℕ} {s rest : List UInt8} {out out' : σ}
    (h : stringLoop k fuel s out = .ok (out', rest)) :
    ∃ body cps, s = body ++ quote :: rest ∧ StringBody body cps ∧ k.feed cps out = .ok out' := by
  induction fuel generalizing s out with
  | zero => simp [stringLoop] at h
  | succ fuel ih =>
    cases s with
    | nil => simp [stringLoop] at h
    | cons c s =>
      simp only [stringLoop] at h
      split_ifs at h with hq
      · simp only [Outcome.ok.injEq, Prod.mk.injEq] at h
        obtain ⟨rfl, rfl⟩ := h
        exact ⟨[], [], by simp [hq], .nil, rfl⟩
      · obtain ⟨⟨o, s'⟩, hstep, h⟩ := Outcome.bind_eq_ok.mp h
        obtain ⟨p, cp, hp, heq, hcp⟩ := stringStep_sound k hq hstep
        obtain ⟨body, cps, rfl, hb, hf⟩ := ih h
        exact ⟨p ++ body, cp :: cps, by simp [heq], .cons hp hb, by simp [Sink.feed, hcp, hf]⟩

theorem stringLoop_complete {body : List UInt8} {cps : List ℕ} (hb : StringBody body cps)
    {fuel : ℕ} (hf : body.length < fuel) (rest : List UInt8) (out : σ) :
    stringLoop k fuel (body ++ quote :: rest) out =
      (k.feed cps out >>= fun o => .ok (o, rest)) := by
  induction hb generalizing fuel out with
  | nil =>
    obtain ⟨fuel, rfl⟩ := Nat.exists_eq_add_one_of_ne_zero (by omega : fuel ≠ 0)
    simp [stringLoop, Sink.feed]
  | @cons p t cp cps hp _ ih =>
    obtain ⟨c, u, rfl, hq, hstep⟩ := stringStep_complete k hp
    obtain ⟨fuel, rfl⟩ := Nat.exists_eq_add_one_of_ne_zero (by omega : fuel ≠ 0)
    simp only [List.cons_append, List.append_assoc, stringLoop, if_neg hq, hstep, Sink.feed]
    cases k.codepoint cp out with
    | ok o =>
      simp only [Outcome.ok_bind]
      exact ih (by simp at hf; omega) o
    | reject => simp
    | fault => simp

/-- `string` accepts exactly the string texts, and feeds their code points to the sink. -/
theorem string_sound {s rest : List UInt8} {out out' : σ}
    (h : string k s out = .ok (out', rest)) :
    ∃ t cps, s = t ++ rest ∧ StringText t cps ∧ k.feed cps out = .ok out' := by
  obtain ⟨s', hs, h⟩ := Outcome.bind_eq_ok.mp h
  obtain rfl := expect_eq_ok.mp hs
  obtain ⟨body, cps, rfl, hb, hf⟩ := stringLoop_sound k h
  exact ⟨quote :: (body ++ [quote]), cps, by simp, ⟨body, rfl, hb⟩, hf⟩

theorem string_complete {t : List UInt8} {cps : List ℕ} (ht : StringText t cps)
    (rest : List UInt8) (out : σ) :
    string k (t ++ rest) out = (k.feed cps out >>= fun o => .ok (o, rest)) := by
  obtain ⟨body, rfl, hb⟩ := ht
  simp only [string, List.cons_append, List.append_assoc, List.nil_append, expect_cons,
    Outcome.ok_bind]
  exact stringLoop_complete k hb (by simp) rest out

end

end EspVision.Json
