import EspVision.DeviceFrame
import EspVision.HostParser

/-!
# The header line on both sides

The grammar of the line that the device's `sscanf` format accepts, the grammar of the host's
pattern, and what the two have in common.
-/
namespace EspVision.HeaderGrammar

open Host EvControl EvControlJson Scanf

/-! ## What the directives read -/

/-- White space only. -/
def Blank (w : List UInt8) : Prop := ∀ b ∈ w, isSpace b = true

/-- An optional sign. -/
inductive Sign : Bool → List UInt8 → Prop
  | absent : Sign false []
  | plus : Sign false [0x2b]
  | minus : Sign true [0x2d]

/-- An optional `0x` of a hexadecimal numeral. -/
inductive Mark : ℕ → List UInt8 → Prop
  | absent {base : ℕ} : Mark base []
  | small : Mark 16 [0x30, 0x78]
  | large : Mark 16 [0x30, 0x58]

/-- A numeral as `strtoul` takes it, and its value. -/
inductive Spelled (base : ℕ) : List UInt8 → UInt32 → Prop
  | mk {negative : Bool} {sg mark ds : List UInt8} {n : ℕ} (hsign : Sign negative sg)
      (hmark : Mark base mark) (hdigits : Reads base ds n) (hne : ds ≠ []) :
      Spelled base (sg ++ (mark ++ ds)) (toUnsigned negative n)

theorem space_eq {w s : List UInt8} (hw : Blank w) (hs : ∀ b ∈ s.head?, isSpace b = false) :
    space (w ++ s) = s := by
  rw [space, List.dropWhile_append_of_pos hw]
  cases s with
  | nil => rfl
  | cons b s => simp [hs b rfl]

theorem space_split (s : List UInt8) : ∃ w, Blank w ∧ s = w ++ space s :=
  ⟨s.takeWhile isSpace, fun _ hb => List.mem_takeWhile_imp hb,
    (List.takeWhile_append_dropWhile (p := isSpace)).symm⟩

theorem text_split {t s r : List UInt8} (h : Scanf.text t s = some r) : s = t ++ r := by
  rw [Scanf.text] at h
  split_ifs at h with hp
  obtain ⟨tail, rfl⟩ := List.isPrefixOf_iff_prefix.mp hp
  rw [List.drop_left] at h
  rw [Option.some.inj h]

theorem digits_split (base : ℕ) (s : List UInt8) : ∀ v, ∃ ds, s = ds ++ (digits base v s).2 ∧
    (∀ b ∈ ds, (digitValue base b).isSome = true) ∧
    (digits base v s).1 = ds.foldl (fun v b => v * base + (digitValue base b).getD 0) v ∧
    (startsWithDigit base s = true → ds ≠ []) := by
  induction s with
  | nil => exact fun v => ⟨[], rfl, by simp, rfl, by simp [startsWithDigit]⟩
  | cons b s ih =>
    intro v
    rw [digits]
    cases hb : digitValue base b with
    | none => exact ⟨[], rfl, by simp, rfl, by simp [startsWithDigit, hb]⟩
    | some d =>
      obtain ⟨ds, hs, hds, hv, -⟩ := ih (v * base + d)
      refine ⟨b :: ds, by rw [List.cons_append, ← hs], ?_, by simp [hv, hb], by simp⟩
      exact List.forall_mem_cons.mpr ⟨by rw [hb]; rfl, hds⟩

theorem sign_split (s : List UInt8) : ∃ sg, Sign (sign s).1 sg ∧ s = sg ++ (sign s).2 := by
  cases s with
  | nil => exact ⟨[], .absent, rfl⟩
  | cons b s =>
    rw [sign]
    by_cases hplus : b = 0x2b
    · rw [if_pos hplus]
      exact ⟨[b], hplus ▸ .plus, rfl⟩
    · rw [if_neg hplus]
      by_cases hminus : b = 0x2d
      · rw [if_pos hminus]
        exact ⟨[b], hminus ▸ .minus, rfl⟩
      · rw [if_neg hminus]
        exact ⟨[], .absent, rfl⟩

theorem hexPrefix_split (s : List UInt8) : ∃ mark, Mark 16 mark ∧ s = mark ++ hexPrefix s := by
  rcases s with _ | ⟨a, _ | ⟨b, s⟩⟩
  · exact ⟨[], .absent, rfl⟩
  · exact ⟨[], .absent, rfl⟩
  · rw [hexPrefix]
    split_ifs with h
    · obtain ⟨rfl, hx | hx, -⟩ := h
      · exact ⟨[0x30, b], hx ▸ .small, rfl⟩
      · exact ⟨[0x30, b], hx ▸ .large, rfl⟩
    · exact ⟨[], .absent, rfl⟩

theorem unsigned_split {base : ℕ} {s r : List UInt8} {v : UInt32}
    (h : unsigned base s = some (v, r)) : ∃ t, s = t ++ r ∧ Spelled base t v := by
  rw [unsigned] at h
  dsimp only at h
  obtain ⟨sg, hsg, hs⟩ := sign_split s
  obtain ⟨mark, hmark, hrest⟩ : ∃ mark, Mark base mark ∧ (sign s).2 =
      mark ++ (if base = 16 then hexPrefix (sign s).2 else (sign s).2) := by
    by_cases hb : base = 16
    · subst hb
      rw [if_pos rfl]
      exact hexPrefix_split _
    · rw [if_neg hb]
      exact ⟨[], .absent, rfl⟩
  generalize (if base = 16 then hexPrefix (sign s).2 else (sign s).2) = body at h hrest
  split_ifs at h with hstart
  obtain ⟨ds, hds, hdigit, hv, hne⟩ := digits_split base body 0
  obtain ⟨rfl, rfl⟩ := Prod.mk.inj (Option.some.inj h)
  refine ⟨sg ++ (mark ++ ds), ?_, .mk hsg hmark ⟨hdigit, hv.symm⟩ (hne hstart)⟩
  rw [List.append_assoc, List.append_assoc, ← hds, ← hrest, ← hs]

theorem decimal_split {s r : List UInt8} {v : UInt32} (h : decimal s = some (v, r)) :
    ∃ w t, s = w ++ (t ++ r) ∧ Blank w ∧ Spelled 10 t v := by
  obtain ⟨w, hw, hs⟩ := space_split s
  obtain ⟨t, ht, hspelled⟩ := unsigned_split h
  exact ⟨w, t, by rw [← ht, ← hs], hw, hspelled⟩

theorem hex_split {width : ℕ} {s r : List UInt8} {v : UInt32} (h : hex width s = some (v, r)) :
    ∃ w t, s = w ++ (t ++ r) ∧ Blank w ∧ Spelled 16 t v ∧ t.length ≤ width := by
  obtain ⟨w, hw, hs⟩ := space_split s
  rw [hex, Option.map_eq_some_iff] at h
  obtain ⟨⟨v', r'⟩, hread, heq⟩ := h
  obtain ⟨rfl, rfl⟩ := Prod.mk.inj heq
  obtain ⟨t, ht, hspelled⟩ := unsigned_split hread
  refine ⟨w, t, ?_, hw, hspelled, ?_⟩
  · rw [← List.append_assoc t, ← ht, List.take_append_drop, ← hs]
  · have hlen := congrArg List.length ht
    rw [List.length_take, List.length_append] at hlen
    omega

/-! ## What the directives accept -/

theorem Spelled.head {base : ℕ} {t : List UInt8} {v : UInt32} (h : Spelled base t v)
    (s : List UInt8) : ∀ b ∈ (t ++ s).head?, isSpace b = false := by
  intro b hb
  obtain ⟨hsign, hmark, hdigits, hne⟩ := h
  rename_i ds n
  obtain ⟨d, ds, rfl⟩ := List.exists_cons_of_ne_nil hne
  have hd := (digit_plain (hdigits.digit d List.mem_cons_self)).1
  cases hsign with
  | plus =>
    obtain rfl : (0x2b : UInt8) = b := by simpa using hb
    rfl
  | minus =>
    obtain rfl : (0x2d : UInt8) = b := by simpa using hb
    rfl
  | absent =>
    cases hmark with
    | absent =>
      obtain rfl : d = b := by simpa using hb
      exact hd
    | small =>
      obtain rfl : (0x30 : UInt8) = b := by simpa using hb
      rfl
    | large =>
      obtain rfl : (0x30 : UInt8) = b := by simpa using hb
      rfl

theorem sign_eq {negative : Bool} {sg s : List UInt8} (h : Sign negative sg)
    (hs : ∀ b ∈ s.head?, b ≠ 0x2b ∧ b ≠ 0x2d) : sign (sg ++ s) = (negative, s) := by
  cases h with
  | absent =>
    cases s with
    | nil => rfl
    | cons b s =>
      obtain ⟨h1, h2⟩ := hs b rfl
      rw [List.nil_append, sign, if_neg h1, if_neg h2]
  | plus => rfl
  | minus => rfl

/-- The mark is taken off a numeral that has one, and nothing off one that has none. -/
theorem mark_eq {base : ℕ} {mark ds s : List UInt8} (h : Mark base mark)
    (hds : ∀ b ∈ ds, (digitValue base b).isSome = true) (hne : ds ≠ [])
    (hs : ∀ b ∈ s.head?, b ≠ 0x78 ∧ b ≠ 0x58) :
    (if base = 16 then hexPrefix (mark ++ (ds ++ s)) else mark ++ (ds ++ s)) = ds ++ s := by
  obtain ⟨d, ds, rfl⟩ := List.exists_cons_of_ne_nil hne
  have hd := hds d List.mem_cons_self
  cases h with
  | absent =>
    rw [List.nil_append]
    refine (if_congr Iff.rfl ?_ rfl).trans (ite_self _)
    rcases ds with _ | ⟨e, ds⟩
    · rcases s with _ | ⟨b, s⟩
      · rfl
      · obtain ⟨h1, h2⟩ := hs b rfl
        simp [hexPrefix, h1, h2]
    · obtain ⟨-, -, -, h1, h2⟩ := digit_plain (hds e (by simp))
      simp [hexPrefix, h1, h2]
  | small =>
    have hstart : startsWithDigit 16 (d :: ds ++ s) = true := hd
    rw [if_pos rfl, List.cons_append, List.cons_append, List.nil_append, hexPrefix,
      if_pos ⟨rfl, Or.inl rfl, hstart⟩]
  | large =>
    have hstart : startsWithDigit 16 (d :: ds ++ s) = true := hd
    rw [if_pos rfl, List.cons_append, List.cons_append, List.nil_append, hexPrefix,
      if_pos ⟨rfl, Or.inr rfl, hstart⟩]

/-- What can stand behind a numeral: no digit and no `x`. -/
def Stops (base : ℕ) (s : List UInt8) : Prop :=
  startsWithDigit base s = false ∧ ∀ b ∈ s.head?, b ≠ 0x78 ∧ b ≠ 0x58

theorem unsigned_eq {base : ℕ} {t s : List UInt8} {v : UInt32} (h : Spelled base t v)
    (hs : Stops base s) : unsigned base (t ++ s) = some (v, s) := by
  obtain ⟨hsign, hmark, hdigits, hne⟩ := h
  rename_i negative sg mark ds n
  have hhead : ∀ b ∈ (mark ++ (ds ++ s)).head?, b ≠ 0x2b ∧ b ≠ 0x2d := by
    intro b hb
    obtain ⟨d, ds, rfl⟩ := List.exists_cons_of_ne_nil hne
    obtain ⟨-, h1, h2, -⟩ := digit_plain (hdigits.digit d List.mem_cons_self)
    cases hmark with
    | absent =>
      obtain rfl : d = b := by simpa using hb
      exact ⟨h1, h2⟩
    | small =>
      obtain rfl : (0x30 : UInt8) = b := by simpa using hb
      decide
    | large =>
      obtain rfl : (0x30 : UInt8) = b := by simpa using hb
      decide
  have hstart : startsWithDigit base (ds ++ s) = true := by
    obtain ⟨d, ds, rfl⟩ := List.exists_cons_of_ne_nil hne
    exact hdigits.digit d List.mem_cons_self
  have hread := digits_append hdigits.digit hs.1 0
  rw [hdigits.value] at hread
  rw [unsigned, List.append_assoc, List.append_assoc, sign_eq hsign hhead]
  dsimp only
  rw [mark_eq hmark hdigits.digit hne hs.2, if_pos hstart, hread]

theorem decimal_eq {w t s : List UInt8} {v : UInt32} (hw : Blank w) (h : Spelled 10 t v)
    (hs : Stops 10 s) : decimal (w ++ (t ++ s)) = some (v, s) := by
  rw [decimal, space_eq hw (h.head s), unsigned_eq h hs]

/-- Nothing behind a numeral of at most `width` characters but white space. -/
theorem hex_eq {width : ℕ} {w t s : List UInt8} {v : UInt32} (hw : Blank w) (h : Spelled 16 t v)
    (hlen : t.length ≤ width) (hs : Stops 16 s) : hex width (w ++ (t ++ s)) = some (v, s) := by
  have htake : (t ++ s).take width = t ++ s.take (width - t.length) := by
    rw [List.take_append, List.take_of_length_le hlen]
  have hdrop : (t ++ s).drop width = s.drop (width - t.length) := by
    rw [List.drop_append, List.drop_eq_nil_of_le hlen, List.nil_append]
  have hstops : Stops 16 (s.take (width - t.length)) := by
    cases s with
    | nil => simpa using hs
    | cons b s =>
      cases width - t.length with
      | zero => exact ⟨rfl, by simp⟩
      | succ k => exact hs
  rw [hex, space_eq hw (h.head s), htake, hdrop, unsigned_eq h hstops, Option.map_some,
    List.take_append_drop]

/-! ## The device's header lines -/

/-- The lines that the format admits: white space in any amount where it has some and before a
number, signs, and a checksum of at most eight characters. -/
inductive Lenient : List UInt8 → UInt32 → UInt32 → UInt32 → Prop
  | mk {w₁ w₂ w₃ w₄ w₅ w₆ w₇ t₁ t₂ t₃ : List UInt8} {m p c : UInt32} (h₁ : Blank w₁)
      (h₂ : Blank w₂) (h₃ : Blank w₃) (h₄ : Blank w₄) (h₅ : Blank w₅) (h₆ : Blank w₆)
      (h₇ : Blank w₇) (hm : Spelled 10 t₁ m) (hp : Spelled 10 t₂ p) (hc : Spelled 16 t₃ c)
      (hwidth : t₃.length ≤ 8) :
      Lenient (formatName ++ (w₁ ++ (formatMetadata ++ (w₂ ++ (t₁ ++ (w₃ ++ (formatPayload ++
        (w₄ ++ (t₂ ++ (w₅ ++ (formatCrc ++ (w₆ ++ (t₃ ++ w₇))))))))))))) m p c

theorem blank_stops {base : ℕ} {w s : List UInt8} (hw : Blank w) (hs : Stops base s) :
    Stops base (w ++ s) := by
  cases w with
  | nil => exact hs
  | cons b w =>
    have hb := hw b List.mem_cons_self
    refine ⟨?_, ?_⟩
    · rw [List.cons_append, startsWithDigit]
      by_contra h
      have := (digit_plain (Bool.eq_true_of_not_eq_false h)).1
      simp [hb] at this
    · intro c hc
      obtain rfl : b = c := by simpa using hc
      refine ⟨?_, ?_⟩ <;>
        · rintro rfl
          exact absurd hb (by decide)

theorem scanHeader_of_lenient {line : List UInt8} {m p c : UInt32} (h : Lenient line m p c) :
    scanHeader line = some (m, p, c, line.length) := by
  obtain ⟨h₁, h₂, h₃, h₄, h₅, h₆, h₇, hm, hp, hc, hwidth⟩ := h
  have hp' : ∀ s, Stops 10 (formatPayload ++ s) := fun s => ⟨rfl, by simp [formatPayload]⟩
  have hc' : ∀ s, Stops 10 (formatCrc ++ s) := fun s => ⟨rfl, by simp [formatCrc]⟩
  have hm1 : ∀ s, ∀ b ∈ (formatMetadata ++ s).head?, isSpace b = false := fun s b hb => by
    obtain rfl : (0x68 : UInt8) = b := by simpa [formatMetadata] using hb
    rfl
  have hp1 : ∀ s, ∀ b ∈ (formatPayload ++ s).head?, isSpace b = false := fun s b hb => by
    obtain rfl : (0x70 : UInt8) = b := by simpa [formatPayload] using hb
    rfl
  have hc1 : ∀ s, ∀ b ∈ (formatCrc ++ s).head?, isSpace b = false := fun s b hb => by
    obtain rfl : (0x63 : UInt8) = b := by simpa [formatCrc] using hb
    rfl
  rename_i w₁ w₂ w₃ w₄ w₅ w₆ w₇ t₁ t₂ t₃
  have hend : Stops 16 w₇ := by
    have : Stops 16 (w₇ ++ []) := blank_stops h₇ ⟨rfl, by simp⟩
    rwa [List.append_nil] at this
  have hnil : space w₇ = [] := by
    have : space (w₇ ++ []) = [] := space_eq h₇ (by simp)
    rwa [List.append_nil] at this
  rw [scanHeader, text_append]
  simp only [Option.bind_eq_bind, Option.bind_some]
  rw [space_eq h₁ (hm1 _), text_append, Option.bind_some,
    decimal_eq h₂ hm (blank_stops h₃ (hp' _)), Option.bind_some, space_eq h₃ (hp1 _), text_append,
    Option.bind_some, decimal_eq h₄ hp (blank_stops h₅ (hc' _)), Option.bind_some,
    space_eq h₅ (hc1 _), text_append, Option.bind_some, hex_eq h₆ hc hwidth hend,
    Option.bind_some, hnil, List.length_nil, Nat.sub_zero]

theorem lenient_of_scanHeader {line : List UInt8} {m p c : UInt32} {consumed : ℕ}
    (h : scanHeader line = some (m, p, c, consumed)) (hall : consumed = line.length) :
    Lenient line m p c := by
  have hpos : line ≠ [] := by
    rintro rfl
    rw [show scanHeader [] = none by decide] at h
    exact absurd h (by simp)
  rw [scanHeader] at h
  simp only [Option.bind_eq_bind, Option.bind_eq_some_iff, Prod.exists] at h
  obtain ⟨s₁, hs₁, s₂, hs₂, m', s₃, hs₃, s₄, hs₄, p', s₅, hs₅, s₆, hs₆, c', s₇, hs₇, heq⟩ := h
  obtain ⟨rfl, rfl, rfl, rfl⟩ : m' = m ∧ p' = p ∧ c' = c ∧
      line.length - (space s₇).length = consumed := by simpa using heq
  obtain ⟨w₁, h₁, e₁⟩ := space_split s₁
  obtain ⟨w₂, t₁, e₃, h₂, hm⟩ := decimal_split hs₃
  obtain ⟨w₃, h₃, e₄⟩ := space_split s₃
  obtain ⟨w₄, t₂, e₅, h₄, hp⟩ := decimal_split hs₅
  obtain ⟨w₅, h₅, e₆⟩ := space_split s₅
  obtain ⟨w₆, t₃, e₇, h₆, hc, hwidth⟩ := hex_split hs₇
  obtain ⟨w₇, h₇, e₈⟩ := space_split s₇
  have hline : line = formatName ++ (w₁ ++ (formatMetadata ++ (w₂ ++ (t₁ ++ (w₃ ++ (formatPayload ++
      (w₄ ++ (t₂ ++ (w₅ ++ (formatCrc ++ (w₆ ++ (t₃ ++ (w₇ ++ space s₇))))))))))))) := by
    rw [← e₈, ← e₇, ← text_split hs₆, ← e₆, ← e₅, ← text_split hs₄, ← e₄, ← e₃, ← text_split hs₂,
      ← e₁]
    exact text_split hs₁
  have hnil : space s₇ = [] := by
    have hle := congrArg List.length hline
    simp only [List.length_append] at hle
    have := List.length_pos_iff.mpr hpos
    exact List.length_eq_zero_iff.mp (by omega)
  rw [hnil, List.append_nil] at hline
  rw [hline]
  exact .mk h₁ h₂ h₃ h₄ h₅ h₆ h₇ hm hp hc hwidth

/-- The device's parser with the bytes of a header line in its buffer. -/
def collected (line : List UInt8) : EvControl.Parser :=
  { state := .header, header := line ++ zeros (headerMax - line.length)
    headerLen := line.length }

/-- The two lengths and the checksum that the device takes from a line. -/
def deviceHeader (line : List UInt8) : Option (ℕ × ℕ × ℕ) :=
  match parseHeader (collected line) with
  | .ok (some p) => some (p.metadataLen, p.payloadLen, p.expectedCrc.toNat)
  | _ => none

/-- Lengths within the device's limits. -/
def InLimits (m p : ℕ) : Prop := m ≠ 0 ∧ m ≤ metadataMax ∧ p ≤ filePayloadMax

theorem Lenient.noNul {line : List UInt8} {m p c : UInt32} (h : Lenient line m p c) :
    NoNul line := by
  have hblank : ∀ w, Blank w → NoNul w := fun w hw b hb => by
    rintro rfl
    exact absurd (hw 0 hb) (by decide)
  have hspelled : ∀ base t v, Spelled base t v → NoNul t := by
    intro base t v ht
    obtain ⟨hsign, hmark, hdigits, hne⟩ := ht
    simp only [Host.noNul_append]
    refine ⟨?_, ?_, fun b hb => ?_⟩
    · cases hsign <;> simp
    · cases hmark <;> simp
    · rintro rfl
      have h0 := hdigits.digit 0 hb
      rw [digitValue, show rawDigit 0 = none by decide] at h0
      exact absurd h0 (by simp)
  obtain ⟨h₁, h₂, h₃, h₄, h₅, h₆, h₇, hm, hp, hc, hwidth⟩ := h
  simp only [Host.noNul_append]
  exact ⟨by simp [formatName], hblank _ h₁, by simp [formatMetadata], hblank _ h₂,
    hspelled _ _ _ hm, hblank _ h₃, by simp [formatPayload], hblank _ h₄, hspelled _ _ _ hp,
    hblank _ h₅, by simp [formatCrc], hblank _ h₆, hspelled _ _ _ hc, hblank _ h₇⟩

theorem takeWhile_append_zero (line rest : List UInt8) :
    (line ++ 0 :: rest).takeWhile (· ≠ 0) = line.takeWhile (· ≠ 0) := by
  induction line with
  | nil => rfl
  | cons b line ih => simp only [List.cons_append, List.takeWhile_cons, ih]

/-- The scan sees the line up to its first NUL. -/
theorem deviceHeader_eq {line : List UInt8} (hfit : line.length < headerMax) :
    deviceHeader line = (scanHeader (line.takeWhile (· ≠ 0))).bind fun r =>
      if r.2.2.2 ≠ line.length ∨ r.1 = 0 ∨ metadataMax < r.1.toNat ∨ filePayloadMax < r.2.1.toNat
      then none else some (r.1.toNat, r.2.1.toNat, r.2.2.1.toNat) := by
  obtain ⟨k, hk⟩ : ∃ k, headerMax - line.length = k + 1 := ⟨headerMax - line.length - 1, by omega⟩
  have hheader : (collected line).header = line ++ 0 :: zeros k := by
    rw [collected, hk]
    rfl
  have htext : cString (collected line).header = .ok (line.takeWhile (· ≠ 0)) := by
    rw [cString, hheader, if_pos (by simp), takeWhile_append_zero]
  rw [deviceHeader, parseHeader, htext, Json.Outcome.ok_bind]
  cases scanHeader (line.takeWhile (· ≠ 0)) with
  | none => rfl
  | some r =>
    obtain ⟨m, p, c, consumed⟩ := r
    dsimp only [Option.bind_some]
    have hlen : (collected line).headerLen = line.length := rfl
    rw [hlen]
    split_ifs <;> rfl

theorem scanHeader_consumed {line : List UInt8} {m p c : UInt32} {consumed : ℕ}
    (h : scanHeader line = some (m, p, c, consumed)) : consumed ≤ line.length := by
  rw [scanHeader] at h
  simp only [Option.bind_eq_bind, Option.bind_eq_some_iff, Prod.exists] at h
  obtain ⟨_, _, _, _, _, _, _, _, _, _, _, _, _, _, _, s, _, heq⟩ := h
  have hconsumed : line.length - (space s).length = consumed := by
    simp only [Option.some.injEq, Prod.mk.injEq] at heq
    exact heq.2.2.2
  omega

theorem deviceHeader_iff {line : List UInt8} (hfit : line.length < headerMax) {m p c : ℕ} :
    deviceHeader line = some (m, p, c) ↔
      ∃ m' p' c' : UInt32, Lenient line m' p' c' ∧ InLimits m'.toNat p'.toNat ∧
        m'.toNat = m ∧ p'.toNat = p ∧ c'.toNat = c := by
  rw [deviceHeader_eq hfit]
  constructor
  · intro h
    obtain ⟨⟨m', p', c', consumed⟩, hscan, h⟩ := Option.bind_eq_some_iff.mp h
    dsimp only at h
    split_ifs at h with hbad
    simp only [not_or, not_not, not_lt] at hbad
    obtain ⟨hconsumed, hzero, hmeta, hpayload⟩ := hbad
    obtain ⟨rfl, rfl, rfl⟩ : m'.toNat = m ∧ p'.toNat = p ∧ c'.toNat = c := by simpa using h
    -- The scan has read as many bytes as the line has, so there is no NUL in it.
    have hprefix : line.takeWhile (· ≠ 0) <+: line := List.takeWhile_prefix _
    have hle : consumed ≤ (line.takeWhile (· ≠ 0)).length := scanHeader_consumed hscan
    have hall : line.takeWhile (· ≠ 0) = line :=
      hprefix.eq_of_length (le_antisymm hprefix.length_le (by omega))
    rw [hall] at hscan
    refine ⟨m', p', c', lenient_of_scanHeader hscan hconsumed, ⟨?_, hmeta, hpayload⟩, rfl, rfl, rfl⟩
    exact fun h0 => hzero (UInt32.toNat_inj.mp h0)
  · rintro ⟨m', p', c', hlenient, hlimits, rfl, rfl, rfl⟩
    have hnul : line.takeWhile (· ≠ 0) = line :=
      List.takeWhile_eq_self_iff.mpr fun b hb => by simpa using hlenient.noNul b hb
    rw [hnul, scanHeader_of_lenient hlenient, Option.bind_some, if_neg]
    rintro (h | h | h | h)
    · exact h rfl
    · exact hlimits.1 (congrArg UInt32.toNat h)
    · exact absurd hlimits.2.1 (Nat.not_le.mpr h)
    · exact absurd hlimits.2.2 (Nat.not_le.mpr h)

/-! ## The host's header lines -/

/-- The lines of the host's pattern, and of the documentation. -/
inductive Strict : List UInt8 → ℕ → ℕ → ℕ → Prop
  | mk {dm dp dc : List UInt8} {m p c : ℕ} (hm : Reads 10 dm m) (hdm : dm ≠ [])
      (hp : Reads 10 dp p) (hdp : dp ≠ []) (hc : Reads 16 dc c) (hdc : dc.length = 8) :
      Strict (headerStart ++ (dm ++ (headerPayload ++ (dp ++ (headerChecksum ++
        (dc ++ lineEnd)))))) m p c

/-- The two lengths and the checksum that the host takes from a line within the limits. -/
def hostHeader (limits : Limits) (line : List UInt8) : Option (ℕ × ℕ × ℕ) :=
  match headerFields (decodedHeader line) with
  | none => none
  | some (m, p, c) =>
    if m = 0 ∨ limits.maxMetadataLength < m ∨ limits.maxPayloadLength < p then none
    else some (m, p, c)

/-- The device's limits. -/
def deviceLimits : Limits where
  maxMetadataLength := metadataMax
  maxPayloadLength := filePayloadMax

theorem decimalDigits_eq {ds s : List UInt8} {n : ℕ} (h : Reads 10 ds n) (hne : ds ≠ [])
    (hs : startsWithDigit 10 s = false) : decimalDigits (ds ++ s) = some (n, s) := by
  have hstart : startsWithDigit 10 (ds ++ s) = true := by
    obtain ⟨d, ds, rfl⟩ := List.exists_cons_of_ne_nil hne
    exact h.digit d List.mem_cons_self
  rw [decimalDigits, if_pos hstart, digits_append h.digit hs, h.value]

theorem decimalDigits_split {s r : List UInt8} {n : ℕ} (h : decimalDigits s = some (n, r)) :
    ∃ ds, s = ds ++ r ∧ Reads 10 ds n ∧ ds ≠ [] := by
  rw [decimalDigits] at h
  split_ifs at h with hstart
  obtain ⟨ds, hds, hdigit, hv, hne⟩ := digits_split 10 s 0
  rw [Option.some.inj h] at hds hv
  exact ⟨ds, hds, ⟨hdigit, hv.symm⟩, hne hstart⟩

theorem checksumLine_iff {s : List UInt8} {c : ℕ} :
    checksumLine s = some c ↔ ∃ dc, s = dc ++ lineEnd ∧ Reads 16 dc c ∧ dc.length = 8 := by
  rw [checksumLine]
  constructor
  · intro h
    split_ifs at h with hs
    obtain ⟨hlen, hdigit, hend⟩ := hs
    have hall : ∀ b ∈ s.take 8, (digitValue 16 b).isSome = true := List.all_eq_true.mp hdigit
    have hread := digits_append hall (s := []) rfl 0
    rw [List.append_nil] at hread
    refine ⟨s.take 8, by rw [← hend, List.take_append_drop], ⟨hall, ?_⟩, hlen⟩
    rw [hread] at h
    exact Option.some.inj h
  · rintro ⟨dc, rfl, hc, hlen⟩
    have htake : (dc ++ lineEnd).take 8 = dc := List.take_left' hlen
    have hdrop : (dc ++ lineEnd).drop 8 = lineEnd := List.drop_left' hlen
    have hread := digits_append hc.digit (s := []) rfl 0
    rw [List.append_nil] at hread
    rw [htake, hdrop, if_pos ⟨hlen, List.all_eq_true.mpr hc.digit, rfl⟩, hread, hc.value]

theorem headerFields_iff {line : List UInt8} {m p c : ℕ} :
    headerFields line = some (m, p, c) ↔ Strict line m p c := by
  constructor
  · intro h
    rw [headerFields] at h
    simp only [Option.bind_eq_bind, Option.bind_eq_some_iff, Prod.exists] at h
    obtain ⟨s₁, hs₁, m', s₂, hs₂, s₃, hs₃, p', s₄, hs₄, s₅, hs₅, c', hc', heq⟩ := h
    simp only [Option.some.injEq, Prod.mk.injEq] at heq
    obtain ⟨rfl, rfl, rfl⟩ := heq
    obtain ⟨dm, e₁, hm, hdm⟩ := decimalDigits_split hs₂
    obtain ⟨dp, e₃, hp, hdp⟩ := decimalDigits_split hs₄
    obtain ⟨dc, e₅, hc, hdc⟩ := checksumLine_iff.mp hc'
    rw [text_split hs₁, e₁, text_split hs₃, e₃, text_split hs₅, e₅]
    exact .mk hm hdm hp hdp hc hdc
  · rintro ⟨hm, hdm, hp, hdp, hc, hdc⟩
    rename_i dm dp dc
    rw [headerFields, text_append]
    simp only [Option.bind_eq_bind, Option.bind_some]
    rw [decimalDigits_eq hm hdm rfl, Option.bind_some, text_append, Option.bind_some,
      decimalDigits_eq hp hdp rfl, Option.bind_some, text_append, Option.bind_some,
      checksumLine_iff.mpr ⟨dc, rfl, hc, hdc⟩, Option.bind_some]

theorem hostHeader_iff {line : List UInt8} {m p c : ℕ} :
    hostHeader deviceLimits line = some (m, p, c) ↔
      Strict (decodedHeader line) m p c ∧ InLimits m p := by
  rw [hostHeader, ← headerFields_iff]
  cases headerFields (decodedHeader line) with
  | none => simp
  | some r =>
    obtain ⟨m', p', c'⟩ := r
    have hmeta : deviceLimits.maxMetadataLength = metadataMax := rfl
    have hpayload : deviceLimits.maxPayloadLength = filePayloadMax := rfl
    dsimp only
    rw [hmeta, hpayload]
    constructor
    · intro h
      split_ifs at h with hbad
      rw [not_or, not_or, not_lt, not_lt] at hbad
      obtain ⟨rfl, rfl, rfl⟩ : m' = m ∧ p' = p ∧ c' = c := by simpa using h
      exact ⟨rfl, hbad⟩
    · rintro ⟨heq, h0, h1, h2⟩
      obtain ⟨rfl, rfl, rfl⟩ : m' = m ∧ p' = p ∧ c' = c := by simpa using heq
      rw [if_neg (by omega)]

theorem Strict.no_mark {line : List UInt8} {m p c : ℕ} (h : Strict line m p c) :
    byteOrderMark.isPrefixOf line = false := by
  obtain ⟨_, _, _, _, _, _⟩ := h
  rfl

/-- What the decoder leaves of a line that matches: the line, or a line behind the mark. -/
theorem strict_decoded_iff {line : List UInt8} {m p c : ℕ} :
    Strict (decodedHeader line) m p c ↔
      Strict line m p c ∨ ∃ rest, line = byteOrderMark ++ rest ∧ Strict rest m p c := by
  rw [decodedHeader]
  constructor
  · intro h
    split_ifs at h with hmark
    · obtain ⟨rest, rfl⟩ := List.isPrefixOf_iff_prefix.mp hmark
      exact Or.inr ⟨rest, rfl, h⟩
    · exact Or.inl h
  · rintro (h | ⟨rest, rfl, h⟩)
    · rwa [if_neg (by rw [h.no_mark]; exact Bool.false_ne_true)]
    · rwa [if_pos (List.isPrefixOf_iff_prefix.mpr (List.prefix_append _ _))]

theorem foldl_digits_lt (base : ℕ) (ds : List UInt8)
    (h : ∀ b ∈ ds, (digitValue base b).isSome = true) : ∀ v,
    ds.foldl (fun v b => v * base + (digitValue base b).getD 0) v < (v + 1) * base ^ ds.length := by
  induction ds with
  | nil => simp
  | cons b ds ih =>
    intro v
    obtain ⟨d, hd⟩ := Option.isSome_iff_exists.mp (h b List.mem_cons_self)
    have hlt : d < base := by
      rw [digitValue, Option.filter_eq_some_iff] at hd
      simpa using hd.2
    have hrec := ih (fun x hx => h x (List.mem_cons_of_mem b hx)) (v * base + d)
    rw [List.foldl_cons, hd, Option.getD_some, List.length_cons]
    calc _ < (v * base + d + 1) * base ^ ds.length := hrec
      _ ≤ ((v + 1) * base) * base ^ ds.length := by
        apply Nat.mul_le_mul_right
        rw [Nat.add_mul, Nat.one_mul]
        omega
      _ = (v + 1) * base ^ (ds.length + 1) := by ring

/-- A numeral is less than the power of the base that its length allows. -/
theorem reads_lt_pow {base n : ℕ} {ds : List UInt8} (h : Reads base ds n) :
    n < base ^ ds.length := by
  have hlt := foldl_digits_lt base ds h.digit 0
  rwa [h.value, Nat.zero_add, Nat.one_mul] at hlt

/-- A strict line within the limits is one of the device's. -/
theorem Strict.lenient {line : List UInt8} {m p c : ℕ} (h : Strict line m p c)
    (hlimits : InLimits m p) :
    Lenient line (UInt32.ofNat m) (UInt32.ofNat p) (UInt32.ofNat c) ∧ c < 2 ^ 32 := by
  obtain ⟨hm, hdm, hp, hdp, hc, hdc⟩ := h
  rename_i dm dp dc
  have hmax : metadataMax = 384 := rfl
  have hfile : filePayloadMax = 16404 := rfl
  obtain ⟨-, h1, h2⟩ := hlimits
  have hc32 : c < 2 ^ 32 := by
    have := reads_lt_pow hc
    rw [hdc] at this
    omega
  have hspelled : ∀ base ds n, Reads base ds n → ds ≠ [] → n < 2 ^ 32 →
      Spelled base ds (UInt32.ofNat n) := by
    intro base ds n hr hne hn
    have h := Spelled.mk Sign.absent (@Mark.absent base) hr hne
    rwa [toUnsigned, if_neg (by omega), if_neg Bool.false_ne_true] at h
  have hblank : ∀ w, w = [0x20] ∨ w = [] ∨ w = lineEnd → Blank w := by
    rintro w (rfl | rfl | rfl) <;> simp [Blank, lineEnd, isSpace]
  have hne : dc ≠ [] := by
    rintro rfl
    exact absurd hdc (by decide)
  refine ⟨?_, hc32⟩
  exact .mk (hblank [0x20] (by simp)) (hblank [] (by simp)) (hblank [0x20] (by simp))
    (hblank [] (by simp)) (hblank [0x20] (by simp)) (hblank [] (by simp)) (hblank lineEnd (by simp))
    (hspelled 10 dm m hm hdm (by omega)) (hspelled 10 dp p hp hdp (by omega))
    (hspelled 16 dc c hc hne hc32) hdc.le

/-! ## Agreement -/

/-- What the two sides should have in common on a line: they accept it alike, with the same
numbers, and only in the strict spelling with numbers that fit. -/
structure Agree (line : List UInt8) : Prop where
  same : deviceHeader line = hostHeader deviceLimits line
  device : ∀ m p c, deviceHeader line = some (m, p, c) → Strict line m p c ∧ InLimits m p
  host : ∀ m p c, hostHeader deviceLimits line = some (m, p, c) → Strict line m p c ∧ InLimits m p

/-- The device and the host agree on a line exactly if it is no loose spelling of a header within
the limits, and no such header behind a byte order mark. -/
theorem headers_agree_iff {line : List UInt8} (hfit : line.length < headerMax) :
    Agree line ↔
      (∀ m p c, Lenient line m p c → InLimits m.toNat p.toNat →
        Strict line m.toNat p.toNat c.toNat) ∧
      ∀ rest m p c, line = byteOrderMark ++ rest → InLimits m p → ¬Strict rest m p c := by
  constructor
  · intro h
    refine ⟨fun m p c hl hlimits => ?_, fun rest m p c hline hlimits hs => ?_⟩
    · exact (h.device _ _ _ ((deviceHeader_iff hfit).mpr ⟨m, p, c, hl, hlimits, rfl, rfl, rfl⟩)).1
    · have hhost := hostHeader_iff.mpr ⟨strict_decoded_iff.mpr (Or.inr ⟨rest, hline, hs⟩), hlimits⟩
      have hmark := (h.host m p c hhost).1.no_mark
      rw [hline, List.isPrefixOf_iff_prefix.mpr (List.prefix_append _ _)] at hmark
      exact Bool.false_ne_true hmark.symm
  · rintro ⟨hloose, hmark⟩
    have hdevice : ∀ m p c, deviceHeader line = some (m, p, c) →
        Strict line m p c ∧ InLimits m p := by
      intro m p c h
      obtain ⟨m', p', c', hl, hlimits, rfl, rfl, rfl⟩ := (deviceHeader_iff hfit).mp h
      exact ⟨hloose m' p' c' hl hlimits, hlimits⟩
    have hhost : ∀ m p c, hostHeader deviceLimits line = some (m, p, c) →
        Strict line m p c ∧ InLimits m p := by
      intro m p c h
      obtain ⟨hs, hlimits⟩ := hostHeader_iff.mp h
      rcases strict_decoded_iff.mp hs with hs | ⟨rest, hline, hs⟩
      · exact ⟨hs, hlimits⟩
      · exact absurd hs (hmark rest m p c hline hlimits)
    refine ⟨Option.ext fun ⟨m, p, c⟩ => ⟨fun h => ?_, fun h => ?_⟩, hdevice, hhost⟩
    · obtain ⟨hs, hlimits⟩ := hdevice m p c h
      exact hostHeader_iff.mpr ⟨strict_decoded_iff.mpr (Or.inl hs), hlimits⟩
    · obtain ⟨hs, hlimits⟩ := hhost m p c h
      obtain ⟨hl, hc⟩ := hs.lenient hlimits
      have hmax : metadataMax = 384 := rfl
      have hfile : filePayloadMax = 16404 := rfl
      have hsize : UInt32.size = 2 ^ 32 := rfl
      obtain ⟨h0, h1, h2⟩ := hlimits
      have em : (UInt32.ofNat m).toNat = m := UInt32.toNat_ofNat_of_lt' (by omega)
      have ep : (UInt32.ofNat p).toNat = p := UInt32.toNat_ofNat_of_lt' (by omega)
      have ec : (UInt32.ofNat c).toNat = c := UInt32.toNat_ofNat_of_lt' hc
      exact (deviceHeader_iff hfit).mpr
        ⟨_, _, _, hl, by rw [em, ep]; exact ⟨h0, h1, h2⟩, em, ep, ec⟩

/-- A line with a plus sign, a short checksum and no carriage return. -/
def looseLine : List UInt8 :=
  formatName ++ [0x20] ++ formatMetadata ++ [0x2b, 0x32] ++ [0x20] ++ formatPayload ++ [0x30] ++
    [0x20] ++ formatCrc ++ [0x30, 0x0a]

/-- The device takes `EVMUX/1 h=+2 p=0 c=0` with a bare line feed for a header; the host does
not. -/
theorem looseLine_disagrees : looseLine.length < headerMax ∧
    deviceHeader looseLine = some (2, 0, 0) ∧ hostHeader deviceLimits looseLine = none ∧
    ¬Agree looseLine := by
  have hdevice : deviceHeader looseLine = some (2, 0, 0) := by decide
  have hhost : hostHeader deviceLimits looseLine = none := by decide
  refine ⟨by decide, hdevice, hhost, fun h => ?_⟩
  have hsame := h.same
  rw [hdevice, hhost] at hsame
  exact absurd hsame (by simp)

/-- The line `EVMUX/1 h=2 p=0 c=00000000`. -/
def strictLine : List UInt8 := headerLine 2 0 0

/-- On a strict line the two sides agree. -/
theorem headers_agree_sample : Agree strictLine := by
  refine (headers_agree_iff (by decide)).mpr ⟨fun m p c hl _ => ?_, fun rest m p c h _ _ => ?_⟩
  · have hscan := scanHeader_of_lenient hl
    rw [show scanHeader strictLine = some (2, 0, 0, strictLine.length) by decide] at hscan
    simp only [Option.some.injEq, Prod.mk.injEq] at hscan
    obtain ⟨rfl, rfl, rfl, -⟩ := hscan
    exact headerFields_iff.mp (by decide)
  · have hhead : some (0x45 : UInt8) = some 0xef := congrArg List.head? h
    exact absurd hhead (by decide)

end EspVision.HeaderGrammar
