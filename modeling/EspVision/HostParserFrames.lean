import EspVision.HostParserStream

/-!
# Streams of whole frames

A stream made only of admissible frames is delivered completely exactly when no chunk, together
with the part of a frame that waits for it, is larger than the buffer. When it is larger the
parser cuts the buffer first, and what it finds afterwards lies apart in a shorter stream.
-/
namespace EspVision.Host

variable {M σ : Type*}

/-! ## Header lines -/

/-- A byte that neither ends a line nor starts a frame. -/
def Plain (b : UInt8) : Prop := b ≠ 0x0d ∧ b ≠ sof

lemma plain_of_digit {base : ℕ} {b : UInt8} (h : (Scanf.digitValue base b).isSome = true) :
    Plain b := by
  have hraw : Scanf.rawDigit b ≠ none := by
    intro hn
    simp [Scanf.digitValue, hn] at h
  constructor
  · rintro rfl
    exact hraw (by decide)
  · rintro rfl
    exact hraw (by decide)

lemma digits_split (base v : ℕ) (s : List UInt8) :
    ∃ t, s = t ++ (Scanf.digits base v s).2 ∧
      ∀ b ∈ t, (Scanf.digitValue base b).isSome = true := by
  induction s generalizing v with
  | nil => exact ⟨[], rfl, by simp⟩
  | cons b s ih =>
    unfold Scanf.digits
    cases hd : Scanf.digitValue base b with
    | none => exact ⟨[], rfl, by simp⟩
    | some d =>
      obtain ⟨t, ht, hall⟩ := ih (v * base + d)
      refine ⟨b :: t, by simp only [List.cons_append, ← ht], ?_⟩
      intro x hx
      rcases List.mem_cons.mp hx with rfl | hx
      · simp [hd]
      · exact hall x hx

lemma text_split {t s r : List UInt8} (h : Scanf.text t s = some r) : s = t ++ r := by
  unfold Scanf.text at h
  split_ifs at h with hp
  obtain rfl := Option.some.inj h
  exact (List.prefix_iff_eq_append.mp (List.isPrefixOf_iff_prefix.mp hp)).symm

lemma decimalDigits_split {s r : List UInt8} {v : ℕ} (h : decimalDigits s = some (v, r)) :
    ∃ t, s = t ++ r ∧ ∀ b ∈ t, Plain b := by
  unfold decimalDigits at h
  split_ifs at h
  obtain ⟨t, ht, hall⟩ := digits_split 10 0 s
  rw [Option.some.inj h] at ht
  exact ⟨t, ht, fun b hb => plain_of_digit (hall b hb)⟩

lemma checksumLine_split {s : List UInt8} {c : ℕ} (h : checksumLine s = some c) :
    ∃ t, s = t ++ lineEnd ∧ ∀ b ∈ t, Plain b := by
  unfold checksumLine at h
  split_ifs at h with hc
  obtain ⟨-, hall, hend⟩ := hc
  refine ⟨s.take 8, ?_, ?_⟩
  · rw [← hend, List.take_append_drop]
  · intro b hb
    exact plain_of_digit (List.all_eq_true.mp hall b hb)

/-- A matched line is plain up to its end. -/
lemma headerFields_split {line : List UInt8} {fields : ℕ × ℕ × ℕ}
    (h : headerFields line = some fields) : ∃ t, line = t ++ lineEnd ∧ ∀ b ∈ t, Plain b := by
  simp only [headerFields, Option.bind_eq_bind, Option.bind_eq_some_iff] at h
  obtain ⟨s₁, h₁, ⟨m, s₂⟩, h₂, s₃, h₃, ⟨p, s₄⟩, h₄, s₅, h₅, c, h₆, -⟩ := h
  obtain ⟨t₂, ht₂, hp₂⟩ := decimalDigits_split h₂
  obtain ⟨t₄, ht₄, hp₄⟩ := decimalDigits_split h₄
  obtain ⟨t₆, ht₆, hp₆⟩ := checksumLine_split h₆
  refine ⟨headerStart ++ (t₂ ++ (headerPayload ++ (t₄ ++ (headerChecksum ++ t₆)))), ?_, ?_⟩
  · have hs₂ : s₂ = headerPayload ++ s₃ := text_split h₃
    have hs₄ : s₄ = headerChecksum ++ s₅ := text_split h₅
    rw [text_split h₁, ht₂, hs₂, ht₄, hs₄, ht₆]
    simp only [List.append_assoc]
  · have h1 : ∀ b ∈ headerStart, Plain b := by simp [headerStart, Plain, sof]
    have h2 : ∀ b ∈ headerPayload, Plain b := by simp [headerPayload, Plain, sof]
    have h3 : ∀ b ∈ headerChecksum, Plain b := by simp [headerChecksum, Plain, sof]
    intro b hb
    simp only [List.mem_append] at hb
    rcases hb with hb | hb | hb | hb | hb | hb
    · exact h1 b hb
    · exact hp₂ b hb
    · exact h2 b hb
    · exact hp₄ b hb
    · exact h3 b hb
    · exact hp₆ b hb

/-- So is a matched header, with or without a byte order mark. -/
lemma header_split {header : List UInt8} {fields : ℕ × ℕ × ℕ}
    (h : headerFields (decodedHeader header) = some fields) :
    ∃ t, header = t ++ lineEnd ∧ ∀ b ∈ t, Plain b := by
  obtain ⟨t, ht, hp⟩ := headerFields_split h
  unfold decodedHeader at ht
  split_ifs at ht with hbom
  · have hsplit := (List.prefix_iff_eq_append.mp (List.isPrefixOf_iff_prefix.mp hbom)).symm
    have hmark : ∀ b ∈ byteOrderMark, Plain b := by simp [byteOrderMark, Plain, sof]
    refine ⟨byteOrderMark ++ t, ?_, ?_⟩
    · rw [List.append_assoc, ← ht]
      exact hsplit
    · intro b hb
      rcases List.mem_append.mp hb with hb | hb
      · exact hmark b hb
      · exact hp b hb
  · exact ⟨t, ht, hp⟩

lemma scanHeaderEnd_plain {t : List UInt8} (ht : ∀ b ∈ t, Plain b) {previous : UInt8} {i : ℕ}
    (hprev : previous ≠ 0x0d) (hi : i + t.length + 1 ≤ maxHeader + 1) (x : List UInt8) :
    scanHeaderEnd previous i (t ++ (lineEnd ++ x)) = .found (i + t.length + 2) := by
  induction t generalizing previous i with
  | nil =>
    simp only [List.length_nil, Nat.add_zero] at hi
    have h1 : ¬ (previous = 0x0d ∧ (0x0d : UInt8) = 0x0a) := by simp
    have h2 : ¬ maxHeader < i := by omega
    simp only [lineEnd, List.nil_append, List.cons_append, scanHeaderEnd, h1, h2, if_false,
      and_self, if_true, List.length_nil, Nat.add_zero]
  | cons b t ih =>
    have hb := ht b List.mem_cons_self
    simp only [List.length_cons] at hi
    have h1 : ¬ (previous = 0x0d ∧ b = 0x0a) := fun h => hprev h.1
    have h2 : ¬ maxHeader < i := by omega
    rw [List.cons_append, scanHeaderEnd, if_neg h1, if_neg h2,
      ih (fun c hc => ht c (List.mem_cons_of_mem b hc)) hb.1 (by omega), List.length_cons]
    congr 1
    omega

/-- The end of a header that matched and is short enough is found, whatever follows it. -/
lemma findHeaderEnd_header {header : List UInt8} {fields : ℕ × ℕ × ℕ}
    (h : headerFields (decodedHeader header) = some fields)
    (hshort : header.length ≤ maxHeader + 1) (x : List UInt8) :
    findHeaderEnd (sof :: (header ++ x)) = .found (header.length + 1) := by
  obtain ⟨t, rfl, ht⟩ := header_split h
  simp only [List.length_append] at hshort
  have hend : lineEnd.length = 2 := rfl
  rw [findHeaderEnd, List.append_assoc, scanHeaderEnd_plain ht (by decide) (by omega),
    List.length_append, hend]
  congr 1
  omega

lemma scanHeaderEnd_short {previous : UInt8} {i n : ℕ} {l : List UInt8} (hi : i ≤ maxHeader + 1)
    (h : scanHeaderEnd previous i l = .found n) : n ≤ maxHeader + 2 := by
  induction l generalizing previous i with
  | nil => cases h
  | cons b rest ih =>
    simp only [scanHeaderEnd] at h
    split_ifs at h with h1 h2
    · cases h
      omega
    · exact ih (by omega) h

lemma findHeaderEnd_short {b : List UInt8} {n : ℕ} (h : findHeaderEnd b = .found n) :
    n ≤ maxHeader + 2 := by
  cases b with
  | nil => cases h
  | cons c rest => exact scanHeaderEnd_short (by simp [maxHeader]) h

/-! ## Frames -/

/-- A frame that the parser admits: its header matches the pattern and names its lengths, which
are within the limits, its metadata parses and its checksum is right or left out. -/
structure WireFrame (f : List UInt8 → Option M) (limits : Limits) where
  header : List UInt8
  metadataText : List UInt8
  payload : List UInt8
  metadata : M
  checksum : ℕ
  short : header.length ≤ maxHeader + 1
  fields : headerFields (decodedHeader header) =
    some (metadataText.length, payload.length, checksum)
  within : ¬ (metadataText.length = 0 ∨ limits.maxMetadataLength < metadataText.length ∨
    limits.maxPayloadLength < payload.length)
  parses : f metadataText = some metadata
  intact : checksum = 0 ∨ crc32 payload = checksum

variable {f : List UInt8 → Option M} {limits : Limits}

def WireFrame.bytes (w : WireFrame f limits) : List UInt8 :=
  sof :: (w.header ++ (w.metadataText ++ (w.payload ++ [eofGuard])))

def WireFrame.delivery (w : WireFrame f limits) : Delivery M :=
  ⟨w.metadataText, w.metadata, w.payload⟩

lemma WireFrame.length_bytes (w : WireFrame f limits) :
    w.bytes.length = w.header.length + w.metadataText.length + w.payload.length + 2 := by
  simp only [bytes, List.length_cons, List.length_append, List.length_nil]
  omega

lemma WireFrame.findHeaderEnd (w : WireFrame f limits) (x : List UInt8) :
    Host.findHeaderEnd (w.bytes ++ x) = .found (w.header.length + 1) := by
  have h := findHeaderEnd_header w.fields w.short
    (w.metadataText ++ (w.payload ++ ([eofGuard] ++ x)))
  rw [← h]
  simp only [bytes, List.cons_append, List.append_assoc]

/-- A whole frame at the front is delivered. -/
theorem turn_wireFrame (w : WireFrame f limits) (x : List UInt8) :
    turn f limits (w.bytes ++ x) = .frame w.delivery x := by
  have hsof : toSof (w.bytes ++ x) = w.bytes ++ x := toSof_cons_sof _
  have hb : w.bytes ++ x = ([sof] ++ w.header) ++ (w.metadataText ++
      (w.payload ++ (eofGuard :: x))) := by
    simp only [WireFrame.bytes, List.cons_append, List.append_assoc, List.nil_append]
  have hn : ([sof] ++ w.header).length = w.header.length + 1 := by simp
  have hheader : ((w.bytes ++ x).take (w.header.length + 1)).drop 1 = w.header := by
    rw [hb, ← hn, List.take_left]
    rfl
  have htext : ((w.bytes ++ x).take (w.header.length + 1 + w.metadataText.length)).drop
      (w.header.length + 1) = w.metadataText := by
    rw [hb, ← hn, List.take_length_add_append, List.drop_left, List.take_left]
  have hpayload : ((w.bytes ++ x).take
      (w.header.length + 1 + w.metadataText.length + w.payload.length)).drop
        (w.header.length + 1 + w.metadataText.length) = w.payload := by
    rw [hb, ← hn, ← List.append_assoc, ← List.length_append, List.take_length_add_append,
      List.drop_left, List.take_left]
  have hrest : (w.bytes ++ x).drop
      (w.header.length + 1 + w.metadataText.length + w.payload.length + 1) = x := by
    have hl : w.header.length + 1 + w.metadataText.length + w.payload.length + 1 =
        w.bytes.length := by
      rw [w.length_bytes]
      omega
    rw [hl, List.drop_left]
  have hguard : (w.bytes ++ x)[w.header.length + 1 + w.metadataText.length + w.payload.length]? =
      some eofGuard := by
    rw [hb, ← List.append_assoc, ← List.append_assoc, ← hn, ← List.length_append,
      ← List.length_append, List.getElem?_append_right le_rfl, Nat.sub_self]
    rfl
  have hlen : ¬ (w.bytes ++ x).length <
      w.header.length + 1 + w.metadataText.length + w.payload.length + 1 := by
    rw [List.length_append, w.length_bytes]
    omega
  have hcrc : ¬ (w.checksum ≠ 0 ∧ crc32 w.payload ≠ w.checksum) := by
    rintro ⟨h0, h1⟩
    rcases w.intact with hz | heq
    · exact h0 hz
    · exact h1 heq
  have hne : ¬ w.bytes ++ x = [] := by simp [WireFrame.bytes]
  unfold turn
  rw [hsof, if_neg hne]
  unfold headTurn
  rw [w.findHeaderEnd x]
  simp only [hheader, w.fields, if_neg w.within, bodyTurn, if_neg hlen, hguard, ne_eq,
    not_true_eq_false, if_false, htext, w.parses, hpayload, hrest]
  rw [if_neg hcrc]
  rfl

/-- A frame that the parser delivers is one. -/
theorem exists_wireFrame {b rest : List UInt8} {d : Delivery M}
    (h : turn f limits b = .frame d rest) :
    ∃ w : WireFrame f limits, w.delivery = d ∧ toSof b = w.bytes ++ rest := by
  have hs := turn_spec f limits b
  rw [h] at hs
  cases hb : toSof b with
  | nil =>
    rw [hb] at hs
    cases hs with
    | frame n m p c metadata hh hlen => simp at hlen
  | cons first tail =>
    obtain rfl := toSof_eq_cons hb
    rw [hb] at hs
    generalize hB : sof :: tail = B at hs
    cases hs with
    | frame n m p c metadata hh hlen hg hm hc =>
      obtain ⟨hn2, hnlen⟩ := findHeaderEnd_le hh.found
      have hshort := findHeaderEnd_short hh.found
      have hlhead : ((B.take n).drop 1).length = n - 1 := by
        rw [List.length_drop, List.length_take]
        omega
      have hltext : ((B.take (n + m)).drop n).length = m := by
        rw [List.length_drop, List.length_take]
        omega
      have hlpay : ((B.take (n + m + p)).drop (n + m)).length = p := by
        rw [List.length_drop, List.length_take]
        omega
      refine ⟨⟨(B.take n).drop 1, (B.take (n + m)).drop n,
        (B.take (n + m + p)).drop (n + m), metadata, c, by omega, ?_, ?_, hm, hc⟩, rfl, ?_⟩
      · rw [hltext, hlpay]
        exact hh.fields
      · rw [hltext, hlpay]
        exact hh.within
      · have h1 : [sof] ++ (B.take n).drop 1 = B.take n := by
          have ht1 : (B.take n).take 1 = [sof] := by
            rw [List.take_take, min_eq_left (by omega), ← hB]
            rfl
          rw [← ht1, List.take_append_drop]
        have h2 : B.take n ++ (B.take (n + m)).drop n = B.take (n + m) := by
          have ht : (B.take (n + m)).take n = B.take n := by
            rw [List.take_take, min_eq_left (by omega)]
          rw [← ht, List.take_append_drop]
        have h3 : B.take (n + m) ++ (B.take (n + m + p)).drop (n + m) = B.take (n + m + p) := by
          have ht : (B.take (n + m + p)).take (n + m) = B.take (n + m) := by
            rw [List.take_take, min_eq_left (by omega)]
          rw [← ht, List.take_append_drop]
        have h4 : B.take (n + m + p) ++ [eofGuard] = B.take (n + m + p + 1) := by
          rw [List.take_add_one, hg]
          rfl
        have hsplit : B = B.take (n + m + p + 1) ++ B.drop (n + m + p + 1) :=
          (List.take_append_drop _ _).symm
        have hjoin : sof :: ((B.take n).drop 1 ++ ((B.take (n + m)).drop n ++
            ((B.take (n + m + p)).drop (n + m) ++ [eofGuard]))) = B.take (n + m + p + 1) := by
          rw [show ∀ x y z : List UInt8, sof :: (x ++ (y ++ (z ++ [eofGuard]))) =
            ((([sof] ++ x) ++ y) ++ z) ++ [eofGuard] by simp, h1, h2, h3, h4]
        exact hsplit.trans (congrArg (· ++ B.drop (n + m + p + 1)) hjoin.symm)

end EspVision.Host
