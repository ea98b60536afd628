import EspVision.HostParser

/-!
# The parser does not see chunk boundaries

A turn that gets past the front of the buffer makes the same decision when more bytes follow,
up to text before the next `SOF`. So the loop over `b ++ x` is the loop over `b`, then over what
that left followed by `x`, and feeding chunks is feeding their concatenation.
-/
namespace EspVision.Host

variable {M σ : Type*}

/-! ## The first `SOF` -/

@[simp] theorem toSof_nil : toSof [] = [] := rfl

lemma toSof_cons_sof (b : List UInt8) : toSof (sof :: b) = sof :: b := by
  simp [toSof]

lemma toSof_append_of_ne_nil {b : List UInt8} (h : toSof b ≠ []) (x : List UInt8) :
    toSof (b ++ x) = toSof b ++ x := by
  rw [toSof, List.dropWhile_append, if_neg (by simpa [toSof] using h)]
  rfl

lemma toSof_append_of_nil {b : List UInt8} (h : toSof b = []) (x : List UInt8) :
    toSof (b ++ x) = toSof x := by
  rw [toSof, List.dropWhile_append, if_pos (by simpa [toSof] using h)]
  rfl

lemma toSof_eq_cons {b rest : List UInt8} {c : UInt8} (h : toSof b = c :: rest) : c = sof := by
  have hhead := List.head?_dropWhile_not (· != sof) b
  rw [show b.dropWhile (· != sof) = c :: rest from h] at hhead
  simpa using hhead

@[simp] theorem toSof_toSof (b : List UInt8) : toSof (toSof b) = toSof b := by
  cases h : toSof b with
  | nil => rfl
  | cons c rest =>
    obtain rfl := toSof_eq_cons h
    exact toSof_cons_sof rest

lemma toSof_append_toSof (b x : List UInt8) : toSof (toSof b ++ x) = toSof (b ++ x) := by
  by_cases h : toSof b = []
  · rw [h, toSof_append_of_nil h, List.nil_append]
  · rw [toSof_append_of_ne_nil h, toSof_append_of_ne_nil (by rwa [toSof_toSof]), toSof_toSof]

lemma toSof_suffix (b : List UInt8) : toSof b <:+ b := List.dropWhile_suffix _

lemma toSof_length_le (b : List UInt8) : (toSof b).length ≤ b.length := (toSof_suffix b).length_le

/-! ## The end of the header -/

lemma scanHeaderEnd_append {previous : UInt8} {i : ℕ} {l : List UInt8}
    (h : scanHeaderEnd previous i l ≠ .missing) (x : List UInt8) :
    scanHeaderEnd previous i (l ++ x) = scanHeaderEnd previous i l := by
  induction l generalizing previous i with
  | nil => exact absurd rfl h
  | cons b rest ih =>
    simp only [List.cons_append, scanHeaderEnd] at h ⊢
    split_ifs at h ⊢
    · rfl
    · rfl
    · exact ih h

lemma findHeaderEnd_append {b : List UInt8} (h : findHeaderEnd b ≠ .missing) (x : List UInt8) :
    findHeaderEnd (b ++ x) = findHeaderEnd b := by
  cases b with
  | nil => exact absurd rfl h
  | cons c rest => exact scanHeaderEnd_append h x

lemma scanHeaderEnd_le {previous : UInt8} {i n : ℕ} {l : List UInt8}
    (h : scanHeaderEnd previous i l = .found n) : i < n ∧ n ≤ i + l.length := by
  induction l generalizing previous i with
  | nil => cases h
  | cons b rest ih =>
    simp only [scanHeaderEnd] at h
    split_ifs at h
    · cases h
      simp
    · have hrec := ih h
      simp only [List.length_cons]
      omega

/-- The header ends inside the buffer, behind its first two bytes. -/
lemma findHeaderEnd_le {b : List UInt8} {n : ℕ} (h : findHeaderEnd b = .found n) :
    2 ≤ n ∧ n ≤ b.length := by
  cases b with
  | nil => cases h
  | cons c rest =>
    have hle := scanHeaderEnd_le h
    simp only [List.length_cons]
    omega

/-! ## Turns -/

/-- A header that was found, matched the pattern and is within the limits. -/
structure Header (limits : Limits) (b : List UInt8) (n m p c : ℕ) : Prop where
  found : findHeaderEnd b = .found n
  fields : headerFields (decodedHeader ((b.take n).drop 1)) = some (m, p, c)
  within : ¬ (m = 0 ∨ limits.maxMetadataLength < m ∨ limits.maxPayloadLength < p)

/-- The cases of a turn; `b` is the buffer from its first `SOF` on. -/
inductive TurnOf (f : List UInt8 → Option M) (limits : Limits) (b : List UInt8) : Turn M → Prop
  | noSof (hb : b = []) : TurnOf f limits b .noSof
  | headerMissing (hb : b ≠ []) (he : findHeaderEnd b = .missing) :
      TurnOf f limits b (.incomplete b)
  | headerTooLong (hb : b ≠ []) (he : findHeaderEnd b = .tooLong) :
      TurnOf f limits b (.badHeader b.tail)
  | headerMismatch (n : ℕ) (hb : b ≠ []) (he : findHeaderEnd b = .found n)
      (hf : headerFields (decodedHeader ((b.take n).drop 1)) = none) :
      TurnOf f limits b (.badHeader b.tail)
  | badLength (n m p c : ℕ) (hb : b ≠ []) (he : findHeaderEnd b = .found n)
      (hf : headerFields (decodedHeader ((b.take n).drop 1)) = some (m, p, c))
      (hl : m = 0 ∨ limits.maxMetadataLength < m ∨ limits.maxPayloadLength < p) :
      TurnOf f limits b (.badLength b.tail)
  | bodyMissing (n m p c : ℕ) (hb : b ≠ []) (hh : Header limits b n m p c)
      (hlen : b.length < n + m + p + 1) : TurnOf f limits b (.incomplete b)
  | noGuard (n m p c : ℕ) (hh : Header limits b n m p c) (hlen : n + m + p + 1 ≤ b.length)
      (hg : b[n + m + p]? ≠ some eofGuard) : TurnOf f limits b (.noGuard (toSof b.tail))
  | badMetadata (n m p c : ℕ) (hh : Header limits b n m p c) (hlen : n + m + p + 1 ≤ b.length)
      (hg : b[n + m + p]? = some eofGuard) (hm : f ((b.take (n + m)).drop n) = none) :
      TurnOf f limits b (.badMetadata (b.drop (n + m + p + 1)))
  | badCrc (n m p c : ℕ) (hh : Header limits b n m p c) (hlen : n + m + p + 1 ≤ b.length)
      (hg : b[n + m + p]? = some eofGuard) :
      TurnOf f limits b (.badCrc (b.drop (n + m + p + 1)))
  | frame (n m p c : ℕ) (metadata : M) (hh : Header limits b n m p c)
      (hlen : n + m + p + 1 ≤ b.length) (hg : b[n + m + p]? = some eofGuard)
      (hm : f ((b.take (n + m)).drop n) = some metadata)
      (hc : c = 0 ∨ crc32 ((b.take (n + m + p)).drop (n + m)) = c) :
      TurnOf f limits b
        (.frame ⟨(b.take (n + m)).drop n, metadata, (b.take (n + m + p)).drop (n + m)⟩
          (b.drop (n + m + p + 1)))

lemma bodyTurn_spec (f : List UInt8 → Option M) {limits : Limits} {b : List UInt8}
    {n m p c : ℕ} (hb : b ≠ []) (hh : Header limits b n m p c) :
    TurnOf f limits b (bodyTurn f b n m p c) := by
  unfold bodyTurn
  by_cases hlen : b.length < n + m + p + 1
  · simp only [hlen, if_true]
    exact .bodyMissing n m p c hb hh hlen
  · simp only [hlen, if_false]
    by_cases hg : b[n + m + p]? ≠ some eofGuard
    · rw [if_pos hg]
      exact .noGuard n m p c hh (by omega) hg
    · rw [if_neg hg]
      cases hm : f ((b.take (n + m)).drop n) with
      | none => exact .badMetadata n m p c hh (by omega) (not_not.mp hg) hm
      | some metadata =>
        by_cases hc : c ≠ 0 ∧ crc32 ((b.take (n + m + p)).drop (n + m)) ≠ c
        · simp only [if_pos hc]
          exact .badCrc n m p c hh (by omega) (not_not.mp hg)
        · simp only [if_neg hc]
          refine .frame n m p c metadata hh (by omega) (not_not.mp hg) hm ?_
          by_cases h0 : c = 0
          · exact .inl h0
          · exact .inr (not_not.mp fun hne => hc ⟨h0, hne⟩)

theorem turn_spec (f : List UInt8 → Option M) (limits : Limits) (b : List UInt8) :
    TurnOf f limits (toSof b) (turn f limits b) := by
  unfold turn
  by_cases hn : toSof b = []
  · rw [if_pos hn]
    exact .noSof hn
  · rw [if_neg hn]
    unfold headTurn
    cases he : findHeaderEnd (toSof b) with
    | missing => exact .headerMissing hn he
    | tooLong => exact .headerTooLong hn he
    | found n =>
      cases hf : headerFields (decodedHeader (((toSof b).take n).drop 1)) with
      | none =>
        simp only [hf]
        exact .headerMismatch n hn he hf
      | some fields =>
        obtain ⟨m, p, c⟩ := fields
        simp only [hf]
        by_cases hl : m = 0 ∨ limits.maxMetadataLength < m ∨ limits.maxPayloadLength < p
        · rw [if_pos hl]
          exact .badLength n m p c hn he hf hl
        · rw [if_neg hl]
          exact bodyTurn_spec f hn ⟨he, hf, hl⟩

/-- The same turn with another buffer left over. -/
def Turn.withRest : Turn M → List UInt8 → Turn M
  | .noSof, _ => .noSof
  | .incomplete b, _ => .incomplete b
  | .badHeader _, r => .badHeader r
  | .badLength _, r => .badLength r
  | .noGuard _, r => .noGuard r
  | .badMetadata _, r => .badMetadata r
  | .badCrc _, r => .badCrc r
  | .frame d _, r => .frame d r

/-- The buffer that a turn leaves for the next one. -/
def Turn.rest : Turn M → Option (List UInt8)
  | .noSof => none
  | .incomplete _ => none
  | .badHeader r => some r
  | .badLength r => some r
  | .noGuard r => some r
  | .badMetadata r => some r
  | .badCrc r => some r
  | .frame _ r => some r

/-- The buffer that a last turn keeps. -/
def Turn.kept : Turn M → List UInt8
  | .incomplete b => b
  | _ => []

/-- What a turn does to the sink. -/
def Turn.deliver (h : Handlers M σ) (s : Sink M σ) : Turn M → Sink M σ
  | .noGuard _ => s.drop
  | .badMetadata _ => s.drop
  | .badCrc _ => s.drop
  | .frame d _ => s.offer h d
  | _ => s

@[simp] theorem Turn.deliver_withRest (h : Handlers M σ) (s : Sink M σ) (t : Turn M)
    (r : List UInt8) : (t.withRest r).deliver h s = t.deliver h s := by
  cases t <;> rfl

lemma Turn.rest_withRest {t : Turn M} {r₀ : List UInt8} (h : t.rest = some r₀) (r : List UInt8) :
    (t.withRest r).rest = some r := by
  cases t <;> first | rfl | cases h

lemma turn_congr {f : List UInt8 → Option M} {limits : Limits} {b b' : List UInt8}
    (h : toSof b = toSof b') : turn f limits b = turn f limits b' := by
  unfold turn
  rw [h]

/-- Text in front of an incomplete frame is cut, and nothing else. -/
lemma turn_incomplete {f : List UInt8 → Option M} {limits : Limits} {b b' : List UInt8}
    (h : turn f limits b = .incomplete b') : b' = toSof b ∧ b' ≠ [] := by
  have hs := turn_spec f limits b
  rw [h] at hs
  cases hs with
  | headerMissing hb he => exact ⟨rfl, hb⟩
  | bodyMissing n m p c hb hh hlen => exact ⟨rfl, hb⟩

lemma turn_noSof {f : List UInt8 → Option M} {limits : Limits} {b : List UInt8}
    (h : turn f limits b = .noSof) : toSof b = [] := by
  have hs := turn_spec f limits b
  rw [h] at hs
  cases hs with
  | noSof hb => exact hb

/-- A turn that goes on leaves less than it found. -/
lemma turn_rest_lt {f : List UInt8 → Option M} {limits : Limits} {b r : List UInt8}
    (h : (turn f limits b).rest = some r) : r.length < (toSof b).length ∧ r <:+ toSof b := by
  have hs := turn_spec f limits b
  generalize toSof b = b' at hs
  generalize turn f limits b = t at h hs
  have tail (hb : b' ≠ []) : b'.tail.length < b'.length ∧ b'.tail <:+ b' := by
    have hpos := List.length_pos_of_ne_nil hb
    exact ⟨by rw [List.length_tail]; omega, List.tail_suffix b'⟩
  have frame (k : ℕ) (hlen : k + 1 ≤ b'.length) :
      (b'.drop (k + 1)).length < b'.length ∧ b'.drop (k + 1) <:+ b' := by
    exact ⟨by rw [List.length_drop]; omega, List.drop_suffix _ _⟩
  cases hs <;> cases h
  case headerTooLong hb _ => exact tail hb
  case headerMismatch hb _ _ => exact tail hb
  case badLength hb _ _ _ => exact tail hb
  case noGuard n m p c hh hlen _ =>
    have hb : b' ≠ [] := by
      rintro rfl
      simp at hlen
    obtain ⟨hlt, hsuf⟩ := tail hb
    have hle := toSof_length_le b'.tail
    exact ⟨by omega, (toSof_suffix _).trans hsuf⟩
  case badMetadata hlen _ _ => exact frame _ hlen
  case badCrc hlen _ => exact frame _ hlen
  case frame hlen _ _ _ => exact frame _ hlen

/-- A frame that is complete stays what it is when bytes follow. -/
lemma bodyTurn_append {f : List UInt8 → Option M} {b r : List UInt8} {n m p c : ℕ}
    (h : (bodyTurn f b n m p c).rest = some r) (x : List UInt8) :
    ∃ r', bodyTurn f (b ++ x) n m p c = (bodyTurn f b n m p c).withRest r' ∧
      toSof r' = toSof (r ++ x) := by
  simp only [bodyTurn] at h ⊢
  by_cases hlen : b.length < n + m + p + 1
  · rw [if_pos hlen] at h
    cases h
  · have hlen' : ¬ (b ++ x).length < n + m + p + 1 := by
      rw [List.length_append]
      omega
    have hb : 0 < b.length := by omega
    rw [if_neg hlen] at h ⊢
    rw [if_neg hlen', List.getElem?_append_left (by omega), List.take_append_of_le_length (by omega),
      List.take_append_of_le_length (by omega), List.drop_append_of_le_length (by omega)]
    by_cases hg : b[n + m + p]? ≠ some eofGuard
    · rw [if_pos hg] at h ⊢
      rw [if_pos hg]
      obtain rfl := Option.some.inj h
      have htail : (b ++ x).tail = b.tail ++ x := List.tail_append_of_ne_nil (by
        rintro rfl
        simp at hb)
      refine ⟨toSof (b.tail ++ x), ?_, ?_⟩
      · rw [htail]
        rfl
      · rw [toSof_toSof, toSof_append_toSof]
    · rw [if_neg hg] at h ⊢
      rw [if_neg hg]
      cases hm : f ((b.take (n + m)).drop n) with
      | none =>
        rw [hm] at h
        obtain rfl := Option.some.inj h
        exact ⟨_, rfl, rfl⟩
      | some metadata =>
        rw [hm] at h
        simp only at h ⊢
        split_ifs at h ⊢
        · obtain rfl := Option.some.inj h
          exact ⟨_, rfl, rfl⟩
        · obtain rfl := Option.some.inj h
          exact ⟨_, rfl, rfl⟩

/-- A turn that goes on makes the same decision when more bytes follow. -/
theorem turn_append {f : List UInt8 → Option M} {limits : Limits} {b r : List UInt8}
    (h : (turn f limits b).rest = some r) (x : List UInt8) :
    ∃ r', turn f limits (b ++ x) = (turn f limits b).withRest r' ∧
      toSof r' = toSof (r ++ x) := by
  unfold turn at h ⊢
  by_cases hn : toSof b = []
  · rw [if_pos hn] at h
    cases h
  · rw [if_neg hn] at h ⊢
    rw [toSof_append_of_ne_nil hn, if_neg (by simp [hn])]
    have htail : (toSof b ++ x).tail = (toSof b).tail ++ x := List.tail_append_of_ne_nil hn
    unfold headTurn at h ⊢
    cases he : findHeaderEnd (toSof b) with
    | missing =>
      rw [he] at h
      cases h
    | tooLong =>
      rw [findHeaderEnd_append (by simp [he]), he]
      rw [he] at h
      obtain rfl := Option.some.inj h
      exact ⟨_, rfl, by rw [htail]⟩
    | found n =>
      rw [findHeaderEnd_append (by simp [he]), he]
      rw [he] at h
      simp only at h ⊢
      rw [List.take_append_of_le_length (findHeaderEnd_le he).2]
      cases hf : headerFields (decodedHeader (((toSof b).take n).drop 1)) with
      | none =>
        rw [hf] at h
        obtain rfl := Option.some.inj h
        exact ⟨_, rfl, by rw [htail]⟩
      | some fields =>
        obtain ⟨m, p, c⟩ := fields
        rw [hf] at h
        simp only at h ⊢
        split_ifs at h ⊢
        · obtain rfl := Option.some.inj h
          exact ⟨_, rfl, by rw [htail]⟩
        · exact bodyTurn_append h x

/-! ## The loop without its timer -/

/-- The loop on the buffer and the sink alone. -/
def drain (h : Handlers M σ) (limits : Limits) : ℕ → Sink M σ → List UInt8 →
    Sink M σ × List UInt8
  | 0, s, b => (s, b)
  | fuel + 1, s, b =>
    match (turn h.parseMetadata limits b).rest with
    | none => (s, (turn h.parseMetadata limits b).kept)
    | some r => drain h limits fuel ((turn h.parseMetadata limits b).deliver h s) r

variable {h : Handlers M σ} {limits : Limits}

/-- The timer does not influence what is delivered and kept. -/
theorem feedLoop_drain (now : ℤ) (hadPartial : Bool) (fuel : ℕ) (p : Parser M σ) :
    (feedLoop h now hadPartial fuel p).sink = (drain h p.limits fuel p.sink p.buffer).1 ∧
      (feedLoop h now hadPartial fuel p).buffer = (drain h p.limits fuel p.sink p.buffer).2 ∧
      (feedLoop h now hadPartial fuel p).limits = p.limits := by
  induction fuel generalizing p with
  | zero => exact ⟨rfl, rfl, rfl⟩
  | succ fuel ih =>
    cases ht : turn h.parseMetadata p.limits p.buffer <;>
      simp only [feedLoop, drain, ht, Turn.rest, Turn.kept, Turn.deliver]
    case noSof => exact ⟨trivial, trivial, trivial⟩
    case incomplete => exact ⟨rfl, rfl, rfl⟩
    case badHeader rest => exact ih { p with buffer := rest }
    case badLength rest => exact ih { p.clearPartialFrame with buffer := rest }
    case noGuard rest =>
      exact ih { p.clearPartialFrame with buffer := rest, sink := p.sink.drop }
    case badMetadata rest =>
      exact ih { p.clearPartialFrame with buffer := rest, sink := p.sink.drop }
    case badCrc rest =>
      exact ih { p.clearPartialFrame with buffer := rest, sink := p.sink.drop }
    case frame d rest =>
      exact ih { p.clearPartialFrame with buffer := rest, sink := p.sink.offer h d }

/-- More fuel than bytes from the first `SOF` on is enough. -/
lemma drain_fuel {fuel fuel' : ℕ} {b : List UInt8} (s : Sink M σ)
    (hf : (toSof b).length < fuel) (hf' : (toSof b).length < fuel') :
    drain h limits fuel s b = drain h limits fuel' s b := by
  induction fuel generalizing fuel' b s with
  | zero => omega
  | succ fuel ih =>
    cases fuel' with
    | zero => omega
    | succ fuel' =>
      unfold drain
      cases hr : (turn h.parseMetadata limits b).rest with
      | none => rfl
      | some r =>
        have hlt := (turn_rest_lt hr).1
        have hle := toSof_length_le r
        exact ih _ (by omega) (by omega)

/-- The loop with enough turns. -/
def drainAll (h : Handlers M σ) (limits : Limits) (s : Sink M σ) (b : List UInt8) :
    Sink M σ × List UInt8 := drain h limits (b.length + 1) s b

lemma drainAll_eq (s : Sink M σ) (b : List UInt8) :
    drainAll h limits s b =
      match (turn h.parseMetadata limits b).rest with
      | none => (s, (turn h.parseMetadata limits b).kept)
      | some r => drainAll h limits ((turn h.parseMetadata limits b).deliver h s) r := by
  rw [drainAll, drain]
  cases hr : (turn h.parseMetadata limits b).rest with
  | none => rfl
  | some r =>
    have hlt := (turn_rest_lt hr).1
    have hle := toSof_length_le r
    have hle' := toSof_length_le b
    exact drain_fuel _ (by omega) (by omega)

lemma drainAll_congr {b b' : List UInt8} (s : Sink M σ) (hb : toSof b = toSof b') :
    drainAll h limits s b = drainAll h limits s b' := by
  rw [drainAll_eq, drainAll_eq s b', turn_congr hb]

/-- The loop over `b ++ x` is the loop over `b`, then over what that left followed by `x`. -/
theorem drainAll_append (s : Sink M σ) (b x : List UInt8) :
    drainAll h limits s (b ++ x) =
      drainAll h limits (drainAll h limits s b).1 ((drainAll h limits s b).2 ++ x) := by
  induction hn : (toSof b).length using Nat.strong_induction_on generalizing b s with
  | _ n ih =>
    subst hn
    rw [drainAll_eq s b]
    cases ht : turn h.parseMetadata limits b with
    | noSof =>
      have hb := turn_noSof ht
      simp only [Turn.rest, Turn.kept, List.nil_append]
      exact drainAll_congr s (toSof_append_of_nil hb x)
    | incomplete b' =>
      obtain ⟨rfl, -⟩ := turn_incomplete ht
      simp only [Turn.rest, Turn.kept]
      exact drainAll_congr s (toSof_append_toSof b x).symm
    | _ =>
      rw [← ht]
      have hr : (turn h.parseMetadata limits b).rest = some _ := congrArg Turn.rest ht
      obtain ⟨r', hturn, hsof⟩ := turn_append hr x
      have hlt := (turn_rest_lt hr).1
      have hle := toSof_length_le (toSof b)
      rw [drainAll_eq s (b ++ x), hturn, Turn.rest_withRest hr, Turn.deliver_withRest, hr]
      simp only
      rw [drainAll_congr _ hsof]
      exact ih _ (lt_of_le_of_lt (toSof_length_le _) hlt) _ _ rfl

/-- What a loop keeps is the beginning of a frame; another loop keeps it too. -/
lemma drainAll_idem (s s' : Sink M σ) (b : List UInt8) :
    drainAll h limits s' (drainAll h limits s b).2 = (s', (drainAll h limits s b).2) := by
  induction hn : (toSof b).length using Nat.strong_induction_on generalizing b s with
  | _ n ih =>
    subst hn
    rw [drainAll_eq s b]
    cases ht : turn h.parseMetadata limits b with
    | noSof => rfl
    | incomplete b' =>
      obtain ⟨rfl, -⟩ := turn_incomplete ht
      simp only [Turn.rest, Turn.kept]
      rw [drainAll_eq, turn_congr (toSof_toSof b), ht]
      rfl
    | _ =>
      have hr : (turn h.parseMetadata limits b).rest = some _ := congrArg Turn.rest ht
      have hlt := (turn_rest_lt hr).1
      simp only [Turn.rest]
      exact ih _ (lt_of_le_of_lt (toSof_length_le _) hlt) _ _ rfl

/-! ## Chunks -/

/-- A chunk that fits into the buffer is parsed whole. -/
theorem feedBytes_eq (p : Parser M σ) (now : ℤ) (bytes : List UInt8)
    (hfit : (p.buffer ++ bytes).length ≤ maxBuffer) :
    (p.feedBytes h now bytes).sink = (drainAll h p.limits p.sink (p.buffer ++ bytes)).1 ∧
      (p.feedBytes h now bytes).buffer = (drainAll h p.limits p.sink (p.buffer ++ bytes)).2 ∧
      (p.feedBytes h now bytes).limits = p.limits := by
  have htrim : trimmed (p.buffer ++ bytes) = p.buffer ++ bytes := if_neg (by omega)
  simp only [Parser.feedBytes, htrim]
  exact feedLoop_drain now p.partialFrame.isSome _ { p with
    rxBytes := p.rxBytes + bytes.length
    rxChunks := p.rxChunks + 1
    buffer := p.buffer ++ bytes }

/-- No chunk ever makes the buffer exceed its limit. -/
def Fits (h : Handlers M σ) (p : Parser M σ) : List (ℤ × List UInt8) → Prop
  | [] => True
  | c :: cs => (p.buffer ++ c.2).length ≤ maxBuffer ∧ Fits h (p.feedBytes h c.1 c.2) cs

/-- The bytes of a list of chunks. -/
def bytesOf (chunks : List (ℤ × List UInt8)) : List UInt8 := (chunks.map (·.2)).flatten

@[simp] theorem bytesOf_nil : bytesOf [] = [] := rfl

@[simp] theorem bytesOf_cons (c : ℤ × List UInt8) (cs : List (ℤ × List UInt8)) :
    bytesOf (c :: cs) = c.2 ++ bytesOf cs := rfl

/-- Feeding chunks that fit is one loop over all of their bytes. -/
theorem feedAll_eq {chunks : List (ℤ × List UInt8)} {p : Parser M σ} (hfit : Fits h p chunks)
    (hwait : drainAll h p.limits p.sink p.buffer = (p.sink, p.buffer)) :
    (p.feedAll h chunks).sink = (drainAll h p.limits p.sink (p.buffer ++ bytesOf chunks)).1 ∧
      (p.feedAll h chunks).buffer =
        (drainAll h p.limits p.sink (p.buffer ++ bytesOf chunks)).2 ∧
      (p.feedAll h chunks).limits = p.limits := by
  induction chunks generalizing p with
  | nil => simp [Parser.feedAll, hwait]
  | cons c cs ih =>
    obtain ⟨hc, hcs⟩ := hfit
    obtain ⟨hs, hb, hl⟩ := feedBytes_eq (h := h) p c.1 c.2 hc
    have hwait' : drainAll h (p.feedBytes h c.1 c.2).limits (p.feedBytes h c.1 c.2).sink
        (p.feedBytes h c.1 c.2).buffer =
          ((p.feedBytes h c.1 c.2).sink, (p.feedBytes h c.1 c.2).buffer) := by
      rw [hb, hl, hs]
      exact drainAll_idem _ _ _
    obtain ⟨hs', hb', hl'⟩ := ih hcs hwait'
    rw [hs, hb, hl] at hs' hb'
    rw [bytesOf_cons, ← List.append_assoc, drainAll_append p.sink (p.buffer ++ c.2) (bytesOf cs)]
    exact ⟨hs', hb', hl'.trans hl⟩

/-- Handlers that take every metadata text and every frame. -/
def acceptAll : Handlers (List UInt8) Unit where
  parseMetadata := some
  filterFrame s _ _ := (s, true)
  dispatch s _ _ := (s, true)

/-- A frame with the metadata `{}` and one byte of payload, cut in its header. -/
def cutFrame : List (ℤ × List UInt8) :=
  [(0, [0x1e, 0x45, 0x56, 0x4d, 0x55, 0x58, 0x2f, 0x31, 0x20, 0x68]),
    (1, [0x3d, 0x32, 0x20, 0x70, 0x3d, 0x31, 0x20, 0x63, 0x3d, 0x30, 0x30, 0x30, 0x30, 0x30, 0x30,
      0x30, 0x30, 0x0d, 0x0a, 0x7b, 0x7d, 0x41, 0x1f])]

end EspVision.Host
