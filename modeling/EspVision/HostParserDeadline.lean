import EspVision.HostParserComplete
import EspVision.TransitionSystem

/-!
# The deadline of a partial frame

The record of a partial frame is cleared on the branches that cut a dropped or delivered frame,
but not on those that give up a header or trim the buffer. As long as the second kind is not taken
while a frame is waiting, the record is that of the frame at the front of the buffer: it started
when the first byte in the buffer arrived, and only its own age makes the timer discard it.
-/
namespace EspVision.Host

open TransitionSystem

variable {M σ : Type*} {f : List UInt8 → Option M} {limits : Limits}

/-! ## Runs with a clock -/

/-- A chunk with the time it arrives at, and an expiry with the two readings of the clock. -/
inductive ParserEvent
  | chunk (now : ℤ) (bytes : List UInt8)
  | expire (expiredAt rearmedAt : ℤ)

/-- The parser with its timer; only a pending timer expires. -/
def timedParser (h : Handlers M σ) (limits : Limits) (s : σ) : System (Parser M σ) ParserEvent where
  init p := p = { limits := limits, sink := ⟨s, [], [], 0, 0, 0⟩ }
  step p e p' :=
    match e with
    | .chunk now bytes => p' = p.feedBytes h now bytes
    | .expire expiredAt rearmedAt =>
      p.partialFrameTimer.isSome ∧ p' = p.partialFrameTimeout expiredAt rearmedAt

/-- The bytes that an event brings, with their arrival times. -/
def ParserEvent.stamped : ParserEvent → List (UInt8 × ℤ)
  | .chunk now bytes => bytes.map (·, now)
  | .expire _ _ => []

/-- All received bytes with their arrival times. -/
def stamped (hist : List ParserEvent) : List (UInt8 × ℤ) := hist.flatMap ParserEvent.stamped

/-- The last `k` received bytes. -/
def lastBytes (hist : List ParserEvent) (k : ℕ) : List (UInt8 × ℤ) :=
  (stamped hist).drop ((stamped hist).length - k)

/-- The arrival of the last chunk. -/
def lastChunkAt (hist : List ParserEvent) : Option ℤ :=
  hist.foldl (fun last e => match e with
    | .chunk now _ => some now
    | .expire _ _ => last) none

/-- The record belongs to the frame at the front of the buffer. -/
structure OwnDeadline (h : Handlers M σ) (hist : List ParserEvent) (p : Parser M σ) : Prop where
  buffered : (lastBytes hist p.buffer.length).map (·.1) = p.buffer
  incomplete : p.buffer ≠ [] → turn h.parseMetadata p.limits p.buffer = .incomplete p.buffer
  recorded : p.partialFrame.isSome ↔ p.buffer ≠ []
  timed : p.partialFrameTimer.isSome ↔ p.partialFrame.isSome
  startedAt : p.partialFrame.map (·.startedAt) =
    (lastBytes hist p.buffer.length).head?.map (·.2)
  progressAt : ∀ r ∈ p.partialFrame, lastChunkAt hist = some r.lastProgressAt

/-- While a frame waits, a chunk neither overflows the buffer nor spoils the header of the frame;
and when the frame turns out to lack its end guard no other start byte waits behind its own. -/
def KeepsFrame (h : Handlers M σ) (p : Parser M σ) : ParserEvent → Prop
  | .chunk _ bytes =>
    p.buffer ≠ [] →
      (p.buffer ++ bytes).length ≤ maxBuffer ∧
        match turn h.parseMetadata p.limits (p.buffer ++ bytes) with
        | .badHeader _ => False
        | .noGuard _ => sof ∉ p.buffer.tail
        | _ => True
  | .expire _ _ => True

/-! ## Stamps -/

lemma stamped_snoc (hist : List ParserEvent) (e : ParserEvent) :
    stamped (hist ++ [e]) = stamped hist ++ e.stamped := by
  simp only [stamped, List.flatMap_append, List.flatMap_cons, List.flatMap_nil, List.append_nil]

lemma lastBytes_expire (hist : List ParserEvent) (a b : ℤ) (k : ℕ) :
    lastBytes (hist ++ [.expire a b]) k = lastBytes hist k := by
  simp only [lastBytes, stamped_snoc, ParserEvent.stamped, List.append_nil]

/-- What is left of the last chunk arrived with it. -/
lemma lastBytes_of_suffix (hist : List ParserEvent) (now : ℤ) {bytes b : List UInt8}
    (h : b <:+ bytes) :
    lastBytes (hist ++ [.chunk now bytes]) b.length = b.map (·, now) := by
  obtain ⟨t, rfl⟩ := h
  have hlen : (stamped (hist ++ [.chunk now (t ++ b)])).length - b.length =
      (stamped hist ++ t.map (·, now)).length := by
    simp only [stamped_snoc, ParserEvent.stamped, List.length_append, List.length_map]
    omega
  rw [lastBytes, hlen, stamped_snoc, ParserEvent.stamped, List.map_append, ← List.append_assoc,
    List.drop_left]

/-- A chunk that is kept whole follows what was waiting. -/
lemma lastBytes_append (hist : List ParserEvent) (now : ℤ) (bytes : List UInt8) {k : ℕ}
    (hk : k ≤ (stamped hist).length) :
    lastBytes (hist ++ [.chunk now bytes]) (k + bytes.length) =
      lastBytes hist k ++ bytes.map (·, now) := by
  have hlen : (stamped (hist ++ [.chunk now bytes])).length - (k + bytes.length) =
      (stamped hist).length - k := by
    simp only [stamped_snoc, ParserEvent.stamped, List.length_append, List.length_map]
    omega
  rw [lastBytes, hlen, stamped_snoc, List.drop_append_of_le_length (by omega)]
  rfl

lemma OwnDeadline.length_le {h : Handlers M σ} {hist : List ParserEvent} {p : Parser M σ}
    (hi : OwnDeadline h hist p) : p.buffer.length ≤ (stamped hist).length := by
  have hlen := congrArg List.length hi.buffered
  rw [List.length_map, lastBytes, List.length_drop] at hlen
  omega

@[simp] lemma lastChunkAt_chunk (hist : List ParserEvent) (now : ℤ) (bytes : List UInt8) :
    lastChunkAt (hist ++ [.chunk now bytes]) = some now := by
  simp only [lastChunkAt, List.foldl_append, List.foldl_cons, List.foldl_nil]

@[simp] lemma lastChunkAt_expire (hist : List ParserEvent) (a b : ℤ) :
    lastChunkAt (hist ++ [.expire a b]) = lastChunkAt hist := by
  simp only [lastChunkAt, List.foldl_append, List.foldl_cons, List.foldl_nil]

/-! ## A loop that starts without a record -/

/-- The parser waits for nothing, or for a frame whose first byte it has just been given. -/
inductive Settled (f : List UInt8 → Option M) (now : ℤ) (b : List UInt8) (p : Parser M σ) : Prop
  | idle (hb : p.buffer = []) (hp : p.partialFrame = none) (ht : p.partialFrameTimer = none)
  | waiting (hb : p.buffer ≠ []) (hs : p.buffer <:+ b)
      (hi : turn f p.limits p.buffer = .incomplete p.buffer)
      (hp : p.partialFrame = some ⟨now, now⟩) (ht : p.partialFrameTimer.isSome)

lemma Settled.of_suffix {now : ℤ} {a b : List UInt8} {p : Parser M σ}
    (h : Settled f now b p) (hab : b <:+ a) : Settled f now a p := by
  cases h with
  | idle hb hp ht => exact .idle hb hp ht
  | waiting hb hs hi hp ht => exact .waiting hb (hs.trans hab) hi hp ht

/-- A loop without a record ends without one, or with one made now. -/
lemma feedLoop_settled (h : Handlers M σ) (now : ℤ) (hadPartial : Bool) {fuel : ℕ}
    {p : Parser M σ} (hfuel : (toSof p.buffer).length < fuel) (hp : p.partialFrame = none)
    (ht : p.partialFrameTimer = none) :
    Settled h.parseMetadata now (toSof p.buffer) (feedLoop h now hadPartial fuel p) := by
  induction fuel generalizing p with
  | zero => omega
  | succ fuel ih =>
    have go : ∀ q : Parser M σ, q.partialFrame = none → q.partialFrameTimer = none →
        (turn h.parseMetadata p.limits p.buffer).rest = some q.buffer →
        Settled h.parseMetadata now (toSof p.buffer) (feedLoop h now hadPartial fuel q) := by
      intro q hq hqt hr
      obtain ⟨hlt, hsuf⟩ := turn_rest_lt hr
      have hle := toSof_length_le q.buffer
      exact (ih (by omega) hq hqt).of_suffix ((toSof_suffix _).trans hsuf)
    cases hturn : turn h.parseMetadata p.limits p.buffer <;> simp only [feedLoop, hturn]
    case noSof => exact .idle rfl hp ht
    case incomplete b =>
      obtain ⟨rfl, hne⟩ := turn_incomplete hturn
      refine .waiting hne (List.suffix_refl _) ?_ ?_ rfl
      · exact (turn_congr (toSof_toSof p.buffer)).trans hturn
      · simp only [Parser.armPartialFrameTimeout, hp, armedFrame]
    case badHeader r => exact go { p with buffer := r } hp ht (by rw [hturn]; rfl)
    all_goals exact go _ rfl rfl (by rw [hturn]; rfl)

/-! ## The turn that ends the wait -/

lemma scanHeaderEnd_missing {previous : UInt8} {i n : ℕ} {l x : List UInt8}
    (h : scanHeaderEnd previous i l = .missing)
    (hx : scanHeaderEnd previous i (l ++ x) = .found n) : i + l.length < n := by
  induction l generalizing previous i with
  | nil =>
    rw [List.nil_append] at hx
    exact (scanHeaderEnd_le hx).1
  | cons b rest ih =>
    simp only [List.cons_append, scanHeaderEnd] at h hx
    split_ifs at h hx
    have hrec := ih h hx
    rw [List.length_cons]
    omega

/-- A header that ends when a chunk arrives ends in the chunk. -/
lemma findHeaderEnd_missing {b x : List UInt8} {n : ℕ} (hb : b ≠ [])
    (h : findHeaderEnd b = .missing) (hx : findHeaderEnd (b ++ x) = .found n) : b.length < n := by
  cases b with
  | nil => exact absurd rfl hb
  | cons c rest =>
    have hlt := scanHeaderEnd_missing h hx
    rw [List.length_cons]
    omega

/-- What a waiting frame is still missing. -/
lemma Header.missing {b x : List UInt8} {n m p c : ℕ} (hb : toSof b = b)
    (hw : turn f limits b = .incomplete b) (hh : Header limits (b ++ x) n m p c) :
    b.length < n + m + p + 1 := by
  have hs := turn_spec f limits b
  rw [hw, hb] at hs
  generalize ht : Turn.incomplete b = t at hs
  cases hs with
  | headerMissing hne he =>
    have hlt := findHeaderEnd_missing hne he hh.found
    omega
  | bodyMissing n' m' p' c' hne hh' hlen =>
    have hfound := hh.found
    rw [findHeaderEnd_append (by simp [hh'.found]), hh'.found] at hfound
    obtain rfl := HeaderEnd.found.inj hfound
    have hfields := hh.fields
    rw [List.take_append_of_le_length (findHeaderEnd_le hh'.found).2, hh'.fields] at hfields
    obtain ⟨rfl, hrest⟩ := Prod.mk.inj (Option.some.inj hfields)
    obtain ⟨rfl, -⟩ := Prod.mk.inj hrest
    exact hlen
  | _ => cases ht

/-- A header whose lengths are out of bounds ends in the chunk: no other start byte waits. -/
lemma sof_not_mem_of_badLength {b x : List UInt8} {n m p c : ℕ} (hb : toSof b = b)
    (hw : turn f limits b = .incomplete b) (he : findHeaderEnd (b ++ x) = .found n)
    (hf : headerFields (decodedHeader (((b ++ x).take n).drop 1)) = some (m, p, c))
    (hl : m = 0 ∨ limits.maxMetadataLength < m ∨ limits.maxPayloadLength < p) :
    sof ∉ b.tail := by
  have hs := turn_spec f limits b
  rw [hw, hb] at hs
  generalize ht : Turn.incomplete b = t at hs
  cases hs with
  | headerMissing hne hmiss =>
    have hlt := findHeaderEnd_missing hne hmiss he
    have hsub : b.tail ⊆ ((b ++ x).take n).drop 1 := by
      rw [List.take_append, List.take_of_length_le hlt.le, List.drop_one,
        List.tail_append_of_ne_nil hne]
      exact List.subset_append_left _ _
    intro hmem
    exact sof_not_mem_header hf (hsub hmem)
  | bodyMissing n' m' p' c' hne hh' hlen =>
    rw [findHeaderEnd_append (by simp [hh'.found]), hh'.found] at he
    obtain rfl := HeaderEnd.found.inj he
    rw [List.take_append_of_le_length (findHeaderEnd_le hh'.found).2, hh'.fields] at hf
    obtain ⟨rfl, hrest⟩ := Prod.mk.inj (Option.some.inj hf)
    obtain ⟨rfl, -⟩ := Prod.mk.inj hrest
    exact absurd hl hh'.within
  | _ => cases ht

/-- The turn that cuts a waiting frame leaves nothing that had waited. -/
lemma turn_waiting {b x r : List UInt8} (hne : b ≠ []) (hb : toSof b = b)
    (hw : turn f limits b = .incomplete b) (hr : (turn f limits (b ++ x)).rest = some r)
    (hheader : ∀ r', turn f limits (b ++ x) ≠ .badHeader r')
    (hguard : ∀ r', turn f limits (b ++ x) = .noGuard r' → sof ∉ b.tail) :
    toSof r <:+ x := by
  have hfull : toSof (b ++ x) = b ++ x := by
    rw [toSof_append_of_ne_nil (by rwa [hb]), hb]
  have htail : (b ++ x).tail = b.tail ++ x := List.tail_append_of_ne_nil hne
  have hnone : sof ∉ b.tail → toSof (b.tail ++ x) <:+ x := by
    intro hsof
    have hnil : toSof b.tail = [] := by
      refine List.dropWhile_eq_nil_iff.mpr fun c hc => ?_
      exact bne_iff_ne.mpr fun heq => hsof (heq ▸ hc)
    rw [toSof_append_of_nil hnil]
    exact toSof_suffix x
  have hdrop : ∀ k, b.length < k → toSof ((b ++ x).drop k) <:+ x := by
    intro k hk
    rw [List.drop_append, List.drop_of_length_le hk.le, List.nil_append]
    exact (toSof_suffix _).trans (List.drop_suffix _ _)
  have hs := turn_spec f limits (b ++ x)
  rw [hfull] at hs
  generalize turn f limits (b ++ x) = t at hs hr hheader hguard
  cases hs <;> cases hr
  case headerTooLong => exact absurd rfl (hheader _)
  case headerMismatch => exact absurd rfl (hheader _)
  case badLength n m p c _ he hf hl =>
    rw [htail]
    exact hnone (sof_not_mem_of_badLength hb hw he hf hl)
  case noGuard n m p c hh hlen hg =>
    rw [toSof_toSof, htail]
    exact hnone (hguard _ rfl)
  case badMetadata n m p c hh hlen hg hm => exact hdrop _ (hh.missing hb hw)
  case badCrc n m p c hh hlen hg => exact hdrop _ (hh.missing hb hw)
  case frame n m p c metadata hh hlen hg hm hc => exact hdrop _ (hh.missing hb hw)

/-! ## Steps -/

variable {h : Handlers M σ} {hist : List ParserEvent} {p : Parser M σ}

lemma Settled.own {now : ℤ} {bytes : List UInt8}
    (hp : Settled h.parseMetadata now bytes p) :
    OwnDeadline h (hist ++ [.chunk now bytes]) p := by
  cases hp with
  | idle hb hp ht =>
    constructor
    · simp [hb, lastBytes]
    · exact fun hne => absurd hb hne
    · simp [hb, hp]
    · simp [hp, ht]
    · simp [hb, hp, lastBytes]
    · simp [hp]
  | waiting hb hs hi hp ht =>
    have hlast := lastBytes_of_suffix hist now hs
    constructor
    · rw [hlast, List.map_map]
      exact List.map_id _
    · exact fun _ => hi
    · simp [hb, hp]
    · simp [hp, ht]
    · obtain ⟨c, rest, hcons⟩ := List.exists_cons_of_ne_nil hb
      rw [hlast, hp, hcons]
      rfl
    · rw [hp]
      rintro r hr
      obtain rfl := Option.some.inj hr
      exact lastChunkAt_chunk hist now bytes

/-- A frame that goes on waiting keeps its start. -/
lemma OwnDeadline.extend {now : ℤ} {bytes : List UInt8} {r : PartialFrame} {p' : Parser M σ}
    (hi : OwnDeadline h hist p) (hr : p.partialFrame = some r) (hb : p'.buffer = p.buffer ++ bytes)
    (hturn : turn h.parseMetadata p'.limits p'.buffer = .incomplete p'.buffer)
    (hp : p'.partialFrame = some { r with lastProgressAt := now })
    (ht : p'.partialFrameTimer.isSome) :
    OwnDeadline h (hist ++ [.chunk now bytes]) p' := by
  have hne : p.buffer ≠ [] := hi.recorded.mp (by rw [hr]; rfl)
  have hlast := lastBytes_append hist now bytes hi.length_le
  rw [← List.length_append, ← hb] at hlast
  have hold : lastBytes hist p.buffer.length ≠ [] := by
    intro hnil
    apply hne
    rw [← hi.buffered, hnil]
    rfl
  constructor
  · rw [hlast, List.map_append, hi.buffered, hb, List.map_map]
    exact congrArg (p.buffer ++ ·) (List.map_id _)
  · exact fun _ => hturn
  · simp [hp, hb, hne]
  · simp [hp, ht]
  · have hstart := hi.startedAt
    rw [hr] at hstart
    rw [hlast, hp, List.head?_append_of_ne_nil _ hold, ← hstart]
    rfl
  · rw [hp]
    rintro r' hr'
    obtain rfl := Option.some.inj hr'
    exact lastChunkAt_chunk hist now bytes

/-- A chunk that a frame was waiting for. -/
lemma OwnDeadline.chunk_waiting {now : ℤ} {bytes : List UInt8} {r : PartialFrame}
    (hi : OwnDeadline h hist p) (hr : p.partialFrame = some r)
    (hkeep : KeepsFrame h p (.chunk now bytes)) :
    OwnDeadline h (hist ++ [.chunk now bytes]) (p.feedBytes h now bytes) := by
  have hne : p.buffer ≠ [] := hi.recorded.mp (by rw [hr]; rfl)
  have hw := hi.incomplete hne
  have hsof : toSof p.buffer = p.buffer := (turn_incomplete hw).1.symm
  have hfull : toSof (p.buffer ++ bytes) = p.buffer ++ bytes := by
    rw [toSof_append_of_ne_nil (by rwa [hsof]), hsof]
  obtain ⟨hfit, hfirst⟩ := hkeep hne
  have htrim : trimmed (p.buffer ++ bytes) = p.buffer ++ bytes := if_neg (by omega)
  -- a turn that cuts the waiting frame clears the record
  have cut : ∀ q : Parser M σ, q.partialFrame = none → q.partialFrameTimer = none →
      (turn h.parseMetadata p.limits (p.buffer ++ bytes)).rest = some q.buffer →
      (∀ r', turn h.parseMetadata p.limits (p.buffer ++ bytes) ≠ .badHeader r') →
      (∀ r', turn h.parseMetadata p.limits (p.buffer ++ bytes) = .noGuard r' →
        sof ∉ p.buffer.tail) →
      OwnDeadline h (hist ++ [.chunk now bytes])
        (feedLoop h now p.partialFrame.isSome (p.buffer ++ bytes).length q) := by
    intro q hq hqt hrest hheader hguard
    have hlt := (turn_rest_lt hrest).1
    have hle := toSof_length_le q.buffer
    rw [hfull] at hlt
    have hset := feedLoop_settled h now p.partialFrame.isSome (lt_of_le_of_lt hle hlt) hq hqt
    exact (hset.of_suffix (turn_waiting hne hsof hw hrest hheader hguard)).own
  simp only [Parser.feedBytes, htrim]
  rw [feedLoop]
  cases hturn : turn h.parseMetadata p.limits (p.buffer ++ bytes) <;>
    rw [hturn] at hfirst cut <;> simp only
  case noSof => exact absurd ((hfull.symm.trans (turn_noSof hturn))) (by simp [hne])
  case incomplete b =>
    obtain ⟨rfl, -⟩ := turn_incomplete hturn
    refine hi.extend hr hfull ?_ ?_ rfl
    · exact (turn_congr (toSof_toSof _)).trans hturn
    · simp only [Parser.armPartialFrameTimeout, hr, armedFrame, Option.isSome_some, if_true]
  case badHeader => exact hfirst.elim
  case noGuard r' => exact cut _ rfl rfl rfl (fun _ hc => by cases hc) (fun _ _ => hfirst)
  all_goals exact cut _ rfl rfl rfl (fun _ hc => by cases hc) (fun _ hc => by cases hc)

/-- A chunk. -/
lemma OwnDeadline.chunk {now : ℤ} {bytes : List UInt8} (hi : OwnDeadline h hist p)
    (hkeep : KeepsFrame h p (.chunk now bytes)) :
    OwnDeadline h (hist ++ [.chunk now bytes]) (p.feedBytes h now bytes) := by
  cases hr : p.partialFrame with
  | some r => exact hi.chunk_waiting hr hkeep
  | none =>
    have hb : p.buffer = [] := by
      by_contra hne
      simpa [hr] using hi.recorded.mpr hne
    have ht : p.partialFrameTimer = none := by
      have hiff := hi.timed
      simpa [hr] using hiff
    have hle := toSof_length_le (trimmed (p.buffer ++ bytes))
    have hset := feedLoop_settled h now p.partialFrame.isSome
      (p := { p with
        rxBytes := p.rxBytes + bytes.length
        rxChunks := p.rxChunks + 1
        buffer := trimmed (p.buffer ++ bytes) }) (Nat.lt_succ_of_le hle) hr ht
    refine (hset.of_suffix ((toSof_suffix _).trans ?_)).own
    rw [hb]
    exact trimmed_suffix bytes

/-- An expiry. -/
lemma OwnDeadline.expire {expiredAt rearmedAt : ℤ} (hi : OwnDeadline h hist p) :
    OwnDeadline h (hist ++ [.expire expiredAt rearmedAt])
      (p.partialFrameTimeout expiredAt rearmedAt) := by
  have hkeep : ∀ k, lastBytes (hist ++ [.expire expiredAt rearmedAt]) k = lastBytes hist k :=
    lastBytes_expire hist expiredAt rearmedAt
  have hlast := lastChunkAt_expire hist expiredAt rearmedAt
  cases hr : p.partialFrame with
  | none =>
    simp only [Parser.partialFrameTimeout, hr]
    exact ⟨by rw [hkeep, hi.buffered], hi.incomplete, hi.recorded, hi.timed,
      by rw [hkeep, hi.startedAt], fun r hmem => hlast.trans (hi.progressAt r hmem)⟩
  | some r =>
    by_cases hearly : expiredAt - r.lastProgressAt < p.limits.frameProgressTimeoutMs ∧
        expiredAt - r.startedAt < p.limits.frameTotalTimeoutMs
    · have hne : p.buffer ≠ [] := hi.recorded.mp (by rw [hr]; rfl)
      have hstart := hi.startedAt
      rw [hr] at hstart
      simp only [Parser.partialFrameTimeout, hr, if_pos hearly, Parser.armPartialFrameTimeout,
        armedFrame, Bool.false_eq_true, if_false]
      exact ⟨by rw [hkeep, hi.buffered], hi.incomplete, iff_of_true rfl hne, iff_of_true rfl rfl,
        by rw [hkeep, ← hstart], fun r' hmem => by
          obtain rfl := Option.some.inj hmem
          exact hlast.trans (hi.progressAt r hr)⟩
    · simp only [Parser.partialFrameTimeout, hr, if_neg hearly]
      constructor <;> simp [Parser.clearPartialFrame, lastBytes]

/-- Only a frame that is itself too old, or has itself made no progress, is discarded. -/
lemma OwnDeadline.discards {expiredAt rearmedAt : ℤ} (hi : OwnDeadline h hist p)
    (hd : (p.partialFrameTimeout expiredAt rearmedAt).buffer ≠ p.buffer) :
    ∃ first last, (lastBytes hist p.buffer.length).head?.map (·.2) = some first ∧
      lastChunkAt hist = some last ∧
      (p.limits.frameProgressTimeoutMs ≤ expiredAt - last ∨
        p.limits.frameTotalTimeoutMs ≤ expiredAt - first) := by
  cases hr : p.partialFrame with
  | none =>
    simp only [Parser.partialFrameTimeout, hr] at hd
    exact absurd rfl hd
  | some r =>
    have hstart := hi.startedAt
    rw [hr] at hstart
    refine ⟨r.startedAt, r.lastProgressAt, hstart.symm, hi.progressAt r hr, ?_⟩
    by_contra hyoung
    rw [not_or, not_le, not_le] at hyoung
    simp only [Parser.partialFrameTimeout, hr, if_pos hyoung] at hd
    exact absurd rfl hd

/-! ## Runs -/

theorem ownDeadline_step {limits : Limits} {s : σ} {e : ParserEvent} {p' : Parser M σ}
    (hi : OwnDeadline h hist p) (hkeep : KeepsFrame h p e)
    (hstep : (timedParser h limits s).step p e p') : OwnDeadline h (hist ++ [e]) p' := by
  cases e with
  | chunk now bytes =>
    obtain rfl : p' = p.feedBytes h now bytes := hstep
    exact hi.chunk hkeep
  | expire expiredAt rearmedAt =>
    obtain ⟨-, rfl⟩ : p.partialFrameTimer.isSome ∧
      p' = p.partialFrameTimeout expiredAt rearmedAt := hstep
    exact hi.expire

lemma ownDeadline_of_reaches {limits : Limits} {s : σ}
    (hr : Reaches ((timedParser h limits s).restrict (KeepsFrame h)) hist p) :
    OwnDeadline h hist p := by
  refine hr.invariant ?_ ?_
  · rintro p rfl
    constructor <;> simp [lastBytes]
  · intro hist p e p' _ hi hstep
    exact ownDeadline_step hi hstep.1 hstep.2

/-- The state after a run of chunks. -/
lemma reaches_feedAll (h : Handlers M σ) (limits : Limits) (s : σ)
    (chunks : List (ℤ × List UInt8)) :
    Reaches (timedParser h limits s) (chunks.map fun c => .chunk c.1 c.2)
      (Parser.feedAll h { limits := limits, sink := ⟨s, [], [], 0, 0, 0⟩ } chunks) := by
  induction chunks using List.reverseRecOn with
  | nil => exact .init rfl
  | append_singleton cs c ih =>
    rw [List.map_append, Parser.feedAll, List.foldl_append]
    exact ih.snoc rfl

/-- Two bytes of a header, the second one a second before the frame is too old. -/
def slowStart : List (ℤ × List UInt8) := [(0, [sof]), (11000, [0x45])]

/-- A start byte that belongs to no frame; its header is given up when the line ends. Another one
arrives at 11999. -/
def strayStart : List (ℤ × List UInt8) :=
  [(0, [sof]), (1, [0x58, 0x0d, 0x0a]), (11999, [sof])]

end EspVision.Host
