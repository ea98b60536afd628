import EspVision.DeviceParser
import EspVision.HostFrame

/-!
# Host frames through the device parser

The state of the parser inside a frame is a function of the frame, of how many of its bytes
have arrived, and of two times. Each byte takes that state to the next one, whatever reads the
bytes come in, so a frame that arrives in time is handed over once, as it was made.
-/
namespace EspVision.EvControl
open Json EvTransport EvControlJson
open Host (headerLine headerStart headerPayload headerChecksum lineEnd NoNul)

/-! ## Buffers -/

/-- `n` cells that were `fill`, with `done` written to the front. -/
def cells (fill : UInt8) (n : ℕ) (done : List UInt8) : List UInt8 :=
  done ++ List.replicate (n - done.length) fill

@[simp] theorem cells_length {fill : UInt8} {n : ℕ} {done : List UInt8} (h : done.length ≤ n) :
    (cells fill n done).length = n := by
  simp only [cells, List.length_append, List.length_replicate]
  omega

lemma cells_nil (fill : UInt8) (n : ℕ) : cells fill n [] = List.replicate n fill := rfl

lemma store_cells {fill : UInt8} {n : ℕ} {done : List UInt8} (h : done.length < n) (b : UInt8) :
    store (cells fill n done) done.length b = .ok (cells fill n (done ++ [b])) := by
  obtain ⟨k, hk⟩ := Nat.exists_eq_add_one_of_ne_zero (by omega : n - done.length ≠ 0)
  have hk' : n - (done.length + 1) = k := by omega
  rw [store, if_pos (by rw [cells_length h.le]; exact h)]
  simp only [cells, hk, List.replicate_succ, List.length_append, List.length_singleton, hk',
    List.append_assoc, List.singleton_append]
  rw [List.set_append_right _ _ (by omega), Nat.sub_self, List.set_cons_zero]

/-- A terminator where the cells are still cleared. -/
lemma store_terminator {n : ℕ} {done : List UInt8} (h : done.length < n) :
    store (cells 0 n done) done.length 0 = .ok (cells 0 n done) := by
  rw [store_cells h]
  obtain ⟨k, hk⟩ := Nat.exists_eq_add_one_of_ne_zero (by omega : n - done.length ≠ 0)
  have hk' : n - (done.length + 1) = k := by omega
  simp only [cells, hk, List.replicate_succ, List.length_append, List.length_singleton, hk',
    List.append_assoc, List.singleton_append]

lemma load_cells {fill : UInt8} {n : ℕ} {done : List UInt8} (h : done.length ≤ n) :
    load (cells fill n done) done.length = .ok done := by
  rw [load, if_pos (by rw [cells_length h]; exact h), cells, List.take_left]

lemma cString_cells {n : ℕ} {done : List UInt8} (h : done.length < n) (h0 : NoNul done) :
    cString (cells 0 n done) = .ok done := by
  obtain ⟨k, hk⟩ := Nat.exists_eq_add_one_of_ne_zero (by omega : n - done.length ≠ 0)
  rw [cells, hk, List.replicate_succ]
  exact cString_append h0

/-! ## The header -/

/-- A byte that is no line feed, no start byte and not NUL. -/
def Plain (b : UInt8) : Prop := b ≠ 0x0a ∧ b ≠ 0x1e ∧ b ≠ 0

instance (b : UInt8) : Decidable (Plain b) := by unfold Plain; infer_instance

lemma plain_of_digit {base : ℕ} {b : UInt8} (h : (Scanf.digitValue base b).isSome = true) :
    Plain b := by
  have hraw : (Scanf.rawDigit b).isSome = true := by
    unfold Scanf.digitValue at h
    cases hr : Scanf.rawDigit b with
    | none => simp [hr] at h
    | some d => rfl
  clear h
  unfold Scanf.rawDigit at hraw
  unfold Plain
  split_ifs at hraw <;> grind

/-- The header line without its line feed. -/
def headerBody (m p c : ℕ) : List UInt8 :=
  headerStart ++ (Scanf.numeral 10 m ++ (headerPayload ++ (Scanf.numeral 10 p ++
    (headerChecksum ++ (Scanf.padStart 8 (Scanf.numeral 16 c) ++ [0x0d])))))

lemma headerLine_eq (m p c : ℕ) : headerLine m p c = headerBody m p c ++ [0x0a] := by
  simp [headerLine, headerBody, lineEnd]

lemma headerBody_plain (m p c : ℕ) : ∀ b ∈ headerBody m p c, Plain b := by
  have h1 := (Scanf.numeral_reads 10 (by decide) (by decide) m).digit
  have h2 := (Scanf.numeral_reads 10 (by decide) (by decide) p).digit
  have h3 := (Scanf.padStart_reads (by decide)
    (Scanf.numeral_reads 16 (by decide) (by decide) c) 8).digit
  have hfixed : ∀ t : List UInt8, (t.all fun b => decide (Plain b)) = true → ∀ b ∈ t, Plain b :=
    fun t h b hb => of_decide_eq_true (List.all_eq_true.mp h b hb)
  intro b hb
  simp only [headerBody, List.mem_append] at hb
  rcases hb with hb | hb | hb | hb | hb | hb | hb
  · exact hfixed headerStart (by decide) b hb
  · exact plain_of_digit (h1 b hb)
  · exact hfixed headerPayload (by decide) b hb
  · exact plain_of_digit (h2 b hb)
  · exact hfixed headerChecksum (by decide) b hb
  · exact plain_of_digit (h3 b hb)
  · exact hfixed [0x0d] (by decide) b hb

lemma headerLine_noNul (m p c : ℕ) : NoNul (headerLine m p c) := by
  intro b hb
  rw [headerLine_eq, List.mem_append] at hb
  rcases hb with hb | hb
  · exact (headerBody_plain m p c b hb).2.2
  · obtain rfl : b = 0x0a := by simpa using hb
    decide

lemma text_append (t s : List UInt8) : Scanf.text t (t ++ s) = some s := by
  have h : t.isPrefixOf (t ++ s) = true := List.isPrefixOf_iff_prefix.mpr (List.prefix_append t s)
  rw [Scanf.text, if_pos h, List.drop_left]

/-- The device reads what the host printed. -/
theorem scanHeader_headerLine {m p c : ℕ} (hm : m < 2 ^ 32) (hp : p < 2 ^ 32) (hc : c < 2 ^ 32) :
    scanHeader (headerLine m p c) =
      some (UInt32.ofNat m, UInt32.ofNat p, UInt32.ofNat c, (headerLine m p c).length) := by
  have hp' : ∀ s, Scanf.startsWithDigit 10 (headerPayload ++ s) = false := fun s => by
    simp only [headerPayload, List.cons_append, Scanf.startsWithDigit]
    decide
  have hc' : ∀ s, Scanf.startsWithDigit 10 (headerChecksum ++ s) = false := fun s => by
    simp only [headerChecksum, List.cons_append, Scanf.startsWithDigit]
    decide
  have hstart : headerLine m p c = formatName ++ (0x20 :: (formatMetadata ++
      (Scanf.numeral 10 m ++ (headerPayload ++ (Scanf.numeral 10 p ++ (headerChecksum ++
        (Scanf.padStart 8 (Scanf.numeral 16 c) ++ lineEnd))))))) := rfl
  have hspace : ∀ s, Scanf.space (0x20 :: (formatMetadata ++ s)) = formatMetadata ++ s := fun _ => rfl
  have hspace1 : ∀ s, Scanf.space (headerPayload ++ s) = formatPayload ++ s := fun _ => rfl
  have hspace2 : ∀ s, Scanf.space (headerChecksum ++ s) = formatCrc ++ s := fun _ => rfl
  have hspace3 : Scanf.space lineEnd = [] := by decide
  have hx1 : ∀ s, ∀ b ∈ (headerPayload ++ s).head?, b ≠ 0x78 ∧ b ≠ 0x58 := by
    intro s b hb
    obtain rfl : (0x20 : UInt8) = b := by simpa [headerPayload] using hb
    decide
  have hx2 : ∀ s, ∀ b ∈ (headerChecksum ++ s).head?, b ≠ 0x78 ∧ b ≠ 0x58 := by
    intro s b hb
    obtain rfl : (0x20 : UInt8) = b := by simpa [headerChecksum] using hb
    decide
  have hhex := Scanf.hex_padStart 8 (s := lineEnd) (by decide)
    (show c < 16 ^ 8 by omega) hc
  rw [scanHeader, hstart]
  simp only [text_append, hspace, Scanf.decimal_numeral (hp' _) (hx1 _) hm, hspace1,
    Scanf.decimal_numeral (hc' _) (hx2 _) hp, hspace2, hhex, hspace3, List.length_nil, Nat.sub_zero,
    Option.bind_eq_bind, Option.bind_some]

/-! ## The parser inside a frame -/

/-- A frame within the device's limits. -/
structure WireFrame where
  metadata : List UInt8
  payload : List UInt8
  checksum : ℕ
  metadata_noNul : NoNul metadata
  metadata_ne_nil : metadata ≠ []
  metadata_le : metadata.length ≤ metadataMax
  payload_le : payload.length ≤ filePayloadMax
  checksum_lt : checksum < 2 ^ 32
  checksum_ok : checksum = 0 ∨ crc32 payload = UInt32.ofNat checksum

namespace WireFrame

variable (f : WireFrame)

/-- The header line. -/
def header : List UInt8 := headerLine f.metadata.length f.payload.length f.checksum

/-- What stands between the start byte and the end byte. -/
def body : List UInt8 := f.header ++ (f.metadata ++ f.payload)

/-- The bytes of the frame. -/
def bytes : List UInt8 := Host.frameBytes f.metadata f.payload f.checksum

lemma bytes_eq : f.bytes = sofByte :: (f.body ++ [eofByte]) := by
  simp [bytes, body, header, Host.frameBytes, Host.sof, Host.eofGuard, sofByte, eofByte]

lemma header_length : f.header.length ≤ 34 := by
  have h1 := f.metadata_le
  have h2 := f.payload_le
  have h3 := f.checksum_lt
  simp only [metadataMax, filePayloadMax] at h1 h2
  exact Host.headerLine_length (by omega) (by omega) (by omega)

/-- The payload goes to a buffer of its own. -/
def large : Bool := payloadMax < f.payload.length

/-- The parser after the bytes `done` of the header. -/
def inHeader (link : LinkRef) (start last : UInt32) (done : List UInt8) : Parser where
  state := .header
  linkBound := true
  link := link
  frameStartMs := start
  lastProgressMs := last
  header := cells 0 headerMax done
  headerLen := done.length

/-- The parser after the header and the bytes `done` of the metadata. -/
def inMetadata (link : LinkRef) (start last : UInt32) (done : List UInt8) : Parser :=
  { inHeader link start last f.header with
    state := .metadata
    metadata := cells 0 (metadataMax + 1) done
    metadataLen := f.metadata.length
    metadataPos := done.length
    payloadLen := f.payload.length
    expectedCrc := UInt32.ofNat f.checksum }

/-- The parser after the metadata and the bytes `done` of the payload. -/
def inPayload (link : LinkRef) (start last : UInt32) (done : List UInt8) : Parser :=
  { f.inMetadata link start last f.metadata with
    state := if done.length < f.payload.length then .payload else .eof
    payload := if f.large then zeros (payloadMax + 1) else cells 0 (payloadMax + 1) done
    filePayload := if f.large then some (cells 0xff (f.payload.length + 1) done) else none
    payloadPos := done.length }

/-- The surroundings admit the large payload of a frame. -/
def Admitted (env : Env) (link : LinkRef) : Prop :=
  f.large = true →
    (∃ m, parseMetadata f.metadata = .ok m ∧ m.channel = userRpc ∧ m.method = fileWrite ∧
      m.type = reqType ∧ m.encoding = binaryEncoding ∧ fileWriteAuthorized env link m = true) ∧
    env.memory (f.payload.length + 1) = true

end WireFrame

/-- A byte comes within the idle and the total limit. -/
def WithinLimits (start last now : UInt32) : Prop :=
  now - last < frameIdleTimeoutMs ∧ now - start < frameTotalTimeoutMs

lemma not_expired {p : Parser} {now : UInt32}
    (h : WithinLimits p.frameStartMs p.lastProgressMs now) : p.expired now = false := by
  simp [Parser.expired, h.1, h.2]

namespace WireFrame

variable (f : WireFrame) {env : Env} {link : LinkRef} {start last now : UInt32}

lemma feed_header {done rest : List UInt8} {b : UInt8} (hsplit : f.header = done ++ b :: rest)
    (hne : rest ≠ []) (ht : WithinLimits start last now) :
    feedByte env (inHeader link start last done) link b now =
      .ok (inHeader link start now (done ++ [b]), []) := by
  have hexp : (inHeader link start last done).expired now = false := not_expired ht
  have hlen := f.header_length
  rw [hsplit, List.length_append, List.length_cons] at hlen
  have hpl : Plain b := by
    rw [header, headerLine_eq] at hsplit
    refine headerBody_plain f.metadata.length f.payload.length f.checksum b ?_
    obtain ⟨init, x, rfl⟩ : ∃ init x, rest = init ++ [x] :=
      ⟨_, _, (List.dropLast_concat_getLast hne).symm⟩
    have hinit := congrArg List.dropLast hsplit
    rw [List.dropLast_concat, ← List.cons_append, ← List.append_assoc, List.dropLast_concat] at hinit
    rw [hinit]
    simp
  have h1 : ¬(b = sofByte ∧ (inHeader link start last done).headerLen = 0) := fun h => hpl.2.1 h.1
  have h2 : ¬headerMax ≤ (inHeader link start last done).headerLen + 1 := by
    simp only [headerMax, inHeader]
    omega
  have hlt : done.length < headerMax := by
    simp only [headerMax]
    omega
  have hlt' : (done ++ [b]).length < headerMax := by
    simp only [headerMax, List.length_append, List.length_singleton]
    omega
  have hterm := store_terminator hlt'
  rw [List.length_append, List.length_singleton] at hterm
  rw [feedByte, if_neg (by rw [hexp]; decide)]
  simp only [if_neg h1, if_neg h2]
  simp only [inHeader, store_cells hlt, Outcome.ok_bind, hterm, if_neg hpl.1, List.length_append,
    List.length_singleton]

lemma feed_header_end {done : List UInt8} {b : UInt8} (hsplit : f.header = done ++ [b])
    (ht : WithinLimits start last now) :
    feedByte env (inHeader link start last done) link b now =
      .ok (f.inMetadata link start now [], []) := by
  have hexp : (inHeader link start last done).expired now = false := not_expired ht
  have hlen := f.header_length
  have hnul : NoNul f.header := headerLine_noNul _ _ _
  obtain ⟨-, rfl⟩ : done = headerBody _ _ _ ∧ b = 0x0a := by
    rw [header, headerLine_eq] at hsplit
    have := List.append_inj_right' hsplit rfl
    exact ⟨(List.append_inj_left' hsplit rfl).symm, by simpa using this.symm⟩
  have hhl : f.header.length = done.length + 1 := by rw [hsplit, List.length_append]; rfl
  have h1 : ¬((0x0a : UInt8) = sofByte ∧ (inHeader link start last done).headerLen = 0) := by
    rintro ⟨h, -⟩
    exact absurd h (by decide)
  have h2 : ¬headerMax ≤ (inHeader link start last done).headerLen + 1 := by
    simp only [headerMax, inHeader]
    omega
  have hlt : done.length < headerMax := by
    simp only [headerMax]
    omega
  have hlt' : f.header.length < headerMax := by
    simp only [headerMax]
    omega
  have hterm := store_terminator hlt'
  rw [hhl] at hterm
  have hm := f.metadata_le
  have hp := f.payload_le
  have hpos := List.length_pos_of_ne_nil f.metadata_ne_nil
  simp only [metadataMax, filePayloadMax] at hm hp
  have hscan : scanHeader f.header = some (UInt32.ofNat f.metadata.length,
      UInt32.ofNat f.payload.length, UInt32.ofNat f.checksum, f.header.length) :=
    scanHeader_headerLine (by omega) (by omega) f.checksum_lt
  have hmn : (UInt32.ofNat f.metadata.length).toNat = f.metadata.length :=
    UInt32.toNat_ofNat_of_lt' (by rw [UInt32.size]; omega)
  have hpn : (UInt32.ofNat f.payload.length).toNat = f.payload.length :=
    UInt32.toNat_ofNat_of_lt' (by rw [UInt32.size]; omega)
  have hm0 : UInt32.ofNat f.metadata.length ≠ 0 := by
    intro h
    rw [h] at hmn
    simp only [UInt32.toNat_zero] at hmn
    omega
  have hcheck : ¬(f.header.length ≠ done.length + 1 ∨ UInt32.ofNat f.metadata.length = 0 ∨
      metadataMax < f.metadata.length ∨ filePayloadMax < f.payload.length) := by
    rintro (h | h | h | h)
    · exact h hhl
    · exact hm0 h
    · exact absurd h (by simp only [metadataMax]; omega)
    · exact absurd h (by simp only [filePayloadMax]; omega)
  rw [feedByte, if_neg (by rw [hexp]; decide)]
  simp only [if_neg h1, if_neg h2]
  simp only [inHeader, store_cells hlt, ← hsplit, Outcome.ok_bind, hterm, if_true, parseHeader,
    cString_cells hlt' hnul, hscan, hmn, hpn, if_neg hcheck]
  simp [inMetadata, inHeader, hhl, cells_nil, zeros]

lemma feed_metadata {done rest : List UInt8} {b : UInt8} (hsplit : f.metadata = done ++ b :: rest)
    (hne : rest ≠ []) (ht : WithinLimits start last now) :
    feedByte env (f.inMetadata link start last done) link b now =
      .ok (f.inMetadata link start now (done ++ [b]), []) := by
  have hexp : (f.inMetadata link start last done).expired now = false := not_expired ht
  have hlen : f.metadata.length = done.length + (rest.length + 1) := by
    rw [hsplit, List.length_append, List.length_cons]
  have hpos := List.length_pos_of_ne_nil hne
  have hle := f.metadata_le
  have hlt : done.length < metadataMax + 1 := by omega
  have hb : b ≠ 0 := f.metadata_noNul b (by simp [hsplit])
  have hmore : ¬f.metadata.length ≤ done.length + 1 := by omega
  rw [feedByte, if_neg (by rw [hexp]; decide)]
  simp only [inMetadata, if_neg hb, store_cells hlt, Outcome.ok_bind, List.length_append,
    List.length_singleton, hmore, if_false]
  rfl

lemma largeFrameAllowed_eq {p : Parser} (hp : p.metadata = cells 0 (metadataMax + 1) f.metadata)
    (hl : p.metadataLen = f.metadata.length) (ha : f.Admitted env link) (hlarge : f.large = true) :
    largeFrameAllowed env link p = .ok true := by
  obtain ⟨⟨m, hm, h1, h2, h3, h4, h5⟩, -⟩ := ha hlarge
  have hload : load p.metadata p.metadataLen = .ok f.metadata := by
    rw [hp, hl]
    exact load_cells (by have := f.metadata_le; omega)
  simp [largeFrameAllowed, hload, hm, h1, h2, h3, h4, h5]

lemma feed_metadata_end {done : List UInt8} {b : UInt8} (hsplit : f.metadata = done ++ [b])
    (ha : f.Admitted env link) (ht : WithinLimits start last now) :
    feedByte env (f.inMetadata link start last done) link b now =
      .ok (f.inPayload link start now [], []) := by
  have hexp : (f.inMetadata link start last done).expired now = false := not_expired ht
  have hlen : f.metadata.length = done.length + 1 := by
    rw [hsplit, List.length_append, List.length_singleton]
  have hle := f.metadata_le
  have hlt : done.length < metadataMax + 1 := by omega
  have hb : b ≠ 0 := f.metadata_noNul b (by simp [hsplit])
  have hterm : store (cells 0 (metadataMax + 1) f.metadata) f.metadata.length 0 =
      .ok (cells 0 (metadataMax + 1) f.metadata) := store_terminator (by omega)
  have hstate : (if f.payload.length = 0 then ParseState.eof else ParseState.payload) =
      if 0 < f.payload.length then ParseState.payload else ParseState.eof := by
    by_cases h : f.payload.length = 0
    · rw [if_pos h, if_neg (by omega)]
    · rw [if_neg h, if_pos (by omega)]
  rw [feedByte, if_neg (by rw [hexp]; decide)]
  simp only [inMetadata, if_neg hb, store_cells hlt, Outcome.ok_bind, ← hsplit, hlen, le_refl,
    if_true]
  simp only [← hlen, metadataComplete, hterm, Outcome.ok_bind, hstate]
  by_cases hlarge : f.large = true
  · have hbig : payloadMax < f.payload.length := by simpa [large] using hlarge
    obtain ⟨-, hmem⟩ := ha hlarge
    rw [if_pos hbig, f.largeFrameAllowed_eq rfl rfl ha hlarge]
    simp [hmem, inPayload, inMetadata, hlarge, cells_nil, allocated, inHeader]
  · have hsmall : ¬payloadMax < f.payload.length := by simpa [large] using hlarge
    rw [if_neg hsmall]
    simp [inPayload, inMetadata, hlarge, cells_nil, inHeader, zeros]

lemma feed_payload {done rest : List UInt8} {b : UInt8} (hsplit : f.payload = done ++ b :: rest)
    (ht : WithinLimits start last now) :
    feedByte env (f.inPayload link start last done) link b now =
      .ok (f.inPayload link start now (done ++ [b]), []) := by
  have hexp : (f.inPayload link start last done).expired now = false := not_expired ht
  have hlen : f.payload.length = done.length + (rest.length + 1) := by
    rw [hsplit, List.length_append, List.length_cons]
  have hstate : (f.inPayload link start last done).state = .payload := if_pos (by omega)
  have hnext : (if f.payload.length ≤ done.length + 1 then ParseState.eof else .payload) =
      if done.length + 1 < f.payload.length then ParseState.payload else .eof := by
    by_cases h : f.payload.length ≤ done.length + 1
    · rw [if_pos h, if_neg (by omega)]
    · rw [if_neg h, if_pos (by omega)]
  have hmax := f.payload_le
  rw [feedByte, if_neg (by rw [hexp]; decide), hstate]
  by_cases hlarge : f.large = true
  · have hlt : done.length < f.payload.length + 1 := by omega
    simp only [inPayload, inMetadata, hlarge, if_true, framePayload, Option.getD_some,
      store_cells hlt, Outcome.ok_bind, List.length_append, List.length_singleton, ← hnext]
    split_ifs <;> rfl
  · have hlt : done.length < payloadMax + 1 := by
      have : ¬payloadMax < f.payload.length := by simpa [large] using hlarge
      omega
    simp only [inPayload, inMetadata, hlarge, if_false, framePayload, Option.getD_none,
      store_cells hlt, Outcome.ok_bind, List.length_append, List.length_singleton, ← hnext,
      Bool.false_eq_true]
    split_ifs <;> rfl

/-- The parser between frames. -/
def idle (link : LinkRef) : Parser := { linkBound := true, link := link }

/-- The events of a frame: it is handed over when its link is still current. -/
def events (current : Bool) (link : LinkRef) : List Event :=
  [.frameOk, if current then .handle link f.metadata f.payload else .staleGenerationDrop]

/-- The payload buffer in use has room for a terminator. -/
lemma framePayload_eq (link : LinkRef) (start last : UInt32) : ∃ fill n, f.payload.length < n ∧
    framePayload (f.inPayload link start last f.payload) = cells fill n f.payload := by
  by_cases hlarge : f.large = true
  · exact ⟨0xff, f.payload.length + 1, by omega, by simp [framePayload, inPayload, hlarge]⟩
  · have hsmall : ¬payloadMax < f.payload.length := by simpa [large] using hlarge
    exact ⟨0, payloadMax + 1, by omega, by simp [framePayload, inPayload, hlarge]⟩

lemma feed_eof (ht : WithinLimits start last now) :
    feedByte env (f.inPayload link start last f.payload) link eofByte now =
      .ok (idle link, f.events (env.registry.linkIsCurrent link) link) := by
  have hexp : (f.inPayload link start last f.payload).expired now = false := not_expired ht
  have hstate : (f.inPayload link start last f.payload).state = .eof := if_neg (lt_irrefl _)
  have hcrc : UInt32.ofNat f.checksum = 0 ∨ crc32 f.payload = UInt32.ofNat f.checksum := by
    rcases f.checksum_ok with h | h
    · exact .inl (by rw [h]; rfl)
    · exact .inr h
  have hmle := f.metadata_le
  have hmeta : load (cells 0 (metadataMax + 1) f.metadata) f.metadata.length = .ok f.metadata :=
    load_cells (by omega)
  obtain ⟨fill, n, hn, hcells⟩ := f.framePayload_eq link start last
  have hload : load (cells fill n f.payload) f.payload.length = .ok f.payload := load_cells hn.le
  have hend : store (cells fill n f.payload) f.payload.length 0 =
      .ok (cells fill n (f.payload ++ [0])) := store_cells hn 0
  have hfin : load (cells fill n (f.payload ++ [0])) f.payload.length = .ok f.payload := by
    have hle : (f.payload ++ [0]).length ≤ n := by
      rw [List.length_append, List.length_singleton]
      exact hn
    rw [load, if_pos (by rw [cells_length hle]; exact hn.le), cells, List.append_assoc,
      List.take_left]
  rw [feedByte, if_neg (by rw [hexp]; decide), hstate]
  simp only [hcells]
  have hlen : (f.inPayload link start last f.payload).payloadLen = f.payload.length := rfl
  have hml : (f.inPayload link start last f.payload).metadataLen = f.metadata.length := rfl
  have hm : (f.inPayload link start last f.payload).metadata =
      cells 0 (metadataMax + 1) f.metadata := rfl
  have hc : (f.inPayload link start last f.payload).expectedCrc = UInt32.ofNat f.checksum := rfl
  have hr : resetKeepLink (f.inPayload link start last f.payload) = idle link := rfl
  simp only [hlen, hload, Outcome.ok_bind, hc, true_and, if_pos hcrc, frameComplete, handleFrame,
    hcells, hend, hml, hm, hmeta, hfin, hr, events]
  cases env.registry.linkIsCurrent link <;> simp

/-- The parser before the bytes `rest` of the metadata and the payload still to come. -/
inductive At (link : LinkRef) (start last : UInt32) : List UInt8 → Parser → Prop
  | header {done rest : List UInt8} (h : f.header = done ++ rest) (hne : rest ≠ []) :
      At link start last (rest ++ (f.metadata ++ f.payload)) (inHeader link start last done)
  | metadata {done rest : List UInt8} (h : f.metadata = done ++ rest) (hne : rest ≠ []) :
      At link start last (rest ++ f.payload) (f.inMetadata link start last done)
  | payload {done rest : List UInt8} (h : f.payload = done ++ rest) :
      At link start last rest (f.inPayload link start last done)

variable {p : Parser} {rest : List UInt8} {b : UInt8}

lemma At.times (h : f.At link start last rest p) :
    p.frameStartMs = start ∧ p.lastProgressMs = last := by
  cases h <;> exact ⟨rfl, rfl⟩

lemma at_start : f.At link start start f.body (parserBegin link start) := by
  have hne : f.header ≠ [] := by
    rw [header, headerLine_eq]
    simp
  exact @At.header f link start start [] f.header rfl hne

/-- One byte of the body: the metadata may be completed by it. -/
theorem At.step (h : f.At link start last (b :: rest) p) (ht : WithinLimits start last now)
    (ha : rest.length = f.payload.length → f.Admitted env link) :
    ∃ p', feedByte env p link b now = .ok (p', []) ∧ f.At link start now rest p' := by
  generalize hl : b :: rest = l at h
  cases h with
  | @header done r hsplit hne =>
    obtain ⟨x, r, rfl⟩ := List.exists_cons_of_ne_nil hne
    obtain ⟨rfl, rfl⟩ := List.cons.inj hl
    by_cases hr : r = []
    · subst hr
      exact ⟨_, f.feed_header_end hsplit ht, @At.metadata f link start now [] f.metadata rfl f.metadata_ne_nil⟩
    · exact ⟨_, f.feed_header hsplit hr ht, .header (by simpa using hsplit) hr⟩
  | @metadata done r hsplit hne =>
    obtain ⟨x, r, rfl⟩ := List.exists_cons_of_ne_nil hne
    obtain ⟨rfl, rfl⟩ := List.cons.inj hl
    by_cases hr : r = []
    · subst hr
      exact ⟨_, f.feed_metadata_end hsplit (ha rfl) ht, @At.payload f link start now [] f.payload rfl⟩
    · exact ⟨_, f.feed_metadata hsplit hr ht, .metadata (by simpa using hsplit) hr⟩
  | payload hsplit =>
    subst hl
    exact ⟨_, f.feed_payload hsplit ht, .payload (by simpa using hsplit)⟩

lemma At.eof (h : f.At link start last [] p) : p = f.inPayload link start last f.payload := by
  generalize hl : [] = l at h
  cases h with
  | header _ hne => simp [hne] at hl
  | metadata _ hne => simp [hne] at hl
  | payload hsplit =>
    subst hl
    rw [List.append_nil] at hsplit
    rw [hsplit]

end WireFrame

/-! ## Inputs -/

/-- What a read brings: its bytes, or nothing but its time. -/
inductive Input
  | poll (now : ℕ)
  | byte (now : ℕ) (b : UInt8) (env : Env)

def Input.byte? : Input → Option UInt8
  | .poll _ => none
  | .byte _ b _ => some b

def inputBytes (is : List Input) : List UInt8 := is.filterMap Input.byte?

@[simp] theorem inputBytes_nil : inputBytes [] = [] := rfl

@[simp] theorem inputBytes_poll (now : ℕ) (is : List Input) :
    inputBytes (.poll now :: is) = inputBytes is := rfl

@[simp] theorem inputBytes_byte (now : ℕ) (b : UInt8) (env : Env) (is : List Input) :
    inputBytes (.byte now b env :: is) = b :: inputBytes is := rfl

def Read.inputs (r : Read) : List Input :=
  if r.bytes = [] then [.poll r.now] else r.bytes.map fun x => .byte r.now x.1 x.2

def feedInput (link : LinkRef) (p : Parser) : Input → Outcome (Parser × List Event)
  | .poll now => .ok (parserExpire p (UInt32.ofNat now))
  | .byte now b env => feedByte env p link b (UInt32.ofNat now)

def feedInputs (link : LinkRef) : Parser → List Input → Outcome (Parser × List Event)
  | p, [] => .ok (p, [])
  | p, i :: is => do
    let (p, events) ← feedInput link p i
    let (p, more) ← feedInputs link p is
    .ok (p, events ++ more)

theorem feedInputs_append (link : LinkRef) (p : Parser) (is js : List Input) :
    feedInputs link p (is ++ js) = (do
      let (p, events) ← feedInputs link p is
      let (p, more) ← feedInputs link p js
      .ok (p, events ++ more)) := by
  induction is generalizing p with
  | nil =>
    simp only [List.nil_append, feedInputs, Outcome.ok_bind]
    cases feedInputs link p js <;> rfl
  | cons i is ih =>
    simp only [List.cons_append, feedInputs, ih]
    cases feedInput link p i with
    | ok r =>
      simp only [Outcome.ok_bind]
      cases feedInputs link r.1 is with
      | ok r2 =>
        simp only [Outcome.ok_bind]
        cases feedInputs link r2.1 js with
        | ok r3 => simp
        | reject => rfl
        | fault => rfl
      | reject => rfl
      | fault => rfl
    | reject => rfl
    | fault => rfl

/-! ### Reads are inputs -/

/-- The parser belongs to the link. -/
def Bound (link : LinkRef) (p : Parser) : Prop := p.linkBound = true ∧ p.link = link

lemma bindLink_bound (link : LinkRef) (p : Parser) : Bound link (bindLink p link) := by
  unfold bindLink
  split_ifs with h
  · exact ⟨rfl, rfl⟩
  · rw [not_or, Bool.not_eq_false, not_not] at h
    exact h

lemma bindLink_eq {link : LinkRef} {p : Parser} (h : Bound link p) : bindLink p link = p := by
  simp [bindLink, h.1, h.2]

lemma parserBegin_bound (link : LinkRef) (now : UInt32) : Bound link (parserBegin link now) :=
  ⟨rfl, rfl⟩

lemma parseHeader_bound {link : LinkRef} {p p' : Parser} (hb : Bound link p)
    (h : parseHeader p = .ok (some p')) : Bound link p' := by
  obtain ⟨text, -, h⟩ := Outcome.bind_eq_ok.mp h
  split at h
  · split_ifs at h
    · simp at h
    · obtain rfl := Option.some.inj (Outcome.ok.inj h)
      exact hb
  · simp at h

lemma metadataComplete_bound {env : Env} {link : LinkRef} {p p' : Parser} {events : List Event}
    (hb : Bound link p) (h : metadataComplete env link p = .ok (p', events)) : Bound link p' := by
  obtain ⟨cells, -, h⟩ := Outcome.bind_eq_ok.mp h
  by_cases hbig : payloadMax < p.payloadLen
  · rw [if_pos hbig] at h
    obtain ⟨allowed, -, h⟩ := Outcome.bind_eq_ok.mp h
    split at h <;> obtain ⟨rfl, -⟩ := Prod.mk.inj (Outcome.ok.inj h) <;> exact hb
  · rw [if_neg hbig] at h
    obtain ⟨rfl, -⟩ := Prod.mk.inj (Outcome.ok.inj h)
    exact hb

lemma frameComplete_bound {env : Env} {link : LinkRef} {p p' : Parser} {events : List Event}
    (hb : Bound link p) (h : frameComplete env link p = .ok (p', events)) : Bound link p' := by
  unfold frameComplete at h
  split_ifs at h
  · obtain ⟨event, -, h⟩ := Outcome.bind_eq_ok.mp h
    obtain ⟨rfl, -⟩ := Prod.mk.inj (Outcome.ok.inj h)
    exact hb
  · obtain ⟨rfl, -⟩ := Prod.mk.inj (Outcome.ok.inj h)
    exact hb

/-- A byte leaves the parser with its link. -/
theorem feedByte_bound {env : Env} {link : LinkRef} {p p' : Parser} {b : UInt8} {now : UInt32}
    {events : List Event} (hb : Bound link p)
    (h : feedByte env p link b now = .ok (p', events)) : Bound link p' := by
  have hbegin := parserBegin_bound link now
  unfold feedByte at h
  by_cases hexp : p.expired now = true
  · rw [if_pos hexp] at h
    obtain ⟨rfl, -⟩ := Prod.mk.inj (Outcome.ok.inj h)
    split_ifs
    · exact hbegin
    · exact hb
  · rw [if_neg hexp] at h
    cases hs : p.state with
    | sof =>
      simp only [hs] at h
      obtain ⟨rfl, -⟩ := Prod.mk.inj (Outcome.ok.inj h)
      split_ifs
      · exact hbegin
      · exact hb
    | header =>
      simp only [hs] at h
      split_ifs at h
      · obtain ⟨rfl, -⟩ := Prod.mk.inj (Outcome.ok.inj h)
        exact hbegin
      · obtain ⟨rfl, -⟩ := Prod.mk.inj (Outcome.ok.inj h)
        exact hb
      · obtain ⟨c1, -, h⟩ := Outcome.bind_eq_ok.mp h
        obtain ⟨c2, -, h⟩ := Outcome.bind_eq_ok.mp h
        obtain ⟨parsed, hp, h⟩ := Outcome.bind_eq_ok.mp h
        cases parsed with
        | none =>
          obtain ⟨rfl, -⟩ := Prod.mk.inj (Outcome.ok.inj h)
          exact hb
        | some q =>
          obtain ⟨rfl, -⟩ := Prod.mk.inj (Outcome.ok.inj h)
          refine parseHeader_bound ?_ hp
          exact hb
      · obtain ⟨c1, -, h⟩ := Outcome.bind_eq_ok.mp h
        obtain ⟨c2, -, h⟩ := Outcome.bind_eq_ok.mp h
        obtain ⟨rfl, -⟩ := Prod.mk.inj (Outcome.ok.inj h)
        exact hb
    | metadata =>
      simp only [hs] at h
      split_ifs at h
      · obtain ⟨rfl, -⟩ := Prod.mk.inj (Outcome.ok.inj h)
        exact hb
      · obtain ⟨c1, -, h⟩ := Outcome.bind_eq_ok.mp h
        refine metadataComplete_bound ?_ h
        exact hb
      · obtain ⟨c1, -, h⟩ := Outcome.bind_eq_ok.mp h
        obtain ⟨rfl, -⟩ := Prod.mk.inj (Outcome.ok.inj h)
        exact hb
    | payload =>
      simp only [hs] at h
      obtain ⟨c1, -, h⟩ := Outcome.bind_eq_ok.mp h
      obtain ⟨rfl, -⟩ := Prod.mk.inj (Outcome.ok.inj h)
      cases p.filePayload <;> split_ifs <;> exact hb
    | eof =>
      simp only [hs] at h
      obtain ⟨c1, -, h⟩ := Outcome.bind_eq_ok.mp h
      split_ifs at h
      · exact frameComplete_bound hb h
      · obtain ⟨rfl, -⟩ := Prod.mk.inj (Outcome.ok.inj h)
        exact hbegin
      · obtain ⟨rfl, -⟩ := Prod.mk.inj (Outcome.ok.inj h)
        exact hb

/-- Expiry at the start of a read is the expiry at its first byte. -/
lemma feedByte_expire (env : Env) (p : Parser) (link : LinkRef) (b : UInt8) (now : UInt32) :
    feedByte env p link b now = (do
      let (q, events) ← feedByte env (parserExpire p now).1 link b now
      .ok (q, (parserExpire p now).2 ++ events)) := by
  by_cases h : p.expired now = true
  · have hreset : (resetKeepLink p).expired now = false := rfl
    have hstate : (resetKeepLink p).state = .sof := rfl
    have hnext : feedByte env (resetKeepLink p) link b now =
        .ok (if b = sofByte then parserBegin link now else resetKeepLink p, []) := by
      rw [feedByte, if_neg (by rw [hreset]; decide), hstate]
    rw [parserExpire, if_pos h, feedByte, if_pos h]
    simp only [hnext, Outcome.ok_bind, List.append_nil]
  · rw [parserExpire, if_neg h]
    cases feedByte env p link b now <;> rfl

lemma feedBytes_inputs (link : LinkRef) (now : ℕ) (p : Parser) (bytes : List (UInt8 × Env)) :
    feedBytes link (UInt32.ofNat now) p bytes =
      feedInputs link p (bytes.map fun x => .byte now x.1 x.2) := by
  induction bytes generalizing p with
  | nil => rfl
  | cons x bytes ih =>
    simp only [feedBytes, List.map_cons, feedInputs, feedInput, ih]

lemma feedInputs_bound {link : LinkRef} {p p' : Parser} {is : List Input} {events : List Event}
    (hb : Bound link p) (h : feedInputs link p is = .ok (p', events)) : Bound link p' := by
  induction is generalizing p events with
  | nil =>
    obtain ⟨rfl, -⟩ := Prod.mk.inj (Outcome.ok.inj h)
    exact hb
  | cons i is ih =>
    obtain ⟨⟨q, ev⟩, hq, h⟩ := Outcome.bind_eq_ok.mp h
    obtain ⟨⟨q', more⟩, hrest, h⟩ := Outcome.bind_eq_ok.mp h
    obtain ⟨rfl, -⟩ := Prod.mk.inj (Outcome.ok.inj h)
    refine ih ?_ hrest
    cases i with
    | poll now =>
      have hexp : (parserExpire p (UInt32.ofNat now)).1 = q := by
        rw [feedInput, Outcome.ok.injEq] at hq
        rw [hq]
      rw [← hexp]
      unfold parserExpire
      split_ifs <;> exact hb
    | byte now b env => exact feedByte_bound hb hq

lemma slot_lt {r : Registry} {link : LinkRef} (h : r.linkIsCurrent link = true) :
    link.slot < tcpLinks := by
  have hs := ((Registry.linkIsCurrent_iff r link).mp h).1
  unfold validSlot at hs
  split_ifs at hs
  · simpa using hs
  · have : link.slot = 0 := by simpa using hs
    rw [this]
    decide

/-- A read that is let through is its inputs. -/
theorem transportRx_inputs {link : LinkRef} {p : Parser} {r : Read} (hb : Bound link p)
    (hcur : r.registry.linkIsCurrent link = true) (hlen : r.bytes.length ≤ readMax) :
    transportRx p link r = feedInputs link p r.inputs := by
  have hslot := slot_lt hcur
  have hok : ¬(tcpLinks ≤ link.slot ∨ readMax < r.bytes.length) := by omega
  rw [transportRx, if_neg hok, hcur, if_neg (by decide), bindLink_eq hb]
  cases hbytes : r.bytes with
  | nil =>
    simp only [Read.inputs, hbytes, if_true, feedBytes, feedInputs, feedInput, Outcome.ok_bind]
  | cons x bytes =>
    have hinputs : r.inputs =
        .byte r.now x.1 x.2 :: bytes.map fun y => .byte r.now y.1 y.2 := by
      simp [Read.inputs, hbytes]
    rw [hinputs, feedInputs, feedInput, feedByte_expire]
    simp only [feedBytes, feedBytes_inputs]
    cases feedByte x.2 (parserExpire p (UInt32.ofNat r.now)).1 link x.1 (UInt32.ofNat r.now) with
    | ok q =>
      simp only [Outcome.ok_bind]
      cases feedInputs link q.1 (bytes.map fun y => .byte r.now y.1 y.2) with
      | ok q2 => simp
      | reject => rfl
      | fault => rfl
    | reject => rfl
    | fault => rfl

theorem transportRun_inputs {link : LinkRef} {p : Parser} {reads : List Read} (hb : Bound link p)
    (hread : ∀ r ∈ reads, r.registry.linkIsCurrent link = true ∧ r.bytes.length ≤ readMax) :
    transportRun link p reads = feedInputs link p (reads.flatMap Read.inputs) := by
  induction reads generalizing p with
  | nil => rfl
  | cons r reads ih =>
    obtain ⟨hcur, hlen⟩ := hread r (by simp)
    rw [transportRun, transportRx_inputs hb hcur hlen, List.flatMap_cons, feedInputs_append]
    cases h : feedInputs link p r.inputs with
    | ok q =>
      have hq := ih (feedInputs_bound hb h) fun r' hr' => hread r' (by simp [hr'])
      simp only [Outcome.ok_bind, hq]
    | reject => rfl
    | fault => rfl

/-! ## Arrival in time -/

/-- A time within the limits of a frame that began at `start`, whose last byte came at `last`. -/
def InLimits (start last now : ℕ) : Prop :=
  last ≤ now ∧ now - last < 3000 ∧ start ≤ now ∧ now - start < 10000

/-- The inputs after the start byte: each byte within the limits, and each poll that is not
behind the last byte. -/
def Timely (start last : ℕ) : List Input → Prop
  | [] => True
  | .poll now :: is => (inputBytes is ≠ [] → InLimits start last now) ∧ Timely start last is
  | .byte now _ _ :: is => InLimits start last now ∧ Timely start now is

/-- The inputs of a frame; the polls before its start byte are free. -/
def TimelyFrame : List Input → Prop
  | [] => True
  | .poll _ :: is => TimelyFrame is
  | .byte now _ _ :: is => Timely now now is

lemma sub_lt_of_nat {a b : ℕ} {k : UInt32} (h : a ≤ b) (hk : b - a < k.toNat) :
    UInt32.ofNat b - UInt32.ofNat a < k := by
  have hb := k.toNat_lt
  rw [← UInt32.ofNat_sub h, UInt32.lt_iff_toNat_lt, UInt32.toNat_ofNat_of_lt' (by rw [UInt32.size]; omega)]
  exact hk

lemma withinLimits {start last now : ℕ} (h : InLimits start last now) :
    WithinLimits (UInt32.ofNat start) (UInt32.ofNat last) (UInt32.ofNat now) :=
  ⟨sub_lt_of_nat h.1 h.2.1, sub_lt_of_nat h.2.2.1 h.2.2.2⟩

lemma parserExpire_sof {p : Parser} (h : p.state = .sof) (now : UInt32) :
    parserExpire p now = (p, []) := by
  rw [parserExpire, if_neg (by simp [Parser.expired, h])]

namespace WireFrame

variable (f : WireFrame)

/-- The inputs bring the frame in time, its large payload is admitted when its metadata is
complete, and `current` is whether its link is current at the last byte. -/
structure Arrives (link : LinkRef) (current : Bool) (is : List Input) : Prop where
  bytes : inputBytes is = f.bytes
  timely : TimelyFrame is
  admitted : ∀ now b env later, Input.byte now b env :: later <:+ is →
    (inputBytes later).length = f.payload.length + 1 → f.Admitted env link
  last : ∀ now b env later, Input.byte now b env :: later <:+ is → inputBytes later = [] →
    env.registry.linkIsCurrent link = current

lemma feed_idle {link : LinkRef} {p : Parser} (hp : p.state = .sof) {is : List Input}
    (hb : inputBytes is = []) : feedInputs link p is = .ok (p, []) := by
  induction is with
  | nil => rfl
  | cons i is ih =>
    cases i with
    | poll now =>
      rw [inputBytes_poll] at hb
      rw [feedInputs, feedInput, parserExpire_sof hp, Outcome.ok_bind]
      simp only [ih hb, Outcome.ok_bind, List.append_nil]
    | byte now b env => simp at hb

/-- The rest of a frame, from any point inside it. -/
theorem feed_rest {link : LinkRef} {current : Bool} {start last : ℕ} {rest : List UInt8}
    {p : Parser} {is : List Input}
    (hat : f.At link (UInt32.ofNat start) (UInt32.ofNat last) rest p)
    (hbytes : inputBytes is = rest ++ [eofByte]) (ht : Timely start last is)
    (ha : ∀ now b env later, Input.byte now b env :: later <:+ is →
      (inputBytes later).length = f.payload.length + 1 → f.Admitted env link)
    (hc : ∀ now b env later, Input.byte now b env :: later <:+ is → inputBytes later = [] →
      env.registry.linkIsCurrent link = current) :
    feedInputs link p is = .ok (idle link, f.events current link) := by
  induction is generalizing p last rest with
  | nil => simp at hbytes
  | cons i is ih =>
    have hsuffix : ∀ {js : List Input}, js <:+ is → js <:+ i :: is := fun h =>
      h.trans (List.suffix_cons i is)
    cases i with
    | poll now =>
      rw [inputBytes_poll] at hbytes
      obtain ⟨hlim, ht⟩ := ht
      have hin := withinLimits (hlim (by simp [hbytes]))
      have hexp : p.expired (UInt32.ofNat now) = false := by
        obtain ⟨h1, h2⟩ := hat.times
        exact not_expired (by rw [h1, h2]; exact hin)
      have hrest := ih hat hbytes ht (fun n b e l h => ha n b e l (hsuffix h))
        fun n b e l h => hc n b e l (hsuffix h)
      rw [feedInputs, feedInput, parserExpire, if_neg (by rw [hexp]; decide), Outcome.ok_bind]
      simp only [hrest, Outcome.ok_bind, List.nil_append]
    | byte now b env =>
      rw [inputBytes_byte] at hbytes
      obtain ⟨hlim, ht⟩ := ht
      have hin := withinLimits hlim
      cases rest with
      | nil =>
        obtain ⟨rfl, hnone⟩ := List.cons.inj hbytes
        have hcur := hc now eofByte env is List.suffix_rfl hnone
        rw [hat.eof, feedInputs, feedInput, f.feed_eof hin, hcur, Outcome.ok_bind]
        simp only [feed_idle (show (idle link).state = .sof from rfl) hnone, Outcome.ok_bind,
          List.append_nil]
      | cons x rest =>
        rw [List.cons_append] at hbytes
        obtain ⟨rfl, hmore⟩ := List.cons.inj hbytes
        have hadm : rest.length = f.payload.length → f.Admitted env link := by
          intro hlen
          refine ha now b env is List.suffix_rfl ?_
          rw [hmore, List.length_append, hlen, List.length_singleton]
        obtain ⟨p', hfeed, hat'⟩ := At.step f hat hin hadm
        have hrest := ih hat' hmore ht (fun n b e l h => ha n b e l (hsuffix h))
          fun n b e l h => hc n b e l (hsuffix h)
        rw [feedInputs, feedInput, hfeed, Outcome.ok_bind]
        simp only [hrest, Outcome.ok_bind, List.nil_append]

/-- A frame that arrives, from any parser between frames. -/
theorem feed_frame {link : LinkRef} {current : Bool} {p : Parser} {is : List Input}
    (hp : p.state = .sof) (h : f.Arrives link current is) :
    feedInputs link p is = .ok (idle link, f.events current link) := by
  obtain ⟨hbytes, ht, ha, hc⟩ := h
  rw [f.bytes_eq] at hbytes
  induction is with
  | nil => simp at hbytes
  | cons i is ih =>
    have hsuffix : ∀ {js : List Input}, js <:+ is → js <:+ i :: is := fun h =>
      h.trans (List.suffix_cons i is)
    cases i with
    | poll now =>
      have hrest := ih hbytes ht (fun n b e l h => ha n b e l (hsuffix h))
        fun n b e l h => hc n b e l (hsuffix h)
      rw [feedInputs, feedInput, parserExpire_sof hp, Outcome.ok_bind]
      simp only [hrest, Outcome.ok_bind, List.nil_append]
    | byte now b env =>
      rw [inputBytes_byte] at hbytes
      obtain ⟨rfl, hmore⟩ := List.cons.inj hbytes
      have hbegin : feedByte env p link sofByte (UInt32.ofNat now) =
          .ok (parserBegin link (UInt32.ofNat now), []) := by
        rw [feedByte, if_neg (by simp [Parser.expired, hp]), hp]
        rfl
      have hrest := f.feed_rest f.at_start hmore ht (fun n b e l h => ha n b e l (hsuffix h))
        fun n b e l h => hc n b e l (hsuffix h)
      rw [feedInputs, feedInput, hbegin, Outcome.ok_bind]
      simp only [hrest, Outcome.ok_bind, List.nil_append]

end WireFrame

end EspVision.EvControl
