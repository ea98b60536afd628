import EspVision.DeviceFrame
import EspVision.HostParserComplete
import EspVision.MuxDelivery
import EspVision.MuxStream

/-!
# From a submission on the device to the handlers of the host

What a TCP link has taken, cut into chunks in any way, makes the parser of the host hand over exactly
the submissions that have left with `ESP_OK`, whole and in the order in which they were sent.
-/
namespace EspVision.MuxTx

open EvTransport EvMux EvSession Host TransitionSystem Outbox

/-! ## Headers -/

theorem digitValue_upperDigit : ∀ d < 16, Scanf.digitValue 16 (upperDigit d) = some d := by decide

theorem div_add_nibble (n k : ℕ) : n / 2 ^ (k + 4) * 16 + n / 2 ^ k % 16 = n / 2 ^ k := by
  rw [pow_add, ← Nat.div_div_eq_div_mul]
  exact Nat.div_add_mod' _ _

/-- A word from its eight hexadecimal digits. -/
theorem nibbles_value {n : ℕ} (h : n < 2 ^ 32) :
    [28, 24, 20, 16, 12, 8, 4, 0].foldl (fun v shift => v * 16 + (n >>> shift) % 16) 0 = n := by
  have hfirst := div_add_nibble n 28
  rw [Nat.div_eq_of_lt h] at hfirst
  simp only [List.foldl_cons, List.foldl_nil, Nat.shiftRight_eq_div_pow]
  rw [hfirst, div_add_nibble n 24, div_add_nibble n 20, div_add_nibble n 16, div_add_nibble n 12,
    div_add_nibble n 8, div_add_nibble n 4, div_add_nibble n 0, pow_zero, Nat.div_one]

theorem checksumText_reads (crc : BitVec 32) : Scanf.Reads 16 (checksumText crc) crc.toNat := by
  have hdigit : ∀ shift, Scanf.digitValue 16 (upperDigit ((crc.toNat >>> shift) % 16)) =
      some ((crc.toNat >>> shift) % 16) := fun shift =>
    digitValue_upperDigit _ (Nat.mod_lt _ (by decide))
  refine ⟨fun b hb => ?_, ?_⟩
  · obtain ⟨shift, -, rfl⟩ := List.mem_map.mp hb
    rw [hdigit]
    rfl
  · rw [checksumText, List.foldl_map]
    simp only [hdigit, Option.getD_some]
    exact nibbles_value crc.isLt

theorem checksumText_length (crc : BitVec 32) : (checksumText crc).length = 8 := rfl

theorem decimalDigits_numeral (n : ℕ) {s : List UInt8} (hs : Scanf.startsWithDigit 10 s = false) :
    decimalDigits (Scanf.numeral 10 n ++ s) = some (n, s) := by
  have hr := Scanf.numeral_reads 10 (by omega) (by omega) n
  have hdigits := Scanf.digits_append hr.digit hs 0
  rw [hr.value] at hdigits
  obtain ⟨b, t, hb⟩ := List.exists_cons_of_ne_nil (Scanf.numeral_ne_nil 10 n)
  have hstart : Scanf.startsWithDigit 10 (Scanf.numeral 10 n ++ s) = true := by
    have hfirst := hr.digit b (by simp [hb])
    rw [hb]
    exact hfirst
  rw [decimalDigits, if_pos hstart, hdigits]

theorem checksumLine_checksumText (crc : BitVec 32) :
    checksumLine (checksumText crc ++ lineEnd) = some crc.toNat := by
  have hr := checksumText_reads crc
  have hlen := checksumText_length crc
  have hdigits := Scanf.digits_append hr.digit (show Scanf.startsWithDigit 16 [] = false from rfl) 0
  rw [hr.value, List.append_nil] at hdigits
  unfold checksumLine
  rw [List.take_left' hlen, List.drop_left' hlen, if_pos, hdigits]
  exact ⟨hlen, List.all_eq_true.mpr hr.digit, rfl⟩

/-- The header behind its first byte. -/
def headerBody (metadataLen payloadLen : ℕ) (crc : BitVec 32) : List UInt8 :=
  headerStart ++ (Scanf.numeral 10 metadataLen ++ (headerPayload ++
    (Scanf.numeral 10 payloadLen ++ (headerChecksum ++ (checksumText crc ++ lineEnd)))))

/-- The host reads the header that the device prints. -/
theorem headerFields_headerBody (m n : ℕ) (crc : BitVec 32) :
    headerFields (decodedHeader (headerBody m n crc)) = some (m, n, crc.toNat) := by
  have hdecoded : decodedHeader (headerBody m n crc) = headerBody m n crc := by
    unfold decodedHeader
    exact if_neg (by simp [headerBody, headerStart, byteOrderMark])
  have hp : ∀ s, Scanf.startsWithDigit 10 (headerPayload ++ s) = false := fun s => by
    simp only [headerPayload, List.cons_append, Scanf.startsWithDigit]
    decide
  have hc : ∀ s, Scanf.startsWithDigit 10 (headerChecksum ++ s) = false := fun s => by
    simp only [headerChecksum, List.cons_append, Scanf.startsWithDigit]
    decide
  rw [hdecoded]
  simp only [headerFields, headerBody, EvControl.text_append, decimalDigits_numeral _ (hp _),
    decimalDigits_numeral _ (hc _), checksumLine_checksumText, Option.bind_eq_bind, Option.bind_some]

/-! ## Frames -/

/-- The host takes everything that is short enough to be submitted. -/
def Admits (limits : Limits) : Prop :=
  metadataMax ≤ limits.maxMetadataLength ∧ largePayloadMax ≤ limits.maxPayloadLength

section

variable {M σ : Type*} {f : List UInt8 → Option M} {limits : Limits} {sub : Submission}

theorem headerBody_length (hshort : Short sub.metadata sub.payload) (crc : BitVec 32) :
    (headerBody sub.metadata.length sub.payload.length crc).length ≤ headerMax := by
  have hm := Scanf.numeral_length 10 (k := 3) (by omega) (by omega)
    (Nat.lt_of_le_of_lt hshort.1 (by decide : metadataMax < 10 ^ 3))
  have hp := Scanf.numeral_length 10 (k := 6) (by omega) (by omega)
    (Nat.lt_of_le_of_lt hshort.2 (by decide : largePayloadMax < 10 ^ 6))
  simp only [headerBody, List.length_append, checksumText_length]
  simp only [headerStart, headerPayload, headerChecksum, lineEnd, List.length_cons, List.length_nil,
    headerMax]
  omega

/-- What the host makes of a submission. -/
def Submission.delivery (read : Submission → M) (sub : Submission) : Delivery M :=
  ⟨sub.metadata, read sub, sub.payload⟩

/-- The encoding of a submission is a frame that the host admits. -/
def Submission.wireFrame {metadata : M} (sub : Submission) (hlimits : Admits limits)
    (hshort : Short sub.metadata sub.payload) (hne : sub.metadata ≠ [])
    (hparses : f sub.metadata = some metadata) : WireFrame f limits where
  header := headerBody sub.metadata.length sub.payload.length (payloadChecksum sub.payload)
  metadataText := sub.metadata
  payload := sub.payload
  metadata := metadata
  checksum := (payloadChecksum sub.payload).toNat
  short := (headerBody_length hshort _).trans (by decide)
  fields := headerFields_headerBody _ _ _
  within := by
    rintro (h | h | h)
    · exact hne (List.length_eq_zero_iff.mp h)
    · exact Nat.lt_irrefl _ (h.trans_le (hshort.1.trans hlimits.1))
    · exact Nat.lt_irrefl _ (h.trans_le (hshort.2.trans hlimits.2))
  parses := hparses
  intact := by
    right
    rw [crc32, Crc32.checksum_table]
    rfl

theorem wireFrame_bytes {metadata : M} (hlimits : Admits limits)
    (hshort : Short sub.metadata sub.payload) (hne : sub.metadata ≠ [])
    (hparses : f sub.metadata = some metadata) :
    (sub.wireFrame hlimits hshort hne hparses).bytes = sub.bytes := rfl

/-- A frame is less than half of what the buffer of the host holds. -/
theorem bytes_length_lt (hshort : Short sub.metadata sub.payload) :
    sub.bytes.length < maxBuffer / 2 := by
  have hheader := headerBody_length hshort 0
  have hlen : (headerText sub.metadata.length sub.payload.length 0).length =
      (headerBody sub.metadata.length sub.payload.length 0).length + 1 := rfl
  obtain ⟨hm, hp⟩ := hshort
  rw [Submission.bytes, wireBytes_length, encodedLength, hlen]
  simp only [headerMax, metadataMax, largePayloadMax, maxBuffer] at *
  omega

/-! ## Accepted submissions are short -/

end

section

variable {s s' : Mux} {h : List (Step × Reply)} {c : LinkRef}

/-- Whatever was accepted is short enough. -/
def Bounded (s : Mux) : Prop := ∀ sub ∈ s.accepted, Short sub.metadata sub.payload

theorem Bounded.append {sub : Submission} (hs : Bounded s) (hsub : Short sub.metadata sub.payload)
    (h : s'.accepted = s.accepted ++ [sub]) : Bounded s' := by
  intro x hx
  rw [h] at hx
  rcases List.mem_append.mp hx with hx | hx
  · exact hs x hx
  · rw [List.mem_singleton.mp hx]
    exact hsub

theorem Bounded.same (hs : Bounded s) (h : s'.accepted = s.accepted) : Bounded s' := by
  intro x hx
  rw [h] at hx
  exact hs x hx

theorem Bounded.poolMove (hs : Bounded s) (h : PoolMove s s') : Bounded s' := by
  cases h with
  | order n => exact hs
  | replace r hused hzero hkind => exact hs.same (releaseSpecial_accepted s r _)
  | cancel r hused hzero => exact hs.same (releaseSpecial_accepted s r espErrInvalidState)
  | refill q slot payload hr hframes hmarks hunread => exact hs
  | put r sp payload hfree hp => exact hs.append hp.carries.short rfl

theorem Bounded.poolMoves (hs : Bounded s) (h : PoolMoves s s') : Bounded s' := by
  induction h with
  | refl => exact hs
  | tail _ hmove ih => exact ih.poolMove hmove

theorem Bounded.next {l : Step} {r : Reply} (hs : Bounded s) (hf : Faithful s)
    (h : s.next l = some (s', r)) : Bounded s' := by
  cases next_happens hf.orderly hf.pool h with
  | quiet l hquiet hl => exact hs.same hquiet.rest.accepted
  | fill t hfill =>
    obtain ⟨k, payload, f, hfills⟩ := fill_fills hfill
    have hshort := (hf.offers t k payload hfills.submits).carries.short
    have hmeta : f.metadata = (s.frame t k).metadata := by rw [hfills.form]
    rw [← hmeta] at hshort
    exact hs.append hshort hfills.accepted
  | scan t hscan =>
    rcases scan_cases hf.orderly hscan with hquiet | ⟨k, i, which, hdrop⟩
    · exact hs.same hquiet.rest.accepted
    · obtain rfl := hdrop.result
      exact hs
  | pool l hmoves hl => exact hs.poolMoves hmoves
  | visit t look hvisit => exact hs.same (visit_sends hvisit).2.1
  | afterwards t hdone =>
    unfold Mux.afterwards at hdone
    split at hdone <;> cases hdone <;> exact hs
  | closeLink t hclosed =>
    unfold Mux.closeLink at hclosed
    split at hclosed <;> cases hclosed
    exact hs
  | complete i hran =>
    unfold Mux.runDue at hran
    split_ifs at hran
    cases hran
    exact hs
  | link change hchanged =>
    subst hchanged
    exact hs

theorem bounded_of_reaches (hr : Reaches mux h s) : Bounded s := by
  have hboth : Faithful s ∧ Bounded s := by
    refine hr.stateInvariant (I := fun s => Faithful s ∧ Bounded s) ?_ ?_
    · rintro s ⟨registry, rfl⟩
      exact ⟨faithful_init registry, fun sub hsub => absurd hsub List.not_mem_nil⟩
    · rintro s ⟨l, r⟩ s' ⟨hf, hs⟩ ⟨-, hnext⟩
      exact ⟨(hf.next hnext).faithful, hs.next hf hnext⟩
  exact hboth.2

/-! ## What a TCP link has taken -/

namespace Mux

variable (s : Mux)

/-- The numbers of the submissions that have left with `ESP_OK`, as the link has taken them. -/
def sentOn (c : LinkRef) : List ℕ :=
  ((s.segments c).map Prod.fst).filter fun n => decide ((n, espOk) ∈ s.left)

/-- The submissions with the numbers. -/
def submissions (l : List ℕ) : List Submission := l.filterMap fun n => s.accepted[n]?

end Mux

theorem sentOn_nodup (hs : Faithful s) (c : LinkRef) : (s.sentOn c).Nodup :=
  (hs.sound.once c).filter _

theorem mem_sentOn {n : ℕ} (hs : Faithful s) : n ∈ s.sentOn c ↔
    (n, espOk) ∈ s.left ∧ ∃ sub, s.accepted[n]? = some sub ∧ sub.link = c := by
  constructor
  · intro hn
    obtain ⟨hseg, hleft⟩ := List.mem_filter.mp hn
    obtain ⟨p, hp, rfl⟩ := List.mem_map.mp hseg
    obtain ⟨sub, htook⟩ := took_of_mem hs hp
    exact ⟨of_decide_eq_true hleft, sub, htook.accepted, htook.link⟩
  · rintro ⟨hleft, sub, hsub, rfl⟩
    obtain ⟨m, hm, hdone⟩ := hs.sound.done n hleft
    obtain rfl := Option.some.inj ((message_accepted hsub).symm.trans hm)
    exact List.mem_filter.mpr ⟨List.mem_map.mpr ⟨_, hdone, rfl⟩, decide_eq_true hleft⟩

/-- Segments of submissions that were taken completely. -/
theorem pieces_whole (hs : Faithful s) (l : List (ℕ × ℕ)) (hl : ∀ p ∈ l, p ∈ s.segments c ∧
    (p.1, espOk) ∈ s.left) : l.flatMap s.piece =
      (s.submissions (l.map Prod.fst)).flatMap Submission.bytes := by
  induction l with
  | nil => rfl
  | cons p l ih =>
    obtain ⟨hp, hleft⟩ := hl p List.mem_cons_self
    obtain ⟨sub, htook⟩ := took_of_mem hs hp
    have hpiece : s.piece p = sub.bytes := by
      rw [Mux.piece, htook.accepted]
      exact List.take_of_length_le (htook.whole.mpr hleft).ge
    rw [List.flatMap_cons, ih fun q hq => hl q (List.mem_cons_of_mem p hq), hpiece]
    simp [Mux.submissions, htook.accepted]

/-- The beginning of the encoding of a submission for the link, less than all of it. -/
def Beginning (s : Mux) (c : LinkRef) (part : List UInt8) : Prop :=
  ∃ sub ∈ s.accepted, sub.link = c ∧ ∃ rest, rest ≠ [] ∧ part ++ rest = sub.bytes

/-- A TCP link has taken whole frames, and behind them at most the beginning of one more. -/
theorem tcp_split (hs : Faithful s) {n : ℕ} (hstreams : Streams n s) (htcp : c.transportId = .tcp) :
    ∃ part, s.wire c = (s.submissions (s.sentOn c)).flatMap Submission.bytes ++ part ∧
      (part = [] ∨ Beginning s c part) := by
  rw [wire_pieces hs c]
  rcases List.eq_nil_or_concat' (s.segments c) with hnil | ⟨init, p, hsegments⟩
  · refine ⟨[], ?_, .inl rfl⟩
    rw [Mux.sentOn, hnil]
    rfl
  · have hmem : ∀ q ∈ init ++ [p], q ∈ s.segments c := fun q hq => hsegments ▸ hq
    have hinit : ∀ q ∈ init, q ∈ s.segments c ∧ (q.1, espOk) ∈ s.left := by
      intro q hq
      have hq' := hmem q (List.mem_append.mpr (.inl hq))
      obtain ⟨sub, htook⟩ := took_of_mem hs hq'
      obtain ⟨m, hm, hlen⟩ := hstreams.whole c htcp q (by
        rw [hsegments, List.dropLast_concat]
        exact hq)
      obtain rfl := Option.some.inj ((message_accepted htook.accepted).symm.trans hm)
      exact ⟨hq', htook.whole.mp hlen⟩
    have hfront : (init.map Prod.fst).filter (fun n => decide ((n, espOk) ∈ s.left)) =
        init.map Prod.fst := by
      refine List.filter_eq_self.mpr fun n hn => ?_
      obtain ⟨q, hq, rfl⟩ := List.mem_map.mp hn
      exact decide_eq_true (hinit q hq).2
    have hp := hmem p (List.mem_append.mpr (.inr (List.mem_singleton.mpr rfl)))
    obtain ⟨sub, htook⟩ := took_of_mem hs hp
    by_cases hleft : (p.1, espOk) ∈ s.left
    · refine ⟨[], ?_, .inl rfl⟩
      have hsent : s.sentOn c = (init ++ [p]).map Prod.fst := by
        rw [Mux.sentOn, hsegments, List.map_append, List.filter_append, hfront]
        simp [hleft]
      rw [List.append_nil, hsent, hsegments]
      refine pieces_whole (c := c) hs _ fun q hq => ?_
      rcases List.mem_append.mp hq with hq | hq
      · exact hinit q hq
      · rw [List.mem_singleton.mp hq]
        exact ⟨hp, hleft⟩
    · have hsent : s.sentOn c = init.map Prod.fst := by
        rw [Mux.sentOn, hsegments, List.map_append, List.filter_append, hfront]
        simp [hleft]
      have hpiece : s.piece p = sub.bytes.take p.2 := by
        rw [Mux.piece, htook.accepted]
        rfl
      refine ⟨sub.bytes.take p.2, ?_, .inr ⟨sub, List.mem_of_getElem? htook.accepted, htook.link,
        sub.bytes.drop p.2, ?_, List.take_append_drop _ _⟩⟩
      · rw [hsent, hsegments, List.flatMap_append, pieces_whole hs init hinit, ← hpiece]
        simp
      · intro hnil
        have hle := List.drop_eq_nil_iff.mp hnil
        exact hleft (htook.whole.mp (Nat.le_antisymm htook.le hle))

/-! ## What the host makes of it -/

variable {M σ : Type*} {hand : Handlers M σ} {limits : Limits} {p : Parser M σ}
  {chunks : List (ℤ × List UInt8)}

/-- Chunks of at most half of the buffer fit, when no frame is larger than the other half. -/
theorem fits_of_small {ws : List (WireFrame hand.parseMetadata limits)} {y : List UInt8}
    (hl : p.limits = limits) (hws : ∀ w ∈ ws, w.bytes.length ≤ maxBuffer / 2)
    (hchunks : ∀ c ∈ chunks, c.2.length ≤ maxBuffer / 2)
    (hb : p.buffer ++ bytesOf chunks ++ y = streamOf ws) (hbegin : Begins p.buffer ws) :
    Fits hand p chunks := by
  induction chunks generalizing p ws with
  | nil => trivial
  | cons c cs ih =>
    have hbuffer : p.buffer.length ≤ maxBuffer / 2 := by
      cases ws with
      | nil =>
        rw [show p.buffer = [] from hbegin]
        exact Nat.zero_le _
      | cons w ws => exact hbegin.le.trans (hws w List.mem_cons_self)
    have hfit : (p.buffer ++ c.2).length ≤ maxBuffer := by
      have hc := hchunks c List.mem_cons_self
      rw [List.length_append]
      simp only [maxBuffer] at *
      omega
    obtain ⟨-, hbuf, hlim⟩ := feedBytes_eq (h := hand) p c.1 c.2 hfit
    rw [bytesOf_cons, ← List.append_assoc, List.append_assoc (p.buffer ++ c.2)] at hb
    obtain ⟨done, due, b', rfl, hsplit, hbegin', hdrain, -⟩ := drainAll_stream p.sink hb
    rw [hl, hdrain] at hbuf
    refine ⟨hfit, ih (hlim.trans hl) (fun w hw => hws w (List.mem_append.mpr (.inr hw)))
      (fun x hx => hchunks x (List.mem_cons_of_mem c hx)) ?_ (hbuf ▸ hbegin')⟩
    have hcat : streamOf (done ++ due) = streamOf done ++ streamOf due := by
      simp only [streamOf, List.flatMap_append]
    rw [hsplit, hcat, List.append_assoc (streamOf done)] at hb
    rw [hbuf, List.append_assoc]
    exact List.append_cancel_left hb

/-- Whole frames are handed over, and the beginning of another one waits. -/
theorem drainAll_frames {ws : List (WireFrame hand.parseMetadata limits)} {part rest : List UInt8}
    (s : Sink M σ) (hpart : part = [] ∨
      ∃ w : WireFrame hand.parseMetadata limits, rest ≠ [] ∧ part ++ rest = w.bytes) :
    drainAll hand limits s (streamOf ws ++ part) =
      (s.offerAll hand (ws.map (·.delivery)), part) := by
  have hall : streamOf ws ++ [] = streamOf ws := List.append_nil _
  obtain ⟨done, due, b', rfl, hsplit, hbegin, hdrain, -⟩ := drainAll_stream s hall
  have hcat : streamOf (done ++ due) = streamOf done ++ streamOf due := by
    simp only [streamOf, List.flatMap_append]
  obtain rfl : b' = streamOf due := List.append_cancel_left (hsplit.symm.trans hcat)
  obtain rfl : due = [] := begins_of_streamOf hbegin
  rw [drainAll_append, hdrain, List.append_nil]
  rcases hpart with rfl | ⟨w, hrest, hw⟩
  · rfl
  · by_cases hnil : part = []
    · rw [hnil]
      rfl
    · rw [show streamOf ([] : List (WireFrame hand.parseMetadata limits)) ++ part = part from rfl,
        drainAll_eq, turn_partial hnil hrest hw]
      rfl

/-- The submissions that can be read are frames that the host admits. -/
theorem frames_of_submissions {f : List UInt8 → Option M} (read : Submission → M)
    (hlimits : Admits limits) (l : List Submission) (hl : ∀ sub ∈ l,
      Short sub.metadata sub.payload ∧ sub.metadata ≠ [] ∧ f sub.metadata = some (read sub)) :
    ∃ ws : List (WireFrame f limits), streamOf ws = l.flatMap Submission.bytes ∧
      ws.map (·.delivery) = l.map (Submission.delivery read) ∧
      ∀ w ∈ ws, w.bytes.length ≤ maxBuffer / 2 := by
  induction l with
  | nil => exact ⟨[], rfl, rfl, by simp⟩
  | cons sub l ih =>
    obtain ⟨ws, hstream, hdeliveries, hws⟩ := ih fun x hx => hl x (List.mem_cons_of_mem sub hx)
    obtain ⟨hshort, hne, hparses⟩ := hl sub List.mem_cons_self
    refine ⟨sub.wireFrame hlimits hshort hne hparses :: ws, ?_, ?_, fun w hw => ?_⟩
    · rw [streamOf_cons, hstream, wireFrame_bytes, List.flatMap_cons]
    · rw [List.map_cons, List.map_cons, hdeliveries]
      rfl
    · rcases List.mem_cons.mp hw with rfl | hw
      · exact (bytes_length_lt hshort).le
      · exact hws w hw

/-- A TCP link takes a frame, and the beginning of another one. -/
def tcpTwice : List (Step × Reply) :=
  submission { link := tcpLink 0, txClass := .control } firstTcp ++ [visit firstTcp 33] ++
    [(Step.release firstTcp, none), (.unreserve firstTcp, none), (.clear firstTcp, none),
      (.afterwards firstTcp, none)] ++
    submission { link := tcpLink 0, txClass := .control } firstTcp ++ [visit firstTcp 29]

end

end EspVision.MuxTx
