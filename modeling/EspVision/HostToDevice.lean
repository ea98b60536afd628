import EspVision.DeviceFrame

/-!
# From `makeEvMuxFrame` to `ev_control_handle_frame`

Every frame the host makes within the device's limits is handed over once with its own
metadata and payload, however its bytes are cut into reads, and so is every sequence of them.
-/
namespace EspVision.EvControl
open Json EvTransport EvControlJson
open Host (FrameOptions makeEvMuxFrame)

/-- The device authorises the frame as a binary `file.write` request. -/
def AuthorisedFileWrite (env : Env) (link : LinkRef) (o : FrameOptions) : Prop :=
  ∃ bytes m, o.metadataBytes = some bytes ∧ parseMetadata bytes = .ok m ∧ m.channel = userRpc ∧
    m.method = fileWrite ∧ m.type = reqType ∧ m.encoding = binaryEncoding ∧
    fileWriteAuthorized env link m = true

/-- The input that completes the metadata of a frame with the payload length `n`. -/
def CompletesMetadata (is : List Input) (n : ℕ) (env : Env) : Prop :=
  ∃ now b later, Input.byte now b env :: later <:+ is ∧ (inputBytes later).length = n + 1

/-- The input with the last byte. -/
def LastByte (is : List Input) (env : Env) : Prop :=
  ∃ now b later, Input.byte now b env :: later <:+ is ∧ inputBytes later = []

/-- The inputs bring a frame that the host made within the device's limits: in time, authorised
if its payload is large, with the link current and memory available when the device asks. -/
structure Delivered (link : LinkRef) (o : FrameOptions) (is : List Input) : Prop where
  made : makeEvMuxFrame o = some (inputBytes is)
  metadata_le : ∀ m ∈ o.metadataBytes, m.length ≤ metadataMax
  payload_le : o.payloadBytes.length ≤ filePayloadMax
  timely : TimelyFrame is
  authorised : payloadMax < o.payloadBytes.length →
    ∀ env, CompletesMetadata is o.payloadBytes.length env → AuthorisedFileWrite env link o
  memory : payloadMax < o.payloadBytes.length →
    ∀ env, CompletesMetadata is o.payloadBytes.length env →
      env.memory (o.payloadBytes.length + 1) = true
  current : ∀ env, LastByte is env → env.registry.linkIsCurrent link = true

/-- The host's checksum is the device's. -/
lemma crc32_host (bytes : List UInt8) : crc32 bytes = UInt32.ofNat (Host.crc32 bytes) := by
  rw [crc32, Host.crc32, Crc32.checksum_table]
  apply UInt32.eq_of_toBitVec_eq
  simp

/-- A frame of the host as the device's frame. -/
def hostFrame (o : FrameOptions) (m : List UInt8) (hm : o.metadataBytes = some m)
    (hlen : m.length ≤ metadataMax) (hp : o.payloadBytes.length ≤ filePayloadMax) : WireFrame where
  metadata := m
  payload := o.payloadBytes
  checksum := o.checksum
  metadata_noNul := Host.metadataBytes_noNul hm
  metadata_ne_nil := Host.metadataBytes_ne_nil hm
  metadata_le := hlen
  payload_le := hp
  checksum_lt := Host.checksum_lt o
  checksum_ok := by
    unfold FrameOptions.checksum
    split_ifs
    · exact .inr (crc32_host _)
    · exact .inl rfl

/-- What the device reports for a frame of the host. -/
def received (link : LinkRef) (o : FrameOptions) : List Event :=
  [.frameOk, .handle link (o.metadataBytes.getD []) o.payloadBytes]

theorem feed_delivered {link : LinkRef} {o : FrameOptions} {is : List Input} {p : Parser}
    (hp : p.state = .sof) (h : Delivered link o is) :
    feedInputs link p is = .ok (WireFrame.idle link, received link o) := by
  obtain ⟨m, hm, hmade⟩ := Option.map_eq_some_iff.mp h.made
  have harr : (hostFrame o m hm (h.metadata_le m hm) h.payload_le).Arrives link true is :=
    { bytes := hmade.symm
      timely := h.timely
      admitted := by
        intro now b env later hs hl hlarge
        have hbig : payloadMax < o.payloadBytes.length := by
          exact of_decide_eq_true hlarge
        have hc : CompletesMetadata is o.payloadBytes.length env := ⟨now, b, later, hs, hl⟩
        obtain ⟨bytes, md, hb, hrest⟩ := h.authorised hbig env hc
        obtain rfl : m = bytes := Option.some.inj (hm.symm.trans hb)
        exact ⟨⟨md, hrest⟩, h.memory hbig env hc⟩
      last := fun now b env later hs hl => h.current env ⟨now, b, later, hs, hl⟩ }
  rw [WireFrame.feed_frame _ hp harr]
  simp [WireFrame.events, received, hm, hostFrame]

/-- Frames back to back. -/
theorem feed_sequence {link : LinkRef} {sent : List (FrameOptions × List Input)} {p : Parser}
    (hp : p.state = .sof) (h : ∀ s ∈ sent, Delivered link s.1 s.2) :
    ∃ p', feedInputs link p (sent.flatMap Prod.snd) =
      .ok (p', sent.flatMap fun s => received link s.1) ∧ p'.state = .sof := by
  induction sent generalizing p with
  | nil => exact ⟨p, rfl, hp⟩
  | cons s sent ih =>
    obtain ⟨p', hrest, hp'⟩ := ih (p := WireFrame.idle link) rfl fun x hx => h x (by simp [hx])
    refine ⟨p', ?_, hp'⟩
    rw [List.flatMap_cons, feedInputs_append, feed_delivered hp (h s (by simp)), Outcome.ok_bind]
    simp only [hrest, Outcome.ok_bind, List.flatMap_cons]

lemma transportRun_bind {link : LinkRef} {p : Parser} {reads : List Read} (hne : reads ≠ [])
    (hread : ∀ r ∈ reads, r.registry.linkIsCurrent link = true ∧ r.bytes.length ≤ readMax) :
    transportRun link p reads = transportRun link (bindLink p link) reads := by
  obtain ⟨r, reads, rfl⟩ := List.exists_cons_of_ne_nil hne
  obtain ⟨hcur, hlen⟩ := hread r (by simp)
  have hslot := slot_lt hcur
  have hok : ¬(tcpLinks ≤ link.slot ∨ readMax < r.bytes.length) := by omega
  simp only [transportRun, transportRx, if_neg hok, hcur, bindLink_eq (bindLink_bound link p),
    Bool.not_true, Bool.false_eq_true, if_false]

/-- A sequence of host frames, cut into reads at any points: each frame is handed over exactly
once, with its metadata and its payload, and no store leaves its buffer. -/
theorem host_frames_received (link : LinkRef) (p : Parser) (hp : p.state = .sof)
    (sent : List (FrameOptions × List Input)) (h : ∀ s ∈ sent, Delivered link s.1 s.2)
    (reads : List Read)
    (hread : ∀ r ∈ reads, r.registry.linkIsCurrent link = true ∧ r.bytes.length ≤ readMax)
    (hcut : reads.flatMap Read.inputs = sent.flatMap Prod.snd) :
    ∃ p', transportRun link p reads = .ok (p', sent.flatMap fun s => received link s.1) ∧
      p'.state = .sof := by
  by_cases hne : reads = []
  · subst hne
    obtain ⟨p', hfeed, hp'⟩ := feed_sequence hp h
    rw [← hcut] at hfeed
    exact ⟨p', hfeed, hp'⟩
  · have hstate : (bindLink p link).state = .sof := by
      unfold bindLink
      split_ifs
      · rfl
      · exact hp
    rw [transportRun_bind hne hread, transportRun_inputs (bindLink_bound link p) hread, hcut]
    exact feed_sequence hstate h

/-! ## A frame, and the same frame on a link that is retired meanwhile -/

/-- The first endpoint. -/
def sampleLink : LinkRef := { generation := 1 }

def openRegistry : Registry where
  links _ _ := ⟨1, true⟩
  supported _ := true
  owner := none

def closedRegistry : Registry where
  links _ _ := ⟨2, false⟩
  supported _ := true
  owner := none

/-- A channel name and an empty payload. -/
def sampleOptions : FrameOptions := { channel := .string [0x61] }

/-- `{"sid":"web-ide","seq":0,"channel":"a","type":"data","encoding":"text"}`. -/
def sampleMetadata : List UInt8 := sampleOptions.metadataBytes.getD []

lemma sampleMetadata_eq : sampleOptions.metadataBytes = some sampleMetadata := by decide

lemma sampleMetadata_le : sampleMetadata.length ≤ metadataMax := by decide

def sampleFrame : WireFrame :=
  hostFrame sampleOptions sampleMetadata sampleMetadata_eq sampleMetadata_le (by decide)

def sampleEnv (r : Registry) : Env :=
  { registry := r, session := {}, nowMs := 0, memory := fun _ => true }

/-- The frame in one read; the link is current at its start. -/
def sampleRead (r : Registry) : Read where
  now := 0
  registry := openRegistry
  bytes := sampleFrame.bytes.map fun b => (b, sampleEnv r)

lemma sampleRead_inputs (r : Registry) :
    (sampleRead r).inputs = sampleFrame.bytes.map fun b => .byte 0 b (sampleEnv r) := by
  rw [Read.inputs, if_neg (by simp [sampleRead, sampleFrame.bytes_eq])]
  simp [sampleRead]

lemma map_inputBytes (t : List UInt8) (env : Env) :
    inputBytes (t.map fun b => .byte 0 b env) = t := by
  induction t with
  | nil => rfl
  | cons b t ih => rw [List.map_cons, inputBytes_byte, ih]

lemma map_timely (t : List UInt8) (env : Env) :
    TimelyFrame (t.map fun b => .byte 0 b env) := by
  have htail : ∀ u : List UInt8, Timely 0 0 (u.map fun b => .byte 0 b env) := by
    intro u
    induction u with
    | nil => trivial
    | cons b u ih => exact ⟨by simp [InLimits], ih⟩
  cases t with
  | nil => trivial
  | cons b t => exact htail t

/-- Every input of the sample has the same surroundings. -/
lemma map_env {t : List UInt8} {env env' : Env} {now : ℕ} {b : UInt8} {later : List Input}
    (h : Input.byte now b env' :: later <:+ t.map fun b => .byte 0 b env) : env' = env := by
  have hmem := h.mem (List.mem_cons_self)
  obtain ⟨x, -, hx⟩ := List.mem_map.mp hmem
  exact (Input.byte.inj hx).2.2.symm

lemma sample_delivered :
    Delivered sampleLink sampleOptions
      (sampleFrame.bytes.map fun b => .byte 0 b (sampleEnv openRegistry)) where
  made := by
    rw [map_inputBytes]
    exact Option.map_eq_some_iff.mpr ⟨sampleMetadata, sampleMetadata_eq, rfl⟩
  metadata_le := by
    intro m hm
    obtain rfl : sampleMetadata = m := Option.some.inj (sampleMetadata_eq.symm.trans hm)
    exact sampleMetadata_le
  payload_le := by decide
  timely := map_timely _ _
  authorised := fun h => absurd h (by decide)
  memory := fun h => absurd h (by decide)
  current := by
    rintro env ⟨now, b, later, hs, -⟩
    rw [map_env hs]
    decide

theorem host_frames_received_sample :
    ∃ p', transportRun sampleLink {} [sampleRead openRegistry] =
      .ok (p', received sampleLink sampleOptions) ∧ p'.state = .sof := by
  have hread : ∀ r ∈ [sampleRead openRegistry],
      r.registry.linkIsCurrent sampleLink = true ∧ r.bytes.length ≤ readMax := by
    intro r hr
    obtain rfl : r = sampleRead openRegistry := by simpa using hr
    exact ⟨by decide, by rw [sampleRead, List.length_map]; decide⟩
  obtain ⟨p', hrun, hp'⟩ := host_frames_received sampleLink {} rfl
    [(sampleOptions, sampleFrame.bytes.map fun b => .byte 0 b (sampleEnv openRegistry))]
    (by simpa using sample_delivered) [sampleRead openRegistry] hread
    (by simp [sampleRead_inputs])
  exact ⟨p', by simpa using hrun, hp'⟩

/-- A link retired between the start of a read and the last byte: the frame is dropped, although
it is complete, small and in time. -/
theorem retired_link_drops_frame :
    makeEvMuxFrame sampleOptions = some sampleFrame.bytes ∧
      ((sampleRead closedRegistry).bytes.map Prod.fst = sampleFrame.bytes ∧
        (sampleRead closedRegistry).bytes.length ≤ readMax) ∧
      transportRun sampleLink {} [sampleRead closedRegistry] =
        .ok (WireFrame.idle sampleLink, [.frameOk, .staleGenerationDrop]) := by
  have hread : ∀ r ∈ [sampleRead closedRegistry],
      r.registry.linkIsCurrent sampleLink = true ∧ r.bytes.length ≤ readMax := by
    intro r hr
    obtain rfl : r = sampleRead closedRegistry := by simpa using hr
    exact ⟨by decide, by rw [sampleRead, List.length_map]; decide⟩
  have harr : sampleFrame.Arrives sampleLink false
      (sampleFrame.bytes.map fun b => .byte 0 b (sampleEnv closedRegistry)) :=
    { bytes := map_inputBytes _ _
      timely := map_timely _ _
      admitted := fun _ _ _ _ _ _ h => absurd h (by decide)
      last := by
        intro now b env later hs _
        rw [map_env hs]
        decide }
  have hfeed := sampleFrame.feed_frame (p := bindLink {} sampleLink) rfl harr
  refine ⟨Option.map_eq_some_iff.mpr ⟨sampleMetadata, sampleMetadata_eq, rfl⟩,
    ⟨?_, (hread _ (by simp)).2⟩, ?_⟩
  · rw [sampleRead, List.map_map]
    exact List.map_id _
  rw [transportRun_bind (by simp) hread, transportRun_inputs (bindLink_bound _ _) hread]
  simpa [sampleRead_inputs, WireFrame.events] using hfeed

end EspVision.EvControl
