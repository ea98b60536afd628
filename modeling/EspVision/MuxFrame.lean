import EspVision.BlockArena
import EspVision.HostFrame
import EspVision.SessionContext
import EspVision.Tickets

/-!
# Frames of the transmit multiplexer (`ev_mux.c`)

What is submitted, the frame that is made of it, and how the frame is read while it is sent: its
checksum is computed in pieces, and its bytes are handed out in segments. Where the payload lies is
left open here; `payload` gives the bytes that follow an offset without a break.
-/
namespace EspVision.MuxTx

open EvTransport EvMux EvSession Host

/-! ## Constants -/

/-- `EV_MUX_SERIAL_TARGETS`. -/
def serialTargets : ℕ := 3
/-- `EV_MUX_TARGET_COUNT`. -/
def targetCount : ℕ := serialTargets + tcpLinks
/-- `EV_MUX_QUEUE_BYTES`. -/
def queueBytes : ℕ := 16384
/-- `EV_MUX_QUEUE_RESERVED_BYTES`. -/
def queueReservedBytes : ℕ := 4096
/-- `EV_MUX_QUEUE_FRAMES`. -/
def queueFrames : ℕ := 8
/-- `EV_MUX_QUEUE_RESERVED_FRAMES`. -/
def queueReservedFrames : ℕ := 2
/-- `EV_MUX_BLOCK_SIZE`. -/
def blockSize : ℕ := 256
/-- `EV_MUX_BLOCK_COUNT`. -/
def blockCount : ℕ := 64
/-- `EV_MUX_METADATA_MAX`. -/
def metadataMax : ℕ := 384
/-- `EV_MUX_HEADER_MAX`. -/
def headerMax : ℕ := 56
/-- `EV_MUX_QUEUE_TIMEOUT_MS`. -/
def queueTimeoutMs : UInt32 := 2000
/-- `EV_MUX_FRAME_TIMEOUT_MS`. -/
def frameTimeoutMs : ℕ := 1500
/-- `EV_MUX_UART_FRAME_TIMEOUT_MAX_MS`. -/
def uartFrameTimeoutMaxMs : ℕ := 10000
/-- `EV_MUX_CRC_CHUNK_BYTES`. -/
def crcChunkBytes : ℕ := 512
/-- `EV_MUX_WRITE_CHUNK_BYTES`. -/
def writeChunkBytes : ℕ := 4096
/-- `EV_IO_VECTORS_MAX`. -/
def ioVectorsMax : ℕ := 4
/-- `EV_MUX_TX_CONTEXT_MAX`. -/
def txContextMax : ℕ := 40

def espOk : EspErr := 0
def espFail : EspErr := -1
def espErrNoMem : EspErr := 0x101
def espErrInvalidArg : EspErr := 0x102
def espErrInvalidSize : EspErr := 0x104
def espErrTimeout : EspErr := 0x107

/-! ## Targets -/

abbrev Target := Fin targetCount

/-- `ev_mux_target_index`; `none` is `-1`. -/
def targetIndex (link : LinkRef) : Option Target :=
  match link.transportId with
  | .usj => if link.slot = 0 then some ⟨0, by decide⟩ else none
  | .usb => if link.slot = 0 then some ⟨1, by decide⟩ else none
  | .uart => if link.slot = 0 then some ⟨2, by decide⟩ else none
  | .tcp => if h : link.slot < tcpLinks then
      some ⟨serialTargets + link.slot, Nat.add_lt_add_left h serialTargets⟩ else none

/-- The queue of the target lies in the arena that the TCP targets share. -/
def Target.isTcp (t : Target) : Bool := serialTargets ≤ t.val

/-! ## Submissions and frames -/

/-- `ev_mux_tx_class_t`. -/
inductive TxClass
  | session | control | repl | log | preview
  deriving DecidableEq

/-- The value of the class, which is the priority of its frames. -/
def TxClass.priority : TxClass → ℕ
  | .session => 0
  | .control => 1
  | .repl => 2
  | .log => 3
  | .preview => 4

/-- `ev_mux_submit_options_t`; a completion is named by a number. -/
structure SubmitOptions where
  link : LinkRef
  sessionId : Option (List UInt8) := none
  vmEpoch : UInt32 := 0
  txClass : TxClass
  uartBaudControl : Bool := false
  completion : Option ℕ := none
  completionContext : List UInt8 := []
  vmOutputOrigin : Option Context := none

/-- `ev_mux_frame_t`. A list stands for an array and its length. `id` is the number of the accepted
submission that the frame carries; no function reads it. -/
structure Frame where
  used : Bool := false
  uartBaudControl : Bool := false
  tcpQuotaReserved : Bool := false
  tcpDiscoveryReservation : Bool := false
  tcpLowReservation : Bool := false
  priority : ℕ := 0
  blocks : List (Fin blockCount) := []
  link : LinkRef := {}
  sessionId : List UInt8 := []
  vmEpoch : UInt32 := 0
  outputInputGeneration : UInt32 := 0
  outputTransitionId : UInt32 := 0
  previewObserver : Bool := false
  enqueueMs : UInt32 := 0
  startMs : UInt32 := 0
  lastProgressMs : UInt32 := 0
  attempted : Bool := false
  enqueueOrder : UInt32 := 0
  frameTimeoutMs : ℕ := 0
  metadata : List UInt8 := []
  header : List UInt8 := []
  payloadLen : ℕ := 0
  payloadCrcState : BitVec 32 := 0
  payloadCrcPos : ℕ := 0
  totalLen : ℕ := 0
  txOffset : ℕ := 0
  headerReady : Bool := false
  ticket : Ticket := 0
  completion : Option ℕ := none
  completionContext : List UInt8 := []
  id : ℕ := 0
  deriving DecidableEq

/-- What the functions ask the rest of the firmware for while a frame is prepared: whether the link
is current, the clock, and the rate of the UART at the two places where it is read. -/
structure PrepareLook where
  linkIsCurrent : Bool := true
  nowMs : UInt32 := 0
  baudrate : ℕ := 115200
  baudrateAgain : ℕ := 115200
  deriving DecidableEq

/-- `ev_mux_frame_timeout`; zero when the rate is too low. -/
def frameTimeout (link : LinkRef) (baudrate encodedLen : ℕ) : ℕ :=
  if link.transportId ≠ .uart then frameTimeoutMs
  else if baudrate = 0 then 0
  else
    let wireMs := (encodedLen * 10000 + baudrate - 1) / baudrate
    let timeoutMs := max (wireMs * 2 + 250) frameTimeoutMs
    if uartFrameTimeoutMaxMs < timeoutMs then 0 else timeoutMs

/-- The part of `ev_mux_copy_options` that binds the frame to where its output comes from. -/
def copyOrigin (f : Frame) (o : SubmitOptions) : Option Frame :=
  match o.vmOutputOrigin with
  | none => some f
  | some origin =>
    if origin.inputGeneration = 0 ∨ origin.sessionId.length ≠ idHexLen ∨ origin.link ≠ o.link ∨
        origin.vmEpoch ≠ o.vmEpoch ∨ o.sessionId ≠ some origin.sessionId then none
    else some { f with
      outputInputGeneration := origin.inputGeneration
      outputTransitionId := origin.transitionId }

/-- `ev_mux_copy_options`. -/
def copyOptions (o : SubmitOptions) (linkIsCurrent : Bool) : Option Frame :=
  if txContextMax < o.completionContext.length then none
  else if !linkIsCurrent then none
  else if idHexLen < (o.sessionId.getD []).length then none
  else
    (copyOrigin {
      link := o.link
      priority := o.txClass.priority
      uartBaudControl := o.uartBaudControl
      vmEpoch := o.vmEpoch
      completion := o.completion
      sessionId := o.sessionId.getD [] } o).map fun f =>
        { f with completionContext := o.completionContext }

/-! ## Headers -/

/-- A digit of `%X`. -/
def upperDigit (d : ℕ) : UInt8 := if d < 10 then 0x30 + UInt8.ofNat d else 0x37 + UInt8.ofNat d

/-- `%08X`. -/
def checksumText (crc : BitVec 32) : List UInt8 :=
  [28, 24, 20, 16, 12, 8, 4, 0].map fun shift => upperDigit ((crc.toNat >>> shift) % 16)

/-- The text that `ev_mux_build_header` prints. -/
def headerText (metadataLen payloadLen : ℕ) (crc : BitVec 32) : List UInt8 :=
  sof :: (headerStart ++ (Scanf.numeral 10 metadataLen ++ (headerPayload ++
    (Scanf.numeral 10 payloadLen ++ (headerChecksum ++ (checksumText crc ++ lineEnd))))))

/-- The checksum that `ev_mux_crc32` computes of the bytes. -/
def payloadChecksum (bytes : List UInt8) : BitVec 32 := Crc32.checksum Crc32.update bytes

/-- The bytes of a frame on the wire. -/
def wireBytes (metadata payload : List UInt8) : List UInt8 :=
  headerText metadata.length payload.length (payloadChecksum payload) ++
    (metadata ++ (payload ++ [eofGuard]))

/-- `ev_mux_build_header`. -/
def buildHeader (f : Frame) (crc : BitVec 32) : Option Frame :=
  let text := headerText f.metadata.length f.payloadLen crc
  if headerMax ≤ text.length then none else some { f with header := text }

/-- The length of a frame with its header, as it is computed before the frame is prepared. -/
def encodedLength (metadataLen payloadLen : ℕ) : ℕ :=
  (headerText metadataLen payloadLen 0).length + metadataLen + payloadLen + 1

/-- `ev_mux_prepare_frame`, with the value of `s_tx_enqueue_order` before and after. -/
def prepareFrame (o : SubmitOptions) (metadata : List UInt8) (payloadLen : ℕ) (ticket : Ticket)
    (look : PrepareLook) (order : UInt32) : Option Frame × UInt32 :=
  match copyOptions o look.linkIsCurrent with
  | none => (none, order)
  | some f =>
    if metadataMax < metadata.length ∨ 2 ^ 32 ≤ payloadLen then (none, order)
    else
      let encodedLen := encodedLength metadata.length payloadLen
      let f := { f with
        metadata := metadata
        payloadLen := payloadLen
        totalLen := encodedLen
        ticket := ticket
        enqueueMs := look.nowMs
        enqueueOrder := order + 1
        frameTimeoutMs := frameTimeout o.link look.baudrateAgain encodedLen
        payloadCrcState := BitVec.allOnes 32
        headerReady := payloadLen == 0 }
      (if f.frameTimeoutMs = 0 then none else buildHeader f 0, order + 1)

/-- What is known of a frame that was prepared. -/
structure Prepared (o : SubmitOptions) (m : List UInt8) (n : ℕ) (number : Ticket) (f : Frame) :
    Prop where
  used : f.used = false
  quota : f.tcpQuotaReserved = false
  discovery : f.tcpDiscoveryReservation = false
  low : f.tcpLowReservation = false
  blocks : f.blocks = []
  priority : f.priority = o.txClass.priority
  link : f.link = o.link
  sessionId : f.sessionId = o.sessionId.getD []
  vmEpoch : f.vmEpoch = o.vmEpoch
  uartBaudControl : f.uartBaudControl = o.uartBaudControl
  previewObserver : f.previewObserver = false
  attempted : f.attempted = false
  metadata : f.metadata = m
  metadataLen : m.length ≤ metadataMax
  payloadLen : f.payloadLen = n
  totalLen : f.totalLen = encodedLength m.length n
  header : f.header = headerText m.length n 0
  headerReady : f.headerReady = (n == 0)
  crcState : f.payloadCrcState = BitVec.allOnes 32
  crcPos : f.payloadCrcPos = 0
  txOffset : f.txOffset = 0
  ticket : f.ticket = number
  completion : f.completion = o.completion
  id : f.id = 0

theorem copyOptions_some {o : SubmitOptions} {current : Bool} {f : Frame}
    (h : copyOptions o current = some f) :
    ∃ input transition context, f = {
      link := o.link
      priority := o.txClass.priority
      uartBaudControl := o.uartBaudControl
      vmEpoch := o.vmEpoch
      completion := o.completion
      sessionId := o.sessionId.getD []
      outputInputGeneration := input
      outputTransitionId := transition
      completionContext := context } := by
  unfold copyOptions at h
  split_ifs at h
  obtain ⟨g, hg, rfl⟩ := Option.map_eq_some_iff.mp h
  unfold copyOrigin at hg
  split at hg
  · obtain rfl := Option.some.inj hg
    exact ⟨_, _, _, rfl⟩
  · split_ifs at hg
    obtain rfl := Option.some.inj hg
    exact ⟨_, _, _, rfl⟩

theorem prepareFrame_some {o : SubmitOptions} {metadata : List UInt8} {payloadLen : ℕ}
    {ticket : Ticket} {look : PrepareLook} {order order' : UInt32} {f : Frame}
    (h : prepareFrame o metadata payloadLen ticket look order = (some f, order')) :
    Prepared o metadata payloadLen ticket f := by
  unfold prepareFrame at h
  split at h
  · cases (Prod.mk.inj h).1
  · rename_i g hg
    obtain ⟨input, transition, context, rfl⟩ := copyOptions_some hg
    split_ifs at h with hlen
    · cases (Prod.mk.inj h).1
    · simp only [buildHeader, Prod.mk.injEq] at h
      obtain ⟨hf, -⟩ := h
      split_ifs at hf
      obtain rfl := Option.some.inj hf
      constructor <;> first | rfl | omega

theorem Prepared.sized {o : SubmitOptions} {m : List UInt8} {n : ℕ} {number : Ticket} {f : Frame}
    (h : Prepared o m n number f) : f.payloadLen ≤ f.totalLen := by
  rw [h.payloadLen, h.totalLen, encodedLength]
  omega

/-! ## Reading a frame -/

/-- `ev_mux_frame_segment`: the bytes at the offset, up to the end of the part that it lies in. -/
def Frame.segment (f : Frame) (payload : ℕ → List UInt8) (offset : ℕ) : List UInt8 :=
  if offset < f.header.length then f.header.drop offset
  else if offset - f.header.length < f.metadata.length then
    f.metadata.drop (offset - f.header.length)
  else if offset - f.header.length - f.metadata.length < f.payloadLen then
    payload (offset - f.header.length - f.metadata.length)
  else [eofGuard]

/-- The loop of `ev_mux_frame_crc_step`; each pass reads at least one byte. -/
def crcLoop (payload : ℕ → List UInt8) (stop : ℕ) : ℕ → ℕ → BitVec 32 → ℕ × BitVec 32
  | 0, pos, crc => (pos, crc)
  | fuel + 1, pos, crc =>
    if pos < stop then
      let data := (payload pos).take (stop - pos)
      crcLoop payload stop fuel (pos + data.length)
        (data.foldl (fun crc b => Crc32.update crc b.toBitVec) crc)
    else (pos, crc)

/-- `ev_mux_frame_crc_step`; the frame afterwards has its header, or has not. -/
def Frame.crcStep (f : Frame) (payload : ℕ → List UInt8) : Frame :=
  if f.headerReady then f
  else
    let stop := min (f.payloadCrcPos + crcChunkBytes) f.payloadLen
    let r := crcLoop payload stop crcChunkBytes f.payloadCrcPos f.payloadCrcState
    let f := { f with payloadCrcPos := r.1, payloadCrcState := r.2 }
    if r.1 = f.payloadLen then
      match buildHeader f (~~~ r.2) with
      | none => f
      | some f => { f with headerReady := true }
    else f

/-- The vectors of one write to a TCP link, joined. -/
def Frame.gather (f : Frame) (payload : ℕ → List UInt8) : ℕ → ℕ → List UInt8 → List UInt8
  | 0, _, done => done
  | count + 1, offset, done =>
    if offset < f.totalLen ∧ done.length < writeChunkBytes then
      let data := (f.segment payload offset).take (writeChunkBytes - done.length)
      f.gather payload count (offset + data.length) (done ++ data)
    else done

/-- What is offered to the backend: several segments to a TCP link, and one to the others. -/
def Frame.offered (f : Frame) (payload : ℕ → List UInt8) : List UInt8 :=
  if f.link.transportId = .tcp then f.gather payload ioVectorsMax f.txOffset []
  else (f.segment payload f.txOffset).take writeChunkBytes

end EspVision.MuxTx
