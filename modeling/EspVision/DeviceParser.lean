import EspVision.ControlJsonObject
import EspVision.Crc32
import EspVision.Scanf
import EspVision.SessionManager

/-!
# The device's frame parser (`ev_control_transport`)

One byte at a time, a state machine collects a header line, the metadata and the payload in
fixed buffers; a payload over the small limit goes to a buffer of its own once its upload is
authorised. Stores and reads outside a buffer are the outcome `fault`. The calls that depend
on the surroundings get their answers from an `Env` that comes with each byte.
-/
namespace EspVision.EvControl
open Json EvTransport EvControlJson

/-! ## Metadata -/

def channelCapacity : ℕ := 24
def typeCapacity : ℕ := 8
/-- `EV_CONTROL_JSON_METHOD_MAX + 1`. -/
def methodCapacity : ℕ := 32
/-- `EV_CONTROL_JSON_SESSION_ID_LENGTH + 1`. -/
def sessionIdCapacity : ℕ := 33
def encodingCapacity : ℕ := 8

/-- `channel`. -/
def channelKey : List UInt8 := [0x63, 0x68, 0x61, 0x6e, 0x6e, 0x65, 0x6c]
/-- `type`. -/
def typeKey : List UInt8 := [0x74, 0x79, 0x70, 0x65]
/-- `seq`. -/
def seqKey : List UInt8 := [0x73, 0x65, 0x71]
/-- `method`. -/
def methodKey : List UInt8 := [0x6d, 0x65, 0x74, 0x68, 0x6f, 0x64]
/-- `sid`. -/
def sidKey : List UInt8 := [0x73, 0x69, 0x64]
/-- `encoding`. -/
def encodingKey : List UInt8 := [0x65, 0x6e, 0x63, 0x6f, 0x64, 0x69, 0x6e, 0x67]
/-- `sessionId`. -/
def sessionIdKey : List UInt8 := [0x73, 0x65, 0x73, 0x73, 0x69, 0x6f, 0x6e, 0x49, 0x64]
/-- `vmEpoch`. -/
def vmEpochKey : List UInt8 := [0x76, 0x6d, 0x45, 0x70, 0x6f, 0x63, 0x68]

/-- `user.rpc`. -/
def userRpc : List UInt8 := [0x75, 0x73, 0x65, 0x72, 0x2e, 0x72, 0x70, 0x63]
/-- `debug.rpc`. -/
def debugRpc : List UInt8 := [0x64, 0x65, 0x62, 0x75, 0x67, 0x2e, 0x72, 0x70, 0x63]
/-- `file.write`. -/
def fileWrite : List UInt8 := [0x66, 0x69, 0x6c, 0x65, 0x2e, 0x77, 0x72, 0x69, 0x74, 0x65]
/-- `req`. -/
def reqType : List UInt8 := [0x72, 0x65, 0x71]
/-- `binary`. -/
def binaryEncoding : List UInt8 := [0x62, 0x69, 0x6e, 0x61, 0x72, 0x79]

def zeros (n : ℕ) : List UInt8 := List.replicate n 0

/-- A string field whose buffer was cleared. -/
def stringField (name : List UInt8) (required : Bool) (capacity : ℕ) : Field :=
  ⟨name, required, false, .string (some (zeros capacity)) capacity 0⟩

/-- The fields of `ev_control_json_parse_metadata`. -/
def metadataFields : List Field :=
  [stringField channelKey true channelCapacity, stringField typeKey true typeCapacity,
    ⟨seqKey, true, false, .uint32 0⟩, stringField methodKey false methodCapacity,
    ⟨sidKey, false, false, .string none 0 0⟩, stringField encodingKey false encodingCapacity,
    stringField sessionIdKey false sessionIdCapacity, ⟨vmEpochKey, false, false, .uint32 0⟩]

/-- `ev_control_json_metadata_t`, its buffers as C strings. -/
structure Metadata where
  channel : List UInt8
  type : List UInt8
  method : List UInt8
  sessionId : List UInt8
  seq : UInt32
  vmEpoch : UInt32
  hasMethod : Bool
  hasSid : Bool
  hasEncoding : Bool
  encoding : List UInt8
  hasSessionId : Bool
  hasVmEpoch : Bool

/-- The C string in a field's buffer. -/
def fieldText (f : Field) : Outcome (List UInt8) :=
  match f.value with
  | .string (some cells) _ _ => cString cells
  | _ => .fault

/-- `value.string.length`. -/
def fieldLength (f : Field) : ℕ :=
  match f.value with
  | .string _ _ length => length
  | _ => 0

/-- `value.uint32`. -/
def fieldNumber (f : Field) : UInt32 :=
  match f.value with
  | .uint32 n => n
  | _ => 0

/-- The metadata in the filled fields. -/
def readMetadata : List Field → Outcome Metadata
  | [channel, type, seq, method, sid, encoding, sessionId, vmEpoch] => do
    let channelText ← fieldText channel
    let typeText ← fieldText type
    let methodText ← fieldText method
    let encodingText ← fieldText encoding
    let sessionIdText ← fieldText sessionId
    let out : Metadata :=
      { channel := channelText, type := typeText, method := methodText, sessionId := sessionIdText
        seq := fieldNumber seq, vmEpoch := fieldNumber vmEpoch, hasMethod := method.present
        hasSid := sid.present, hasEncoding := encoding.present, encoding := encodingText
        hasSessionId := sessionId.present, hasVmEpoch := vmEpoch.present }
    if (channelText = userRpc ∨ channelText = debugRpc) ∧
        (method.present = false ∨ fieldLength method = 0) then .reject
    else .ok out
  | _ => .fault

/-- `ev_control_json_parse_metadata`. -/
def parseMetadata (text : List UInt8) : Outcome Metadata := do
  let fields ← parseObject metadataFields text
  readMetadata fields

/-! ## The surroundings of one byte -/

/-- What the calls made while one byte is processed find: the link registry, the session, the
clock that `ev_control_frame_authorized` reads, and which allocations succeed. -/
structure Env where
  registry : Registry
  session : EvSession.State
  nowMs : UInt32
  memory : ℕ → Bool

/-- `ev_control_frame_authorized` for a `file.write` request, which is VM related. -/
def fileWriteAuthorized (env : Env) (link : LinkRef) (metadata : Metadata) : Bool :=
  (EvSession.authorize env.session link
    (if metadata.hasSessionId then some metadata.sessionId else none) true
    (if metadata.hasVmEpoch then some metadata.vmEpoch else none) env.nowMs
    (env.registry.linkIsCurrent link)).2 = .ok

/-! ## The parser -/

/-- `ev_control_parse_state_t`. -/
inductive ParseState
  | sof | header | metadata | payload | eof
  deriving DecidableEq

def metadataMax : ℕ := 384
def payloadMax : ℕ := 2048
/-- `EV_FILE_PAYLOAD_MAX`. -/
def filePayloadMax : ℕ := 16404
def headerMax : ℕ := 72
def frameIdleTimeoutMs : UInt32 := 3000
def frameTotalTimeoutMs : UInt32 := 10000
def sofByte : UInt8 := 0x1e
def eofByte : UInt8 := 0x1f

/-- `ev_control_parser_t`. -/
structure Parser where
  state : ParseState := .sof
  linkBound : Bool := false
  link : LinkRef := {}
  frameStartMs : UInt32 := 0
  lastProgressMs : UInt32 := 0
  header : List UInt8 := zeros headerMax
  headerLen : ℕ := 0
  metadata : List UInt8 := zeros (metadataMax + 1)
  metadataLen : ℕ := 0
  metadataPos : ℕ := 0
  payload : List UInt8 := zeros (payloadMax + 1)
  filePayload : Option (List UInt8) := none
  payloadLen : ℕ := 0
  payloadPos : ℕ := 0
  expectedCrc : UInt32 := 0

/-- What a byte makes the parser report: one of its counters, or a frame that it hands to
`ev_control_handle_frame`. -/
inductive Event
  | frameOk
  | frameBad
  | frameRejected
  | parserTimeout
  | staleGenerationDrop
  | handle (link : LinkRef) (metadata payload : List UInt8)

/-- Store one cell. -/
def store (cells : List UInt8) (i : ℕ) (b : UInt8) : Outcome (List UInt8) :=
  if i < cells.length then .ok (cells.set i b) else .fault

/-- Read the first `n` cells. -/
def load (cells : List UInt8) (n : ℕ) : Outcome (List UInt8) :=
  if n ≤ cells.length then .ok (cells.take n) else .fault

/-- `ev_control_parser_reset_keep_link`. -/
def resetKeepLink (p : Parser) : Parser := { linkBound := p.linkBound, link := p.link }

/-- `ev_control_parser_begin`. -/
def parserBegin (link : LinkRef) (now : UInt32) : Parser :=
  { state := .header, linkBound := true, link := link, frameStartMs := now, lastProgressMs := now }

/-- The condition of `ev_control_parser_expire`. -/
def Parser.expired (p : Parser) (now : UInt32) : Bool :=
  p.state ≠ .sof &&
    !(now - p.lastProgressMs < frameIdleTimeoutMs && now - p.frameStartMs < frameTotalTimeoutMs)

/-- `EVMUX/1`. -/
def formatName : List UInt8 := [0x45, 0x56, 0x4d, 0x55, 0x58, 0x2f, 0x31]
/-- `h=`. -/
def formatMetadata : List UInt8 := [0x68, 0x3d]
/-- `p=`. -/
def formatPayload : List UInt8 := [0x70, 0x3d]
/-- `c=`. -/
def formatCrc : List UInt8 := [0x63, 0x3d]

/-- `sscanf` with the format `EVMUX/1 h=%u p=%u c=%8x\r\n%n`: the three values and the number of
bytes read, when all are assigned. -/
def scanHeader (text : List UInt8) : Option (UInt32 × UInt32 × UInt32 × ℕ) := do
  let s ← Scanf.text formatName text
  let s ← Scanf.text formatMetadata (Scanf.space s)
  let (metadataLen, s) ← Scanf.decimal s
  let s ← Scanf.text formatPayload (Scanf.space s)
  let (payloadLen, s) ← Scanf.decimal s
  let s ← Scanf.text formatCrc (Scanf.space s)
  let (crc, s) ← Scanf.hex 8 s
  some (metadataLen, payloadLen, crc, text.length - (Scanf.space s).length)

/-- `ev_control_parse_header`; `none` is the result false. -/
def parseHeader (p : Parser) : Outcome (Option Parser) := do
  let text ← cString p.header
  match scanHeader text with
  | some (metadataLen, payloadLen, crc, consumed) =>
    if consumed ≠ p.headerLen ∨ metadataLen = 0 ∨ metadataMax < metadataLen.toNat ∨
        filePayloadMax < payloadLen.toNat then .ok none
    else .ok (some { p with
      metadataLen := metadataLen.toNat, payloadLen := payloadLen.toNat, expectedCrc := crc
      state := .metadata })
  | none => .ok none

/-- `ev_mux_crc32`. -/
def crc32 (bytes : List UInt8) : UInt32 := ⟨Crc32.checksum Crc32.update bytes⟩

/-- `ev_control_frame_payload`. -/
def framePayload (p : Parser) : List UInt8 := p.filePayload.getD p.payload

/-- Whether the metadata in the buffer admits a payload over the small limit. -/
def largeFrameAllowed (env : Env) (link : LinkRef) (p : Parser) : Outcome Bool := do
  let text ← load p.metadata p.metadataLen
  match parseMetadata text with
  | .ok m => .ok (m.channel = userRpc && m.method = fileWrite && m.type = reqType &&
      m.encoding = binaryEncoding && fileWriteAuthorized env link m)
  | .reject => .ok false
  | .fault => .fault

/-- A new allocation; its bytes are indeterminate. -/
def allocated (size : ℕ) : List UInt8 := List.replicate size 0xff

/-- The metadata is complete. -/
def metadataComplete (env : Env) (link : LinkRef) (p : Parser) :
    Outcome (Parser × List Event) := do
  let metadata ← store p.metadata p.metadataLen 0
  let p := { p with metadata := metadata }
  let next : ParseState := if p.payloadLen = 0 then .eof else .payload
  if payloadMax < p.payloadLen then do
    let allowed ← largeFrameAllowed env link p
    if !allowed || !env.memory (p.payloadLen + 1) then .ok (resetKeepLink p, [.frameRejected])
    else .ok ({ p with filePayload := some (allocated (p.payloadLen + 1)), state := next }, [])
  else .ok ({ p with state := next }, [])

/-- The call of `ev_control_handle_frame`, which terminates the payload first. -/
def handleFrame (p : Parser) (link : LinkRef) : Outcome Event := do
  let payload ← store (framePayload p) p.payloadLen 0
  let metadata ← load p.metadata p.metadataLen
  let payload ← load payload p.payloadLen
  .ok (.handle link metadata payload)

/-- The end byte of a frame whose checksum matches. -/
def frameComplete (env : Env) (link : LinkRef) (p : Parser) : Outcome (Parser × List Event) := do
  if env.registry.linkIsCurrent link then do
    let event ← handleFrame p link
    .ok (resetKeepLink p, [.frameOk, event])
  else .ok (resetKeepLink p, [.frameOk, .staleGenerationDrop])

/-- `ev_control_parser_feed_byte`. -/
def feedByte (env : Env) (p : Parser) (link : LinkRef) (byte : UInt8) (now : UInt32) :
    Outcome (Parser × List Event) :=
  if p.expired now then
    .ok (if byte = sofByte then parserBegin link now else resetKeepLink p, [.parserTimeout])
  else match p.state with
  | .sof => .ok (if byte = sofByte then parserBegin link now else p, [])
  | .header =>
    if byte = sofByte ∧ p.headerLen = 0 then .ok (parserBegin link now, [])
    else if headerMax ≤ p.headerLen + 1 then .ok (resetKeepLink p, [.frameBad])
    else do
      let header ← store p.header p.headerLen byte
      let header ← store header (p.headerLen + 1) 0
      let p := { p with header := header, headerLen := p.headerLen + 1, lastProgressMs := now }
      if byte = 0x0a then do
        let parsed ← parseHeader p
        match parsed with
        | some p => .ok (p, [])
        | none => .ok (resetKeepLink p, [.frameBad])
      else .ok (p, [])
  | .metadata =>
    if byte = 0 then .ok (resetKeepLink p, [.frameBad])
    else do
      let metadata ← store p.metadata p.metadataPos byte
      let p := { p with
        metadata := metadata, metadataPos := p.metadataPos + 1, lastProgressMs := now }
      if p.metadataLen ≤ p.metadataPos then metadataComplete env link p else .ok (p, [])
  | .payload => do
    let cells ← store (framePayload p) p.payloadPos byte
    let p := match p.filePayload with
      | some _ => { p with filePayload := some cells }
      | none => { p with payload := cells }
    let p := { p with payloadPos := p.payloadPos + 1, lastProgressMs := now }
    .ok (if p.payloadLen ≤ p.payloadPos then { p with state := .eof } else p, [])
  | .eof => do
    let payload ← load (framePayload p) p.payloadLen
    if byte = eofByte ∧ (p.expectedCrc = 0 ∨ crc32 payload = p.expectedCrc) then
      frameComplete env link p
    else if byte = sofByte then .ok (parserBegin link now, [.frameBad])
    else .ok (resetKeepLink p, [.frameBad])

/-! ## Reads -/

/-- The bytes of one read, each with its surroundings, and the surroundings and the clock at its
start; times are milliseconds that the device sees modulo `2 ^ 32`. -/
structure Read where
  now : ℕ
  registry : Registry
  bytes : List (UInt8 × Env)

def readMax : ℕ := 1024

/-- The loop over the bytes of a read. -/
def feedBytes (link : LinkRef) (now : UInt32) :
    Parser → List (UInt8 × Env) → Outcome (Parser × List Event)
  | p, [] => .ok (p, [])
  | p, (byte, env) :: bytes => do
    let (p, events) ← feedByte env p link byte now
    let (p, more) ← feedBytes link now p bytes
    .ok (p, events ++ more)

/-- The parser bound to the link of a read. -/
def bindLink (p : Parser) (link : LinkRef) : Parser :=
  if p.linkBound = false ∨ p.link ≠ link then { linkBound := true, link := link } else p

/-- `ev_control_parser_expire`. -/
def parserExpire (p : Parser) (now : UInt32) : Parser × List Event :=
  if p.expired now then (resetKeepLink p, [.parserTimeout]) else (p, [])

/-- `ev_control_transport_rx` on the parser of the link's slot. -/
def transportRx (p : Parser) (link : LinkRef) (r : Read) : Outcome (Parser × List Event) :=
  if tcpLinks ≤ link.slot ∨ readMax < r.bytes.length then .ok (p, [])
  else if !r.registry.linkIsCurrent link then .ok (p, [.staleGenerationDrop])
  else do
    let now := UInt32.ofNat r.now
    let (p, expiry) := parserExpire (bindLink p link) now
    let (p, events) ← feedBytes link now p r.bytes
    .ok (p, expiry ++ events)

/-- One read after the other. -/
def transportRun (link : LinkRef) : Parser → List Read → Outcome (Parser × List Event)
  | p, [] => .ok (p, [])
  | p, r :: reads => do
    let (p, events) ← transportRx p link r
    let (p, more) ← transportRun link p reads
    .ok (p, events ++ more)

end EspVision.EvControl
