import EspVision.HostFrame

/-!
# The host's stream parser (`EvMuxParser` of `evmux.js`)

Chunks are appended to a buffer; a loop cuts text, bad headers, dropped frames and good frames
off its front until what is left is the beginning of a frame. A timer watches that beginning.
`JSON.parse` of the metadata and the handlers are arguments: a handler may keep a state, which
only the calls for frames change. Text outside the frames goes to a text handler and is not
recorded here.
-/
namespace EspVision.Host

/-- `MAX_BUFFER`. -/
def maxBuffer : ℕ := 1048576
/-- `MAX_HEADER`. -/
def maxHeader : ℕ := 96

/-! ## Headers -/

/-- The result of `findHeaderEnd`: a position, `-1` or `-2`. -/
inductive HeaderEnd
  | found (position : ℕ)
  | missing
  | tooLong
  deriving DecidableEq

/-- The loop of `findHeaderEnd` from index `i` on; `previous` is the byte before. -/
def scanHeaderEnd (previous : UInt8) (i : ℕ) : List UInt8 → HeaderEnd
  | [] => .missing
  | b :: rest =>
    if previous = 0x0d ∧ b = 0x0a then .found (i + 1)
    else if maxHeader < i then .tooLong
    else scanHeaderEnd b (i + 1) rest

/-- `findHeaderEnd`. -/
def findHeaderEnd : List UInt8 → HeaderEnd
  | [] => .missing
  | b :: rest => scanHeaderEnd b 1 rest

/-- The mark that `TextDecoder` leaves out at the start of a text. -/
def byteOrderMark : List UInt8 := [0xef, 0xbb, 0xbf]

/-- What `metadataDecoder` decodes of a header: a byte that is not ASCII does not decode to an
ASCII character, so the pattern can be matched on bytes. -/
def decodedHeader (header : List UInt8) : List UInt8 :=
  if byteOrderMark.isPrefixOf header then header.drop 3 else header

/-- `\d+`. -/
def decimalDigits (s : List UInt8) : Option (ℕ × List UInt8) :=
  if Scanf.startsWithDigit 10 s then some (Scanf.digits 10 0 s) else none

/-- `[0-9A-Fa-f]{8}\r\n` up to the end. -/
def checksumLine (s : List UInt8) : Option ℕ :=
  if (s.take 8).length = 8 ∧ (s.take 8).all (fun b => (Scanf.digitValue 16 b).isSome) ∧
      s.drop 8 = lineEnd then some (Scanf.digits 16 0 (s.take 8)).1
  else none

/-- `HEADER_RE` and the numbers of its groups. -/
def headerFields (line : List UInt8) : Option (ℕ × ℕ × ℕ) := do
  let s ← Scanf.text headerStart line
  let (metadataLen, s) ← decimalDigits s
  let s ← Scanf.text headerPayload s
  let (payloadLen, s) ← decimalDigits s
  let s ← Scanf.text headerChecksum s
  let expectedCrc ← checksumLine s
  some (metadataLen, payloadLen, expectedCrc)

/-! ## One turn of the loop -/

/-- The limits that `setLimits` can change. -/
structure Limits where
  maxMetadataLength : ℕ := 65535
  maxPayloadLength : ℕ := maxBuffer
  frameProgressTimeoutMs : ℕ := 12000
  frameTotalTimeoutMs : ℕ := 12000
  deriving DecidableEq

/-- What the parser calls: `JSON.parse` with the test for an object, and the handlers. -/
structure Handlers (M σ : Type*) where
  parseMetadata : List UInt8 → Option M
  filterFrame : σ → M → List UInt8 → σ × Bool
  dispatch : σ → M → List UInt8 → σ × Bool

variable {M σ : Type*}

/-- A frame as the handlers get it, and the text of its metadata. -/
structure Delivery (M : Type*) where
  metadataText : List UInt8
  metadata : M
  payload : List UInt8
  deriving DecidableEq

/-- The buffer from its first `SOF` on. -/
def toSof (b : List UInt8) : List UInt8 := b.dropWhile (· != sof)

/-- What one turn of the loop makes of the buffer; the list is the buffer that it leaves. -/
inductive Turn (M : Type*)
  | noSof
  | incomplete (buffer : List UInt8)
  | badHeader (rest : List UInt8)
  | badLength (rest : List UInt8)
  | noGuard (rest : List UInt8)
  | badMetadata (rest : List UInt8)
  | badCrc (rest : List UInt8)
  | frame (delivery : Delivery M) (rest : List UInt8)

/-- The turn behind an accepted header. -/
def bodyTurn (parseMetadata : List UInt8 → Option M) (b : List UInt8)
    (headerEnd metadataLen payloadLen expectedCrc : ℕ) : Turn M :=
  let payloadStart := headerEnd + metadataLen
  let eofPos := payloadStart + payloadLen
  let frameEnd := eofPos + 1
  if b.length < frameEnd then .incomplete b
  else if b[eofPos]? ≠ some eofGuard then .noGuard (toSof b.tail)
  else
    let metadataText := (b.take payloadStart).drop headerEnd
    match parseMetadata metadataText with
    | none => .badMetadata (b.drop frameEnd)
    | some metadata =>
      let payload := (b.take eofPos).drop payloadStart
      if expectedCrc ≠ 0 ∧ crc32 payload ≠ expectedCrc then .badCrc (b.drop frameEnd)
      else .frame ⟨metadataText, metadata, payload⟩ (b.drop frameEnd)

/-- The turn on a buffer that starts with `SOF`. -/
def headTurn (parseMetadata : List UInt8 → Option M) (limits : Limits) (b : List UInt8) :
    Turn M :=
  match findHeaderEnd b with
  | .missing => .incomplete b
  | .tooLong => .badHeader b.tail
  | .found headerEnd =>
    match headerFields (decodedHeader ((b.take headerEnd).drop 1)) with
    | none => .badHeader b.tail
    | some (metadataLen, payloadLen, expectedCrc) =>
      if metadataLen = 0 ∨ limits.maxMetadataLength < metadataLen ∨
          limits.maxPayloadLength < payloadLen then .badLength b.tail
      else bodyTurn parseMetadata b headerEnd metadataLen payloadLen expectedCrc

/-- One turn of the loop of `feedBytes`. -/
def turn (parseMetadata : List UInt8 → Option M) (limits : Limits) (b : List UInt8) : Turn M :=
  if toSof b = [] then .noSof else headTurn parseMetadata limits (toSof b)

/-! ## The parser -/

/-- What the handlers have been given, and the counters. `offered` lists the frames handed to
`filterFrame`, `dispatched` those handed to `dispatch`. -/
structure Sink (M σ : Type*) where
  state : σ
  offered : List (Delivery M) := []
  dispatched : List (Delivery M) := []
  frames : ℕ := 0
  droppedFrames : ℕ := 0
  invalidImageFrames : ℕ := 0

structure PartialFrame where
  startedAt : ℤ
  lastProgressAt : ℤ
  deriving DecidableEq

/-- The fields of `EvMuxParser`; a pending timer is its delay. -/
structure Parser (M σ : Type*) where
  limits : Limits := {}
  buffer : List UInt8 := []
  sink : Sink M σ
  rxBytes : ℕ := 0
  rxChunks : ℕ := 0
  partialFrame : Option PartialFrame := none
  partialFrameTimer : Option ℤ := none
  incompleteFrameTimeouts : ℕ := 0

/-- `droppedFrames += 1`. -/
def Sink.drop (s : Sink M σ) : Sink M σ := { s with droppedFrames := s.droppedFrames + 1 }

/-- A good frame: the filter may reject it, and `dispatch` may find an invalid image in it. -/
def Sink.offer (h : Handlers M σ) (s : Sink M σ) (d : Delivery M) : Sink M σ :=
  let filtered := h.filterFrame s.state d.metadata d.payload
  let s := { s with state := filtered.1, offered := s.offered ++ [d] }
  if !filtered.2 then s.drop
  else
    let done := h.dispatch s.state d.metadata d.payload
    let s := { s with state := done.1, dispatched := s.dispatched ++ [d] }
    if done.2 then { s with frames := s.frames + 1 }
    else { s.drop with invalidImageFrames := s.invalidImageFrames + 1 }

/-- `_clearPartialFrame`. -/
def Parser.clearPartialFrame (p : Parser M σ) : Parser M σ :=
  { p with partialFrame := none, partialFrameTimer := none }

/-- The record of `_armPartialFrameTimeout`. -/
def armedFrame (partialFrame : Option PartialFrame) (progress : Bool) (now : ℤ) : PartialFrame :=
  match partialFrame with
  | none => ⟨now, now⟩
  | some f => if progress then { f with lastProgressAt := now } else f

/-- `_armPartialFrameTimeout`. -/
def Parser.armPartialFrameTimeout (p : Parser M σ) (progress : Bool) (now : ℤ) : Parser M σ :=
  let f := armedFrame p.partialFrame progress now
  { p with
    partialFrame := some f
    partialFrameTimer := some (max 1
      (min (p.limits.frameProgressTimeoutMs - (now - f.lastProgressAt))
        (p.limits.frameTotalTimeoutMs - (now - f.startedAt)))) }

/-- The callback of the timer; it reads the clock again when it arms itself anew. -/
def Parser.partialFrameTimeout (p : Parser M σ) (expiredAt rearmedAt : ℤ) : Parser M σ :=
  match p.partialFrame with
  | none => p
  | some f =>
    if expiredAt - f.lastProgressAt < p.limits.frameProgressTimeoutMs ∧
        expiredAt - f.startedAt < p.limits.frameTotalTimeoutMs then
      p.armPartialFrameTimeout false rearmedAt
    else
      { p.clearPartialFrame with
        incompleteFrameTimeouts := p.incompleteFrameTimeouts + 1
        buffer := []
        sink := p.sink.drop }

/-- The loop of `feedBytes`; each turn that goes on shortens the buffer. -/
def feedLoop (h : Handlers M σ) (now : ℤ) (hadPartial : Bool) : ℕ → Parser M σ → Parser M σ
  | 0, p => p
  | fuel + 1, p =>
    match turn h.parseMetadata p.limits p.buffer with
    | .noSof => { p with buffer := [] }
    | .incomplete b => { p with buffer := b }.armPartialFrameTimeout hadPartial now
    | .badHeader rest => feedLoop h now hadPartial fuel { p with buffer := rest }
    | .badLength rest =>
      feedLoop h now hadPartial fuel { p.clearPartialFrame with buffer := rest }
    | .noGuard rest =>
      feedLoop h now hadPartial fuel
        { p.clearPartialFrame with buffer := rest, sink := p.sink.drop }
    | .badMetadata rest =>
      feedLoop h now hadPartial fuel
        { p.clearPartialFrame with buffer := rest, sink := p.sink.drop }
    | .badCrc rest =>
      feedLoop h now hadPartial fuel
        { p.clearPartialFrame with buffer := rest, sink := p.sink.drop }
    | .frame d rest =>
      feedLoop h now hadPartial fuel
        { p.clearPartialFrame with buffer := rest, sink := p.sink.offer h d }

/-- The buffer is cut to its last half before it is looked at. -/
def trimmed (buffer : List UInt8) : List UInt8 :=
  if maxBuffer < buffer.length then buffer.drop (buffer.length - maxBuffer / 2) else buffer

/-- `feedBytes`. -/
def Parser.feedBytes (h : Handlers M σ) (p : Parser M σ) (now : ℤ) (bytes : List UInt8) :
    Parser M σ :=
  let buffer := trimmed (p.buffer ++ bytes)
  feedLoop h now p.partialFrame.isSome (buffer.length + 1)
    { p with
      rxBytes := p.rxBytes + bytes.length
      rxChunks := p.rxChunks + 1
      buffer := buffer }

/-- Chunks with their arrival times, one after the other. -/
def Parser.feedAll (h : Handlers M σ) (p : Parser M σ) (chunks : List (ℤ × List UInt8)) :
    Parser M σ :=
  chunks.foldl (fun p c => p.feedBytes h c.1 c.2) p

end EspVision.Host
