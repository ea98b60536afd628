import EspVision.Crc32
import EspVision.HostJson
import EspVision.Scanf

/-!
# The host's frame encoder (`evmux.js`)

A frame is a start byte, a header line with the two lengths and a checksum, the metadata as
JSON, the payload and an end byte.
-/
namespace EspVision.Host
open Json

/-- `payload`: a byte array, or a text that is encoded. -/
inductive Payload
  | bytes (b : List UInt8)
  | text (units : List UInt16)
  deriving DecidableEq

/-- The argument of `makeEvMuxFrame`; a property that is not given is `undefined`. -/
structure FrameOptions where
  channel : Value
  type : Value := .undefined
  method : Value := .undefined
  payload : Payload := .text []
  seq : Value := .undefined
  sid : Value := .undefined
  sessionId : Value := .undefined
  vmEpoch : Value := .undefined
  contentType : Value := .undefined
  width : Value := .undefined
  height : Value := .undefined
  route : Value := .undefined
  encoding : Value := .undefined

/-! ## Texts -/

/-- The code units of an ASCII text. -/
def ascii (t : List UInt8) : List UInt16 := t.map UInt8.toUInt16

def sidName : List UInt8 := [0x73, 0x69, 0x64]
def seqName : List UInt8 := [0x73, 0x65, 0x71]
def channelName : List UInt8 := [0x63, 0x68, 0x61, 0x6e, 0x6e, 0x65, 0x6c]
def typeName : List UInt8 := [0x74, 0x79, 0x70, 0x65]
def encodingName : List UInt8 := [0x65, 0x6e, 0x63, 0x6f, 0x64, 0x69, 0x6e, 0x67]
/-- `sessionId`. -/
def sessionIdName : List UInt8 := [0x73, 0x65, 0x73, 0x73, 0x69, 0x6f, 0x6e, 0x49, 0x64]
/-- `vmEpoch`. -/
def vmEpochName : List UInt8 := [0x76, 0x6d, 0x45, 0x70, 0x6f, 0x63, 0x68]
/-- `contentType`. -/
def contentTypeName : List UInt8 :=
  [0x63, 0x6f, 0x6e, 0x74, 0x65, 0x6e, 0x74, 0x54, 0x79, 0x70, 0x65]
def widthName : List UInt8 := [0x77, 0x69, 0x64, 0x74, 0x68]
def heightName : List UInt8 := [0x68, 0x65, 0x69, 0x67, 0x68, 0x74]
def routeName : List UInt8 := [0x72, 0x6f, 0x75, 0x74, 0x65]
def methodName : List UInt8 := [0x6d, 0x65, 0x74, 0x68, 0x6f, 0x64]

/-- `data`, the default type. -/
def dataName : List UInt8 := [0x64, 0x61, 0x74, 0x61]
/-- `web-ide`, the default sid. -/
def webIdeName : List UInt8 := [0x77, 0x65, 0x62, 0x2d, 0x69, 0x64, 0x65]
/-- `.rpc`. -/
def rpcSuffix : List UInt8 := [0x2e, 0x72, 0x70, 0x63]
/-- `json`. -/
def jsonName : List UInt8 := [0x6a, 0x73, 0x6f, 0x6e]
/-- `text`. -/
def textName : List UInt8 := [0x74, 0x65, 0x78, 0x74]
/-- `binary`. -/
def binaryName : List UInt8 := [0x62, 0x69, 0x6e, 0x61, 0x72, 0x79]
/-- The number zero, the default sequence number. -/
def zero : Number := .finite ⟨[0x30], [], [0x30], [], [], rfl, .inl rfl, .inl rfl, .inl rfl, .inl rfl⟩

/-! ## The frame -/

/-- `encoding ?? (channel.endsWith('.rpc') ? 'json' : 'text')`; `none` is the `TypeError` of a
channel that is not a string. -/
def FrameOptions.encodingValue (o : FrameOptions) : Option Value :=
  match o.encoding with
  | .undefined | .null =>
    match o.channel with
    | .string units =>
      some (.string (ascii (if (ascii rpcSuffix).isSuffixOf units then jsonName else textName)))
    | _ => none
  | v => some v

/-- A property that is there under a condition. -/
def property (present : Bool) (name : List UInt8) (v : Value) : List (List UInt16 × Value) :=
  if present then [(ascii name, v)] else []

/-- `vmEpoch !== undefined`. -/
def Value.isDefined : Value → Bool
  | .undefined => false
  | _ => true

/-- `metadata`. -/
def FrameOptions.metadata (o : FrameOptions) : Option (List (List UInt16 × Value)) :=
  o.encodingValue.map fun encoding =>
    [(ascii sidName, Value.orDefault (.string (ascii webIdeName)) o.sid),
      (ascii seqName, Value.orDefault (.number zero) o.seq), (ascii channelName, o.channel),
      (ascii typeName, Value.orDefault (.string (ascii dataName)) o.type),
      (ascii encodingName, encoding)] ++
    property o.sessionId.truthy sessionIdName o.sessionId ++
    property o.vmEpoch.isDefined vmEpochName o.vmEpoch ++
    property o.contentType.truthy contentTypeName o.contentType ++
    property o.width.isFinite widthName o.width ++
    property o.height.isFinite heightName o.height ++
    property o.route.truthy routeName o.route ++
    property o.method.truthy methodName o.method

/-- `metadataBytes`. -/
def FrameOptions.metadataBytes (o : FrameOptions) : Option (List UInt8) :=
  o.metadata.bind fun members => jsonText (.object members)

/-- `payloadBytes`. -/
def FrameOptions.payloadBytes (o : FrameOptions) : List UInt8 :=
  match o.payload with
  | .bytes b => b
  | .text units => encodeText units

/-- `encoding === 'binary'`. -/
def FrameOptions.isBinary (o : FrameOptions) : Bool :=
  match o.encoding with
  | .string units => units = ascii binaryName
  | _ => false

/-- `crc32`, over the table. -/
def crc32 (bytes : List UInt8) : ℕ := (Crc32.checksum Crc32.tableUpdate bytes).toNat

/-- The checksum that the header carries; zero when there is none. -/
def FrameOptions.checksum (o : FrameOptions) : ℕ :=
  if o.isBinary then crc32 o.payloadBytes else 0

/-- `EVMUX/1 h=`. -/
def headerStart : List UInt8 := [0x45, 0x56, 0x4d, 0x55, 0x58, 0x2f, 0x31, 0x20, 0x68, 0x3d]
/-- ` p=`. -/
def headerPayload : List UInt8 := [0x20, 0x70, 0x3d]
/-- ` c=`. -/
def headerChecksum : List UInt8 := [0x20, 0x63, 0x3d]
def lineEnd : List UInt8 := [0x0d, 0x0a]

/-- The header line behind the start byte. -/
def headerLine (metadataLength payloadLength checksum : ℕ) : List UInt8 :=
  headerStart ++ (Scanf.numeral 10 metadataLength ++ (headerPayload ++
    (Scanf.numeral 10 payloadLength ++ (headerChecksum ++
      (Scanf.padStart 8 (Scanf.numeral 16 checksum) ++ lineEnd)))))

/-- `SOF`. -/
def sof : UInt8 := 0x1e
/-- `EOF_GUARD`. -/
def eofGuard : UInt8 := 0x1f

/-- The bytes of a frame. -/
def frameBytes (metadata payload : List UInt8) (checksum : ℕ) : List UInt8 :=
  sof :: (headerLine metadata.length payload.length checksum ++
    (metadata ++ (payload ++ [eofGuard])))

/-- `makeEvMuxFrame`. -/
def makeEvMuxFrame (o : FrameOptions) : Option (List UInt8) :=
  o.metadataBytes.map fun metadata => frameBytes metadata o.payloadBytes o.checksum

/-! ## What a frame consists of -/

lemma metadataBytes_noNul {o : FrameOptions} {m : List UInt8} (h : o.metadataBytes = some m) :
    NoNul m := by
  obtain ⟨members, -, hm⟩ := Option.bind_eq_some_iff.mp h
  exact jsonText_noNul _ m hm

lemma metadataBytes_ne_nil {o : FrameOptions} {m : List UInt8} (h : o.metadataBytes = some m) :
    m ≠ [] := by
  obtain ⟨members, -, hm⟩ := Option.bind_eq_some_iff.mp h
  rw [jsonText, Option.some.injEq] at hm
  subst hm
  exact List.cons_ne_nil _ _

lemma checksum_lt (o : FrameOptions) : o.checksum < 2 ^ 32 := by
  unfold FrameOptions.checksum crc32
  split_ifs
  · exact BitVec.isLt _
  · decide

lemma headerLine_length {m p c : ℕ} (hm : m < 10 ^ 3) (hp : p < 10 ^ 5) (hc : c < 16 ^ 8) :
    (headerLine m p c).length ≤ 34 := by
  have h1 := Scanf.numeral_length 10 (by decide) (by decide) hm
  have h2 := Scanf.numeral_length 10 (by decide) (by decide) hp
  have h3 := Scanf.padStart_length (Scanf.numeral_length 16 (by decide) (by decide) hc)
  simp only [headerLine, headerStart, headerPayload, headerChecksum, lineEnd, List.length_append,
    List.length_cons, List.length_nil, h3]
  omega

end EspVision.Host
