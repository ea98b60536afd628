import EspVision.Base64
import EspVision.FileSystem
import EspVision.TransitionSystem
import EspVision.UploadProtocol

/-!
# `script.write`

A request brings a chunk of a file. The handler keeps nothing between two requests but the
temporary file beside the target: a chunk at offset zero prepares it, any other chunk is
appended to it, and the chunk that ends at the total renames it.
-/
namespace EspVision.ScriptWrite

open EspVision.Base64 EspVision.FileSystem EspVision.TransitionSystem

abbrev Path := EvFileTransfer.Path

/-- `EV_CONTROL_PATH_TMP_SUFFIX`. -/
def tmpSuffix : Path := [0x2e, 0x74, 0x6d, 0x70]

/-- `EV_CONTROL_PATH_TMP_CAP`. -/
def tmpCap : ℕ := 128

/-- `tmp_path`. -/
def tmpPath (path : Path) : Path := path ++ tmpSuffix

inductive Mode
  | overwrite | create | unsupported
  deriving DecidableEq

inductive Encoding
  | utf8 | binary | unsupported
  deriving DecidableEq

/-- The fields of a request, as the extractors leave them. An offset or a total that is there
and is no number is read as zero. -/
structure Request where
  path : Option Path
  contentBase64 : Option (List UInt8)
  mode : Mode := .overwrite
  encoding : Encoding := .utf8
  offset : Option UInt32 := none
  totalBytes : Option UInt32 := none
  runAfterWrite : Bool := false

/-- The error responses. -/
inductive Fault
  | missingFields | pathTooLong | invalidPath | invalidMode | invalidEncoding
  | offsetWithoutTotal | offsetExceedsTotal | inspectFailed | fileExists | noMemory
  | invalidBase64 (e : DecodeError) | tmpPathTooLong | chunkExceedsTotal
  | prepareFailed | missingTmp | writeFailed | renameFailed
  deriving DecidableEq

def Fault.code : Fault → String
  | .missingFields | .offsetWithoutTotal | .offsetExceedsTotal | .chunkExceedsTotal =>
    "INVALID_ARGUMENT"
  | .pathTooLong | .tmpPathTooLong => "PATH_TOO_LONG"
  | .invalidPath => "INVALID_PATH"
  | .invalidMode => "INVALID_MODE"
  | .invalidEncoding => "INVALID_ENCODING"
  | .inspectFailed | .prepareFailed => "VFS_FAILED"
  | .fileExists => "FILE_EXISTS"
  | .noMemory => "NO_MEM"
  | .invalidBase64 _ => "INVALID_BASE64"
  | .missingTmp => "INVALID_STATE"
  | .writeFailed => "WRITE_FAILED"
  | .renameFailed => "RENAME_FAILED"

def Fault.message : Fault → String
  | .missingFields => "missing path or contentBase64"
  | .pathTooLong => "script path too long"
  | .invalidPath => "path is not allowed"
  | .invalidMode => "unsupported mode"
  | .invalidEncoding => "unsupported encoding"
  | .offsetWithoutTotal => "offset and totalBytes must be provided together"
  | .offsetExceedsTotal => "offset exceeds totalBytes"
  | .inspectFailed => "failed to inspect target path"
  | .fileExists => "target already exists"
  | .noMemory => "failed to allocate decode buffer"
  | .invalidBase64 e => e.name
  | .tmpPathTooLong => "temporary path too long"
  | .chunkExceedsTotal => "chunk exceeds totalBytes"
  | .prepareFailed => "failed to prepare temporary file"
  | .missingTmp => "missing temporary file for chunk"
  | .writeFailed => "failed to write temporary file"
  | .renameFailed => "failed to publish file"

/-! ## The calls to the file system

Each call takes what its surroundings answer. A call that raises may have had its effect. -/

/-- How `mp_vfs_import_stat` ends. It tells a failed inspection from a missing node only when
it raises. -/
inductive Look
  | told | missed | raised
  deriving DecidableEq

/-- `ev_control_vfs_remove_if_exists` inspects the path and then removes it; a removal that
raises has or has not removed it. -/
structure Removal where
  look : Look := .told
  raised : Option Bool := none
  deriving DecidableEq

/-- A rename that raises has done nothing, has removed what stood at the new path, or is done. -/
inductive RenameFault
  | untouched | targetLost | moved
  deriving DecidableEq

/-- What the surroundings answer to the calls of one request. A write that fails leaves any node
at its path. -/
structure Answers where
  examine : Look := .told
  malloc : Bool := true
  prepare : Removal := {}
  look : Look := .told
  write : Option (Option Node) := none
  rename : Option RenameFault := none
  cleanup : Removal := {}

section Calls

variable {α : Type*} [DecidableEq α]

/-- `ev_control_vfs_exists`; `none` is `ESP_FAIL`. -/
def vfsExists (fs : Files α) (p : α) : Look → Option Bool
  | .raised => none
  | .missed => some false
  | .told => some (fs p).isSome

/-- `ev_control_vfs_remove_if_exists`, with whether it returned `ESP_OK`. -/
def vfsRemoveIfExists (fs : Files α) (p : α) (a : Removal) : Files α × Bool :=
  match vfsExists fs p a.look with
  | none => (fs, false)
  | some false => (fs, true)
  | some true =>
    match a.raised with
    | none => (Function.update fs p none, true)
    | some gone => (if gone then Function.update fs p none else fs, false)

/-- What a file opened for writing begins with: in mode `wb` nothing, in mode `ab` what it holds. -/
def openedWith (fs : Files α) (p : α) (append : Bool) : Option (List UInt8) :=
  match fs p with
  | none => some []
  | some (.file old) => some (if append then old else [])
  | some .other => none

/-- `ev_control_vfs_write_file_mode`. -/
def vfsWriteFileMode (fs : Files α) (p : α) (data : List UInt8) (append : Bool)
    (failure : Option (Option Node)) : Files α × Bool :=
  match failure with
  | some left => (Function.update fs p left, false)
  | none =>
    match openedWith fs p append with
    | none => (fs, false)
    | some old => (Function.update fs p (some (.file (old ++ data))), true)

/-- The rename itself. -/
def moved (fs : Files α) (a b : α) : Files α :=
  match fs a with
  | none => fs
  | some node => Function.update (Function.update fs a none) b (some node)

/-- `ev_control_vfs_rename`. -/
def vfsRename (fs : Files α) (a b : α) (failure : Option RenameFault) : Files α × Bool :=
  match failure with
  | none => (moved fs a b, (fs a).isSome)
  | some .untouched => (fs, false)
  | some .targetLost => (Function.update fs b none, false)
  | some .moved => (moved fs a b, false)

end Calls

/-! ## The handler -/

/-- A chunk that has passed the checks on its request. -/
structure Chunk where
  path : Path
  bytes : List UInt8
  offset : ℕ
  total : ℕ
  deriving DecidableEq

/-- The bytes that a chunk is for. -/
def Chunk.covers (c : Chunk) (i : ℕ) : Prop := c.offset ≤ i ∧ i < c.offset + c.bytes.length

instance (c : Chunk) (i : ℕ) : Decidable (c.covers i) := by unfold Chunk.covers; infer_instance

/-- `complete`. -/
def Chunk.complete (c : Chunk) : Bool := c.offset + c.bytes.length == c.total

/-- The chunk of a request, whatever the checks say. -/
def Request.chunk (r : Request) : Option Chunk :=
  match r.path, r.contentBase64 with
  | some path, some content =>
    match base64Decode content (content.length * 3 / 4 + 4) with
    | .error _ => none
    | .ok bytes =>
      some ⟨path, bytes, (r.offset.getD 0).toNat,
        (r.totalBytes.map (·.toNat)).getD bytes.length⟩
  | _, _ => none

variable {α : Type*} [DecidableEq α] (locate : Path → α)

/-- The checks on the fields, before anything is looked up. -/
def checkFields (r : Request) (path : Path) : Option Fault :=
  if path.length > Upload.pathMax then some .pathTooLong
  else if !Upload.pathAllowed path then some .invalidPath
  else if r.mode == .unsupported then some .invalidMode
  else if r.encoding == .unsupported then some .invalidEncoding
  else if r.offset.isSome != r.totalBytes.isSome then some .offsetWithoutTotal
  else if r.totalBytes.isSome && (r.offset.getD 0 > r.totalBytes.getD 0) then
    some .offsetExceedsTotal
  else none

/-- The test of mode `create` on the target. -/
def checkTarget (fs : Files α) (r : Request) (path : Path) (a : Answers) : Option Fault :=
  if r.mode == .create then
    match vfsExists fs (locate path) a.examine with
    | none => some .inspectFailed
    | some true => some .fileExists
    | some false => none
  else none

/-- The decoded chunk, and its size against the total. -/
def checkContent (r : Request) (path : Path) (content : List UInt8) (a : Answers) :
    Except Fault Chunk :=
  if !a.malloc then .error .noMemory
  else
    match base64Decode content (content.length * 3 / 4 + 4) with
    | .error e => .error (.invalidBase64 e)
    | .ok bytes =>
      if (tmpPath path).length ≥ tmpCap then .error .tmpPathTooLong
      else
        match r.totalBytes with
        | none => .ok ⟨path, bytes, (r.offset.getD 0).toNat, bytes.length⟩
        | some total =>
          if (r.offset.getD 0).toNat + bytes.length > total.toNat then .error .chunkExceedsTotal
          else .ok ⟨path, bytes, (r.offset.getD 0).toNat, total.toNat⟩

/-- The handler up to its first effect. -/
def check (fs : Files α) (r : Request) (a : Answers) : Except Fault Chunk :=
  match r.path, r.contentBase64 with
  | some path, some content =>
    match checkFields r path with
    | some f => .error f
    | none =>
      match checkTarget locate fs r path a with
      | some f => .error f
      | none => checkContent r path content a
  | _, _ => .error .missingFields

/-- The temporary file takes the chunk. -/
def stage (fs : Files α) (tmp : α) (c : Chunk) (a : Answers) : Files α × Option Fault :=
  -- a request without a total has no offset either, so its chunk is at zero
  if c.offset == 0 then
    match vfsRemoveIfExists fs tmp a.prepare with
    | (fs, false) => (fs, some .prepareFailed)
    | (fs, true) => settle tmp (vfsWriteFileMode fs tmp c.bytes false a.write)
  else
    match vfsExists fs tmp a.look with
    | some true => settle tmp (vfsWriteFileMode fs tmp c.bytes true a.write)
    | _ => (fs, some .missingTmp)
where
  /-- A write that fails takes the temporary file away. -/
  settle (tmp : α) : Files α × Bool → Files α × Option Fault
    | (fs, true) => (fs, none)
    | (fs, false) => ((vfsRemoveIfExists fs tmp a.cleanup).1, some .writeFailed)

/-- A response. -/
inductive Reply
  | error (f : Fault)
  | written (c : Chunk) (runAfterWrite : Bool)
  deriving DecidableEq

/-- `ev_control_send_script_write`. -/
def scriptWrite (fs : Files α) (r : Request) (a : Answers) : Files α × Reply :=
  match check locate fs r a with
  | .error f => (fs, .error f)
  | .ok c =>
    let tmp := locate (tmpPath c.path)
    match stage fs tmp c a with
    | (fs, some f) => (fs, .error f)
    | (fs, none) =>
      if c.complete then
        match vfsRename fs tmp (locate c.path) a.rename with
        | (fs, false) => ((vfsRemoveIfExists fs tmp a.cleanup).1, .error .renameFailed)
        | (fs, true) => (fs, .written c r.runAfterWrite)
      else (fs, .written c r.runAfterWrite)

/-- One request, with what its surroundings answered and what it was answered. -/
structure Event where
  request : Request
  answers : Answers
  reply : Reply

/-- Any requests one after another, over any files. -/
def scriptWrites : System (Files α) Event where
  init _ := True
  step fs e fs' := scriptWrite locate fs e.request e.answers = (fs', e.reply)

end EspVision.ScriptWrite
