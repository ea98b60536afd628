import EspVision.FileSystem
import EspVision.SessionManager
import EspVision.TransitionSystem

/-!
# Binary uploads (`ev_file_transfer`)

One transfer at a time stages its chunks in a file of its own and publishes it by renaming. Each
call runs under the lock. The answers of the session manager, of the file system, of the hash
and of the writer gate are arguments, in the order in which a call asks for them. `sha256` is the
hash function; a hash operation is the list of the bytes that it has taken.
-/
namespace EspVision.EvFileTransfer

open EvTransport EvSession FileSystem

/-- A C string: its bytes before the NUL. -/
abbrev Path := List UInt8

/-- What a call returns instead of `NULL`; each name is that of the text. -/
inductive Fault
  | transferUnavailable | sessionLost | transferBusy | invalidArgument | invalidPath
  | storageUnavailable | storageReadOnly | fileExists | fileStatFailed | fileOpenFailed
  | hashFailed | invalidTransfer | invalidOffsetOrSize | fileWriteFailed | fileCloseFailed
  | fileIncomplete | hashMismatch | fileSyncFailed | fileRenameFailed | fileRollbackFailed
  | storageQuarantined
  deriving DecidableEq

/-- `esp_vision_storage_volume_t`. -/
inductive Volume
  | flash | sd
  deriving DecidableEq

/-- `FILE_PATH_CAP`. -/
def pathCap : ℕ := 256
/-- `FILE_IDLE_MS`. -/
def idleMs : UInt32 := 30000
/-- `EV_FILE_CHUNK_BYTES`. -/
def chunkBytes : ℕ := 16384
/-- `EV_FILE_PREFIX_BYTES`. -/
def prefixBytes : ℕ := 20
/-- `EV_FILE_PAYLOAD_MAX`. -/
def payloadMax : ℕ := chunkBytes + prefixBytes

/-- `"/flash"`: `ESP_VISION_STORAGE_FLASH_PATH`. -/
def flashPath : Path := [0x2f, 0x66, 0x6c, 0x61, 0x73, 0x68]
/-- `"/flash"`: `ESP_VISION_STORAGE_FLASH_ALIAS`. -/
def flashAlias : Path := [0x2f, 0x66, 0x6c, 0x61, 0x73, 0x68]
/-- `"/sdcard"`: `ESP_VISION_STORAGE_SDCARD_PATH`. -/
def sdcardPath : Path := [0x2f, 0x73, 0x64, 0x63, 0x61, 0x72, 0x64]
/-- `".evupload-"`. -/
def uploadInfix : Path := [0x2e, 0x65, 0x76, 0x75, 0x70, 0x6c, 0x6f, 0x61, 0x64, 0x2d]
/-- `".tmp"`. -/
def tmpSuffix : Path := [0x2e, 0x74, 0x6d, 0x70]
/-- `".old"`. -/
def oldSuffix : Path := [0x2e, 0x6f, 0x6c, 0x64]

/-! ## Owners and arguments -/

/-- The all-zero record. -/
def noSnapshot : Snapshot :=
  ⟨.free, false, {}, [], [], 0, 0, 0, 0, false, false, .usj, .usj, 0, 0⟩

/-- `same_owner`. -/
def sameOwner (a b : Snapshot) : Bool :=
  a.hasOwner && b.hasOwner && b.vmReady && b.handshakeComplete &&
    a.ownerLink == b.ownerLink && a.vmEpoch == b.vmEpoch &&
    a.inputGeneration == b.inputGeneration && a.transitionId == b.transitionId &&
    a.sessionId == b.sessionId

/-- `current_owner`; `none` when the session manager gives no snapshot. -/
def currentOwner (owner : Snapshot) (current : Option Snapshot) : Bool :=
  current.any (sameOwner owner)

/-- One digit of `unhex`. -/
def hexValue (c : UInt8) : Option UInt8 :=
  if 0x30 ≤ c ∧ c ≤ 0x39 then some (c - 0x30)
  else if 0x61 ≤ c ∧ c ≤ 0x66 then some (c - 0x61 + 10)
  else none

/-- The loop of `unhex`. -/
def unhexPairs : List UInt8 → Option (List UInt8)
  | [] => some []
  | [_] => none
  | c :: d :: rest => do
    let high ← hexValue c
    let low ← hexValue d
    return (high * 16 + low) :: (← unhexPairs rest)

/-- `unhex`; `none` when the text does not have `length` pairs of lower-case digits. -/
def unhex (text : Option Path) (length : ℕ) : Option (List UInt8) :=
  match text with
  | none => none
  | some t => if t.length = length * 2 then unhexPairs t else none

/-- The bytes that no path may have. -/
def unsafeByte (c : UInt8) : Bool := c < 0x20 || c == 0x7f || c == 0x5c || c == 0x22

/-- The tests of `begin` on the path. -/
def pathUsable (path : Path) : Bool :=
  !path.any unsafeByte && path.head? == some 0x2f && path.length ≤ 123 && path.length ≠ 1 &&
    path.getLast? != some 0x2f && !decide ([0x2e, 0x2e] <:+: path) &&
    !decide ([0x2f, 0x2f] <:+: path) && path != sdcardPath && path != flashAlias

/-- The volume that a path is on. -/
def volumeOf (path : Path) : Volume :=
  if (sdcardPath ++ [0x2f]).isPrefixOf path then .sd else .flash

/-- The path below the mount point of the internal volume. -/
def relativePath (path : Path) : Path :=
  if volumeOf path = .flash ∧ (flashAlias ++ [0x2f]).isPrefixOf path = true then
    path.drop flashAlias.length
  else path

/-- The text that `snprintf` would write for the target. -/
def targetOf (path : Path) : Path :=
  (if volumeOf path = .flash then flashPath else []) ++ relativePath path

/-- The text that `snprintf` would write for the staging file. -/
def temporaryOf (target uploadId : Path) : Path := target ++ uploadInfix ++ uploadId ++ tmpSuffix

/-- What `snprintf` leaves in a buffer, and whether all of it fits. -/
def printed (text : Path) : Path × Bool := (text.take (pathCap - 1), text.length < pathCap)

/-! ## The state -/

/-- `file_transfer_t`; the descriptor is that of the staging file. -/
structure Transfer where
  active : Bool := false
  poisoned : Bool := false
  overwrite : Bool := false
  fd : Bool := false
  volume : Volume := .flash
  owner : Snapshot := noSnapshot
  id : List UInt8 := List.replicate 16 0
  expectedHash : List UInt8 := List.replicate 32 0
  total : UInt32 := 0
  received : UInt32 := 0
  lastMs : UInt32 := 0
  target : Path := []
  temporary : Path := []
  hash : List UInt8 := []

/-- The lock, the transfer, the files, and the admissions begun and not finished. -/
structure State where
  lock : Bool := false
  file : Transfer := {}
  fs : Files Path
  admissions : Volume → ℤ := fun _ => 0

/-- The answers for `discard`. -/
structure DiscardAnswers where
  close : Bool := true
  unlink : Bool := true
  vfsFinish : Bool := true
  deriving DecidableEq

/-- `discard`. -/
def discard (s : State) (a : DiscardAnswers) : State × Option Fault :=
  if s.file.poisoned then (s, some .fileCloseFailed)
  else if s.file.fd && !a.close then
    ({ s with file := { s.file with fd := false, poisoned := true } }, some .fileCloseFailed)
  else
    ({ s with
        fs := if s.file.temporary = [] then s.fs else unlink s.fs s.file.temporary a.unlink
        admissions := if s.file.active then
            Function.update s.admissions s.file.volume (s.admissions s.file.volume - 1)
          else s.admissions
        file := {} },
      if !s.file.active || a.vfsFinish then none else some .storageQuarantined)

/-! ## The calls -/

/-- The arguments of `ev_file_transfer_begin`. -/
structure BeginRequest where
  owner : Snapshot
  path : Option Path
  overwrite : Bool
  total : UInt32
  sha256 : Option Path
  uploadId : Path

structure BeginAnswers where
  current : Option Snapshot
  mounted : Bool := true
  vfsBegin : Bool := true
  nowMs : UInt32 := 0
  stat : Option ℤ := none
  openOk : Bool := true
  hashSetup : Bool := true
  discard : DiscardAnswers := {}

/-- From the inspection of the target on. -/
def stage (s : State) (r : BeginRequest) (token : List UInt8) (a : BeginAnswers) :
    State × Option Fault :=
  match stat s.fs s.file.target a.stat with
  | .ok node =>
    if !r.overwrite || !node.isFile then (s, some .fileExists) else create s
  | .error .noEntry => create s
  | .error _ => (s, some .fileStatFailed)
where
  /-- The staging file is new, or it is not this transfer's. -/
  create (s : State) : State × Option Fault :=
    let name := printed (temporaryOf s.file.target r.uploadId)
    let s := { s with file := { s.file with id := token, temporary := name.1 } }
    if !name.2 then (s, some .invalidPath)
    else
      match openNew s.fs s.file.temporary a.openOk with
      | none => ({ s with file := { s.file with temporary := [] } }, some .fileOpenFailed)
      | some fs =>
        let s := { s with fs := fs, file := { s.file with fd := true } }
        if a.hashSetup then (s, none) else (s, some .hashFailed)

/-- The transfer that the writer gate has admitted. -/
def admitted (s : State) (r : BeginRequest) (path : Path) (digest : List UInt8) (nowMs : UInt32) :
    State :=
  { s with
    admissions := Function.update s.admissions (volumeOf path) (s.admissions (volumeOf path) + 1)
    file := {
      active := true
      volume := volumeOf path
      owner := r.owner
      overwrite := r.overwrite
      total := r.total
      lastMs := nowMs
      expectedHash := digest
      target := (printed (targetOf path)).1 } }

/-- `ev_file_transfer_begin`. -/
def begin (s : State) (r : BeginRequest) (a : BeginAnswers) : State × Option Fault :=
  if !s.lock then (s, some .transferUnavailable)
  else if !currentOwner r.owner a.current then (s, some .sessionLost)
  else if s.file.active then (s, some .transferBusy)
  else
    match r.path.filter pathUsable, unhex r.sha256 32, unhex (some r.uploadId) 16 with
    | some path, some digest, some token =>
      let target := printed (targetOf path)
      let cleared := { s with file := { volume := volumeOf path, target := target.1 } }
      if !target.2 then (cleared, some .invalidPath)
      else if !a.mounted then (cleared, some .storageUnavailable)
      else if !a.vfsBegin then (cleared, some .storageReadOnly)
      else
        match stage (admitted s r path digest a.nowMs) r token a with
        | (staged, none) => (staged, none)
        | (staged, some fault) => ((discard staged a.discard).1, some fault)
    | _, _, _ => (s, some .invalidArgument)

/-- What one `write` to the descriptor gives. -/
inductive WriteResult
  | interrupted | failed
  | count (n : ℕ)
  deriving DecidableEq

/-- The loop of `write`. It ends with the last result that it asks for, so results that run out
stand for a failure. -/
def writeLoop (fs : Files Path) (p : Path) : List WriteResult → List UInt8 → Files Path × Bool
  | _, [] => (fs, true)
  | .interrupted :: results, data => writeLoop fs p results data
  | .count (n + 1) :: results, data =>
    writeLoop (append fs p (data.take (n + 1))) p results (data.drop (n + 1))
  | _, _ => (fs, false)

structure WriteAnswers where
  current : Option Snapshot
  results : List WriteResult
  hashUpdate : Bool := true
  currentAfter : Option Snapshot
  nowMs : UInt32 := 0
  discard : DiscardAnswers := {}

/-- The offset in front of the data; zero when there is none. -/
def offsetOf (payload : List UInt8) : UInt32 :=
  if prefixBytes ≤ payload.length then
    (List.range 4).foldl (fun o i => o ||| ((payload.getD (16 + i) 0).toUInt32 <<< (8 * i).toUInt32))
      0
  else 0

/-- `ev_file_transfer_write`, with the value left in `received`. -/
def write (s : State) (owner : Snapshot) (payload : List UInt8) (a : WriteAnswers) :
    State × Option Fault × Option UInt32 :=
  if !s.lock then (s, some .transferUnavailable, none)
  else if !s.file.active || !sameOwner s.file.owner owner || !currentOwner owner a.current ||
      payload.length ≤ prefixBytes || payloadMax < payload.length ||
      payload.take 16 != s.file.id then
    (s, some .invalidTransfer, none)
  else if s.file.poisoned then (s, some .fileCloseFailed, none)
  else
    let data := payload.drop prefixBytes
    let left := s.file.total - s.file.received
    if offsetOf payload ≠ s.file.received ∨ left.toNat < data.length ∨
        (data.length % 4096 ≠ 0 ∧ data.length ≠ left.toNat) then
      (s, some .invalidOffsetOrSize, none)
    else
      let done := writeLoop s.fs s.file.temporary a.results data
      let written := { s with fs := done.1 }
      let hashed := { written with file := { s.file with hash := s.file.hash ++ data } }
      if !done.2 then ((discard written a.discard).1, some .fileWriteFailed, none)
      else if !a.hashUpdate then ((discard written a.discard).1, some .hashFailed, none)
      else if !currentOwner owner a.currentAfter then
        ((discard hashed a.discard).1, some .sessionLost, none)
      else
        let received := s.file.received + data.length.toUInt32
        ({ hashed with file := { hashed.file with received := received, lastMs := a.nowMs } },
          none, some received)

structure PublishAnswers where
  stat : Option ℤ := none
  rename : Option Errno := none
  statBackup : Option ℤ := none
  renameBackup : Option Errno := none
  renameAgain : Option Errno := none
  rollback : Option Errno := none
  unlinkBackup : Bool := true

/-- The end of `publish`, where the target cannot be replaced in one rename. -/
def publishOver (s : State) (a : PublishAnswers) : State × Option Fault :=
  let backup := printed (s.file.temporary ++ oldSuffix)
  if !backup.2 then (s, some .fileRenameFailed)
  else
    match stat s.fs backup.1 a.statBackup with
    | .error .noEntry =>
      match rename s.fs s.file.target backup.1 a.renameBackup with
      | .error _ => (s, some .fileRenameFailed)
      | .ok kept =>
        match rename kept s.file.temporary s.file.target a.renameAgain with
        | .error _ =>
          match rename kept backup.1 s.file.target a.rollback with
          | .ok restored => ({ s with fs := restored }, some .fileRenameFailed)
          | .error _ => ({ s with fs := kept }, some .fileRollbackFailed)
        | .ok fs =>
          ({ s with fs := unlink fs backup.1 a.unlinkBackup, file := { s.file with temporary := [] } },
            none)
    | _ => (s, some .fileRenameFailed)

/-- `publish`. -/
def publish (s : State) (a : PublishAnswers) : State × Option Fault :=
  match stat s.fs s.file.target a.stat with
  | .error .noEntry =>
    match rename s.fs s.file.temporary s.file.target a.rename with
    | .ok fs => ({ s with fs := fs, file := { s.file with temporary := [] } }, none)
    | .error _ => (s, some .fileRenameFailed)
  | .error _ => (s, some .fileStatFailed)
  | .ok node =>
    if !s.file.overwrite || !node.isFile then (s, some .fileExists)
    else
      match rename s.fs s.file.temporary s.file.target a.rename with
      | .ok fs => ({ s with fs := fs, file := { s.file with temporary := [] } }, none)
      | .error .exists => publishOver s a
      | .error _ => (s, some .fileRenameFailed)

structure EndAnswers where
  current : Option Snapshot
  hashFinish : Bool := true
  fsync : Bool := true
  currentAfter : Option Snapshot
  close : Bool := true
  publish : PublishAnswers := {}
  discard : DiscardAnswers := {}

section Calls

variable (sha256 : List UInt8 → List UInt8)

/-- A commit of all bytes, up to the clean-up; with the value left in `received`. -/
def commit (s : State) (owner : Snapshot) (a : EndAnswers) : State × Option Fault × Option UInt32 :=
  let hash := sha256 s.file.hash
  if !a.hashFinish || hash.length ≠ 32 || hash ≠ s.file.expectedHash then
    (s, some .hashMismatch, none)
  else if !a.fsync then (s, some .fileSyncFailed, none)
  else if !currentOwner owner a.currentAfter then (s, some .sessionLost, none)
  else if !a.close then
    ({ s with file := { s.file with fd := false, poisoned := true } }, some .fileCloseFailed, none)
  else
    let published := publish { s with file := { s.file with fd := false } } a.publish
    (published.1, published.2, some s.file.received)

/-- `ev_file_transfer_end`, with the value left in `received`. -/
def finish (s : State) (owner : Snapshot) (uploadId : Option Path) (isCommit : Bool)
    (a : EndAnswers) : State × Option Fault × Option UInt32 :=
  if !s.lock then (s, some .transferUnavailable, none)
  else if !s.file.active || !sameOwner s.file.owner owner || !currentOwner owner a.current ||
      unhex uploadId 16 != some s.file.id then
    (s, some .invalidTransfer, none)
  else if s.file.poisoned then (s, some .fileCloseFailed, none)
  else if !isCommit then
    let done := discard s a.discard
    (done.1, done.2, some 0)
  else if s.file.received ≠ s.file.total then (s, some .fileIncomplete, none)
  else
    let committed := commit sha256 s owner a
    let cleaned := discard committed.1 a.discard
    (cleaned.1, committed.2.1.orElse fun _ => cleaned.2, committed.2.2)

structure PollAnswers where
  /-- The lock is free. -/
  taken : Bool := true
  current : Option Snapshot
  nowMs : UInt32
  discard : DiscardAnswers := {}
  deriving DecidableEq

/-- `ev_file_transfer_poll`. -/
def poll (s : State) (a : PollAnswers) : State :=
  if !s.lock || !a.taken then s
  else if s.file.active && (!currentOwner s.file.owner a.current ||
      idleMs ≤ a.nowMs - s.file.lastMs) then
    (discard s a.discard).1
  else s

/-! ## Runs -/

/-- One call with its answers. -/
inductive Call
  | init (created : Bool)
  | begin (r : BeginRequest) (a : BeginAnswers)
  | write (owner : Snapshot) (payload : List UInt8) (a : WriteAnswers)
  | finish (owner : Snapshot) (uploadId : Option Path) (commit : Bool) (a : EndAnswers)
  | poll (a : PollAnswers)

/-- The state after a call, and what the call returns. -/
def Call.apply (s : State) : Call → State × Option Fault
  | .init created => ({ s with lock := s.lock || created }, none)
  | .begin r a => EvFileTransfer.begin s r a
  | .write owner payload a =>
    ((EvFileTransfer.write s owner payload a).1, (EvFileTransfer.write s owner payload a).2.1)
  | .finish owner uploadId commit a =>
    ((EvFileTransfer.finish sha256 s owner uploadId commit a).1,
      (EvFileTransfer.finish sha256 s owner uploadId commit a).2.1)
  | .poll a => (EvFileTransfer.poll s a, none)

/-- A call and what it has returned. -/
structure Event where
  call : Call
  fault : Option Fault

/-- Calls in any order, from a device that has just started, with any files. -/
def transfers : TransitionSystem.System State Event where
  init s := s.lock = false ∧ s.file = {} ∧ s.admissions = fun _ => 0
  step s e s' := (s', e.fault) = e.call.apply sha256 s

end Calls

end EspVision.EvFileTransfer
