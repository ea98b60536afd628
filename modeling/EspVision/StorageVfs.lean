import EspVision.BoundedText
import EspVision.Dialogue
import EspVision.FileTransfer

/-!
# The file systems of MicroPython (`storage_vfs.c`)

A mount resolves every path against its current directory into a buffer and hands the full path
to the system. Files and iterators over directories are objects with a descriptor, and for each
volume the open ones are counted. The system, the writer gate and what an array holds before it is
written are given from outside. C strings are their bytes before the NUL; buffers have all their
bytes.
-/
namespace EspVision.StorageVfs
open Dialogue
open BoundedText (overlay)
open FileSystem (Errno)
open EvFileTransfer (Volume flashPath sdcardPath)

abbrev Bytes := List UInt8

/-- `MICROPY_ALLOC_PATH_MAX`. -/
def allocPathMax : ℕ := 128
/-- `ESP_VISION_STORAGE_FULL_PATH_MAX`. -/
def fullPathMax : ℕ := allocPathMax + (sdcardPath.length + 1)
/-- `'/'`. -/
def slash : UInt8 := 0x2f
/-- `'.'`. -/
def dot : UInt8 := 0x2e

def eperm : Errno := .other 1
def eintr : Errno := .other 4
def eio : Errno := .other 5
def enotdir : Errno := .other 20
def einval : Errno := .other 22
def erofs : Errno := .other 30
def enametoolong : Errno := .other 91

/-- An exception. -/
inductive Raised
  | osError (e : Errno)
  | memoryError
  /-- Whatever is raised while pending events are handled. -/
  | pending
  deriving DecidableEq

/-! ## Paths -/

/-- The C string in a buffer. -/
def cstr (cells : Bytes) : Bytes := cells.takeWhile (· ≠ 0)

/-- `esp_vision_storage_raise_path_error`. -/
def pathError (required capacity : ℕ) : Raised :=
  .osError (if capacity ≤ required then enametoolong else einval)

/-- `output` and `output_len`. -/
structure Output where
  cells : Bytes
  len : ℕ
  deriving DecidableEq

/-- `while (output_len > 1 && output[output_len - 1] != '/') output_len--`. -/
def backUp (cells : Bytes) : ℕ → ℕ
  | 0 => 0
  | n + 1 => if 1 < n + 1 ∧ cells.getD n 0 ≠ slash then backUp cells n else n + 1

/-- The branch for `..`. -/
def leave (o : Output) : Output :=
  let len := backUp o.cells o.len
  { o with len := if 1 < len then len - 1 else len }

/-- The branch for a name. -/
def enter (outputSize : ℕ) (component : Bytes) (o : Output) : Except Raised Output :=
  let separatorLen := if 1 < o.len then 1 else 0
  let required := o.len + separatorLen + component.length + 1
  if outputSize < required then .error (pathError required outputSize)
  else
    let o := if separatorLen ≠ 0 then ⟨overlay o.cells o.len [slash], o.len + 1⟩ else o
    .ok ⟨overlay o.cells o.len component, o.len + component.length⟩

/-- What the loop does with a component. -/
def place (outputSize : ℕ) (component : Bytes) (o : Output) : Except Raised Output :=
  if component = [] ∨ component = [dot] then .ok o
  else if component = [dot, dot] then .ok (leave o)
  else enter outputSize component o

/-- The loop over the path; as many turns as the path has bytes are enough. -/
def normalizeLoop (outputSize : ℕ) : ℕ → Bytes → Output → Except Raised Output
  | 0, _, o => .ok o
  | turns + 1, rest, o =>
    if rest = [] then .ok o
    else
      let behind := rest.dropWhile (· = slash)
      match place outputSize (behind.takeWhile (· ≠ slash)) o with
      | .error e => .error e
      | .ok o => normalizeLoop outputSize turns (behind.dropWhile (· ≠ slash)) o

/-- `esp_vision_storage_normalize_path`. -/
def normalizePath (cwd path output : Bytes) (outputSize : ℕ) : Except Raised Bytes :=
  if 0 ∈ path then .error (pathError 0 outputSize)
  else if path.head? = some slash then
    match normalizeLoop outputSize path.length (path.drop 1) ⟨overlay output 0 [slash], 1⟩ with
    | .error e => .error e
    | .ok o => .ok (overlay o.cells o.len [0])
  else if outputSize ≤ cwd.length then .error (pathError cwd.length outputSize)
  else
    match normalizeLoop outputSize path.length path ⟨overlay output 0 cwd, cwd.length⟩ with
    | .error e => .error e
    | .ok o => .ok (overlay o.cells o.len [0])

/-- `esp_vision_storage_vfs_obj_t`. -/
structure Vfs where
  basePath : Bytes
  cwd : Bytes
  readonly : Bool
  deriving DecidableEq

/-- The path of a volume in the system. -/
def mountPath : Volume → Bytes
  | .flash => flashPath
  | .sd => sdcardPath

/-- `esp_vision_storage_vfs_new`. -/
def Vfs.new (basePath : Bytes) : Vfs := ⟨basePath, [slash], false⟩

/-- The two paths of `esp_vision_storage_make_path`. -/
structure Paths where
  internal : Bytes
  full : Bytes
  deriving DecidableEq

/-- `esp_vision_storage_make_path_raw`. -/
def makePathRaw (v : Vfs) (path internal full : Bytes) : Except Raised Paths :=
  match normalizePath v.cwd path internal (allocPathMax + 1) with
  | .error e => .error e
  | .ok internal =>
    let baseLen := v.basePath.length
    let internalLen := (cstr internal).length
    let suffixOffset := if internalLen = 1 then 1 else 0
    let required := baseLen + internalLen - suffixOffset + 1
    if fullPathMax < required then .error (pathError required fullPathMax)
    else
      let full := overlay full 0 v.basePath
      let full := overlay full baseLen
        ((internal.drop suffixOffset).take (internalLen - suffixOffset))
      .ok ⟨internal, overlay full (required - 1) [0]⟩

/-- `esp_vision_storage_volume_for_path`. -/
def volumeForPath (path : Bytes) : Volume :=
  if path.take sdcardPath.length = sdcardPath ∧
      (path[sdcardPath.length]? = none ∨ path[sdcardPath.length]? = some slash) then .sd
  else .flash

/-! ## Objects -/

/-- `fd` of a file or `dir` of an iterator. -/
inductive Descriptor
  /-- `-1` or `NULL`. -/
  | absent
  | fd (n : ℕ)
  | dir (pointer : ℕ)
  deriving DecidableEq

/-- `esp_vision_storage_file_obj_t` and `esp_vision_storage_dir_iter_t`. -/
structure Handle where
  volume : Volume
  descriptor : Descriptor
  deriving DecidableEq

/-- All mounts, all files and iterators (the first `next` are in use) and
`s_vfs_open_handles`. -/
structure Machine where
  mounts : ℕ → Vfs
  objects : ℕ → Handle
  next : ℕ
  openHandles : Volume → ℕ

/-- Mounts of the given volumes, and no object. -/
def Machine.start (volumeOf : ℕ → Volume) : Machine where
  mounts i := Vfs.new (mountPath (volumeOf i))
  objects _ := ⟨.flash, .absent⟩
  next := 0
  openHandles _ := 0

def Machine.setMount (m : Machine) (self : ℕ) (v : Vfs) : Machine :=
  { m with mounts := Function.update m.mounts self v }

def Machine.setObject (m : Machine) (self : ℕ) (h : Handle) : Machine :=
  { m with objects := Function.update m.objects self h }

def Machine.setOpenHandles (m : Machine) (volume : Volume) (n : ℕ) : Machine :=
  { m with openHandles := Function.update m.openHandles volume n }

/-! ## Calls -/

/-- What `stat` tells apart. -/
inductive Kind
  | directory | regular | other
  deriving DecidableEq

/-- The flags of `open`. -/
structure Flags where
  write : Bool := false
  read : Bool := true
  creat : Bool := false
  trunc : Bool := false
  append : Bool := false
  excl : Bool := false
  deriving DecidableEq

inductive Call
  /-- `esp_vision_msc_writer_vfs_begin`. -/
  | begin (volume : Volume) (writing : Bool)
  /-- `esp_vision_msc_writer_vfs_finish`. -/
  | finish (volume : Volume)
  | stat (path : Bytes)
  /-- Calls for a file or an iterator name the object. -/
  | openFile (self : ℕ) (path : Bytes) (flags : Flags)
  | close (self fd : ℕ)
  | opendir (self : ℕ) (path : Bytes)
  | readdir (self dir : ℕ)
  | closedir (self dir : ℕ)
  | mkdir (path : Bytes)
  | unlink (path : Bytes)
  | rmdir (path : Bytes)
  | rename (old new : Bytes)
  /-- `esp_vfs_fat_info`. -/
  | fatInfo (path : Bytes)
  /-- `mp_handle_pending`. -/
  | handlePending
  /-- Objects are allocated. -/
  | alloc
  deriving DecidableEq

/-- An entry of a directory. -/
structure Entry where
  name : Bytes
  kind : Kind
  deriving DecidableEq

/-- What a call returns; `errno` where it fails. -/
@[reducible] def Call.Value : Call → Type
  | .begin _ _ => Bool
  | .finish _ => Bool
  | .stat _ => Except Errno Kind
  | .openFile _ _ _ => Except Errno ℕ
  | .opendir _ _ => Except Errno ℕ
  /- An error of `none` is the end of the directory. -/
  | .readdir _ _ => Except (Option Errno) Entry
  | .fatInfo _ => Option (ℕ × ℕ)
  | .handlePending => Unit
  | .alloc => Unit
  | _ => Except Errno Unit

abbrev Log := List (Event Call.Value Raised)

abbrev Flow := Prog Machine Call.Value Raised

def ask (c : Call) : Flow c.Value := call c

/-- `esp_vision_storage_vfs_begin`. -/
def vfsBegin (volume : Volume) (writing : Bool) : Flow Unit := do
  let granted ← ask (.begin volume writing)
  failIf (granted = false) (.osError erofs)

/-- `esp_vision_msc_writer_vfs_finish`, with an exception where it fails. -/
def vfsFinish (volume : Volume) : Flow Unit := do
  let finished ← ask (.finish volume)
  failIf (finished = false) (.osError eio)

/-- `esp_vision_storage_vfs_handle_open`. -/
def handleOpen (volume : Volume) : Flow Unit :=
  update fun m =>
    if m.openHandles volume ≠ 2 ^ 32 - 1 then m.setOpenHandles volume (m.openHandles volume + 1)
    else m

/-- `esp_vision_storage_vfs_handle_close`. -/
def handleClose (volume : Volume) : Flow Unit :=
  update fun m =>
    if 0 < m.openHandles volume then m.setOpenHandles volume (m.openHandles volume - 1) else m

/-- `mp_obj_malloc_with_finaliser`, with `volume` set and no descriptor. -/
def newObject (volume : Volume) : Flow ℕ := do
  ask .alloc
  let m ← getState
  update fun m => { m.setObject m.next ⟨volume, .absent⟩ with next := m.next + 1 }
  pure m.next

def setDescriptor (self : ℕ) (d : Descriptor) : Flow Unit :=
  update fun m => m.setObject self { m.objects self with descriptor := d }

/-- The descriptor is gone; a close that failed leaves the count. -/
def released (self : ℕ) (result : Except Errno Unit) : Flow Unit := do
  let m ← getState
  setDescriptor self .absent
  if result = .ok () then handleClose (m.objects self).volume else pure ()

/-- The exception for a call that failed. -/
def orRaise {α : Type} (result : Except Errno α) : Flow α := lift (result.mapError .osError)

/-- A call that is made again while it is interrupted. -/
def retry (fuel : ℕ) (c : Flow (Except Errno Unit)) : Flow (Option (Except Errno Unit)) := do
  let r ← waitFor (do
    let result ← c
    pure (if result = .error eintr then .again else .found result)) fuel
  pure r.join

/-- `esp_vision_storage_retry_close`. -/
def retryClose (fuel self fd : ℕ) : Flow (Option (Except Errno Unit)) :=
  retry fuel (ask (.close self fd))

/-! ## Methods -/

/-- What an array of the given size holds before it is written. -/
abbrev Fresh := (n : ℕ) → { cells : Bytes // cells.length = n }

section Methods

variable (fresh : Fresh) (fuel : ℕ) (self : ℕ)

def getMount : Flow Vfs := do
  let m ← getState
  pure (m.mounts self)

def setMount (f : Vfs → Vfs) : Flow Unit := update fun m => m.setMount self (f (m.mounts self))

/-- `esp_vision_storage_make_path`. -/
def makePath (v : Vfs) (path : Bytes) : Flow Paths :=
  lift (makePathRaw v path (fresh (allocPathMax + 1)) (fresh fullPathMax))

/-- `esp_vision_storage_require_writable`. -/
def requireWritable (v : Vfs) : Flow Unit := failIf (v.readonly = true) (.osError erofs)

/-- `esp_vision_storage_vfs_mount`. -/
def vfsMount (readonly mkfs : Bool) : Flow Unit := do
  failIf (mkfs = true) (.osError eperm)
  setMount self fun v => { v with readonly := v.readonly || readonly }

/-- One character of the mode of `open`. -/
def Flags.apply (flags : Flags) : UInt8 → Flags
  | 0x72 => { flags with read := true, write := false }
  | 0x77 => { flags with read := false, write := true, creat := true, trunc := true }
  | 0x61 => { flags with read := false, write := true, creat := true, append := true }
  | 0x78 => { flags with read := false, write := true, creat := true, excl := true }
  | 0x2b => { flags with read := true, write := true }
  | _ => flags

def Flags.ofMode (mode : Bytes) : Flags := mode.foldl Flags.apply {}

def Flags.writes (flags : Flags) : Bool :=
  flags.write || flags.creat || flags.trunc || flags.append

/-- One turn of the loop of `esp_vision_storage_file_open`. -/
def openTurn (file : ℕ) (path : Bytes) (flags : Flags) : Flow (Turn ℕ) := do
  let volume := volumeForPath path
  match ← ask (.openFile file path flags) with
  | .ok fd => pure (.found fd)
  | .error e =>
    vfsFinish volume
    failIf (e ≠ eintr) (.osError e)
    ask .handlePending
    vfsBegin volume flags.writes
    pure .again

/-- `esp_vision_storage_file_open`. -/
def fileOpen (path mode : Bytes) : Flow (Option ℕ) := do
  let flags := Flags.ofMode mode
  let volume := volumeForPath path
  let file ← newObject volume
  vfsBegin volume flags.writes
  let opened ← waitFor (openTurn file path flags) fuel
  match opened.join with
  | none => pure none
  | some fd => do
    setDescriptor file (.fd fd)
    handleOpen volume
    let finished ← ask (.finish volume)
    if finished = false then do
      match ← retryClose fuel file fd with
      | none => pure none
      | some result => do
        released file result
        fail (.osError eio)
    else pure (some file)

/-- `esp_vision_storage_vfs_open`. -/
def vfsOpen (path mode : Bytes) : Flow (Option ℕ) := do
  let v ← getMount self
  let mode := cstr mode
  failIf (v.readonly = true ∧ mode.any fun c => c ∈ [0x77, 0x61, 0x78, 0x2b]) (.osError erofs)
  let paths ← makePath fresh v path
  fileOpen fuel (cstr paths.full) mode

/-- `MP_STREAM_CLOSE` of `esp_vision_storage_file_ioctl`. -/
def fileClose (file : ℕ) : Flow (Option Unit) := do
  let m ← getState
  match (m.objects file).descriptor with
  | .fd fd => do
    match ← retryClose fuel file fd with
    | none => pure none
    | some result => do
      released file result
      pure (some ())
  | _ => pure (some ())

/-- The kind of a path, inside an admission for reading. -/
def statInside (path : Bytes) : Flow Kind := do
  let volume := volumeForPath path
  vfsBegin volume false
  let result ← ask (.stat path)
  vfsFinish volume
  orRaise result

/-- `esp_vision_storage_vfs_chdir`. -/
def vfsChdir (path : Bytes) : Flow Unit := do
  let v ← getMount self
  let paths ← makePath fresh v path
  let kind ← statInside (cstr paths.full)
  failIf (kind ≠ .directory) (.osError enotdir)
  setMount self fun v => { v with cwd := cstr paths.internal }

/-- `esp_vision_storage_vfs_getcwd`. -/
def vfsGetcwd : Flow Bytes := do
  let v ← getMount self
  ask .alloc
  pure v.cwd

/-- `esp_vision_storage_dir_iter_close`. -/
def dirIterClose (iter : ℕ) : Flow Unit := do
  let m ← getState
  match (m.objects iter).descriptor with
  | .dir dir => do
    let result ← ask (.closedir iter dir)
    released iter result
  | _ => pure ()

/-- One turn of the loop of `esp_vision_storage_dir_iter_next`. -/
def nextTurn (iter dir : ℕ) : Flow (Turn Entry) := do
  match ← ask (.readdir iter dir) with
  | .error e => do
    dirIterClose iter
    match e with
    | none => pure .quit
    | some e => fail (.osError e)
  | .ok entry =>
    if entry.name = [dot] ∨ entry.name = [dot, dot] then pure .again
    else do
      ask .alloc
      pure (.found entry)

/-- `esp_vision_storage_dir_iter_next`; `none` while it still skips entries. -/
def dirIterNext (iter : ℕ) : Flow (Option (Option Entry)) := do
  let m ← getState
  match (m.objects iter).descriptor with
  | .dir dir => waitFor (nextTurn iter dir) fuel
  | _ => pure (some none)

/-- `esp_vision_storage_vfs_ilistdir`. -/
def vfsIlistdir (path : Bytes) : Flow ℕ := do
  let v ← getMount self
  let paths ← makePath fresh v path
  let full := cstr paths.full
  let volume := volumeForPath full
  let iter ← newObject volume
  vfsBegin volume false
  match ← ask (.opendir iter full) with
  | .error e => do
    vfsFinish volume
    fail (.osError e)
  | .ok dir => do
    setDescriptor iter (.dir dir)
    handleOpen volume
    let finished ← ask (.finish volume)
    if finished = false then do
      let result ← ask (.closedir iter dir)
      released iter result
      fail (.osError eio)
    else pure iter

/-- `esp_vision_storage_vfs_path_call`. -/
def vfsPathCall (path : Bytes) (function : Bytes → Flow (Except Errno Unit)) : Flow Unit := do
  let v ← getMount self
  let paths ← makePath fresh v path
  let full := cstr paths.full
  let volume := volumeForPath full
  vfsBegin volume true
  let result ← function full
  vfsFinish volume
  orRaise result

/-- A method that changes a directory. -/
def vfsChange (path : Bytes) (function : Bytes → Flow (Except Errno Unit)) : Flow Unit := do
  let v ← getMount self
  requireWritable v
  vfsPathCall fresh self path function

/-- `esp_vision_storage_vfs_mkdir`. -/
def vfsMkdir (path : Bytes) : Flow Unit := vfsChange fresh self path fun p => ask (.mkdir p)

/-- `esp_vision_storage_vfs_remove`. -/
def vfsRemove (path : Bytes) : Flow Unit := vfsChange fresh self path fun p => ask (.unlink p)

/-- `esp_vision_storage_vfs_rmdir`. -/
def vfsRmdir (path : Bytes) : Flow Unit := vfsChange fresh self path fun p => ask (.rmdir p)

/-- The system calls of a rename, with the last result. -/
def renameFiles (old new : Bytes) : Flow (Option (Except Errno Unit)) := do
  match ← retry fuel (ask (.rename old new)) with
  | none => pure none
  | some result =>
    if result = .error .exists ∧ old ≠ new then do
      match ← ask (.stat new) with
      | .ok .regular => do
        match ← retry fuel (ask (.unlink new)) with
        | none => pure none
        | some (.ok ()) => retry fuel (ask (.rename old new))
        | some (.error e) => pure (some (.error e))
      | _ => pure (some result)
    else pure (some result)

/-- The second admission of a rename between volumes. -/
def beginSecond (oldVolume newVolume : Volume) : Flow Unit :=
  if newVolume ≠ oldVolume then do
    let granted ← ask (.begin newVolume true)
    if granted = false then do
      vfsFinish oldVolume
      fail (.osError erofs)
    else pure ()
  else pure ()

/-- Both admissions are ended. -/
def finishBoth (oldVolume newVolume : Volume) : Flow Unit := do
  let newFinished ← if newVolume = oldVolume then pure true else ask (.finish newVolume)
  let oldFinished ← ask (.finish oldVolume)
  failIf (newFinished = false ∨ oldFinished = false) (.osError eio)

/-- `esp_vision_storage_vfs_rename`. -/
def vfsRename (oldPath newPath : Bytes) : Flow (Option Unit) := do
  let v ← getMount self
  requireWritable v
  let old ← makePath fresh v oldPath
  let new ← makePath fresh v newPath
  let oldFull := cstr old.full
  let newFull := cstr new.full
  let oldVolume := volumeForPath oldFull
  let newVolume := volumeForPath newFull
  vfsBegin oldVolume true
  beginSecond oldVolume newVolume
  match ← renameFiles fuel oldFull newFull with
  | none => pure none
  | some result => do
    finishBoth oldVolume newVolume
    orRaise result
    pure (some ())

/-- `esp_vision_storage_vfs_stat`. -/
def vfsStat (path : Bytes) : Flow Kind := do
  let v ← getMount self
  let paths ← makePath fresh v path
  let kind ← statInside (cstr paths.full)
  ask .alloc
  pure kind

/-- `esp_vision_storage_vfs_statvfs`. -/
def vfsStatvfs : Flow (ℕ × ℕ) := do
  let v ← getMount self
  let volume := volumeForPath v.basePath
  vfsBegin volume false
  let info ← ask (.fatInfo v.basePath)
  vfsFinish volume
  match info with
  | none => fail (.osError eio)
  | some info => do
    ask .alloc
    pure info

/-- `mp_import_stat_t`. -/
inductive ImportStat
  | noExist | dir | file
  deriving DecidableEq

/-- `esp_vision_storage_vfs_import_stat`. -/
def vfsImportStat (path : Bytes) : Flow ImportStat := do
  let v ← getMount self
  let paths ← makePath fresh v (cstr path)
  let full := cstr paths.full
  let volume := volumeForPath full
  let granted ← ask (.begin volume false)
  if granted = false then pure .noExist
  else do
    let result ← ask (.stat full)
    let finished ← ask (.finish volume)
    if finished = false then pure .noExist
    else
      match result with
      | .ok .directory => pure .dir
      | .ok .regular => pure .file
      | _ => pure .noExist

/-! ## Requests -/

/-- The methods of a mount, and those of its files and iterators. -/
inductive Request
  | mount (readonly mkfs : Bool)
  | umount
  | openFile (path mode : Bytes)
  | chdir (path : Bytes)
  | getcwd
  | ilistdir (path : Bytes)
  | mkdir (path : Bytes)
  | remove (path : Bytes)
  | rmdir (path : Bytes)
  | rename (old new : Bytes)
  | stat (path : Bytes)
  | statvfs
  | importStat (path : Bytes)
  /-- `close`, `__exit__` and `__del__` of a file. -/
  | close (file : ℕ)
  | next (iter : ℕ)
  /-- The finaliser of an iterator. -/
  | finalise (iter : ℕ)

/-- A method that returns. -/
def returns {α : Type} (p : Flow α) : Flow (Option Unit) := do
  let _ ← p
  pure (some ())

/-- A method that may still be interrupted when its turns are used up. -/
def mayReturn {α : Type} (p : Flow (Option α)) : Flow (Option Unit) := do
  let r ← p
  pure (r.map fun _ => ())

/-- A request to a mount; `none` while it is still interrupted when its turns are used up. -/
def serve : Request → Flow (Option Unit)
  | .mount readonly mkfs => returns (vfsMount self readonly mkfs)
  | .umount => pure (some ())
  | .openFile path mode => mayReturn (vfsOpen fresh fuel self path mode)
  | .chdir path => returns (vfsChdir fresh self path)
  | .getcwd => returns (vfsGetcwd self)
  | .ilistdir path => returns (vfsIlistdir fresh self path)
  | .mkdir path => returns (vfsMkdir fresh self path)
  | .remove path => returns (vfsRemove fresh self path)
  | .rmdir path => returns (vfsRmdir fresh self path)
  | .rename old new => mayReturn (vfsRename fresh fuel self old new)
  | .stat path => returns (vfsStat fresh self path)
  | .statvfs => returns (vfsStatvfs self)
  | .importStat path => returns (vfsImportStat fresh self path)
  | .close file => fileClose fuel file
  | .next iter => mayReturn (dirIterNext fuel iter)
  | .finalise iter => returns (dirIterClose iter)

end Methods

/-- A request whose exception goes to its caller. -/
def served (fresh : Fresh) (fuel : ℕ) (request : ℕ × Request) : Flow (Option Unit) :=
  attempt (serve fresh fuel request.1 request.2) fun _ => pure (some ())

/-- Requests one behind the other. -/
def serveAll (fresh : Fresh) (fuel : ℕ) : List (ℕ × Request) → Flow (Option Unit)
  | [] => pure (some ())
  | request :: rest => do
    match ← served fresh fuel request with
    | none => pure none
    | some () => serveAll fresh fuel rest

end EspVision.StorageVfs
