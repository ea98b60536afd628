import EspVision.Dialogue
import EspVision.FirmwareImage

/-!
# The flashing session (`FirmwareFlashSession` of `firmware_flash.js`)

Everything outside the session answers as it likes: the loader and its stub, the abort signal,
the progress callbacks, and the public members of the session, which the caller may change. A
synchronous read of such a member is a call as well. What `flashData` does with its progress
callback is part of how it is answered.
-/
namespace EspVision.Firmware
open Dialogue

/-! ## The calls -/

/-- The answer of `getSecurityInfo`. -/
structure Security where
  flags : Js
  flashCryptCnt : Js
  deriving DecidableEq

/-- What `flashData` may return. -/
structure Receipt where
  algorithm : Js
  offset : Js
  bytes : Js
  digest : Js
  deriving DecidableEq

inductive Call
  /-- `checkAbort(signal)`; it fails with the reason. -/
  | checkAbort
  /-- `structuredClone(this.image)`. -/
  | image
  /-- `this.mode`. -/
  | mode
  | initLoader
  /-- `loader.chipFamily` and `loader.chipRevision`, read together. -/
  | chip
  | getSecurityInfo
  | runStub
  /-- `typeof stub[name] === 'function'`. -/
  | hasMethod (name : String)
  | flashId
  | readFlash (offset count : Js)
  | eraseRegion (offset size : ℕ)
  | flashData (data : Bytes) (offset : Js)
  | onPhase (message : String)
  | onProgress (percent : ℕ)
  | readRegister (address : ℕ)
  | writeRegister (address value mask : ℕ)
  | reset
  | disconnect
  deriving DecidableEq

/-- What a call returns when it succeeds; bytes that are no byte array are `none`. -/
@[reducible] def Call.Value : Call → Type
  | .image => Image
  | .mode => Option String
  | .chip => Js × Js
  | .getSecurityInfo => Option Security
  | .hasMethod _ => Bool
  | .flashId => Js
  | .readFlash _ _ => Option Bytes
  | .flashData _ _ => Option Receipt
  | .readRegister _ => Js
  | _ => Unit

/-- `this.state`. -/
inductive Phase
  | idle | connecting | connected | flashing | verified | error | closed
  deriving DecidableEq

/-- The session; `image`, `mode` and `filesystem` are its private members. -/
structure Session where
  phase : Phase := .idle
  image : Option Image := none
  mode : Mode := .update
  filesystem : Option Range := none

abbrev Log := List (Event Call.Value Err)

abbrev Flow := Prog Session Call.Value Err

def ask (c : Call) : Flow c.Value := call c

def setPhase (phase : Phase) : Flow Unit := update fun s => { s with phase := phase }

/-! ## The checks of `connect` -/

/-- The chip is the one that the image is for. -/
def chipMatches (image : Image) (chip : Js × Js) : Bool :=
  chip.1.same image.chipFamily &&
    match chip.2.integer? with
    | none => false
    | some revision =>
      if image.chipRevision ≠ .undefined then chip.2.same image.chipRevision
      else
        match image.chipRevisionMin.integer?, image.chipRevisionMax.integer? with
        | some least, some most => least ≤ revision && revision ≤ most
        | _, _ => false

/-- `toString(2).replace(/0/g, '').length`. -/
def ones (n : ℕ) : ℕ := (Nat.toDigits 2 n).count '1'

/-- The integer of a 32-bit member. -/
def word? (v : Js) : Option ℕ :=
  match v.safeInteger? with
  | some n => if 0 ≤ n ∧ n ≤ 0xffffffff then some n.toNat else none
  | none => none

def checkSecurity : Option Security → Except Err Unit
  | none => .error typeError
  | some security =>
    match word? security.flags, word? security.flashCryptCnt with
    | some flags, some count =>
      if flags &&& 5 ≠ 0 ∨ ones count % 2 = 1 then
        .error (.error ("Secure boot, secure download or encrypted devices require their " ++
          "signed flashing workflow"))
      else .ok ()
    | _, _ => .error (.error "Cannot qualify the device ROM security mode")

/-- The flash is known and holds the complete image. -/
def capacityOk (image : Image) (id : Js) : Bool :=
  match id.safeInteger?, image.flashSize.safeInteger? with
  | some id, some flashSize =>
    let capacity := id.toNat / 65536 % 256
    0 < id && id ≤ 0xffffff && 18 ≤ capacity && capacity ≤ 30 && flashSize ≤ 2 ^ capacity
  | _, _ => false

/-- The digest of what was read is the one in the description. -/
def digestMatches (sha256 : Bytes → String) (data : Option Bytes) (digest : Js) : Bool :=
  match data with
  | none => false
  | some data => (Js.string (sha256 data)).same digest

def capacityError : Err :=
  .error "Detected flash is unknown or smaller than the approved complete image layout"

def unsupportedError : Err :=
  .error "Complete installation requires filesystem erase and firmware verification support"
    (some "FIRMWARE_ERASE_UNSUPPORTED")

section Session

variable (sha256 : Bytes → String)

/-- The image and the erase plan of `connect`. -/
def prepare (bytes : Option Bytes) : Flow Image := do
  ask .checkAbort
  let image ← ask .image
  let name ← ask .mode
  let mode ← lift (firmwareMode name)
  let payload ← lift (validateFirmwareImage sha256 image bytes mode)
  let filesystem ← lift (if mode = .install then
      (planInstallFilesystemErase image payload).map some else .ok none)
  update fun s => { s with image := some image, mode := mode, filesystem := filesystem }
  ask .checkAbort
  pure image

/-- The checks of the ROM loader. -/
def checkLoader (image : Image) : Flow Unit := do
  ask .initLoader
  ask .checkAbort
  let chip ← ask .chip
  failIf (chipMatches image chip = false)
    (.error "Chip or silicon revision does not match the approved board firmware")
  let security ← ask .getSecurityInfo
  ask .checkAbort
  lift (checkSecurity security)
  ask .runStub
  ask .checkAbort

/-- The stub has the method. -/
def require (name : String) (e : Err) : Flow Unit := do
  let has : Bool ← ask (.hasMethod name)
  failIf (has = false) e

/-- The checks of an installation. -/
def checkInstall (image : Image) : Flow Unit := do
  require "flashId" (.error "Installation requires ROM flash capacity detection (flashId)")
  let id ← ask .flashId
  ask .checkAbort
  failIf (capacityOk image id = false) capacityError
  require "eraseRegion" unsupportedError
  require "readFlash" unsupportedError
  require "flashData" unsupportedError

/-- The check of an update. -/
def checkLayout (image : Image) : Flow Unit :=
  match image.partitionTable with
  | none => fail typeError
  | some table => do
    let existing ← ask (.readFlash table.offset table.bytes)
    failIf (digestMatches sha256 existing table.sha256 = false)
      (.error "Partition layout differs; select explicit install mode to replace the layout")

def disconnect : Flow Unit := do
  let s ← getState
  if s.phase = .closed then pure ()
  else do
    setPhase .closed
    ask .disconnect

/-- The guarded part of `connect`. -/
def qualify (bytes : Option Bytes) : Flow Unit := do
  let image ← prepare sha256 bytes
  checkLoader image
  let s ← getState
  (if s.mode = .install then checkInstall image else checkLayout sha256 image : Flow Unit)
  ask .checkAbort
  setPhase .connected

def connect (bytes : Option Bytes) : Flow Unit := do
  let s ← getState
  failIf (s.phase ≠ .idle) (.error "Firmware loader is already in use")
  setPhase .connecting
  attempt (qualify sha256 bytes) fun e => do
    disconnect
    fail e

/-! ## `flash` -/

/-- `clearDownloadLatch`. -/
def clearDownloadLatch (chipFamily : Js) : Flow Unit :=
  let p4 := chipFamily.same (.number 0x3280)
  if !p4 && !chipFamily.same (.number 0x3231) then pure ()
  else do
    let address := if p4 then 0x50110008 else 0x20700008
    let before ← ask (.readRegister address)
    let word ← lift (match before.integer? with
      | some n => if 0 ≤ n ∧ n ≤ 0xffffffff then .ok n.toNat
          else .error (.error "Invalid download system control register")
      | none => .error (.error "Invalid download system control register"))
    (if word &&& 4 ≠ 0 then ask (.writeRegister address 0 4) else pure () : Flow Unit)
    let after ← ask (.readRegister address)
    failIf (after.same (.ofNat (word &&& 0xfffffffb)) = false)
      (.error "Normal boot latch verification failed")

/-- The receipt is for this payload at its place. -/
def receiptOk (image : Image) (payload : Bytes) (r : Receipt) : Bool :=
  r.algorithm.same (.string "md5") && r.offset.same image.offset &&
    r.bytes.same (.ofNat payload.length) && r.digest.same (.string (RomMd5.romMd5Hex payload))

def blockBytes : ℕ := 65536

/-- `image.offset + offset`, for an offset that is a number. -/
def offsetBy (offset : Js) (n : ℕ) : Js :=
  match offset with
  | .number q => .number (q + n)
  | _ => .object

/-- The readback loop, over the numbers of the blocks. -/
def readBlocks (offset : Js) (total : ℕ) : List ℕ → Bytes → Flow Bytes
  | [], readback => pure readback
  | i :: rest, readback => do
    let start := blockBytes * i
    let count := min blockBytes (total - start)
    let chunk ← ask (.readFlash (offsetBy offset start) (.ofNat count))
    let chunk ← lift (match chunk with
      | some chunk => if chunk.length = count then .ok chunk
          else .error (.error "Written firmware readback is incomplete")
      | none => .error (.error "Written firmware readback is incomplete"))
    ask (.onProgress (80 + min 19 (20 * (start + count) / total)))
    readBlocks offset total rest (readback ++ chunk)

/-- The verification of what was written. -/
def verify (image : Image) (install : Bool) (payload : Bytes) : Option Receipt → Flow Unit
  | some receipt => do
    ask (.onPhase "Checking esptool device MD5 verification")
    failIf (receiptOk image payload receipt = false)
      (.error "Written firmware verification failed; invalid esptool MD5 receipt")
  | none => do
    ask (.onPhase (if install then "Verifying the complete installation image"
      else "Verifying the complete application image"))
    let blocks := (payload.length + blockBytes - 1) / blockBytes
    let readback ← readBlocks image.offset payload.length (List.range blocks) []
    failIf (digestMatches sha256 (some readback) image.sha256 = false) (.error
      ("Written firmware verification failed; keep the device in download mode for recovery"))

/-- The erase of an installation. -/
def eraseFilesystem : Option Range → Flow Unit
  | none => fail typeError
  | some range => do
    ask (.onPhase "Erasing internal FAT filesystem; device files will be deleted")
    ask .checkAbort
    ask (.eraseRegion range.offset range.size)
    ask .checkAbort

/-- From the second validation of the image to the end of the verification. -/
def writeFirmware (bytes : Option Bytes) : Flow Image := do
  ask .checkAbort
  let s ← getState
  let image ← lift (match s.image with
    | some image => .ok image
    | none => .error typeError)
  let payload ← lift (validateFirmwareImage sha256 image bytes s.mode)
  ask .checkAbort
  (if s.mode = .install then eraseFilesystem s.filesystem else pure () : Flow Unit)
  ask (.onPhase (if s.mode = .install then
      "Installing complete firmware; internal FAT filesystem cleared"
    else "Writing application; bootloader, partition table, NVS and user files are preserved"))
  ask .checkAbort
  let receipt ← ask (.flashData payload image.offset)
  verify sha256 image (s.mode = .install) payload receipt
  ask (.onProgress 100)
  setPhase .verified
  pure image

/-- What `flash` returns; `resetError` is what its code and message are taken from. -/
structure Result where
  verified : Bool
  needsReset : Bool
  resetError : Option Err
  deriving DecidableEq

/-- The reset after a verified write; its failure is an answer. -/
def resetDevice (image : Image) : Flow (Option Err) :=
  attempt (do
    clearDownloadLatch image.chipFamily
    ask .reset
    pure none) fun e => do
      ask (.onPhase ("Firmware verified. Automatic reset did not complete; wait for runtime " ++
        "reconnection or press RESET."))
      pure (some e)

/-- What is reported after a verified write. -/
def report : Option Err → Flow Result
  | some e => pure ⟨true, true, some e⟩
  | none => do
    ask (.onPhase "Firmware verified and reset. Reconnect in the IDE to verify EV-MUX v4.")
    pure ⟨true, false, none⟩

/-- The guarded part of `flash`. -/
def writeAndReset (bytes : Option Bytes) : Flow Result := do
  let image ← writeFirmware sha256 bytes
  let failure ← resetDevice image
  report failure

def flash (bytes : Option Bytes) : Flow Result := do
  let s ← getState
  failIf (s.phase ≠ .connected) (.error "Connect and validate the device before flashing")
  setPhase .flashing
  andFinally (attempt (writeAndReset sha256 bytes) fun e => do
    setPhase .error
    fail e) disconnect

/-! ## Any use of a session -/

/-- A method that the caller invokes and awaits. -/
inductive Op
  | connect (bytes : Option Bytes)
  | flash (bytes : Option Bytes)
  | disconnect

/-- The world after one method. -/
def invoke (env : Partner Call.Value Err) (w : World Session Call.Value Err) :
    Op → World Session Call.Value Err
  | .connect bytes => (connect sha256 bytes env w).1
  | .flash bytes => (flash sha256 bytes env w).1
  | .disconnect => (disconnect env w).1

/-- The world after some methods of a new session, one after the other. -/
def after (env : Partner Call.Value Err) (ops : List Op) : World Session Call.Value Err :=
  ops.foldl (invoke sha256 env) ⟨{}, []⟩

end Session

end EspVision.Firmware
