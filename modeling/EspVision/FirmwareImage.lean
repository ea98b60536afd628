import EspVision.RomMd5
import Mathlib.Data.Rat.Defs
import Mathlib.Tactic

/-!
# Firmware images and their erase plan (`firmware_flash.js`, `firmware_partitions.js`)

The description of an image is a value of the host's language, so its fields are dynamic; the
checks take what they need out of them. SHA-256 is the platform's and a parameter.
-/
namespace EspVision.Firmware

abbrev Bytes := List UInt8

/-! ## Dynamic values -/

/-- A value of the host's language; `object` is whatever equals nothing else, NaN included. -/
inductive Js
  | undefined
  | null
  | boolean (b : Bool)
  | number (q : ℚ)
  | string (s : String)
  | object
  deriving DecidableEq

namespace Js

/-- `===`. -/
def same : Js → Js → Bool
  | .object, _ => false
  | _, .object => false
  | a, b => a = b

/-- `Number.isInteger`, with the integer. -/
def integer? : Js → Option ℤ
  | .number q => if q.den = 1 then some q.num else none
  | _ => none

/-- `Number.isSafeInteger`, with the integer. -/
def safeInteger? (v : Js) : Option ℤ := v.integer?.filter fun n => n.natAbs < 2 ^ 53

def ofNat (n : ℕ) : Js := .number n

end Js

/-- What a call throws: the members that the host reads, and the value as a string. -/
structure Err where
  code : Option String
  message : Option String
  shown : String
  deriving DecidableEq

/-- `new Error(message)`, with a code. -/
def Err.error (message : String) (code : Option String := none) : Err :=
  ⟨code, some message, "Error: " ++ message⟩

/-- A member is read of a value that has none. -/
def typeError : Err := .error "Cannot read properties of undefined"

/-! ## Images -/

structure Segment where
  offset : Js
  bytes : Js
  sha256 : Js
  partitionSize : Js
  deriving DecidableEq

/-- The members of an image that the flashing host reads; a segment that is missing or falsy is
`none`. -/
structure Image where
  evMuxVersion : Js
  chipFamily : Js
  chipRevision : Js
  chipRevisionMin : Js
  chipRevisionMax : Js
  offset : Js
  bytes : Js
  flashSize : Js
  partitionSize : Js
  sha256 : Js
  bootloader : Option Segment
  partitionTable : Option Segment
  application : Option Segment

inductive Mode
  | update | install
  deriving DecidableEq

/-- `firmwareMode`; `none` is an argument that is left out. -/
def firmwareMode : Option String → Except Err Mode
  | none => .ok .update
  | some mode =>
    if mode = "update" then .ok .update
    else if mode = "install" then .ok .install
    else .error (.error "Firmware mode must be update or install")

/-- `subarray`. -/
def slice (bytes : Bytes) (start stop : ℕ) : Bytes := (bytes.drop start).take (stop - start)

/-- `/^[a-f0-9]{64}$/`. -/
def isSha256 : Js → Bool
  | .string s => s.toList.length = 64 && s.toList.all fun c => c.isDigit || ('a' ≤ c && c ≤ 'f')
  | _ => false

def segmentError : Err := .error ("Complete image requires ordered, non-overlapping " ++
  "bootloader, partition table and application metadata")

/-- The segment loop of `validateFirmwareImage`, from the end of the segment before. -/
def checkSegments (sha256 : Bytes → String) (bytes : Bytes) : ℤ → List (Option Segment) →
    Except Err Unit
  | _, [] => .ok ()
  | _, none :: _ => .error segmentError
  | stop, some segment :: rest =>
    match segment.offset.safeInteger?, segment.bytes.safeInteger? with
    | some offset, some count =>
      if offset < stop ∨ count ≤ 0 ∨ bytes.length < offset + count ∨ !isSha256 segment.sha256 then
        .error segmentError
      else if !(Js.string (sha256 (slice bytes offset.toNat (offset + count).toNat))).same
          segment.sha256 then
        .error (.error ("Complete image does not contain the approved bootloader, " ++
          "partition table and application"))
      else checkSegments sha256 bytes (offset + count) rest
    | _, _ => .error segmentError

/-- The bytes are within the bounds that the image declares. -/
def boundsOk (image : Image) (bytes : Bytes) (mode : Mode) : Bool :=
  let limit := if mode = .install then image.flashSize else image.partitionSize
  match image.offset.safeInteger?, limit.safeInteger? with
  | some offset, some limit =>
    0 ≤ offset && 0 < bytes.length && bytes.length ≤ limit && !(mode = .install && offset ≠ 0)
  | _, _ => false

/-- `validateFirmwareImage`; `none` is a value that is no byte array. -/
def validateFirmwareImage (sha256 : Bytes → String) (image : Image) (bytes : Option Bytes)
    (mode : Mode) : Except Err Bytes :=
  if !image.evMuxVersion.same (.number 4) then
    .error (.error "Only approved EV-MUX v4 firmware can be installed")
  else
    match bytes with
    | none => .error (.error "Firmware image size does not match the approved build")
    | some bytes =>
      if !(Js.ofNat bytes.length).same image.bytes then
        .error (.error "Firmware image size does not match the approved build")
      else if !boundsOk image bytes mode then .error (.error "Invalid firmware image bounds")
      else if !(Js.string (sha256 bytes)).same image.sha256 then
        .error (.error "Firmware SHA-256 does not match the approved build")
      else do
        if mode = .install then
          checkSegments sha256 bytes 0 [image.bootloader, image.partitionTable, image.application]
        .ok bytes

/-! ## The erase plan -/

def sectorBytes : ℕ := 4096

/-- The error of `firmware_partitions.js`. -/
def invalid (message : String) : Err :=
  .error ("Invalid installation partition table: " ++ message) (some "FIRMWARE_PARTITION_INVALID")

def allFF (bytes : Bytes) : Bool := bytes.all (· = 0xff)

/-- `view.getUint16(offset, true)`. -/
def getUint16 (bytes : Bytes) (offset : ℕ) : ℕ :=
  (bytes.getD offset 0).toNat + 256 * (bytes.getD (offset + 1) 0).toNat

/-- `view.getUint32(offset, true)`. -/
def getUint32 (bytes : Bytes) (offset : ℕ) : ℕ := (RomMd5.getUint32 bytes offset).toNat

structure Entry where
  label : Bytes
  type : ℕ
  subtype : ℕ
  offset : ℕ
  size : ℕ
  flags : ℕ

/-- One partition record. -/
def readEntry (tableOffset : ℤ) (flashSize : ℤ) (labels : List Bytes) (entry : Bytes) :
    Except Err Entry :=
  let offset := getUint32 entry 4
  let size := getUint32 entry 8
  let type := (entry.getD 2 0).toNat
  let labelBytes := slice entry 12 28
  let label := labelBytes.takeWhile (· ≠ 0)
  if label = [] ∨ label ∈ labels ∨ (labelBytes.drop label.length).any (· ≠ 0) then
    .error (invalid "empty, duplicate or malformed label")
  else if (offset : ℤ) < tableOffset + sectorBytes ∨ offset % sectorBytes ≠ 0 ∨ size = 0 ∨
      flashSize < offset + size ∨ (type = 0 ∧ offset % 65536 ≠ 0) then
    .error (invalid "unsupported partition bounds")
  else
    .ok ⟨label, type, (entry.getD 3 0).toNat, offset, size, getUint32 entry 28⟩

/-- The record loop, with `left` records to go; the end marker must come before they are used
up. -/
def readEntries (tableOffset flashSize : ℤ) (raw : Bytes) : ℕ → List Entry → Bool →
    Except Err (List Entry)
  | 0, _, _ => .error (invalid "missing entries or end marker")
  | left + 1, entries, digestSeen =>
    let cursor := raw.length - 32 * (left + 1)
    let entry := slice raw cursor (cursor + 32)
    if allFF entry then
      if !allFF (raw.drop cursor) then .error (invalid "data after the end marker")
      else if entries = [] then .error (invalid "missing entries or end marker")
      else .ok entries
    else
      let magic := getUint16 entry 0
      if magic = 0xebeb ∧ digestSeen = false then
        if !allFF (slice entry 2 16) then .error (invalid "malformed MD5 record")
        else if RomMd5.romMd5 (raw.take cursor) ≠ slice entry 16 32 then
          .error (invalid "MD5 mismatch")
        else readEntries tableOffset flashSize raw left entries true
      else if magic ≠ 0x50aa ∨ digestSeen = true then
        .error (invalid "unexpected entry or data after MD5")
      else
        match readEntry tableOffset flashSize (entries.map (·.label)) entry with
        | .error e => .error e
        | .ok e => readEntries tableOffset flashSize raw left (entries ++ [e]) false

/-- No entry begins before the one in front of it ends. -/
def disjoint : List Entry → Bool
  | a :: b :: rest => a.offset + a.size ≤ b.offset && disjoint (b :: rest)
  | _ => true

/-- `ffat`. -/
def ffatLabel : Bytes := [0x66, 0x66, 0x61, 0x74]

structure Range where
  label : Bytes
  offset : ℕ
  size : ℕ
  deriving DecidableEq

/-- The application of the image is one of the entries. -/
def hasApplication (app : Segment) (entries : List Entry) : Bool :=
  match app.bytes.safeInteger? with
  | none => false
  | some count => entries.any fun e => e.type = 0 && (Js.ofNat e.offset).same app.offset &&
      (Js.ofNat e.size).same app.partitionSize && count ≤ e.size

/-- The range of the `ffat` entry. -/
def planRange (bytes : Bytes) (entries : List Entry) : Except Err Range :=
  match entries.find? fun e => e.label = ffatLabel with
  | none => .error (.error "Complete installation requires a declared internal ffat partition"
      (some "FIRMWARE_FATFS_UNAVAILABLE"))
  | some fat =>
    if fat.type ≠ 1 ∨ fat.subtype ≠ 0x81 ∨ fat.flags ≠ 0 ∨ fat.size % sectorBytes ≠ 0 ∨
        fat.offset < (bytes.length + sectorBytes - 1) / sectorBytes * sectorBytes then
      .error (invalid ("ffat is not an unencrypted, writable FAT partition outside the " ++
        "firmware write range"))
    else .ok ⟨fat.label, fat.offset, fat.size⟩

/-- `planInstallFilesystemErase`, for an image that `validateFirmwareImage` has passed. -/
def planInstallFilesystemErase (image : Image) (bytes : Bytes) : Except Err Range :=
  match image.partitionTable, image.application with
  | some table, some app =>
    match table.offset.safeInteger?, table.bytes.safeInteger?, image.flashSize.safeInteger? with
    | some offset, some count, some flashSize =>
      if offset % sectorBytes ≠ 0 ∨ count % 32 ≠ 0 ∨ 0xc00 < count then
        .error (invalid "unsupported table bounds")
      else do
        let raw := slice bytes offset.toNat (offset + count).toNat
        let entries ← readEntries offset flashSize raw (raw.length / 32) [] false
        let entries := entries.mergeSort fun a b => a.offset ≤ b.offset
        if !disjoint entries then .error (invalid "overlapping partitions")
        if !hasApplication app entries then
          .error (invalid "application does not match the approved layout")
        planRange bytes entries
    | _, _, _ => .error typeError
  | _, _ => .error typeError

end EspVision.Firmware
