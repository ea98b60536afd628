import EspVision.Crc32
import EspVision.NetworkJson

/-!
# The network record (`network_service.c`)

The settings that survive a reset: the record, its checks, how it is committed to non-volatile
storage, and what boot makes of what it finds there. A character array is the list of its bytes, a
C string a list without a zero.
-/
namespace EspVision.NetworkService

def recordMagic : UInt32 := 0x45564e57
def recordSchema : UInt16 := 1
/-- The size of a record in bytes. -/
def recordBytes : UInt16 := 116
def ssidMax : ℕ := 32
def passwordMax : ℕ := 64

/-- `network_record_t`. -/
structure Record where
  magic : UInt32 := 0
  schema : UInt16 := 0
  recordSize : UInt16 := 0
  revision : UInt32 := 0
  configured : UInt8 := 0
  enabled : UInt8 := 0
  ssidLength : UInt8 := 0
  passwordLength : UInt8 := 0
  ssid : List UInt8 := cleared ssidMax
  password : List UInt8 := cleared passwordMax
  checksum : UInt32 := 0

/-- Copy the first `n` cells. -/
def memcpy (dst src : List UInt8) (n : ℕ) : List UInt8 := src.take n ++ dst.drop n

def bytes16 (x : UInt16) : List UInt8 := [x.toUInt8, (x >>> 8).toUInt8]
def bytes32 (x : UInt32) : List UInt8 :=
  [x.toUInt8, (x >>> 8).toUInt8, (x >>> 16).toUInt8, (x >>> 24).toUInt8]

/-- The bytes of a record before its checksum. -/
def Record.bytes (r : Record) : List UInt8 :=
  bytes32 r.magic ++ bytes16 r.schema ++ bytes16 r.recordSize ++ bytes32 r.revision ++
    [r.configured, r.enabled, r.ssidLength, r.passwordLength] ++ r.ssid ++ r.password

/-- `record_checksum`. -/
def recordChecksum (r : Record) : UInt32 := .ofBitVec (Crc32.checksum Crc32.update r.bytes)

/-- The settings of a record make sense. -/
def Record.Settings (r : Record) : Prop :=
  r.configured ≤ 1 ∧ r.enabled ≤ 1 ∧ r.ssidLength.toNat ≤ ssidMax ∧
    r.passwordLength.toNat ≤ passwordMax ∧ (r.configured ≠ 0 → r.ssidLength ≠ 0)

instance (r : Record) : Decidable r.Settings :=
  inferInstanceAs (Decidable (_ ∧ _ ∧ _ ∧ _ ∧ (_ → _)))

/-- `record_valid`. -/
def recordValid (r : Record) : Bool :=
  r.magic == recordMagic && r.schema == recordSchema && r.recordSize == recordBytes &&
    decide r.Settings && recordChecksum r == r.checksum

/-- The header that `record_prepare` writes, before the checksum. -/
def Record.headed (r : Record) : Record :=
  { r with magic := recordMagic, schema := recordSchema, recordSize := recordBytes }

/-- `record_prepare`. -/
def recordPrepare (r : Record) : Record := { r.headed with checksum := recordChecksum r.headed }

/-- What the key holds: nothing, or a blob that has the size of a record or not. -/
inductive Stored
  | absent
  | blob (record : Record)
  | otherSize

/-- How the calls of `persist_record` end. -/
structure PersistAnswers where
  opened : Bool := true
  set : Bool := true
  committed : Bool := true
  deriving DecidableEq

/-- `persist_record`. What is set becomes durable with the commit. -/
def persistRecord (stored : Stored) (r : Record) (a : PersistAnswers) : Bool × Stored :=
  if a.opened && a.set && a.committed then (true, .blob (recordPrepare r)) else (false, stored)

/-- The defaults that a board is built with, as C strings. -/
structure Defaults where
  ssid : List UInt8 := []
  password : List UInt8 := []
  deriving DecidableEq

def hexDigit (c : UInt8) : Bool :=
  (0x30 ≤ c && c ≤ 0x39) || (0x61 ≤ c && c ≤ 0x66) || (0x41 ≤ c && c ≤ 0x46)

/-- `password_valid`. -/
def passwordValid (password : List UInt8) (length : ℕ) : Bool :=
  if length = 0 then true
  else if length = passwordMax then (password.take length).all hexDigit
  else if length < 8 ∨ length > 63 then false
  else (password.take length).all fun c => !(c < 0x20 || c > 0x7e)

/-- How the calls at boot end. -/
structure BootAnswers where
  opened : Bool := true
  got : Bool := true
  persist : PersistAnswers := {}
  deriving DecidableEq

/-- The record at boot, with `s_configuration_error` and what the storage holds then. -/
structure Restored where
  persisted : Record := {}
  configurationError : Bool := false
  stored : Stored

/-- `restore_factory_defaults`. -/
def restoreFactoryDefaults (d : Defaults) (stored : Stored) (a : PersistAnswers) : Restored :=
  let invalid := decide (d.ssid.length > ssidMax) || !passwordValid d.password d.password.length
  if d.ssid.length ≠ 0 ∧ !invalid then
    let record : Record := {
      configured := 1
      enabled := 1
      revision := 1
      ssidLength := d.ssid.length.toUInt8
      passwordLength := d.password.length.toUInt8
      ssid := memcpy (cleared ssidMax) d.ssid d.ssid.length
      password := memcpy (cleared passwordMax) d.password d.password.length }
    match persistRecord stored record a with
    | (true, stored) => { persisted := record, stored := stored }
    | (false, stored) => { configurationError := true, stored := stored }
  else { configurationError := invalid, stored := stored }

/-- `restore_record_from_nvs`. -/
def restoreRecordFromNvs (d : Defaults) (stored : Stored) (a : BootAnswers) : Restored :=
  if !a.opened then { configurationError := true, stored := stored }
  else
    match stored with
    | .absent => restoreFactoryDefaults d stored a.persist
    | .otherSize => { configurationError := true, stored := stored }
    | .blob r =>
      if a.got && recordValid r then { persisted := r, stored := stored }
      else { configurationError := true, stored := stored }

/-! ## Records that have been prepared -/

/-- A prepared record is valid at the next boot if its settings make sense, and only then. -/
theorem recordValid_prepare (r : Record) : recordValid (recordPrepare r) = decide r.Settings := by
  have hs : (recordPrepare r).Settings ↔ r.Settings := Iff.rfl
  have hc : recordChecksum (recordPrepare r) = (recordPrepare r).checksum := rfl
  simp only [recordValid, hc, hs, beq_self_eq_true, Bool.and_true]
  rfl

@[simp] lemma persistRecord_fst (stored : Stored) (r : Record) (a : PersistAnswers) :
    (persistRecord stored r a).1 = (a.opened && a.set && a.committed) := by
  unfold persistRecord
  split_ifs with h <;> simp [h]

end EspVision.NetworkService
