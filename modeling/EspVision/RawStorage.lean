import EspVision.BoundedText
import EspVision.ByteMedium
import EspVision.Dialogue

/-!
# Raw access to the flash partition and the SD card (`storage.c`)

Both are media of bytes that are written in blocks: 4096 bytes of flash after an erase, sectors of
512 bytes on the card. The drivers' calls may fail, and then leave any bytes in the blocks that they
were to change. Sizes and offsets are 32 bits wide, addresses on the card 64 bits.
-/
namespace EspVision.RawStorage
open Dialogue ByteMedium
open BoundedText (overlay)

abbrev Bytes := List UInt8
abbrev Medium := ℕ → UInt8

/-- `ESP_VISION_STORAGE_BLOCK_SIZE`. -/
def blockSize : ℕ := 512
/-- `ESP_VISION_STORAGE_ERASE_BLOCK_SIZE`. -/
def eraseBlockSize : ℕ := 4096

inductive EspErr
  | invalidArg | invalidState | invalidSize | timeout | notSupported
  | driver (code : ℤ)

/-- What a failed call left in the blocks that it was to change. -/
structure Damage where
  error : EspErr
  left : Medium

/-- The calls of the drivers and of the mutexes. -/
inductive Call
  | take
  | give
  /-- `esp_partition_read`, `esp_partition_erase_range`, `esp_partition_write`. -/
  | read (address length : ℕ)
  | erase (address length : ℕ)
  | write (address : ℕ) (data : Bytes)
  /-- `sdmmc_read_sectors`, `sdmmc_write_sectors`. -/
  | readSectors (block count : ℕ)
  | writeSectors (block : ℕ) (data : Bytes)

@[reducible] def Call.Value : Call → Type
  | .take => Bool
  | .give => Unit
  | .read _ _ => Except EspErr Unit
  | .readSectors _ _ => Except EspErr Unit
  | _ => Except Damage Unit

abbrev Flow := Prog Medium Call.Value EspErr

def ask (c : Call) : Flow c.Value := call c

/-- A buffer that is `NULL`, or holds the data. -/
inductive Buffer
  | null (length : ℕ)
  | holds (data : Bytes)
  deriving DecidableEq

def Buffer.length : Buffer → ℕ
  | .null length => length
  | .holds data => data.length

def Buffer.data : Buffer → Bytes
  | .null _ => []
  | .holds data => data

/-- The part that is used. -/
def Buffer.take (n : ℕ) : Buffer → Buffer
  | .null _ => .null n
  | .holds data => .holds (data.take n)

def Buffer.isNull : Buffer → Bool
  | .null _ => true
  | .holds _ => false

/-- A call under a mutex, which is given back however the call ends. -/
def locked {α : Type} (p : Flow α) : Flow α := do
  let taken ← ask .take
  failIf (taken = false) .timeout
  andFinally p (ask .give)

/-! ## The flash partition -/

/-- `esp_partition_t`. -/
structure Partition where
  size : ℕ
  size_lt : size < 2 ^ 32

/-- `s_flash_partition` and whether there is an `s_flash_mutex`. -/
structure Flash where
  partition : Option Partition
  mutex : Bool

/-- The partition driver refuses what is not in the partition. -/
def inPartition (p : Partition) (address length : ℕ) : Flow Unit := do
  failIf (p.size < address) .invalidArg
  failIf (p.size < address + length) .invalidSize

def partitionRead (p : Partition) (address length : ℕ) : Flow Bytes := do
  inPartition p address length
  match ← ask (.read address length) with
  | .error e => fail e
  | .ok () => do
    let m ← getState
    pure (window m address length)

def partitionErase (p : Partition) (address length : ℕ) : Flow Unit := do
  inPartition p address length
  failIf (address % eraseBlockSize ≠ 0 ∨ length % eraseBlockSize ≠ 0) .invalidSize
  match ← ask (.erase address length) with
  | .error damage => do
    update (splice address length damage.left)
    fail damage.error
  | .ok () => update (splice address length fun _ => 0xff)

/-- Programming only clears bits. -/
def partitionWrite (p : Partition) (address : ℕ) (data : Bytes) : Flow Unit := do
  inPartition p address data.length
  match ← ask (.write address data) with
  | .error damage => do
    update (splice address data.length damage.left)
    fail damage.error
  | .ok () =>
    update fun m => put address (List.zipWith (· &&& ·) (window m address data.length) data) m

/-- `esp_vision_storage_flash_range_valid`. -/
def flashRangeValid (f : Flash) (address length : ℕ) : Option Partition :=
  f.partition.filter fun p => address ≤ p.size && length ≤ p.size - address

/-- The checks in front of a flash access. -/
def flashChecked (f : Flash) (address : ℕ) (missing : Bool) (length : ℕ) :
    Except EspErr Partition :=
  if missing = true ∧ length ≠ 0 then .error .invalidArg
  else
    match flashRangeValid f address length with
    | none => .error .invalidArg
    | some p => if f.mutex = false then .error .invalidState else .ok p

/-- `esp_vision_storage_flash_read`; `missing` for a buffer that is `NULL`. -/
def flashRead (f : Flash) (address : ℕ) (missing : Bool) (length : ℕ) : Flow Bytes := do
  let p ← lift (flashChecked f address missing length)
  locked (partitionRead p address length)

/-- One turn of the loop of `esp_vision_storage_flash_write`. -/
def flashWriteTurn (p : Partition) (eraseBase eraseOffset writeLen : ℕ) (src : Bytes) : Flow Unit :=
  if eraseOffset = 0 ∧ writeLen = eraseBlockSize then do
    partitionErase p eraseBase eraseBlockSize
    partitionWrite p eraseBase (src.take eraseBlockSize)
  else do
    let cache ← partitionRead p eraseBase eraseBlockSize
    let cache := overlay cache eraseOffset (src.take writeLen)
    partitionErase p eraseBase eraseBlockSize
    partitionWrite p eraseBase cache

/-- The loop of `esp_vision_storage_flash_write`; as many turns as there are bytes are enough. -/
def flashWriteLoop (p : Partition) : ℕ → ℕ → Bytes → Flow Unit
  | 0, _, _ => pure ()
  | turns + 1, address, src =>
    if src.length = 0 then pure ()
    else do
      let eraseBase := address / eraseBlockSize * eraseBlockSize
      let eraseOffset := address - eraseBase
      let writeLen := min (eraseBlockSize - eraseOffset) src.length
      flashWriteTurn p eraseBase eraseOffset writeLen src
      flashWriteLoop p turns ((address + writeLen) % 2 ^ 32) (src.drop writeLen)

/-- `esp_vision_storage_flash_write`. -/
def flashWrite (f : Flash) (address : ℕ) (buffer : Buffer) : Flow Unit := do
  let p ← lift (flashChecked f address buffer.isNull buffer.length)
  locked (flashWriteLoop p buffer.data.length address buffer.data)

/-! ## The sectors of FatFs on the flash -/

inductive DResult
  | ok | error | parErr
  deriving DecidableEq

/-- The range of `count` sectors, or `none` where it is refused. -/
def diskRange (drive : Bool) (sector count : ℕ) : Option (ℕ × ℕ) :=
  let address := sector * blockSize
  let length := count * blockSize
  if drive = false ∨ count = 0 ∨ 2 ^ 32 - 1 < address ∨ 2 ^ 32 - 1 < length then none
  else some (address % 2 ^ 32, length)

/-- `esp_vision_storage_disk_read`; `drive` when it is the drive of the flash. -/
def diskRead (f : Flash) (drive missing : Bool) (sector count : ℕ) : Flow (DResult × Bytes) :=
  match diskRange drive sector count with
  | none => pure (.parErr, [])
  | some (address, length) =>
    attempt (do
      let data ← flashRead f address missing length
      pure (.ok, data)) fun _ => pure (.error, [])

/-- `esp_vision_storage_disk_write`. -/
def diskWrite (f : Flash) (drive : Bool) (sector count : ℕ) (buffer : Buffer) : Flow DResult :=
  match diskRange drive sector count with
  | none => pure .parErr
  | some (address, length) =>
    attempt (do
      flashWrite f address (buffer.take length)
      pure .ok) fun _ => pure .error

/-! ## The SD card -/

/-- `csd` of an `sdmmc_card_t`. -/
structure Card where
  capacity : ℕ
  sectorSize : ℕ
  capacity_lt : capacity < 2 ^ 31
  sectorSize_lt : sectorSize < 2 ^ 31

/-- `s_sdcard_mounted`, `s_sdcard`, and whether there is an `s_sdcard_mutex`. -/
structure SdCard where
  mounted : Bool
  card : Option Card
  mutex : Bool

def readSectors (c : Card) (block count : ℕ) : Flow Bytes := do
  match ← ask (.readSectors block count) with
  | .error e => fail e
  | .ok () => do
    let m ← getState
    pure (window m (block * c.sectorSize) (count * c.sectorSize))

/-- The data is a number of whole sectors. -/
def writeSectors (c : Card) (block : ℕ) (data : Bytes) : Flow Unit := do
  match ← ask (.writeSectors block data) with
  | .error damage => do
    update (splice (block * c.sectorSize) data.length damage.left)
    fail damage.error
  | .ok () => update (put (block * c.sectorSize) data)

/-- `esp_vision_storage_sdcard_range_valid`. -/
def sdcardRangeValid (s : SdCard) (address length : ℕ) : Option Card :=
  s.card.filter fun c => s.mounted && (c.sectorSize == blockSize) &&
    (address ≤ c.capacity * c.sectorSize && length ≤ c.capacity * c.sectorSize - address)

/-- The checks in front of an access to the card. -/
def sdcardChecked (s : SdCard) (address : ℕ) (missing : Bool) (length : ℕ) : Except EspErr Card :=
  if missing = true ∧ length ≠ 0 then .error .invalidArg
  else
    match sdcardRangeValid s address length with
    | none => .error .invalidArg
    | some c => if s.mutex = false then .error .invalidState else .ok c

/-- The loop of `esp_vision_storage_sdcard_read_locked`. -/
def sdcardReadLoop (c : Card) : ℕ → ℕ → ℕ → Flow Bytes
  | 0, _, _ => pure []
  | turns + 1, address, length =>
    if length = 0 then pure []
    else do
      let block := address / c.sectorSize % 2 ^ 32
      let offset := address % c.sectorSize
      let chunk := min (c.sectorSize - offset) length
      if offset = 0 ∧ chunk = c.sectorSize then do
        let blockCount := length / c.sectorSize
        let data ← readSectors c block blockCount
        let chunk := blockCount * c.sectorSize
        let rest ← sdcardReadLoop c turns ((address + chunk) % 2 ^ 64) (length - chunk)
        pure (data ++ rest)
      else do
        let cache ← readSectors c block 1
        let rest ← sdcardReadLoop c turns ((address + chunk) % 2 ^ 64) (length - chunk)
        pure ((cache.drop offset).take chunk ++ rest)

/-- The loop of `esp_vision_storage_sdcard_write_locked`. -/
def sdcardWriteLoop (c : Card) : ℕ → ℕ → Bytes → Flow Unit
  | 0, _, _ => pure ()
  | turns + 1, address, src =>
    if src.length = 0 then pure ()
    else do
      let block := address / c.sectorSize % 2 ^ 32
      let offset := address % c.sectorSize
      let chunk := min (c.sectorSize - offset) src.length
      if offset = 0 ∧ chunk = c.sectorSize then do
        let blockCount := src.length / c.sectorSize
        let chunk := blockCount * c.sectorSize
        writeSectors c block (src.take chunk)
        sdcardWriteLoop c turns ((address + chunk) % 2 ^ 64) (src.drop chunk)
      else do
        let cache ← readSectors c block 1
        writeSectors c block (overlay cache offset (src.take chunk))
        sdcardWriteLoop c turns ((address + chunk) % 2 ^ 64) (src.drop chunk)

/-- `esp_vision_storage_sdcard_read`. -/
def sdcardRead (s : SdCard) (address : ℕ) (missing : Bool) (length : ℕ) : Flow Bytes := do
  let c ← lift (sdcardChecked s address missing length)
  locked (sdcardReadLoop c length address length)

/-- `esp_vision_storage_sdcard_write`. -/
def sdcardWrite (s : SdCard) (address : ℕ) (buffer : Buffer) : Flow Unit := do
  let c ← lift (sdcardChecked s address buffer.isNull buffer.length)
  locked (sdcardWriteLoop c buffer.data.length address buffer.data)

end EspVision.RawStorage
