import EspVision.TransitionSystem

/-!
# Mounting and formatting the internal volume (`storage_provision.c`)

One call is a list of what it does to the volume, to the record and to the writer gate, together
with the status it returns. The answers of the FAT driver, of the record storage and of the gate
are arguments. A reset during a call leaves a beginning of its list.
-/
namespace EspVision.StorageProvision

open TransitionSystem

def recordMagic : ℕ := 0x45564653
def recordVersion : ℕ := 1
def eraseSize : ℕ := 4096

/-- `esp_err_t`. -/
inductive Err
  | ok | fail | invalidArg | invalidState | notSupported | nvsNotFound
  | other (code : ℤ)
  deriving DecidableEq

/-- `FRESULT`. -/
inductive FResult
  | ok | noFilesystem | intErr
  | other (code : ℕ)
  deriving DecidableEq

/-- `esp_vision_storage_state_t`, as far as a mount reports it. -/
inductive State
  | unavailable | ready | unrecognized | blank | ioError | formatInterrupted | stateError
  | formatting
  deriving DecidableEq

/-- `esp_vision_storage_status_t`; no FAT result is `-1`. -/
structure Status where
  state : State := .unavailable
  error : Err := .invalidArg
  fatfsResult : Option FResult := none
  address : ℕ := 0
  size : ℕ := 0
  supported : Bool := true
  present : Bool := false
  mounted : Bool := false
  formatSupported : Bool := false

/-- `esp_partition_t`. -/
structure Partition where
  type : ℕ
  subtype : ℕ
  label : String
  address : ℕ
  size : ℕ
  deriving DecidableEq

/-- `ESP_PARTITION_TYPE_DATA`. -/
def partitionTypeData : ℕ := 0x01
/-- `ESP_PARTITION_SUBTYPE_DATA_FAT`. -/
def partitionSubtypeFat : ℕ := 0x81

def Partition.factoryFfat (p : Partition) : Bool :=
  p.type == partitionTypeData && p.subtype == partitionSubtypeFat && p.label == "ffat"

/-! ## The record -/

/-- `storage_provision_state_t`. -/
inductive Provision
  | pending | ready
  deriving DecidableEq

def Provision.code : Provision → ℕ
  | .pending => 1
  | .ready => 2

/-- `storage_provision_record_t`. -/
structure Record where
  magic : ℕ
  version : ℕ
  address : ℕ
  size : ℕ
  state : ℕ
  deriving DecidableEq

/-- What the key holds. -/
inductive Stored
  | absent
  | blob (record : Record)
  | otherSize
  deriving DecidableEq

def Record.valid (r : Record) : Bool :=
  r.magic == recordMagic && r.version == recordVersion &&
    (r.state == Provision.pending.code || r.state == Provision.ready.code)

/-- `storage_load_record`; the storage may fail with an error of its own. -/
def loadRecord (stored : Stored) (failure : Option ℤ) : Except Err Record :=
  match failure with
  | some code => .error (.other code)
  | none =>
    match stored with
    | .absent => .error .nvsNotFound
    | .blob r => if r.valid then .ok r else .error .invalidState
    | .otherSize => .error .invalidState

def Record.isPending (r : Record) : Bool := r.state == Provision.pending.code

/-- The record is one of this partition. -/
def Record.covers (r : Record) (p : Partition) : Bool := r.address == p.address && r.size == p.size

/-- The PENDING record that is stored, if any. -/
def Stored.pendingRecord : Stored → Option Record
  | .blob r => if r.valid && r.isPending then some r else none
  | _ => none

def Stored.isPending (s : Stored) : Bool := s.pendingRecord.isSome

def Stored.isPendingFor (s : Stored) (p : Partition) : Bool := s.pendingRecord.any (·.covers p)

/-- The record that `storage_save_record` writes. -/
def Record.make (p : Partition) (state : Provision) : Record :=
  ⟨recordMagic, recordVersion, p.address, p.size, state.code⟩

/-- How a save ends; a failed one may have written the record or not. -/
inductive Save
  | saved
  | failed (code : ℤ) (written : Bool)
  deriving DecidableEq

def Save.error : Save → Err
  | .saved => .ok
  | .failed code _ => .other code

def Save.durable : Save → Bool
  | .saved => true
  | .failed _ written => written

/-! ## One call -/

/-- The arguments; null pointers are named by what is there. -/
structure Call where
  hasStatus : Bool := true
  partition : Option Partition
  hasBuffers : Bool := true
  workSize : ℕ := eraseSize
  confirmedFormat : Bool
  formatIfNoFilesystem : Bool

/-- What `esp_vision_storage_partition_erased` finds. -/
inductive Scan
  | erased | notErased
  | readError (code : ℤ)
  deriving DecidableEq

/-- The answers of everything the call uses. -/
structure Answers where
  loadFailure : Option ℤ := none
  mount : FResult
  scan : Scan := .notErased
  openHandles : ℕ := 0
  vfsBegin : Bool := true
  savePending : Save := .saved
  mkfs : FResult := .ok
  remount : FResult := .ok
  saveReady : Save := .saved
  vfsFinish : Bool := true

/-- What a call does. -/
inductive Effect
  | mounted (result : FResult)
  | vfsBegun (ok : Bool)
  | saved (p : Partition) (state : Provision) (save : Save)
  | formatted (result : FResult)
  | vfsFinished (ok : Bool)

/-- From the PENDING record to the end of a format. -/
def format (p : Partition) (a : Answers) (status : Status) : List Effect × Status :=
  if a.savePending ≠ .saved then
    ([.saved p .pending a.savePending],
      { status with state := .stateError, error := a.savePending.error })
  else
    let result := if a.mkfs = .ok then a.remount else a.mkfs
    let effects := [Effect.saved p .pending a.savePending, .formatted a.mkfs] ++
      if a.mkfs = .ok then [Effect.mounted a.remount] else []
    if result ≠ .ok then
      (effects,
        { status with state := .formatInterrupted, fatfsResult := some result, error := .fail })
    else
      (effects ++ [.saved p .ready a.saveReady],
        { status with
          state := if a.saveReady = .saved then .ready else .formatInterrupted
          mounted := a.saveReady = .saved
          error := a.saveReady.error
          fatfsResult := some result })

/-- The automatic format holds an admission of the writer gate. -/
def admittedFormat (p : Partition) (a : Answers) (status : Status) : List Effect × Status :=
  let done := format p a status
  ([Effect.vfsBegun true] ++ done.1 ++ [Effect.vfsFinished a.vfsFinish],
    if a.vfsFinish then done.2
    else { done.2 with state := .unavailable, mounted := false, error := .invalidState })

/-- The call behind the record. -/
def mountRecorded (p : Partition) (c : Call) (a : Answers) (status : Status)
    (record : Option Record) : List Effect × Status :=
  if !c.confirmedFormat && record.any Record.isPending then
    ([], { status with state := .formatInterrupted, error := .invalidState })
  else
    let pending := record.any fun r => r.covers p && r.isPending
    let status := { status with fatfsResult := some a.mount }
    if a.mount = .ok ∧ pending = false then
      ([.mounted a.mount],
        { status with
          state := if c.confirmedFormat then .unavailable else .ready
          mounted := !c.confirmedFormat
          error := if c.confirmedFormat then .invalidState else .ok })
    else if a.mount ≠ .ok ∧ a.mount ≠ .noFilesystem ∧ a.mount ≠ .intErr then
      ([.mounted a.mount], { status with state := .ioError, error := .fail })
    else if c.confirmedFormat then
      ([.mounted a.mount] ++ (format p a status).1, (format p a status).2)
    else if c.formatIfNoFilesystem && p.factoryFfat && a.mount == .noFilesystem then
      if a.openHandles ≠ 0 then
        ([.mounted a.mount], { status with state := .unavailable, error := .invalidState })
      else if !a.vfsBegin then
        ([.mounted a.mount, .vfsBegun false],
          { status with state := .unavailable, error := .invalidState })
      else ([.mounted a.mount] ++ (admittedFormat p a status).1, (admittedFormat p a status).2)
    else
      ([.mounted a.mount],
        if a.mount = .noFilesystem then
          match a.scan with
          | .erased => { status with state := .blank, error := .invalidState }
          | .notErased => { status with state := .unrecognized, error := .invalidState }
          | .readError code => { status with state := .ioError, error := .other code }
        else { status with state := .unrecognized, error := .invalidState })

/-- The arguments are usable. -/
def Call.usable (c : Call) (p : Partition) : Bool :=
  c.hasBuffers && eraseSize ≤ c.workSize && p.size != 0 && p.size % eraseSize == 0

/-- `esp_vision_storage_mount_flash_fat`, with a status to write to. -/
def mountFlashFat (stored : Stored) (c : Call) (a : Answers) : List Effect × Status :=
  if !c.hasStatus then ([], {})
  else
    match c.partition with
    | none => ([], {})
    | some p =>
      if !c.usable p then ([], {})
      else
        let status : Status := {
          present := true
          address := p.address
          size := p.size
          formatSupported := p.factoryFfat }
        if c.confirmedFormat && !p.factoryFfat then ([], { status with error := .notSupported })
        else
          match if p.factoryFfat then loadRecord stored a.loadFailure else .error .nvsNotFound with
          | .error e =>
            if e = .nvsNotFound then mountRecorded p c a status none
            else ([], { status with state := .stateError, error := e })
          | .ok r => mountRecorded p c a status (some r)

/-! ## Sequences of calls -/

/-- What one effect makes of the record. -/
def Effect.store (stored : Stored) : Effect → Stored
  | .saved p state save => if save.durable then .blob (.make p state) else stored
  | _ => stored

def durableAfter (stored : Stored) (effects : List Effect) : Stored :=
  effects.foldl Effect.store stored

/-- A call, with the number of effects that a reset lets it have. -/
structure Attempt where
  call : Call
  answers : Answers
  cut : Option ℕ := none

def Attempt.effects (t : Attempt) (stored : Stored) : List Effect :=
  match t.cut with
  | none => (mountFlashFat stored t.call t.answers).1
  | some k => (mountFlashFat stored t.call t.answers).1.take k

/-- Calls and resets, from any record. -/
def provisioning : System Stored Attempt where
  init _ := True
  step stored t stored' := stored' = durableAfter stored (t.effects stored)

end EspVision.StorageProvision
