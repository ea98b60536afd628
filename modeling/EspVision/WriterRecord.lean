import EspVision.WriterGate

/-!
# The storage writer record (`storage_writer_msc.c`)

The gate of a volume does not survive a reset; a record in non-volatile storage does. This module
has the record, the checks when it is stored, and the gate that `esp_vision_msc_writer_init` makes
of what it reads. A character array is the list of its bytes, a C string a list without a zero.
-/
namespace EspVision.StorageWriter

def recordMagic : ℕ := 0x45565747
def recordVersion : ℕ := 1

/-- `writer_persist_state_t`. -/
inductive Persist
  | host | handoff | leased | quarantine | managedHost
  deriving DecidableEq

def Persist.code : Persist → ℕ
  | .host => 1
  | .handoff => 2
  | .leased => 3
  | .quarantine => 4
  | .managedHost => 5

def Persist.ofCode : ℕ → Option Persist
  | 1 => some .host
  | 2 => some .handoff
  | 3 => some .leased
  | 4 => some .quarantine
  | 5 => some .managedHost
  | _ => none

/-- `writer_record_t`. -/
structure Record where
  magic : ℕ
  version : ℕ
  state : ℕ
  operationId : List UInt8
  leaseId : List UInt8
  sessionId : List UInt8

/-- The string in a character array. -/
def cString (buffer : List UInt8) : List UInt8 := buffer.takeWhile (· != 0)

def isHexDigit (c : UInt8) : Bool := (0x30 ≤ c && c ≤ 0x39) || (0x61 ≤ c && c ≤ 0x66)

/-- `writer_hex_id`. -/
def hexId (value : List UInt8) : Bool := value.length == 32 && value.all isHexDigit

def hexDigitOf (n : UInt8) : UInt8 := if n < 10 then 0x30 + n else 0x61 + (n - 10)

/-- `writer_hex_encode`. -/
def hexEncode (input : List UInt8) : List UInt8 :=
  input.flatMap fun (b : UInt8) => [hexDigitOf (b >>> 4), hexDigitOf (b &&& 0x0f)]

/-- `writer_record_valid`. -/
def Record.valid (r : Record) : Bool :=
  r.magic == recordMagic && r.version == recordVersion &&
    r.operationId.contains 0 && r.leaseId.contains 0 && r.sessionId.contains 0 &&
    match Persist.ofCode r.state with
    | some .leased => hexId (cString r.operationId) && hexId (cString r.leaseId) &&
        hexId (cString r.sessionId)
    | some _ => r.operationId.head? == some 0 && r.leaseId.head? == some 0 &&
        r.sessionId.head? == some 0
    | none => false

/-- The identifiers of a lease. -/
structure LeaseIds where
  operationId : List UInt8
  leaseId : List UInt8
  sessionId : List UInt8
  deriving DecidableEq

def LeaseIds.valid (ids : LeaseIds) : Bool :=
  hexId ids.operationId && hexId ids.leaseId && hexId ids.sessionId

/-- An array of 33 characters. -/
def emptyId : List UInt8 := List.replicate 33 0

/-- The record that `writer_store` makes; only a lease has identifiers. -/
def Record.make (state : Persist) (ids : LeaseIds) : Record :=
  if state = .leased then
    ⟨recordMagic, recordVersion, state.code, ids.operationId ++ [0], ids.leaseId ++ [0],
      ids.sessionId ++ [0]⟩
  else ⟨recordMagic, recordVersion, state.code, emptyId, emptyId, emptyId⟩

/-- What the key of the volume holds: nothing, or a blob that has the size of a record or not. -/
inductive Stored
  | absent
  | blob (record : Record)
  | otherSize

/-- `writer_load_record`; `readable` tells whether the storage answers at all. -/
def loadRecord (stored : Stored) (readable : Bool) : Option Record :=
  if !readable then none
  else
    match stored with
    | .absent => some (.make .host ⟨[], [], []⟩)
    | .blob r => if r.valid then some r else none
    | .otherSize => none

/-- The state that a reset would find; `none` is an unreadable or malformed record. -/
def Stored.state (stored : Stored) : Option Persist :=
  (loadRecord stored true).bind fun r => Persist.ofCode r.state

/-- The gate after `esp_vision_msc_writer_init`. -/
def bootGate (state : Option Persist) : Gate :=
  match state with
  | some .host => .init false false
  | some .managedHost => { Gate.init false false with managed := true }
  | some .handoff => .init false true
  | some .leased => .init true false
  | some .quarantine => .init true false
  | none => .init true false

/-- The record in memory after `esp_vision_msc_writer_init`. -/
def bootRecord (loaded : Option Record) : Record :=
  loaded.getD ⟨recordMagic, recordVersion, Persist.quarantine.code, emptyId, emptyId, emptyId⟩

/-- `writer_store_state_allowed`. -/
def storeStateAllowed (g : Gate) (state : Persist) : Bool :=
  match state with
  | .quarantine => g.quarantined
  | .host => !g.quarantined && (!g.managed && !g.transitionPending && !g.leaseHeld)
  | .handoff => !g.quarantined && (g.managed && g.transitionPending)
  | .managedHost => !g.quarantined && (g.managed && g.transitionPending)
  | .leased => !g.quarantined && (g.transitionPending && !g.leaseHeld)

/-- The check of `writer_store` behind the write. -/
def stillAllowed (g : Gate) (state : Persist) : Bool :=
  match state with
  | .quarantine => g.quarantined
  | .leased => !g.quarantined && g.transitionPending
  | _ => !g.quarantined && g.transitionPending && g.managed

/-! ## Identifiers -/

lemma hexDigitOf_isHexDigit {n : UInt8} (h : n < 16) : isHexDigit (hexDigitOf n) = true := by
  have hn : n.toNat < 16 := h
  obtain ⟨k, hk⟩ : ∃ k : Fin 16, n = UInt8.ofNat k := ⟨⟨n.toNat, hn⟩, by simp⟩
  subst hk
  revert k
  decide

lemma hexEncode_hexId {random : List UInt8} (h : random.length = 16) :
    hexId (hexEncode random) = true := by
  have hlen : ∀ l : List UInt8, (hexEncode l).length = 2 * l.length := by
    intro l
    induction l with
    | nil => rfl
    | cons b l ih =>
      rw [hexEncode, List.flatMap_cons, ← hexEncode, List.length_append, ih, List.length_cons]
      simp only [List.length_cons, List.length_nil]
      omega
  have hall : ∀ c ∈ hexEncode random, isHexDigit c = true := by
    intro c hc
    obtain ⟨b, -, hb⟩ := List.mem_flatMap.mp hc
    have hhigh : b >>> 4 < 16 := by
      have hb' := b.toNat_lt
      rw [UInt8.lt_iff_toNat_lt, UInt8.toNat_shiftRight]
      simp only [UInt8.reduceToNat, Nat.reduceMod, Nat.shiftRight_eq_div_pow]
      omega
    have hlow : b &&& 0x0f < 16 := by
      rw [UInt8.lt_iff_toNat_lt, UInt8.toNat_and]
      exact lt_of_le_of_lt Nat.and_le_right (by decide)
    simp only [List.mem_cons, List.not_mem_nil, or_false] at hb
    rcases hb with rfl | rfl
    · exact hexDigitOf_isHexDigit hhigh
    · exact hexDigitOf_isHexDigit hlow
  simp only [hexId, hlen, h, Bool.and_eq_true, List.all_eq_true]
  exact ⟨rfl, hall⟩

/-- A hexadecimal string is read back from its array. -/
lemma cString_hexId {value : List UInt8} (h : hexId value = true) :
    cString (value ++ [0]) = value := by
  simp only [hexId, Bool.and_eq_true, List.all_eq_true] at h
  have hne : ∀ c ∈ value, (c != 0) = true := by
    intro c hc
    rw [bne_iff_ne]
    rintro rfl
    exact absurd (h.2 0 hc) (by decide)
  rw [cString, List.takeWhile_append_of_pos hne]
  simp

/-! ## What a stored record is read as -/

lemma state_blob (r : Record) :
    (Stored.blob r).state = if r.valid then Persist.ofCode r.state else none := by
  simp only [Stored.state, loadRecord, Bool.not_true, Bool.false_eq_true, if_false]
  split_ifs <;> rfl

lemma make_valid {state : Persist} (ids : LeaseIds) (h : state ≠ .leased) :
    (Record.make state ids).valid = true := by
  have hmake : Record.make state ids = Record.make state ⟨[], [], []⟩ := by
    simp only [Record.make, if_neg h]
  rw [hmake]
  cases state <;> first | decide | exact absurd rfl h

@[simp] lemma state_make {state : Persist} (ids : LeaseIds) (h : state ≠ .leased) :
    (Stored.blob (.make state ids)).state = some state := by
  rw [state_blob, if_pos (make_valid ids h), Record.make, if_neg h]
  cases state <;> rfl

/-- The states that a reset does not answer with a quarantine. -/
def Persist.open? : Option Persist → Bool
  | some .host | some .managedHost | some .handoff => true
  | _ => false

lemma state_make_leased (ids : LeaseIds) :
    Persist.open? (Stored.blob (.make .leased ids)).state = false := by
  rw [state_blob]
  split_ifs <;> rfl

/-- Anything else than a host or a handoff record is answered with a quarantine. -/
theorem bootGate_quarantined {state : Option Persist} (h : Persist.open? state = false) :
    (bootGate state).quarantined = true ∧ (bootGate state).hostWritable = false ∧
      (bootGate state).handoffReady = false := by
  cases state with
  | none => exact ⟨rfl, rfl, rfl⟩
  | some s => cases s <;> first | exact ⟨rfl, rfl, rfl⟩ | cases h

end EspVision.StorageWriter
