import EspVision.BoundedText
import EspVision.LenientJson
import EspVision.NetworkService

/-!
# The status reply of the network service (`write_status`)

The snapshot is written as JSON into the response buffer by a row of calls that each do nothing
once a text did not fit. The row is compared with the text that it stands for: a row in which every
string is followed by enough text leaves all of it or nothing.
-/
namespace EspVision.NetworkStatus
open Json EvControlJson BoundedText NetworkService
open LenientJson (ascii asString asBool asU32)

/-! ## The snapshot -/

/-- `esp_vision_network_state_t`. -/
inductive NetworkState
  | unsupported | unconfigured | disabled | connecting | online | retryWait
  deriving DecidableEq

/-- What the service keeps of an operation that it reports. -/
structure Reported (o : Operation) : Prop where
  id : lowerHexOperationId o.id = true
  state : o.state ≠ .none

/-- `esp_vision_network_snapshot_t`; the texts are C strings. -/
structure Snapshot where
  supported : Bool
  enabled : Bool
  configured : Bool
  configurationError : Bool
  runtimeOverride : Bool
  state : NetworkState
  configRevision : UInt32
  ssid : List UInt8
  ipv4 : List UInt8
  hasOperation : Bool
  hasLastOperation : Bool
  operation : Operation
  lastOperation : Operation
  ssidFits : ssid.length ≤ ssidMax ∧ ∀ b ∈ ssid, b ≠ 0
  ipv4Fits : ipv4.length < 16 ∧ ∀ b ∈ ipv4, isDigit b = true ∨ b = 0x2e
  present : hasOperation = true → Reported operation
  last : hasLastOperation = true → Reported lastOperation

/-! ## Names -/

/-- `state_name`. -/
def stateName : NetworkState → List UInt8
  | .unsupported => ascii "unsupported"
  | .unconfigured => ascii "unconfigured"
  | .disabled => ascii "disabled"
  | .connecting => ascii "connecting"
  | .online => ascii "online"
  | .retryWait => ascii "retry_wait"

/-- `operation_state_name`. -/
def operationStateName : OperationState → List UInt8
  | .queued => ascii "queued"
  | .running => ascii "running"
  | .succeeded => ascii "succeeded"
  | .failed => ascii "failed"
  | .none => ascii "queued"

/-- `action_name`. -/
def actionName : Action → List UInt8
  | .configure => ascii "network.configure"
  | .enable => ascii "network.enable"
  | .forget => ascii "network.forget"
  | .none => ascii "network.status"

/-- `error_name`. -/
def errorName : Error → List UInt8
  | .authFailed => ascii "AUTH_FAILED"
  | .apNotFound => ascii "AP_NOT_FOUND"
  | .connectTimeout => ascii "CONNECT_TIMEOUT"
  | .ipTimeout => ascii "IP_TIMEOUT"
  | .persistFailed => ascii "PERSIST_FAILED"
  | .driverError => ascii "DRIVER_ERROR"
  | .none => []

/-- `error_message`. -/
def errorMessage : Error → List UInt8
  | .authFailed => ascii "Authentication failed"
  | .apNotFound => ascii "Access point not found"
  | .connectTimeout => ascii "Connection timed out"
  | .ipTimeout => ascii "IP address timed out"
  | .persistFailed => ascii "Could not persist network configuration"
  | .driverError => ascii "Wi-Fi driver operation failed"
  | .none => []

/-! ## The helpers -/

/-- The body of the loop of `json_append_string`. -/
def appendChar (capacity : ℕ) (c : UInt8) (b : Buffer) : Buffer :=
  if c = quote ∨ c = backslash then put c (put backslash b)
  else if c = 0x08 then append capacity (ascii "\\b") b
  else if c = 0x0c then append capacity (ascii "\\f") b
  else if c = 0x0a then append capacity (ascii "\\n") b
  else if c = 0x0d then append capacity (ascii "\\r") b
  else if c = 0x09 then append capacity (ascii "\\t") b
  else if c < 0x20 then
    append capacity (ascii "\\u" ++ Scanf.padStart 4 (Scanf.numeral 16 c.toNat)) b
  else put c b

/-- The loop of `json_append_string`. -/
def appendChars (capacity : ℕ) : List UInt8 → Buffer → Buffer
  | [], b => b
  | c :: rest, b =>
    if b.length + 8 < capacity then appendChars capacity rest (appendChar capacity c b) else b

/-- `json_append_string`. -/
def appendString (capacity : ℕ) (text : List UInt8) (b : Buffer) : Buffer :=
  let b := appendChars capacity text (append capacity [quote] b)
  if b.length + 1 < capacity then
    let b := put quote b
    ⟨overlay b.cells b.length [0], b.length⟩
  else if capacity ≠ 0 then ⟨overlay b.cells (capacity - 1) [0], capacity⟩
  else b

/-- A call of `json_append` or `json_append_format`, with the text that the format stands for, or
of `json_append_string`. -/
inductive Call
  | text (t : List UInt8)
  | string (s : List UInt8)
  deriving DecidableEq

def Call.perform (capacity : ℕ) (b : Buffer) : Call → Buffer
  | .text t => append capacity t b
  | .string s => appendString capacity s b

/-! ## The reply -/

/-- `write_operation`. -/
def writeOperation (o : Operation) : List Call :=
  [Call.text (ascii "\x7b\"id\":"), .string o.id, .text (ascii ",\"action\":"),
    .string (actionName o.action), .text (ascii ",\"state\":"),
    .string (operationStateName o.state), .text (ascii ",\"error\":")] ++
  if o.error = .none then [Call.text (ascii "null\x7d")]
  else
    [Call.text (ascii "\x7b\"code\":"), .string (errorName o.error), .text (ascii ",\"message\":"),
      .string (errorMessage o.error), .text (ascii "\x7d\x7d")]

/-- A string, or `null` for an empty one. -/
def stringOrNull (s : List UInt8) : Call :=
  if s = [] then .text (ascii "null") else .string s

/-- An operation, or `null`. -/
def operationOrNull (has : Bool) (o : Operation) : List Call :=
  if has then writeOperation o else [.text (ascii "null")]

/-- The format behind the address. -/
def revisionText (s : Snapshot) : List UInt8 :=
  ascii ",\"configRevision\":" ++ (Scanf.numeral 10 s.configRevision.toNat ++
    (ascii ",\"runtimeOverride\":" ++ (boolText s.runtimeOverride ++
      (ascii ",\"configurationError\":" ++ (boolText s.configurationError ++
        ascii ",\"operation\":")))))

/-- The calls of `write_status` up to the last operation. -/
def leadingCalls (s : Snapshot) : List Call :=
  [.text (ascii "\x7b\"ok\":true,\"action\":\"network.status\",\"supported\":"),
    .text (boolText s.supported), .text (ascii ",\"enabled\":"), .text (boolText s.enabled),
    .text (ascii ",\"configured\":"), .text (boolText s.configured), .text (ascii ",\"state\":"),
    .string (stateName s.state), .text (ascii ",\"ssid\":"), stringOrNull s.ssid,
    .text (ascii ",\"ipv4\":"), stringOrNull s.ipv4, .text (revisionText s)] ++
  operationOrNull s.hasOperation s.operation ++ [.text (ascii ",\"lastOperation\":")]

/-- The calls of `write_status`. -/
def statusCalls (s : Snapshot) : List Call :=
  leadingCalls s ++ (operationOrNull s.hasLastOperation s.lastOperation ++ [.text (ascii "\x7d")])

/-- `write_status`, with what it leaves in the buffer. -/
def writeStatus (output : List UInt8) (s : Snapshot) : Bool × List UInt8 :=
  if output.length = 0 then (false, output)
  else
    let b := (statusCalls s).foldl (Call.perform output.length) ⟨overlay output 0 [0], 0⟩
    (b.length < output.length, b.cells)

/-! ## What the helpers write -/

/-- A character between the quotes. -/
def escape (c : UInt8) : List UInt8 :=
  if c = quote ∨ c = backslash then [backslash, c]
  else if c = 0x08 then ascii "\\b"
  else if c = 0x0c then ascii "\\f"
  else if c = 0x0a then ascii "\\n"
  else if c = 0x0d then ascii "\\r"
  else if c = 0x09 then ascii "\\t"
  else if c < 0x20 then ascii "\\u" ++ Scanf.padStart 4 (Scanf.numeral 16 c.toNat)
  else [c]

/-- A string in quotes. -/
def quoted (s : List UInt8) : List UInt8 := quote :: (s.flatMap escape ++ [quote])

/-- What a call writes where everything fits. -/
def Call.whole : Call → List UInt8
  | .text t => t
  | .string s => quoted s

lemma Call.whole_text (t : List UInt8) : (Call.text t).whole = t := rfl

lemma Call.whole_string (s : List UInt8) : (Call.string s).whole = quoted s := rfl

/-- A character is written behind a backslash, as it is, or as a text of at most six bytes. -/
lemma appendChar_cases (c : UInt8) :
    (escape c = [backslash, c] ∧
        ∀ capacity b, appendChar capacity c b = put c (put backslash b)) ∨
      (escape c = [c] ∧ ∀ capacity b, appendChar capacity c b = put c b) ∨
      (0 < (escape c).length ∧ (escape c).length ≤ 6) ∧
        ∀ capacity b, appendChar capacity c b = append capacity (escape c) b := by
  unfold escape appendChar
  by_cases h1 : c = quote ∨ c = backslash
  · exact .inl ⟨if_pos h1, fun _ _ => if_pos h1⟩
  by_cases h2 : c = 0x08
  · simp only [if_neg h1, if_pos h2]
    exact .inr (.inr ⟨by decide +kernel, fun _ _ => trivial⟩)
  by_cases h3 : c = 0x0c
  · simp only [if_neg h1, if_neg h2, if_pos h3]
    exact .inr (.inr ⟨by decide +kernel, fun _ _ => trivial⟩)
  by_cases h4 : c = 0x0a
  · simp only [if_neg h1, if_neg h2, if_neg h3, if_pos h4]
    exact .inr (.inr ⟨by decide +kernel, fun _ _ => trivial⟩)
  by_cases h5 : c = 0x0d
  · simp only [if_neg h1, if_neg h2, if_neg h3, if_neg h4, if_pos h5]
    exact .inr (.inr ⟨by decide +kernel, fun _ _ => trivial⟩)
  by_cases h6 : c = 0x09
  · simp only [if_neg h1, if_neg h2, if_neg h3, if_neg h4, if_neg h5, if_pos h6]
    exact .inr (.inr ⟨by decide +kernel, fun _ _ => trivial⟩)
  simp only [if_neg h1, if_neg h2, if_neg h3, if_neg h4, if_neg h5, if_neg h6]
  by_cases h7 : c < 0x20
  · have hn : (Scanf.numeral 16 c.toNat).length ≤ 4 :=
      Scanf.numeral_length 16 (by decide) (by decide) (by have := c.toNat_lt; omega)
    simp only [if_pos h7, List.length_append, Scanf.padStart_length hn]
    exact .inr (.inr ⟨by decide +kernel, fun _ _ => trivial⟩)
  · simp only [if_neg h7]
    exact .inr (.inl ⟨trivial, fun _ _ => trivial⟩)

lemma escape_length (c : UInt8) : 0 < (escape c).length ∧ (escape c).length ≤ 6 := by
  rcases appendChar_cases c with ⟨h, -⟩ | ⟨h, -⟩ | ⟨h, -⟩
  · rw [h]
    exact ⟨Nat.succ_pos _, Nat.le_of_ble_eq_true rfl⟩
  · rw [h]
    exact ⟨Nat.succ_pos _, Nat.le_of_ble_eq_true rfl⟩
  · exact h

variable {capacity n : ℕ} {bs s : List UInt8} {b : Buffer} {x : Option (List UInt8)}

lemma appendChar_written (h : Written capacity bs b) (hroom : bs.length + 8 < capacity)
    (c : UInt8) : Written capacity (bs ++ escape c) (appendChar capacity c b) := by
  have hfit : bs.length + (escape c).length < capacity := by
    have := (escape_length c).2
    omega
  rcases appendChar_cases c with ⟨he, ha⟩ | ⟨he, ha⟩ | ⟨-, ha⟩
  · have htwo := (h.put backslash (by omega)).put c (by
      rw [List.length_append, List.length_singleton]
      omega)
    rw [List.append_assoc] at htwo
    rwa [ha, he]
  · rw [ha, he]
    exact h.put c (by omega)
  · rw [ha]
    exact (append_fits h hfit).1

/-- The part of a string that the loop writes, behind `n` characters. -/
def fitting (capacity : ℕ) : ℕ → List UInt8 → List UInt8
  | _, [] => []
  | n, c :: rest =>
    if n + 8 < capacity then c :: fitting capacity (n + (escape c).length) rest else []

lemma appendChars_written (h : Written capacity bs b) (s : List UInt8) :
    Written capacity (bs ++ (fitting capacity bs.length s).flatMap escape)
      (appendChars capacity s b) := by
  induction s generalizing bs b with
  | nil =>
    rw [fitting, List.flatMap_nil, List.append_nil]
    exact h
  | cons c rest ih =>
    rw [appendChars, fitting, h.length]
    split_ifs with hroom
    · have hnext := ih (appendChar_written h hroom c)
      rwa [List.length_append, List.append_assoc] at hnext
    · rw [List.flatMap_nil, List.append_nil]
      exact h

lemma appendChars_full (h : Full capacity b) (s : List UInt8) : appendChars capacity s b = b := by
  cases s with
  | nil => rfl
  | cons c rest =>
    have hl := h.length
    rw [appendChars, if_neg (by omega)]

/-- Where the loop stops early, no more than eight bytes are left. -/
lemma fitting_prefix (capacity n : ℕ) (s : List UInt8) :
    ∃ rest, s = fitting capacity n s ++ rest ∧
      (rest ≠ [] → capacity ≤ n + ((fitting capacity n s).flatMap escape).length + 8) := by
  induction s generalizing n with
  | nil => exact ⟨[], rfl, fun h => absurd rfl h⟩
  | cons c tail ih =>
    rw [fitting]
    split_ifs with hroom
    · obtain ⟨rest, heq, hstop⟩ := ih (n + (escape c).length)
      refine ⟨rest, by rw [List.cons_append, ← heq], fun hne => ?_⟩
      have hle := hstop hne
      rw [List.flatMap_cons, List.length_append]
      omega
    · refine ⟨c :: tail, rfl, fun _ => ?_⟩
      rw [List.flatMap_nil, List.length_nil]
      omega

lemma fitting_eq (h : n + (s.flatMap escape).length + 8 ≤ capacity) : fitting capacity n s = s := by
  induction s generalizing n with
  | nil => rfl
  | cons c tail ih =>
    have hpos := (escape_length c).1
    rw [List.flatMap_cons, List.length_append] at h
    rw [fitting, if_pos (by omega), ih (by omega)]

/-- The text behind `json_append_string`. -/
def appendedString (capacity : ℕ) (s : List UInt8) (x : Option (List UInt8)) :
    Option (List UInt8) :=
  (appended capacity [quote] x).bind fun bs =>
    appended capacity [quote] (some (bs ++ (fitting capacity bs.length s).flatMap escape))

lemma appendString_holds (h : Holds capacity x b) (s : List UInt8) :
    Holds capacity (appendedString capacity s x) (appendString capacity s b) := by
  have hopen := append_holds h [quote]
  unfold appendString appendedString
  dsimp only
  cases hx : appended capacity [quote] x with
  | none =>
    rw [hx] at hopen
    have hl := hopen.length
    have hpos := hopen.pos
    rw [appendChars_full hopen, if_neg (by omega), if_pos (by omega)]
    exact full_of_size hopen.size hpos
  | some bs =>
    rw [hx] at hopen
    have hbody := appendChars_written hopen.1 s
    rw [Option.bind_some, appended, Option.bind_some, List.length_singleton, hbody.length]
    split_ifs with hroom hpos
    · exact (hbody.put quote hroom).terminate
    · exact full_of_size hbody.size (by omega)
    · have := hbody.room
      omega

/-- The text behind a call. -/
def Call.apply (capacity : ℕ) (x : Option (List UInt8)) : Call → Option (List UInt8)
  | .text t => appended capacity t x
  | .string s => appendedString capacity s x

lemma calls_hold (h : Holds capacity x b) (calls : List Call) :
    Holds capacity (calls.foldl (Call.apply capacity) x)
      (calls.foldl (Call.perform capacity) b) := by
  induction calls generalizing x b with
  | nil => exact h
  | cons call rest ih =>
    refine ih ?_
    cases call with
    | text t => exact append_holds h t
    | string s => exact appendString_holds h s

/-! ## Rows of calls -/

/-- The text of a row of calls where everything fits. -/
def wholeText (calls : List Call) : List UInt8 := calls.flatMap Call.whole

/-- The text of the calls up to the next string. -/
def following : List Call → List UInt8
  | .text t :: rest => t ++ following rest
  | _ => []

/-- A string that the loop cut short leaves no room for what follows. -/
def Guarded : List Call → Prop
  | [] => True
  | .text _ :: rest => Guarded rest
  | .string _ :: rest => 7 ≤ (following rest).length ∧ Guarded rest

lemma apply_none (capacity : ℕ) (calls : List Call) :
    calls.foldl (Call.apply capacity) none = none := by
  induction calls with
  | nil => rfl
  | cons call rest ih => cases call <;> exact ih

/-- A string is written whole, or up to where no more than seven bytes are left behind it. -/
lemma appendedString_some {out : List UInt8} (h : appendedString capacity s (some bs) = some out) :
    out.length < capacity ∧ ∃ p rest, s = p ++ rest ∧ out = bs ++ quoted p ∧
      (rest ≠ [] → capacity ≤ out.length + 7) := by
  obtain ⟨mid, hopen, hclose⟩ := Option.bind_eq_some_iff.mp h
  rw [appended, Option.bind_some] at hopen hclose
  split_ifs at hopen hclose with h1 h2
  obtain rfl := Option.some.inj hopen
  obtain rfl := Option.some.inj hclose
  obtain ⟨rest, heq, hstop⟩ := fitting_prefix capacity (bs ++ [quote]).length s
  refine ⟨by rwa [List.length_append], _, rest, heq, by simp [quoted], fun hne => ?_⟩
  have hle := hstop hne
  simp only [List.length_append, List.length_singleton] at hle ⊢
  omega

lemma appendedString_eq (h : bs.length + (quoted s).length + 8 ≤ capacity) :
    appendedString capacity s (some bs) = some (bs ++ quoted s) := by
  have hlen : (quoted s).length = (s.flatMap escape).length + 2 := by
    rw [quoted, List.length_cons, List.length_append, List.length_singleton]
  have hopen : appended capacity [quote] (some bs) = some (bs ++ [quote]) := by
    rw [appended, Option.bind_some, List.length_singleton, if_pos (by omega)]
  have hfit : fitting capacity (bs ++ [quote]).length s = s := by
    refine fitting_eq ?_
    rw [List.length_append, List.length_singleton]
    omega
  rw [appendedString, hopen, Option.bind_some, hfit, appended, Option.bind_some, if_pos]
  · simp [quoted]
  · simp only [List.length_append, List.length_singleton]
    omega

/-- Where a row of calls fits, so does the text up to the next string. -/
lemma following_fits {calls : List Call} {out : List UInt8} (hroom : bs.length < capacity)
    (h : calls.foldl (Call.apply capacity) (some bs) = some out) :
    bs.length + (following calls).length < capacity := by
  induction calls generalizing bs with
  | nil => exact hroom
  | cons call rest ih =>
    cases call with
    | string s => exact hroom
    | text t =>
      rw [List.foldl_cons, Call.apply, appended, Option.bind_some] at h
      split_ifs at h with hfit
      · have hnext := ih (by rwa [List.length_append]) h
        rw [List.length_append] at hnext
        rw [following, List.length_append]
        omega
      · rw [apply_none] at h
        cases h

/-- A guarded row of calls writes everything or nothing. -/
lemma guarded_run {calls : List Call} {out : List UInt8} (hg : Guarded calls)
    (hroom : bs.length < capacity) (h : calls.foldl (Call.apply capacity) (some bs) = some out) :
    out = bs ++ wholeText calls ∧ out.length < capacity := by
  induction calls generalizing bs with
  | nil =>
    obtain rfl := Option.some.inj h
    exact ⟨(List.append_nil bs).symm, hroom⟩
  | cons call rest ih =>
    cases call with
    | text t =>
      rw [List.foldl_cons, Call.apply, appended, Option.bind_some] at h
      split_ifs at h with hfit
      · obtain ⟨heq, hlt⟩ := ih hg (by rwa [List.length_append]) h
        exact ⟨by rw [heq, List.append_assoc]; rfl, hlt⟩
      · rw [apply_none] at h
        cases h
    | string s =>
      rw [List.foldl_cons, Call.apply] at h
      cases hmid : appendedString capacity s (some bs) with
      | none =>
        rw [hmid, apply_none] at h
        cases h
      | some mid =>
        rw [hmid] at h
        obtain ⟨hlt, p, tail, rfl, rfl, hstop⟩ := appendedString_some hmid
        have hfollow := following_fits hlt h
        have htail : tail = [] := by
          by_contra hne
          have hle := hstop hne
          have hseven := hg.1
          omega
        subst htail
        obtain ⟨heq, hend⟩ := ih hg.2 hlt h
        exact ⟨by rw [heq, List.append_assoc, List.append_nil]; rfl, hend⟩

/-- A row of calls with eight bytes to spare writes everything. -/
lemma run_whole {calls : List Call} (h : bs.length + (wholeText calls).length + 8 ≤ capacity) :
    calls.foldl (Call.apply capacity) (some bs) = some (bs ++ wholeText calls) := by
  induction calls generalizing bs with
  | nil => exact congrArg some (List.append_nil bs).symm
  | cons call rest ih =>
    rw [wholeText, List.flatMap_cons, List.length_append] at h
    have hcall : call.apply capacity (some bs) = some (bs ++ call.whole) := by
      cases call with
      | text t =>
        rw [Call.whole] at h
        rw [Call.apply, appended, Option.bind_some, if_pos (by omega), Call.whole]
      | string s =>
        rw [Call.whole] at h
        exact appendedString_eq (by omega)
    rw [List.foldl_cons, hcall, ih, List.append_assoc]
    · rfl
    · rw [List.length_append, wholeText]
      omega

end EspVision.NetworkStatus
