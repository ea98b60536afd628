import EspVision.PlainObject
import Mathlib.Data.Rat.Defs
import Mathlib.Algebra.Order.Ring.Rat

/-!
# Device actions, their schemas and the lease (`device_actions.js`)

Values of JavaScript with exact numbers. An input that passed a schema conforms to it: its fields
are known, the values are of the declared kinds and ranges, and nothing that is required is missing.
-/
namespace EspVision.DeviceActions
open PlainObject

inductive Number
  | rational (q : ℚ)
  | nan
  | infinite (negative : Bool)
  deriving DecidableEq

namespace Number

/-- `Number.isInteger`. -/
def isInteger : Number → Bool
  | rational q => q.den == 1
  | _ => false

def lt (n : Number) (bound : ℤ) : Bool :=
  match n with
  | rational q => q < bound
  | nan => false
  | infinite negative => negative

def gt (n : Number) (bound : ℤ) : Bool :=
  match n with
  | rational q => (bound : ℚ) < q
  | nan => false
  | infinite negative => !negative

end Number

/-- A value; objects list their own members in the order of their enumeration. -/
inductive Value
  | undefined
  | callable
  | null
  | bool (b : Bool)
  | number (n : Number)
  | text (t : Text)
  | array (items : List Value)
  | object (members : List (Text × Value))

namespace Value

def isUndefined : Value → Bool
  | undefined => true
  | _ => false

def isText : Value → Bool
  | text _ => true
  | _ => false

def isBool : Value → Bool
  | bool _ => true
  | _ => false

/-- An object that is no array. -/
def isObject : Value → Bool
  | object _ => true
  | _ => false

def isInteger : Value → Bool
  | number n => n.isInteger
  | _ => false

def isBelow (bound : ℤ) : Value → Bool
  | number n => n.lt bound
  | _ => false

def isAbove (bound : ℤ) : Value → Bool
  | number n => n.gt bound
  | _ => false

def isAmong (choices : List Text) : Value → Bool
  | text t => choices.contains t
  | _ => false

end Value

/-! ## Errors -/

/-- `DeviceActionError`. -/
structure ActionError where
  code : Text
  message : Text
  recovery : Option Text := none
  details : List (Text × Text) := []
  deriving DecidableEq

def commaSeparated (texts : List Text) : Text := (units ", ").intercalate texts

def invalidInput (message : Text) : ActionError := ⟨units "INVALID_INPUT", message, none, []⟩

def throwIf (wrong : Bool) (e : ActionError) : Except ActionError Unit :=
  if wrong then throw e else return

/-- Throws the message of an invalid input. -/
def refuseIf (wrong : Bool) (message : Text) : Except ActionError Unit :=
  throwIf wrong (invalidInput message)

/-! ## Schemas -/

inductive FieldType
  | string
  | boolean
  | object
  | integer
  deriving DecidableEq

structure FieldSchema where
  type : Option FieldType := none
  enum : Option (List Text) := none
  default : Option Value := none
  minimum : Option ℤ := none
  maximum : Option ℤ := none

/-- An input schema; `closed` is `additionalProperties: false`. -/
structure Schema where
  properties : List (Text × FieldSchema)
  nodup : (properties.map Prod.fst).Nodup
  required : List Text
  closed : Bool

abbrev Members := List (Text × Value)

/-- `o[field]`, where the members of `Object.prototype` are inherited. -/
def property (o : Members) (field : Text) : Value :=
  match Object.find o field with
  | some v => v
  | none =>
    if field = protoKey then .object []
    else if objectPrototype.contains field then .callable
    else .undefined

def hasType (type : FieldType) (value : Value) : Bool :=
  match type with
  | .string => value.isText
  | .boolean => value.isBool
  | .object => value.isObject
  | .integer => value.isInteger

/-- What a value of the wrong type is told. -/
def typeMessage : FieldType → Text
  | .string => units " must be a string"
  | .boolean => units " must be a boolean"
  | .object => units " must be an object"
  | .integer => units " must be an integer"

/-- `validateValue`. -/
def validateValue (value : Value) (schema : FieldSchema) (field : Text) :
    Except ActionError Unit :=
  if value.isUndefined then return
  else do
    schema.enum.forM fun choices => refuseIf (!value.isAmong choices)
      (field ++ units " must be one of: " ++ commaSeparated choices)
    schema.type.forM fun type => refuseIf (!hasType type value) (field ++ typeMessage type)
    schema.minimum.forM fun bound => refuseIf (value.isBelow bound)
      (field ++ units " must be at least " ++ units (toString bound))
    schema.maximum.forM fun bound => refuseIf (value.isAbove bound)
      (field ++ units " must be at most " ++ units (toString bound))

/-- A field that is undefined takes its default. -/
def withDefault (o : Members) (field : Text) (schema : FieldSchema) : Members :=
  if (property o field).isUndefined then
    match schema.default with
    | some value => Object.store o field value
    | none => o
  else o

/-- The loop over the properties of a schema. -/
def validateFields : List (Text × FieldSchema) → Members → Except ActionError Members
  | [], o => return o
  | (field, schema) :: fields, o => do
    validateValue (property (withDefault o field schema) field) schema field
    validateFields fields (withDefault o field schema)

/-- The loop over the required fields. -/
def requireFields (o : Members) : List Text → Except ActionError Unit
  | [] => return
  | field :: fields => do
    refuseIf (property o field).isUndefined (units "Missing required input: " ++ field)
    requireFields o fields

/-- `key in properties`. -/
def Schema.knows (schema : Schema) (key : Text) : Bool :=
  (schema.properties.map Prod.fst).contains key || objectPrototype.contains key

/-- `applyDefaultsAndValidate` of an object. -/
def validateMembers (o : Members) (schema : Schema) : Except ActionError Members := do
  let unknown := (o.map Prod.fst).filter fun key => !schema.knows key
  refuseIf (schema.closed && !unknown.isEmpty)
    (units "Unknown input fields: " ++ commaSeparated unknown)
  let result ← validateFields schema.properties o
  requireFields result schema.required
  return result

/-- `applyDefaultsAndValidate`. -/
def applyDefaultsAndValidate (input : Value) (schema : Schema) : Except ActionError Members :=
  match input with
  | .undefined => validateMembers [] schema
  | .null => validateMembers [] schema
  | .object o => validateMembers o schema
  | _ => throw (invalidInput (units "Device action input must be an object"))

/-! ## Descriptors -/

/-- A device action, as far as the gateway reads it. -/
structure Descriptor where
  name : Text
  inputSchema : Schema
  requiresReadyDevice : Bool := true

/-- `objectSchema`. -/
def objectSchema (properties : List (String × FieldSchema)) (required : List String)
    (nodup : ((properties.map fun p => (units p.1, p.2)).map Prod.fst).Nodup := by decide) :
    Schema where
  properties := properties.map fun p => (units p.1, p.2)
  nodup := nodup
  required := required.map units
  closed := true

def string : FieldSchema := { type := some .string }

def boolean (default : Bool) : FieldSchema :=
  { type := some .boolean, default := some (.bool default) }

def choice (choices : List String) (default : Option String) : FieldSchema :=
  { enum := some (choices.map units), default := default.map fun t => .text (units t) }

def integer (default : Option ℤ) (minimum maximum : ℤ) : FieldSchema :=
  { type := some .integer, default := default.map fun n => .number (.rational n)
    minimum := some minimum, maximum := some maximum }

/-- `DEVICE_ACTION_DESCRIPTORS`. -/
def deviceActionDescriptors : List Descriptor :=
  [{ name := units "device.listPorts", inputSchema := objectSchema [] []
     requiresReadyDevice := false },
   { name := units "device.connect"
     inputSchema := objectSchema
       [("transport", choice ["serial", "tcp"] (some "serial")), ("port", string),
         ("host", string), ("tcpPort", integer (some 3232) 1 65535),
         ("baudRate", integer (some 115200) 1200 4000000),
         ("drainMs", integer (some 300) 0 3000)] []
     requiresReadyDevice := false },
   { name := units "device.disconnect", inputSchema := objectSchema [] []
     requiresReadyDevice := false },
   { name := units "device.negotiate"
     inputSchema := objectSchema
       [("role", { type := some .string, default := some (.text (units "unknown")) }),
         ("drainMs", integer (some 300) 0 3000)] []
     requiresReadyDevice := false },
   { name := units "device.inspect"
     inputSchema := objectSchema
       [("includeFiles", boolean true), ("logLimit", integer (some 100) 0 500)] [] },
   { name := units "python.execute"
     inputSchema := objectSchema
       [("code", string), ("timeoutMs", integer (some 8000) 100 120000)] ["code"] },
   { name := units "python.runEphemeral"
     inputSchema := objectSchema
       [("code", string), ("maxDurationMs", integer (some 180000) 1000 180000)] ["code"] },
   { name := units "python.observeEphemeral"
     inputSchema := objectSchema
       [("runId", string), ("waitMs", integer (some 1000) 0 10000),
         ("outputOffset", integer (some 0) 0 1048576)] ["runId"] },
   { name := units "python.stopEphemeral"
     inputSchema := objectSchema [("runId", string)] ["runId"] },
   { name := units "deviceFile.read"
     inputSchema := objectSchema
       [("path", string), ("encoding", choice ["utf-8", "base64"] (some "utf-8"))] ["path"] },
   { name := units "deviceFile.write"
     inputSchema := objectSchema
       [("path", string), ("content", string),
         ("encoding", choice ["utf-8", "base64"] (some "utf-8")),
         ("runAfterWrite", boolean false)] ["path", "content"] },
   { name := units "workspaceFile.deploy"
     inputSchema := objectSchema
       [("sourcePath", string), ("devicePath", string), ("expectedBytes", integer none 0 16777216),
         ("expectedSha256", string), ("overwrite", boolean false)] ["sourcePath", "devicePath"] },
   { name := units "deviceFile.remove"
     inputSchema := objectSchema
       [("path", string), ("kind", choice ["file", "directory"] (some "file"))] ["path"] },
   { name := units "deviceTest.run"
     inputSchema := objectSchema
       [("path", { type := some .string, default := some (.text (units "/.agent_test.py")) }),
         ("source", string), ("timeoutMs", integer (some 10000) 500 120000)] ["source"] },
   { name := units "device.control"
     inputSchema := objectSchema
       [("operation", choice ["stop", "soft-reset", "hard-reset", "bootloader"] none),
         ("confirmBootloader", boolean false)] ["operation"] },
   { name := units "device.rpc"
     inputSchema := objectSchema
       [("method", string), ("payload", { type := some .object, default := some (.object []) }),
         ("channel", choice ["user.rpc", "debug.rpc"] none),
         ("timeoutMs", integer (some 4000) 100 120000)] ["method"] },
   { name := units "frame.capture"
     inputSchema := objectSchema [("timeoutMs", integer (some 8000) 500 30000)] [] }]

/-- The default of a field passes the check of the field. -/
def FieldSchema.defaultPasses (schema : FieldSchema) : Bool :=
  match schema.default with
  | none => true
  | some value => (validateValue value schema []).isOk

theorem defaults_pass : (deviceActionDescriptors.all fun d =>
    d.inputSchema.properties.all fun p => p.2.defaultPasses) = true := by
  decide

/-! ## Inputs that pass -/

/-- A value of the kind and in the range of its field. -/
structure Allowed (value : Value) (schema : FieldSchema) : Prop where
  enum : ∀ choices, schema.enum = some choices → value.isAmong choices = true
  type : ∀ type, schema.type = some type → hasType type value = true
  minimum : ∀ bound, schema.minimum = some bound → value.isBelow bound = false
  maximum : ∀ bound, schema.maximum = some bound → value.isAbove bound = false

theorem bind_ok {ε α β : Type} {x : Except ε α} {f : α → Except ε β} {b : β}
    (h : x >>= f = .ok b) : ∃ a, x = .ok a ∧ f a = .ok b := by
  cases x with
  | error e => cases h
  | ok a => exact ⟨a, rfl, h⟩

theorem throwIf_ok_iff {wrong : Bool} {e : ActionError} :
    throwIf wrong e = .ok () ↔ wrong = false := by
  unfold throwIf
  cases wrong <;> simp [pure, Except.pure, throw, throwThe, MonadExceptOf.throw]

theorem refuseIf_ok_iff {wrong : Bool} {message : Text} :
    refuseIf wrong message = .ok () ↔ wrong = false := throwIf_ok_iff

theorem forM_ok_iff {α : Type} {o : Option α} {f : α → Except ActionError Unit} :
    o.forM f = .ok () ↔ ∀ a, o = some a → f a = .ok () := by
  cases o <;> simp [Option.forM, pure, Except.pure]

theorem seq_ok_iff {x y : Except ActionError Unit} :
    (x >>= fun _ => y) = .ok () ↔ x = .ok () ∧ y = .ok () := by
  cases x <;> simp [bind, Except.bind]

theorem validateValue_ok_iff {value : Value} {schema : FieldSchema} {field : Text} :
    validateValue value schema field = .ok () ↔
      value.isUndefined = true ∨ Allowed value schema := by
  unfold validateValue
  by_cases hu : value.isUndefined = true
  · simp [hu, pure, Except.pure]
  rw [if_neg hu]
  simp only [seq_ok_iff, forM_ok_iff, refuseIf_ok_iff, Bool.not_eq_false']
  rw [or_iff_right hu]
  exact ⟨fun h => ⟨h.1, h.2.1, h.2.2.1, h.2.2.2⟩, fun h => ⟨h.enum, h.type, h.minimum, h.maximum⟩⟩

section Fields

variable {o o' : Members} {field key : Text} {schema : FieldSchema}

theorem property_store_ne {value : Value} (h : field ≠ key) :
    property (Object.store o field value) key = property o key := by
  rw [property, property, Object.find_store_ne h]

theorem property_withDefault (h : field ≠ key) :
    property (withDefault o field schema) key = property o key := by
  unfold withDefault
  split_ifs
  · cases schema.default with
    | none => rfl
    | some value => exact property_store_ne h
  · rfl

theorem mem_withDefault {e : Text × Value} (h : e ∈ withDefault o field schema) :
    e.1 = field ∨ e ∈ o := by
  unfold withDefault at h
  split_ifs at h
  · cases hd : schema.default with
    | none =>
      rw [hd] at h
      exact Or.inr h
    | some value =>
      rw [hd] at h
      rcases Object.mem_store h with rfl | h
      · exact Or.inl rfl
      · exact Or.inr h
  · exact Or.inr h

/-- What the loop over the fields leaves: every field is undefined or allowed, nothing else has
changed, and only fields were added. -/
theorem validateFields_ok {fields : List (Text × FieldSchema)}
    (hnodup : (fields.map Prod.fst).Nodup) (h : validateFields fields o = .ok o') :
    (∀ p ∈ fields, (property o' p.1).isUndefined = true ∨ Allowed (property o' p.1) p.2) ∧
    (∀ key ∉ fields.map Prod.fst, property o' key = property o key) ∧
    ∀ e ∈ o', e.1 ∈ fields.map Prod.fst ∨ e ∈ o := by
  induction fields generalizing o with
  | nil =>
    obtain rfl := Except.ok.inj h
    exact ⟨by simp, fun _ _ => rfl, fun _ he => Or.inr he⟩
  | cons p fields ih =>
    obtain ⟨field, schema⟩ := p
    rw [List.map_cons, List.nodup_cons] at hnodup
    unfold validateFields at h
    obtain ⟨_, hvalue, h⟩ := bind_ok h
    obtain ⟨hfields, hrest, hkeys⟩ := ih hnodup.2 h
    refine ⟨fun q hq => ?_, fun key hkey => ?_, fun e he => ?_⟩
    · rcases List.mem_cons.mp hq with rfl | hq
      · rw [hrest field hnodup.1]
        exact validateValue_ok_iff.mp hvalue
      · exact hfields q hq
    · rw [List.map_cons, List.mem_cons, not_or] at hkey
      rw [hrest key hkey.2, property_withDefault (Ne.symm hkey.1)]
    · rcases hkeys e he with he | he
      · exact Or.inl (List.mem_cons_of_mem _ he)
      · rcases mem_withDefault he with he | he
        · exact Or.inl (List.mem_cons.mpr (Or.inl he))
        · exact Or.inr he

theorem requireFields_ok_iff {fields : List Text} :
    requireFields o fields = .ok () ↔ ∀ f ∈ fields, (property o f).isUndefined = false := by
  induction fields with
  | nil => simp [requireFields, pure, Except.pure]
  | cons f fields ih =>
    rw [requireFields, seq_ok_iff, refuseIf_ok_iff, ih, List.forall_mem_cons]

end Fields

/-- The members of an object that conforms to a schema. -/
structure Conforms (o : Members) (schema : Schema) : Prop where
  known : schema.closed = true → ∀ e ∈ o, schema.knows e.1 = true
  fields : ∀ p ∈ schema.properties,
    (property o p.1).isUndefined = true ∨ Allowed (property o p.1) p.2
  required : ∀ field ∈ schema.required, (property o field).isUndefined = false

theorem validateMembers_ok {o o' : Members} {schema : Schema}
    (h : validateMembers o schema = .ok o') : Conforms o' schema := by
  unfold validateMembers at h
  obtain ⟨_, hknown, h⟩ := bind_ok h
  obtain ⟨result, hfields, h⟩ := bind_ok h
  obtain ⟨_, hrequired, h⟩ := bind_ok h
  obtain rfl := Except.ok.inj h
  obtain ⟨hallowed, -, hkeys⟩ := validateFields_ok schema.nodup hfields
  refine ⟨fun hclosed e he => ?_, hallowed, requireFields_ok_iff.mp hrequired⟩
  rcases hkeys e he with hmem | hmem
  · simp only [Schema.knows, List.contains_iff_mem.mpr hmem, Bool.true_or]
  · have hnone := refuseIf_ok_iff.mp hknown
    rw [hclosed, Bool.true_and, Bool.not_eq_false', List.isEmpty_iff, List.filter_eq_nil_iff]
      at hnone
    simpa using hnone e.1 (List.mem_map_of_mem hmem)

/-- An input that passes its schema conforms to it. -/
theorem applyDefaultsAndValidate_ok {input : Value} {o : Members} {schema : Schema}
    (h : applyDefaultsAndValidate input schema = .ok o) : Conforms o schema := by
  unfold applyDefaultsAndValidate at h
  cases input <;> first | exact validateMembers_ok h | cases h

end EspVision.DeviceActions
