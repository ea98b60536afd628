import EspVision.MetadataBind
import EspVision.NetworkSlot
import EspVision.NetworkStatus

/-!
# The reply as JSON

The text of the status reply is a JSON document, and the snapshot is read back from its members. The
only text that can be cut short is the message of the last error, which its code determines.
-/
namespace EspVision.NetworkStatus
open Json EvControlJson BoundedText NetworkService TransitionSystem
open LenientJson (ascii ascii_ofList ascii_length ascii_length_le ascii_all asString asBool asU32)

/-! ## The JSON of a string -/

lemma escape_control : ∀ c : Fin 0x20,
    (Scanf.padStart 4 (Scanf.numeral 16 c.val)) =
      [0x30, 0x30, Scanf.digitByte (c.val / 16), Scanf.digitByte (c.val % 16)] ∧
    hexValue (Scanf.digitByte (c.val / 16)) = some (c.val / 16) ∧
    hexValue (Scanf.digitByte (c.val % 16)) = some (c.val % 16) := by
  decide

/-- An escaped ASCII character is a piece of a JSON string. -/
lemma escape_piece {c : UInt8} (hc : c < 0x80) : Piece (escape c) c.toNat := by
  unfold escape
  split_ifs with h1 h2 h3 h4 h5 h6 h7
  · rcases h1 with rfl | rfl
    · exact .escape (d := quote) rfl
    · exact .escape (d := backslash) rfl
  · subst h2
    exact .escape (b := 0x62) (d := 0x08) rfl
  · subst h3
    exact .escape (b := 0x66) (d := 0x0c) rfl
  · subst h4
    exact .escape (b := 0x6e) (d := 0x0a) rfl
  · subst h5
    exact .escape (b := 0x72) (d := 0x0d) rfl
  · subst h6
    exact .escape (b := 0x74) (d := 0x09) rfl
  · obtain ⟨heq, hhi, hlo⟩ := escape_control ⟨c.toNat, h7⟩
    refine .unicode ⟨_, _, _, _, 0, 0, _, _, heq, rfl, rfl, hhi, hlo, ?_⟩ ?_
    · dsimp only
      omega
    · have hlt : c.toNat < 0x20 := h7
      exact ⟨by omega, by omega⟩
  · push Not at h1
    exact .plain (UInt8.not_lt.mp h7) hc h1.1 h1.2

lemma escape_high {c : UInt8} (hc : 0x80 ≤ c) : escape c = [c] := by
  have hne : ∀ d : UInt8, d < 0x80 → c ≠ d := by
    rintro d hd rfl
    exact absurd hd (UInt8.not_lt.mpr hc)
  have hnot : ¬c < 0x20 := UInt8.not_lt.mpr (UInt8.le_trans (by decide) hc)
  simp only [escape, hne quote (by decide), hne backslash (by decide), hne 0x08 (by decide),
    hne 0x0c (by decide), hne 0x0a (by decide), hne 0x0d (by decide), hne 0x09 (by decide), hnot,
    or_self, if_false]

lemma escape_utf8 {c : ℕ} (hc : Scalar c) : Piece ((utf8 c).flatMap escape) c := by
  by_cases hlow : c < 0x80
  · have hbyte : (UInt8.ofNat c).toNat = c :=
      UInt8.toNat_ofNat_of_lt' (Nat.lt_trans hlow (by decide))
    have hlt : UInt8.ofNat c < 0x80 := by
      rw [UInt8.lt_iff_toNat_lt, hbyte]
      exact hlow
    have hpiece := escape_piece hlt
    rw [hbyte] at hpiece
    rw [utf8, if_pos hlow, List.flatMap_singleton]
    exact hpiece
  · have hid : ∀ bytes : List UInt8, (∀ b ∈ bytes, 0x80 ≤ b) → bytes.flatMap escape = bytes := by
      intro bytes hb
      induction bytes with
      | nil => rfl
      | cons b rest ih =>
        obtain ⟨h1, h2⟩ := List.forall_mem_cons.mp hb
        rw [List.flatMap_cons, escape_high h1, ih h2, List.singleton_append]
    rw [hid _ (LenientJson.utf8_high (Nat.le_of_not_lt hlow) hc)]
    exact .utf8 (Nat.le_of_not_lt hlow) hc

/-- The quoted bytes of a text are a JSON string of it. -/
theorem quoted_text {s : List ℕ} (hs : ∀ c ∈ s, Scalar c) : StringText (quoted (encode s)) s := by
  refine ⟨_, rfl, ?_⟩
  induction s with
  | nil => exact .nil
  | cons c rest ih =>
    obtain ⟨hc, hrest⟩ := List.forall_mem_cons.mp hs
    rw [encode_cons, List.flatMap_append]
    exact .cons (escape_utf8 hc) (ih hrest)

/-! ## The document -/

/-- The member names of the reply. -/
inductive Key
  | ok | action | supported | enabled | configured | state | ssid | ipv4 | configRevision
  | runtimeOverride | configurationError | operation | lastOperation | id | error | code | message
  deriving DecidableEq

def Key.name : Key → List UInt8
  | .ok => ascii "ok"
  | .action => ascii "action"
  | .supported => ascii "supported"
  | .enabled => ascii "enabled"
  | .configured => ascii "configured"
  | .state => ascii "state"
  | .ssid => ascii "ssid"
  | .ipv4 => ascii "ipv4"
  | .configRevision => ascii "configRevision"
  | .runtimeOverride => ascii "runtimeOverride"
  | .configurationError => ascii "configurationError"
  | .operation => ascii "operation"
  | .lastOperation => ascii "lastOperation"
  | .id => ascii "id"
  | .error => ascii "error"
  | .code => ascii "code"
  | .message => ascii "message"

/-- Printable characters that need no escape. -/
def Plain (t : List UInt8) : Prop := ∀ b ∈ t, 0x20 ≤ b ∧ b < 0x80 ∧ b ≠ quote ∧ b ≠ backslash

instance (t : List UInt8) : Decidable (Plain t) := List.decidableBAll _ t

lemma Key.name_plain (k : Key) : Plain k.name := by cases k <;> exact ascii_all (by decide)

def Key.all : List Key :=
  [.ok, .action, .supported, .enabled, .configured, .state, .ssid, .ipv4, .configRevision,
    .runtimeOverride, .configurationError, .operation, .lastOperation, .id, .error, .code, .message]

/-- The key of a name. -/
def Key.ofName (t : List UInt8) : Option Key := Key.all.find? fun k => k.name == t

lemma Key.ofName_name (k : Key) : Key.ofName k.name = some k := by cases k <;> decide

lemma Key.name_injective {a b : Key} (h : a.name.map UInt8.toNat = b.name.map UInt8.toNat) :
    a = b := by
  have hname : a.name = b.name :=
    List.map_injective_iff.mpr (fun _ _ he => UInt8.toNat_inj.mp he) h
  have ha := Key.ofName_name a
  rw [hname, Key.ofName_name b] at ha
  exact (Option.some.inj ha).symm

/-- A member, its text and its value. -/
structure Item where
  key : Key
  text : List UInt8
  value : Value

def Item.member (m : Item) : Member := (m.key.name.map UInt8.toNat, m.value)

/-- Members without white space. -/
def rowText : List Item → List UInt8
  | [] => []
  | [m] => quoted m.key.name ++ colon :: m.text
  | m :: rest => quoted m.key.name ++ colon :: (m.text ++ comma :: rowText rest)

def objectText (items : List Item) : List UInt8 := lbrace :: (rowText items ++ [rbrace])

def objectValue (items : List Item) : Value := .object (items.map Item.member)

lemma scalar_ascii {b : UInt8} (h : b < 0x80) : Scalar b.toNat := by
  have hlt : b.toNat < 0x80 := h
  exact ⟨by omega, by omega⟩

lemma Plain.stringText {t : List UInt8} (h : Plain t) :
    StringText (quoted t) (t.map UInt8.toNat) := by
  have htext := quoted_text (s := t.map UInt8.toNat) fun c hc => by
    obtain ⟨b, hb, rfl⟩ := List.mem_map.mp hc
    exact scalar_ascii (h b hb).2.1
  rwa [encode_plain h] at htext

lemma rowText_valid {items : List Item} (hne : items ≠ [])
    (h : ∀ m ∈ items, ValueText m.text m.value) :
    MembersText (rowText items) (items.map Item.member) := by
  have hws : Ws [] := by simp [Ws]
  induction items with
  | nil => exact absurd rfl hne
  | cons m rest ih =>
    obtain ⟨hm, hrest⟩ := List.forall_mem_cons.mp h
    have hname := (Key.name_plain m.key).stringText
    cases rest with
    | nil =>
      have hone := MembersText.one hname hws hws hm hws
      rwa [List.nil_append, List.nil_append, List.append_nil] at hone
    | cons m' rest =>
      have hcons := MembersText.cons hname hws hws hm hws hws (ih (by simp) hrest)
      rwa [List.nil_append, List.nil_append, List.nil_append, List.nil_append] at hcons

theorem objectText_valid {items : List Item} (hne : items ≠ [])
    (h : ∀ m ∈ items, ValueText m.text m.value) :
    ValueText (objectText items) (objectValue items) := by
  have hobject := ValueText.object (a := []) (by simp [Ws]) (rowText_valid hne h)
  rwa [List.nil_append] at hobject

def boolItem (key : Key) (b : Bool) : Item := ⟨key, boolText b, .bool b⟩

/-- A member that is a plain text. -/
def textItem (key : Key) (t : List UInt8) : Item := ⟨key, quoted t, .string (t.map UInt8.toNat)⟩

/-- The error of an operation, with a message. -/
def errorItem (message : List UInt8) (e : Error) : Item :=
  if e = .none then ⟨.error, nullText, .null⟩
  else
    let items := [textItem .code (errorName e), textItem .message message]
    ⟨.error, objectText items, objectValue items⟩

def operationItems (message : List UInt8) (o : Operation) : List Item :=
  [textItem .id o.id, textItem .action (actionName o.action),
    textItem .state (operationStateName o.state), errorItem message o.error]

/-- An operation that may be absent. -/
def operationItem (key : Key) (message : List UInt8) (has : Bool) (o : Operation) : Item :=
  if has then ⟨key, objectText (operationItems message o), objectValue (operationItems message o)⟩
  else ⟨key, nullText, .null⟩

/-- A text that is `null` where it is empty, and its code points. -/
def nullableItem (key : Key) (t : List UInt8) (points : List ℕ) : Item :=
  if t = [] then ⟨key, nullText, .null⟩ else ⟨key, quoted t, .string points⟩

/-- The members of the reply; `points` are the code points of the SSID, and `message` is the text
of the last error. -/
def statusItems (s : Snapshot) (points : List ℕ) (message : List UInt8) : List Item :=
  [boolItem .ok true, textItem .action (ascii "network.status"), boolItem .supported s.supported,
    boolItem .enabled s.enabled, boolItem .configured s.configured,
    textItem .state (stateName s.state), nullableItem .ssid s.ssid points,
    nullableItem .ipv4 s.ipv4 (s.ipv4.map UInt8.toNat),
    ⟨.configRevision, Scanf.numeral 10 s.configRevision.toNat,
      .number (Scanf.numeral 10 s.configRevision.toNat)⟩,
    boolItem .runtimeOverride s.runtimeOverride,
    boolItem .configurationError s.configurationError,
    operationItem .operation (errorMessage s.operation.error) s.hasOperation s.operation,
    operationItem .lastOperation message s.hasLastOperation s.lastOperation]

lemma textItem_valid (key : Key) {t : List UInt8} (h : Plain t) :
    ValueText (textItem key t).text (textItem key t).value :=
  .string h.stringText

lemma names_plain : (∀ s, Plain (stateName s)) ∧ (∀ s, Plain (operationStateName s)) ∧
    (∀ a, Plain (actionName a)) ∧ (∀ e, Plain (errorName e)) ∧ ∀ e, Plain (errorMessage e) := by
  refine ⟨fun s => ?_, fun s => ?_, fun a => ?_, fun e => ?_, fun e => ?_⟩
  · cases s <;> exact ascii_all (by decide)
  · cases s <;> exact ascii_all (by decide)
  · cases a <;> exact ascii_all (by decide)
  · cases e with
    | none => exact List.forall_mem_nil _
    | _ => exact ascii_all (by decide)
  · cases e with
    | none => exact List.forall_mem_nil _
    | _ => exact ascii_all (by decide)

lemma Reported.plain {o : Operation} (h : Reported o) : Plain o.id ∧ o.id.length = 32 := by
  have hid := h.id
  simp only [lowerHexOperationId, Bool.and_eq_true, beq_iff_eq, List.all_eq_true,
    Bool.or_eq_true, decide_eq_true_eq] at hid
  have hall : ∀ b : Fin 256, (0x30 ≤ UInt8.ofNat b ∧ UInt8.ofNat b ≤ 0x39) ∨
      (0x61 ≤ UInt8.ofNat b ∧ UInt8.ofNat b ≤ 0x66) → Plain [UInt8.ofNat b] := by decide +kernel
  refine ⟨fun b hb => ?_, hid.1⟩
  have hbyte := hall ⟨b.toNat, b.toNat_lt⟩
  rw [UInt8.ofNat_toNat] at hbyte
  exact hbyte (hid.2 b hb) b (List.mem_singleton_self b)

lemma operationItem_valid (key : Key) {message : List UInt8} {has : Bool} {o : Operation}
    (hm : Plain message) (h : has = true → Reported o) :
    ValueText (operationItem key message has o).text (operationItem key message has o).value := by
  obtain ⟨-, hstate, haction, herror, -⟩ := names_plain
  unfold operationItem
  split_ifs with hhas
  · refine objectText_valid (by simp [operationItems]) fun m hmem => ?_
    simp only [operationItems, List.mem_cons, List.not_mem_nil, or_false] at hmem
    rcases hmem with rfl | rfl | rfl | rfl
    · exact textItem_valid _ (h hhas).plain.1
    · exact textItem_valid _ (haction _)
    · exact textItem_valid _ (hstate _)
    · unfold errorItem
      split_ifs
      · exact .null
      · refine objectText_valid (by simp) fun m hmem => ?_
        simp only [List.mem_cons, List.not_mem_nil, or_false] at hmem
        rcases hmem with rfl | rfl
        · exact textItem_valid _ (herror _)
        · exact textItem_valid _ hm
  · exact .null

lemma Snapshot.ipv4_plain (s : Snapshot) : Plain s.ipv4 := by
  have hall : ∀ b : Fin 256, isDigit (UInt8.ofNat b) = true → Plain [UInt8.ofNat b] := by
    decide +kernel
  intro b hb
  rcases s.ipv4Fits.2 b hb with hd | rfl
  · have hbyte := hall ⟨b.toNat, b.toNat_lt⟩
    rw [UInt8.ofNat_toNat] at hbyte
    exact hbyte hd b (List.mem_singleton_self b)
  · decide

/-- The reply is a JSON document. -/
theorem statusItems_document (s : Snapshot) {points : List ℕ} {message : List UInt8}
    (hs : ∀ c ∈ points, Scalar c) (hssid : s.ssid = encode points) (hm : Plain message) :
    Document (objectText (statusItems s points message))
      ((statusItems s points message).map Item.member) := by
  have hws : Ws [] := by simp [Ws]
  obtain ⟨hstate, -, -, -, hmessage⟩ := names_plain
  refine ⟨[], _, [], by rw [List.append_nil, List.nil_append], hws, hws, ?_⟩
  refine objectText_valid (by simp [statusItems]) fun m hmem => ?_
  simp only [statusItems, List.mem_cons, List.not_mem_nil, or_false] at hmem
  rcases hmem with rfl | rfl | rfl | rfl | rfl | rfl | rfl | rfl | rfl | rfl | rfl | rfl | rfl
  · exact .bool true
  · exact textItem_valid _ (by decide)
  iterate 3 exact .bool _
  · exact textItem_valid _ (hstate _)
  · unfold nullableItem
    split_ifs
    · exact .null
    · rw [hssid]
      exact .string (quoted_text hs)
  · unfold nullableItem
    split_ifs
    · exact .null
    · exact .string s.ipv4_plain.stringText
  · exact .number (MetadataBind.numeral_text _)
  iterate 2 exact .bool _
  · exact operationItem_valid _ (hmessage _) s.present
  · exact operationItem_valid _ hm s.last

/-! ## The text of the calls -/

lemma quoted_plain {t : List UInt8} (h : Plain t) : quoted t = quote :: (t ++ [quote]) := by
  have hbody : t.flatMap escape = t := by
    induction t with
    | nil => rfl
    | cons c rest ih =>
      obtain ⟨⟨h1, -, h3, h4⟩, hrest⟩ := List.forall_mem_cons.mp h
      have hone : ∀ b : Fin 256, 0x20 ≤ UInt8.ofNat b → UInt8.ofNat b ≠ quote →
          UInt8.ofNat b ≠ backslash → escape (UInt8.ofNat b) = [UInt8.ofNat b] := by
        decide +kernel
      have hbyte := hone ⟨c.toNat, c.toNat_lt⟩
      rw [UInt8.ofNat_toNat] at hbyte
      rw [List.flatMap_cons, hbyte h1 h3 h4, ih hrest, List.singleton_append]
  rw [quoted, hbody]

/-- A further member up to its value. -/
def lead (key : Key) : List UInt8 := comma :: (quoted key.name ++ [colon])

/-- The literal for a further member. -/
lemma ascii_lead {key : Key} {name l : List Char} (hname : key.name = ascii (String.ofList name))
    (hl : l = ',' :: '"' :: (name ++ ['"', ':'])) : ascii (String.ofList l) = lead key := by
  rw [lead, quoted_plain key.name_plain, hname, ascii_ofList, ascii_ofList, hl]
  simp only [List.map_cons, List.map_append, List.map_nil, List.cons_append, List.append_assoc,
    List.nil_append]
  rfl

lemma wholeText_append (a b : List Call) : wholeText (a ++ b) = wholeText a ++ wholeText b :=
  List.flatMap_append

/-- The calls of `write_operation` before the message of an error. -/
def messageCalls (o : Operation) : List Call :=
  [.text (ascii "\x7b\"id\":"), .string o.id, .text (ascii ",\"action\":"),
    .string (actionName o.action), .text (ascii ",\"state\":"),
    .string (operationStateName o.state), .text (ascii ",\"error\":"),
    .text (ascii "\x7b\"code\":"), .string (errorName o.error), .text (ascii ",\"message\":")]

lemma writeOperation_error {o : Operation} (h : o.error ≠ .none) :
    writeOperation o =
      messageCalls o ++ [.string (errorMessage o.error), .text (ascii "\x7d\x7d")] := by
  rw [writeOperation, if_neg h]
  rfl

lemma operationLiterals :
    ascii "\x7b\"id\":" = lbrace :: (quoted Key.id.name ++ [colon]) ∧
      ascii ",\"action\":" = lead .action ∧ ascii ",\"state\":" = lead .state ∧
      ascii ",\"error\":" = lead .error ∧
      ascii "\x7b\"code\":" = lbrace :: (quoted Key.code.name ++ [colon]) ∧
      ascii ",\"message\":" = lead .message ∧ ascii "null\x7d" = nullText ++ [rbrace] ∧
      ascii "\x7d\x7d" = [rbrace, rbrace] :=
  ⟨by decide +kernel, ascii_lead rfl rfl, ascii_lead rfl rfl, ascii_lead rfl rfl, by decide +kernel,
    ascii_lead rfl rfl, by decide +kernel, by decide +kernel⟩

lemma message_text (message : List UInt8) {o : Operation} (h : o.error ≠ .none) :
    wholeText (messageCalls o ++ [.string message, .text (ascii "\x7d\x7d")]) =
      objectText (operationItems message o) := by
  obtain ⟨h1, h2, h3, h4, h5, h6, -, h8⟩ := operationLiterals
  simp only [wholeText, messageCalls, List.cons_append, List.nil_append, List.flatMap_cons,
    List.flatMap_nil, Call.whole, h1, h2, h3, h4, h5, h6, h8, lead, objectText, rowText,
    operationItems, textItem, errorItem, if_neg h, List.append_assoc, List.append_nil]

lemma writeOperation_text (o : Operation) :
    wholeText (writeOperation o) = objectText (operationItems (errorMessage o.error) o) := by
  by_cases h : o.error = .none
  · obtain ⟨h1, h2, h3, h4, -, -, h7, -⟩ := operationLiterals
    simp only [wholeText, writeOperation, if_pos h, List.cons_append, List.nil_append,
      List.flatMap_cons, List.flatMap_nil, Call.whole, h1, h2, h3, h4, h7, lead, objectText,
      rowText, operationItems, textItem, errorItem, List.append_assoc, List.append_nil]
  · rw [writeOperation_error h, message_text _ h]

lemma nullLiteral : ascii "null" = nullText := by decide

lemma operationOrNull_text (key : Key) (has : Bool) (o : Operation) :
    wholeText (operationOrNull has o) =
      (operationItem key (errorMessage o.error) has o).text := by
  unfold operationOrNull operationItem
  split_ifs
  · exact writeOperation_text o
  · rw [wholeText, List.flatMap_singleton]
    exact nullLiteral

lemma stringOrNull_text (key : Key) (t : List UInt8) (points : List ℕ) :
    (stringOrNull t).whole = (nullableItem key t points).text := by
  unfold stringOrNull nullableItem
  split_ifs
  · exact nullLiteral
  · rfl

lemma operationItem_key (key : Key) (message : List UInt8) (has : Bool) (o : Operation) :
    (operationItem key message has o).key = key := by
  unfold operationItem
  split_ifs <;> rfl

lemma nullableItem_key (key : Key) (t : List UInt8) (points : List ℕ) :
    (nullableItem key t points).key = key := by
  unfold nullableItem
  split_ifs <;> rfl

lemma statusLiterals :
    ascii "\x7b\"ok\":true,\"action\":\"network.status\",\"supported\":" =
        lbrace :: (quoted Key.ok.name ++ (colon :: (boolText true ++ (lead .action ++
          (quoted (ascii "network.status") ++ lead .supported))))) ∧
      ascii ",\"enabled\":" = lead .enabled ∧ ascii ",\"configured\":" = lead .configured ∧
      ascii ",\"state\":" = lead .state ∧ ascii ",\"ssid\":" = lead .ssid ∧
      ascii ",\"ipv4\":" = lead .ipv4 ∧ ascii ",\"configRevision\":" = lead .configRevision ∧
      ascii ",\"runtimeOverride\":" = lead .runtimeOverride ∧
      ascii ",\"configurationError\":" = lead .configurationError ∧
      ascii ",\"operation\":" = lead .operation ∧
      ascii ",\"lastOperation\":" = lead .lastOperation ∧ ascii "\x7d" = [rbrace] :=
  ⟨by decide +kernel, ascii_lead rfl rfl, ascii_lead rfl rfl, ascii_lead rfl rfl, ascii_lead rfl rfl,
    ascii_lead rfl rfl, ascii_lead rfl rfl, ascii_lead rfl rfl, ascii_lead rfl rfl, ascii_lead rfl rfl,
    ascii_lead rfl rfl, by decide +kernel⟩

/-- The calls up to the last operation write the other members. -/
lemma leading_text (s : Snapshot) (points : List ℕ) (message : List UInt8) :
    wholeText (leadingCalls s) ++
        ((operationItem .lastOperation message s.hasLastOperation s.lastOperation).text ++
          [rbrace]) =
      objectText (statusItems s points message) := by
  obtain ⟨h1, h2, h3, h4, h5, h6, h7, h8, h9, h10, h11, -⟩ := statusLiterals
  rw [leadingCalls, wholeText_append, wholeText_append, operationOrNull_text .operation]
  simp only [wholeText, List.flatMap_cons, List.flatMap_nil, Call.whole_text, Call.whole_string,
    stringOrNull_text .ssid s.ssid points,
    stringOrNull_text .ipv4 s.ipv4 (s.ipv4.map UInt8.toNat), revisionText,
    h1, h2, h3, h4, h5, h6, h7, h8, h9, h10, h11, lead, objectText, rowText, statusItems, boolItem,
    textItem, operationItem_key, nullableItem_key, List.append_assoc, List.append_nil,
    List.cons_append, List.nil_append]

/-! ## What the calls leave -/

lemma le_following {t : List UInt8} (h : 7 ≤ t.length) (rest : List Call) :
    7 ≤ (following (.text t :: rest)).length := by
  rw [following, List.length_append]
  omega

lemma guarded_append {a b : List Call} (ha : Guarded a) (hb : Guarded b) : Guarded (a ++ b) := by
  have hlonger : ∀ l : List Call, (following l).length ≤ (following (l ++ b)).length := by
    intro l
    induction l with
    | nil => exact Nat.zero_le _
    | cons call rest ih =>
      cases call with
      | string s => exact le_rfl
      | text t =>
        simp only [List.cons_append, following, List.length_append]
        omega
  induction a with
  | nil => exact hb
  | cons call rest ih =>
    cases call with
    | text t => exact ih ha
    | string s => exact ⟨ha.1.trans (hlonger rest), ih ha.2⟩

lemma guarded_stringOrNull (t : List UInt8) {u : List UInt8} (hu : 7 ≤ u.length) :
    Guarded [stringOrNull t, .text u] := by
  unfold stringOrNull
  split_ifs
  · trivial
  · exact ⟨le_following hu _, trivial⟩

lemma messageCalls_guarded (o : Operation) : Guarded (messageCalls o) :=
  ⟨le_following (by decide) _, le_following (by decide) _,
    le_following (by decide) _, le_following (by decide) _, trivial⟩

lemma operationOrNull_guarded (has : Bool) (o : Operation) {t : List UInt8} (ht : 7 ≤ t.length) :
    Guarded (operationOrNull has o ++ [.text t]) := by
  unfold operationOrNull
  split_ifs
  · by_cases h : o.error = .none
    · rw [writeOperation, if_pos h]
      exact ⟨le_following (by decide) _, le_following (by decide) _,
        le_following (by decide) _, trivial⟩
    · rw [writeOperation_error h, List.append_assoc]
      refine guarded_append (messageCalls_guarded o) ⟨?_, trivial⟩
      change 7 ≤ (ascii "\x7d\x7d" ++ (t ++ [])).length
      rw [List.append_nil, List.length_append]
      omega
  · trivial

lemma leadingCalls_guarded (s : Snapshot) : Guarded (leadingCalls s) := by
  have hrevision : 7 ≤ (revisionText s).length := by
    have hlead : 7 ≤ (ascii ",\"configRevision\":").length := by decide
    rw [revisionText, List.length_append]
    omega
  have hssid := guarded_stringOrNull s.ssid (u := ascii ",\"ipv4\":") (by decide)
  have hipv4 := guarded_stringOrNull s.ipv4 hrevision
  have hrest := operationOrNull_guarded s.hasOperation s.operation
    (t := ascii ",\"lastOperation\":") (by decide)
  rw [leadingCalls, List.append_assoc]
  refine guarded_append ?_ hrest
  exact ⟨le_following (by decide) _, guarded_append hssid hipv4⟩

/-- The last operation is written whole but for the end of its message. -/
lemma last_run {capacity : ℕ} {mid out : List UInt8} {has : Bool} {o : Operation}
    (hroom : mid.length < capacity)
    (h : (operationOrNull has o ++ [Call.text (ascii "\x7d")]).foldl (Call.apply capacity)
      (some mid) = some out) :
    out.length < capacity ∧ ∃ message, message <+: errorMessage o.error ∧
      out = mid ++ ((operationItem .lastOperation message has o).text ++ [rbrace]) := by
  have hbrace : ascii "\x7d" = [rbrace] := by decide
  have hwhole : ∀ calls : List Call, wholeText (calls ++ [Call.text (ascii "\x7d")]) =
      wholeText calls ++ [rbrace] := by
    intro calls
    rw [wholeText_append, ← hbrace]
    simp [wholeText, Call.whole]
  by_cases herr : has = true ∧ o.error ≠ .none
  · obtain ⟨rfl, herr⟩ := herr
    rw [operationOrNull, if_pos rfl, writeOperation_error herr, List.append_assoc,
      List.foldl_append] at h
    cases hmid : (messageCalls o).foldl (Call.apply capacity) (some mid) with
    | none =>
      rw [hmid, apply_none] at h
      cases h
    | some front =>
      obtain ⟨rfl, hfront⟩ := guarded_run (messageCalls_guarded o) hroom hmid
      rw [hmid, List.cons_append, List.foldl_cons, Call.apply] at h
      cases hm : appendedString capacity (errorMessage o.error)
          (some (mid ++ wholeText (messageCalls o))) with
      | none =>
        rw [hm, apply_none] at h
        cases h
      | some text =>
        rw [hm] at h
        obtain ⟨hlt, message, rest, heq, rfl, -⟩ := appendedString_some hm
        have hclose : Guarded [.text (ascii "\x7d\x7d"), .text (ascii "\x7d")] := trivial
        obtain ⟨rfl, hend⟩ := guarded_run hclose hlt h
        refine ⟨hend, message, ⟨rest, heq.symm⟩, ?_⟩
        rw [operationItem, if_pos rfl, ← message_text message herr, ← hbrace]
        simp only [wholeText, List.flatMap_append, List.flatMap_cons, List.flatMap_nil,
          Call.whole_text, Call.whole_string, List.append_assoc, List.append_nil]
  · have hg : Guarded (operationOrNull has o ++ [Call.text (ascii "\x7d")]) := by
      unfold operationOrNull
      split_ifs with hhas
      · have hnone : o.error = .none := by
          by_contra hne
          exact herr ⟨hhas, hne⟩
        rw [writeOperation, if_pos hnone]
        exact ⟨le_following (by decide) _, le_following (by decide) _,
          le_following (by decide) _, trivial⟩
      · trivial
    obtain ⟨rfl, hend⟩ := guarded_run hg hroom h
    refine ⟨hend, _, List.prefix_rfl, ?_⟩
    rw [hwhole, operationOrNull_text .lastOperation]

/-- What `write_status` leaves: the reply, whose last message may be cut short, or no reply. -/
theorem writeStatus_cases (output : List UInt8) (s : Snapshot) (points : List ℕ) :
    ((writeStatus output s).1 = true ∧ ∃ message rest,
        message <+: errorMessage s.lastOperation.error ∧
        (writeStatus output s).2 = objectText (statusItems s points message) ++ 0 :: rest ∧
        (writeStatus output s).2.length = output.length) ∨
      ((writeStatus output s).1 = false ∧ (writeStatus output s).2.length = output.length ∧
        (output ≠ [] → 0 ∈ (writeStatus output s).2) ∧
        output.length < (wholeText (statusCalls s)).length + 8) := by
  by_cases hempty : output.length = 0
  · rw [writeStatus, if_pos hempty]
    exact .inr ⟨rfl, rfl, fun h => absurd (List.length_eq_zero_iff.mp hempty) h, by omega⟩
  · have hstart : Holds output.length (some []) ⟨overlay output 0 [0], 0⟩ := by
      refine ⟨⟨rfl, by rw [List.length_nil]; omega, ?_, rfl⟩, ?_⟩
      · exact overlay_length (by rw [List.length_singleton]; omega)
      · exact overlay_getElem? 0 (by omega)
    have hend := calls_hold hstart (statusCalls s)
    rw [writeStatus, if_neg hempty]
    dsimp only
    set b := (statusCalls s).foldl (Call.perform output.length) ⟨overlay output 0 [0], 0⟩
    cases hrun : (statusCalls s).foldl (Call.apply output.length) (some []) with
    | none =>
      rw [hrun] at hend
      have hl := hend.length
      refine .inr ⟨decide_eq_false (by omega), hend.size,
        fun _ => List.mem_of_getElem? hend.last, ?_⟩
      by_contra hlt
      rw [run_whole (by rw [List.length_nil]; omega)] at hrun
      cases hrun
    | some out =>
      rw [hrun] at hend
      obtain ⟨hw, hnul⟩ := hend
      have hl := hw.length
      have hr := hw.room
      rw [statusCalls, List.foldl_append] at hrun
      cases hmid : (leadingCalls s).foldl (Call.apply output.length) (some []) with
      | none =>
        rw [hmid, apply_none] at hrun
        cases hrun
      | some mid =>
        rw [hmid] at hrun
        obtain ⟨hmid, hlt⟩ :=
          guarded_run (leadingCalls_guarded s) (by rw [List.length_nil]; omega) hmid
        obtain ⟨-, message, hprefix, hout⟩ := last_run hlt hrun
        rw [List.nil_append] at hmid
        have htext : out = objectText (statusItems s points message) := by
          rw [hout, hmid, leading_text]
        refine .inl ⟨decide_eq_true (by omega), message, b.cells.drop (out.length + 1), hprefix, ?_,
          hw.size⟩
        have hcell : out.length < b.cells.length := by
          have := hw.size
          omega
        have hzero : b.cells[out.length] = 0 := by
          rw [List.getElem?_eq_getElem hcell] at hnul
          exact Option.some.inj hnul
        rw [← htext, ← hzero, ← List.drop_eq_getElem_cons hcell]
        conv_lhs => rw [← List.take_append_drop out.length b.cells, hw.content]

/-! ## Reading the reply -/

/-- What the reply tells of the snapshot. -/
structure Status where
  supported : Bool
  enabled : Bool
  configured : Bool
  state : NetworkState
  ssid : List UInt8
  ipv4 : List UInt8
  configRevision : UInt32
  runtimeOverride : Bool
  configurationError : Bool
  operation : Option Operation
  lastOperation : Option Operation

def Snapshot.status (s : Snapshot) : Status where
  supported := s.supported
  enabled := s.enabled
  configured := s.configured
  state := s.state
  ssid := s.ssid
  ipv4 := s.ipv4
  configRevision := s.configRevision
  runtimeOverride := s.runtimeOverride
  configurationError := s.configurationError
  operation := if s.hasOperation then some s.operation else none
  lastOperation := if s.hasLastOperation then some s.lastOperation else none

/-- The value of the first member with the key. -/
def lookup (key : Key) (ms : List Member) : Option Value :=
  (ms.find? fun m => m.1 = key.name.map UInt8.toNat).map (·.2)

/-- What has the name. -/
def named {α : Type} (name : α → List UInt8) (all : List α) (v : Value) : Option α :=
  (asString v).bind fun t => all.find? fun a => name a = t

/-- A text, or `null` for an empty one. -/
def decodeNullable : Value → Option (List UInt8)
  | .null => some []
  | v => asString v

def decodeError : Value → Option Error
  | .null => some .none
  | .object ms => (lookup .code ms).bind (named errorName
      [.authFailed, .apNotFound, .connectTimeout, .ipTimeout, .persistFailed, .driverError])
  | _ => none

def decodeOperation : Value → Option (Option Operation)
  | .null => some none
  | .object ms => do
    let id ← (lookup .id ms).bind asString
    let action ← (lookup .action ms).bind (named actionName [.none, .configure, .enable, .forget])
    let state ← (lookup .state ms).bind
      (named operationStateName [.queued, .running, .succeeded, .failed])
    let error ← (lookup .error ms).bind decodeError
    some (some ⟨id, action, state, error⟩)
  | _ => none

/-- The members of a reply, read back. -/
def decodeStatus (ms : List Member) : Option Status := do
  let supported ← (lookup .supported ms).bind asBool
  let enabled ← (lookup .enabled ms).bind asBool
  let configured ← (lookup .configured ms).bind asBool
  let state ← (lookup .state ms).bind (named stateName
    [.unsupported, .unconfigured, .disabled, .connecting, .online, .retryWait])
  let ssid ← (lookup .ssid ms).bind decodeNullable
  let ipv4 ← (lookup .ipv4 ms).bind decodeNullable
  let configRevision ← (lookup .configRevision ms).bind asU32
  let runtimeOverride ← (lookup .runtimeOverride ms).bind asBool
  let configurationError ← (lookup .configurationError ms).bind asBool
  let operation ← (lookup .operation ms).bind decodeOperation
  let lastOperation ← (lookup .lastOperation ms).bind decodeOperation
  some { supported, enabled, configured, state, ssid, ipv4, configRevision, runtimeOverride,
         configurationError, operation, lastOperation }

lemma lookup_items (key : Key) (items : List Item) :
    lookup key (items.map Item.member) = (items.find? fun m => m.key = key).map Item.value := by
  induction items with
  | nil => rfl
  | cons m rest ih =>
    have hiff : m.member.1 = key.name.map UInt8.toNat ↔ m.key = key :=
      ⟨fun h => Key.name_injective h, fun h => by rw [← h]; rfl⟩
    rw [lookup] at ih ⊢
    by_cases hkey : m.key = key
    · rw [List.map_cons, List.find?_cons_of_pos (by simpa using hiff.mpr hkey),
        List.find?_cons_of_pos (by simpa using hkey)]
      rfl
    · rw [List.map_cons, List.find?_cons_of_neg (by simpa using mt hiff.mp hkey),
        List.find?_cons_of_neg (by simpa using hkey)]
      exact ih

lemma asString_plain {t : List UInt8} (h : Plain t) :
    asString (.string (t.map UInt8.toNat)) = some t := by
  rw [asString, encode_plain h]

lemma decodeNullable_item (key : Key) {t : List UInt8} {points : List ℕ} (h : t = encode points) :
    decodeNullable (nullableItem key t points).value = some t := by
  unfold nullableItem
  split_ifs with hempty
  · rw [hempty]
    rfl
  · rw [h]
    rfl

lemma decodeError_item {message : List UInt8} (e : Error) :
    decodeError (errorItem message e).value = some e := by
  unfold errorItem
  split_ifs with he
  · rw [he]
    rfl
  · have hcode : lookup .code
        ([textItem .code (errorName e), textItem .message message].map Item.member) =
          some (textItem .code (errorName e)).value := by
      rw [lookup_items]
      rfl
    change decodeError (.object ([textItem .code (errorName e), textItem .message message].map
      Item.member)) = some e
    rw [decodeError, hcode, Option.bind_some, named, textItem,
      asString_plain (names_plain.2.2.2.1 e)]
    cases e with
    | none => exact absurd rfl he
    | _ => decide

lemma decodeOperation_item (key : Key) {message : List UInt8} {has : Bool} {o : Operation}
    (h : has = true → Reported o) :
    decodeOperation (operationItem key message has o).value =
      some (if has then some o else none) := by
  unfold operationItem
  split_ifs with hhas
  · have hid : lookup .id ((operationItems message o).map Item.member) =
        some (textItem .id o.id).value := by rw [lookup_items]; rfl
    have haction : lookup .action ((operationItems message o).map Item.member) =
        some (textItem .action (actionName o.action)).value := by rw [lookup_items]; rfl
    have hstate : lookup .state ((operationItems message o).map Item.member) =
        some (textItem .state (operationStateName o.state)).value := by rw [lookup_items]; rfl
    have herror : lookup .error ((operationItems message o).map Item.member) =
        some (errorItem message o.error).value := by
      have hkey : (errorItem message o.error).key = .error := by
        unfold errorItem
        split_ifs <;> rfl
      rw [lookup_items]
      simp [operationItems, textItem, hkey]
    obtain ⟨-, hstates, hactions, -, -⟩ := names_plain
    have hreadAction : named actionName [.none, .configure, .enable, .forget]
        (textItem .action (actionName o.action)).value = some o.action := by
      rw [named, textItem, asString_plain (hactions _), Option.bind_some]
      cases o.action <;> decide
    have hreadState : named operationStateName [.queued, .running, .succeeded, .failed]
        (textItem .state (operationStateName o.state)).value = some o.state := by
      rw [named, textItem, asString_plain (hstates _), Option.bind_some]
      have hsome := (h hhas).state
      cases hs : o.state with
      | none => exact absurd hs hsome
      | _ => decide
    have hreadId : asString (textItem .id o.id).value = some o.id :=
      asString_plain (h hhas).plain.1
    change decodeOperation (.object ((operationItems message o).map Item.member)) = some (some o)
    rw [decodeOperation, hid, haction, hstate, herror]
    simp only [Option.bind_some, hreadId, hreadAction, hreadState, decodeError_item,
      Option.bind_eq_bind]
  · rfl

/-- The members of the reply give the snapshot back. -/
theorem decodeStatus_items (s : Snapshot) {points : List ℕ} (message : List UInt8)
    (hssid : s.ssid = encode points) :
    decodeStatus ((statusItems s points message).map Item.member) = some s.status := by
  have hget : ∀ key item, (statusItems s points message).find? (fun m => m.key = key) = some item →
      lookup key ((statusItems s points message).map Item.member) = some item.value := by
    intro key item h
    rw [lookup_items, h, Option.map_some]
  have hplain : Plain (stateName s.state) := names_plain.1 s.state
  have hstate : named stateName
      [.unsupported, .unconfigured, .disabled, .connecting, .online, .retryWait]
      (textItem .state (stateName s.state)).value = some s.state := by
    rw [named, textItem, asString_plain hplain, Option.bind_some]
    cases s.state <;> decide
  have hipv4 : s.ipv4 = encode (s.ipv4.map UInt8.toNat) := (encode_plain s.ipv4_plain).symm
  have hrevision : asU32 (.number (Scanf.numeral 10 s.configRevision.toNat)) =
      some s.configRevision := by
    have hdigits := MetadataBind.numeral_digits s.configRevision.toNat
    have hall : (Scanf.numeral 10 s.configRevision.toNat).all isDigit = true :=
      List.all_eq_true.mpr hdigits
    rw [asU32, hall, MetadataBind.natValue_numeral]
    simp [s.configRevision.toNat_lt]
  rw [decodeStatus,
    hget .supported (boolItem .supported s.supported) (by simp [statusItems, boolItem, textItem]),
    hget .enabled (boolItem .enabled s.enabled) (by simp [statusItems, boolItem, textItem]),
    hget .configured (boolItem .configured s.configured)
      (by simp [statusItems, boolItem, textItem]),
    hget .state (textItem .state (stateName s.state)) (by simp [statusItems, boolItem, textItem]),
    hget .ssid (nullableItem .ssid s.ssid points)
      (by simp [statusItems, boolItem, textItem, nullableItem_key]),
    hget .ipv4 (nullableItem .ipv4 s.ipv4 (s.ipv4.map UInt8.toNat))
      (by simp [statusItems, boolItem, textItem, nullableItem_key]),
    hget .configRevision ⟨.configRevision, Scanf.numeral 10 s.configRevision.toNat,
      .number (Scanf.numeral 10 s.configRevision.toNat)⟩
      (by simp [statusItems, boolItem, textItem, nullableItem_key]),
    hget .runtimeOverride (boolItem .runtimeOverride s.runtimeOverride)
      (by simp [statusItems, boolItem, textItem, nullableItem_key]),
    hget .configurationError (boolItem .configurationError s.configurationError)
      (by simp [statusItems, boolItem, textItem, nullableItem_key]),
    hget .operation
      (operationItem .operation (errorMessage s.operation.error) s.hasOperation s.operation)
      (by simp [statusItems, boolItem, textItem, nullableItem_key, operationItem_key]),
    hget .lastOperation (operationItem .lastOperation message s.hasLastOperation s.lastOperation)
      (by simp [statusItems, boolItem, textItem, nullableItem_key, operationItem_key])]
  simp only [Option.bind_some, Option.bind_eq_bind, boolItem, asBool, hstate,
    decodeNullable_item .ssid hssid, decodeNullable_item .ipv4 hipv4, hrevision,
    decodeOperation_item .operation s.present, decodeOperation_item .lastOperation s.last]
  rfl

/-! ## The bytes of the reply -/

lemma escape_noNul (c : UInt8) : (0 : UInt8) ∉ escape c := by
  have hall : ∀ b : Fin 256, (0 : UInt8) ∉ escape (UInt8.ofNat b) := by decide +kernel
  have hbyte := hall ⟨c.toNat, c.toNat_lt⟩
  rwa [UInt8.ofNat_toNat] at hbyte

lemma quoted_noNul (t : List UInt8) : (0 : UInt8) ∉ quoted t := by
  simp only [quoted, List.mem_cons, List.mem_append, List.mem_flatMap, List.not_mem_nil, or_false,
    not_or, not_exists, not_and]
  exact ⟨by decide, fun c _ => escape_noNul c, by decide⟩

lemma rowText_noNul {items : List Item} (h : ∀ m ∈ items, (0 : UInt8) ∉ m.text) :
    (0 : UInt8) ∉ rowText items := by
  induction items with
  | nil => exact List.not_mem_nil
  | cons m rest ih =>
    obtain ⟨hm, hrest⟩ := List.forall_mem_cons.mp h
    have hname := quoted_noNul m.key.name
    have hcolon : (0 : UInt8) ≠ colon := by decide
    have hcomma : (0 : UInt8) ≠ comma := by decide
    cases rest with
    | nil => simp [rowText, hname, hm, hcolon]
    | cons m' rest =>
      have hnext := ih hrest
      simp [rowText, hname, hm, hcolon, hcomma, hnext]

lemma objectText_noNul {items : List Item} (h : ∀ m ∈ items, (0 : UInt8) ∉ m.text) :
    (0 : UInt8) ∉ objectText items := by
  have hrow := rowText_noNul h
  have hopen : (0 : UInt8) ≠ lbrace := by decide
  have hclose : (0 : UInt8) ≠ rbrace := by decide
  simp [objectText, hrow, hopen, hclose]

lemma operationItem_noNul (key : Key) (message : List UInt8) (has : Bool) (o : Operation) :
    (0 : UInt8) ∉ (operationItem key message has o).text := by
  unfold operationItem
  split_ifs
  · refine objectText_noNul fun m hm => ?_
    simp only [operationItems, List.mem_cons, List.not_mem_nil, or_false] at hm
    rcases hm with rfl | rfl | rfl | rfl
    iterate 3 exact quoted_noNul _
    unfold errorItem
    split_ifs
    · exact (by decide : (0 : UInt8) ∉ nullText)
    · refine objectText_noNul fun m hm => ?_
      simp only [List.mem_cons, List.not_mem_nil, or_false] at hm
      rcases hm with rfl | rfl <;> exact quoted_noNul _
  · exact (by decide : (0 : UInt8) ∉ nullText)

lemma reply_noNul (s : Snapshot) (points : List ℕ) (message : List UInt8) :
    (0 : UInt8) ∉ objectText (statusItems s points message) := by
  have hbool : ∀ b : Bool, (0 : UInt8) ∉ boolText b := by decide
  have hnullable : ∀ key t points, (0 : UInt8) ∉ (nullableItem key t points).text := by
    intro key t points
    unfold nullableItem
    split_ifs
    · exact (by decide : (0 : UInt8) ∉ nullText)
    · exact quoted_noNul t
  refine objectText_noNul fun m hm => ?_
  simp only [statusItems, List.mem_cons, List.not_mem_nil, or_false] at hm
  rcases hm with rfl | rfl | rfl | rfl | rfl | rfl | rfl | rfl | rfl | rfl | rfl | rfl | rfl
  · exact hbool true
  · exact quoted_noNul _
  iterate 3 exact hbool _
  · exact quoted_noNul _
  iterate 2 exact hnullable _ _ _
  · intro hzero
    exact absurd (MetadataBind.numeral_digits _ 0 hzero) (by decide)
  iterate 2 exact hbool _
  iterate 2 exact operationItem_noNul _ _ _ _

/-- A reply ends at its terminator. -/
lemma stringOf_reply (s : Snapshot) (points : List ℕ) (message rest : List UInt8) :
    stringOf (objectText (statusItems s points message) ++ 0 :: rest) =
      objectText (statusItems s points message) := by
  have hclean := reply_noNul s points message
  rw [stringOf, List.takeWhile_append_of_pos, List.takeWhile_cons_of_neg (by simp),
    List.append_nil]
  intro b hb
  have hne : b ≠ 0 := by
    rintro rfl
    exact hclean hb
  simpa using hne

/-! ## The room that a reply takes -/

lemma quoted_length_le (t : List UInt8) : (quoted t).length ≤ 6 * t.length + 2 := by
  have hbody : (t.flatMap escape).length ≤ 6 * t.length := by
    induction t with
    | nil => exact le_rfl
    | cons c rest ih =>
      have := (escape_length c).2
      rw [List.flatMap_cons, List.length_append, List.length_cons]
      omega
  rw [quoted, List.length_cons, List.length_append, List.length_singleton]
  omega

lemma quoted_length {t : List UInt8} (h : Plain t) : (quoted t).length = t.length + 2 := by
  rw [quoted_plain h, List.length_cons, List.length_append, List.length_singleton]

lemma quoted_length_le_add {t : List UInt8} {n : ℕ} (hplain : Plain t) (h : t.length ≤ n) :
    (quoted t).length ≤ n + 2 := by
  rw [quoted_length hplain]
  exact Nat.add_le_add_right h 2

lemma names_length : (∀ s, (quoted (stateName s)).length ≤ 14) ∧
    (∀ s, (quoted (operationStateName s)).length ≤ 11) ∧
    (∀ a, (quoted (actionName a)).length ≤ 19) ∧ (∀ e, (quoted (errorName e)).length ≤ 17) ∧
    ∀ e, (quoted (errorMessage e)).length ≤ 41 := by
  obtain ⟨hstate, hoperation, haction, herror, hmessage⟩ := names_plain
  refine ⟨fun s => ?_, fun s => ?_, fun a => ?_, fun e => ?_, fun e => ?_⟩
  · cases s <;> exact quoted_length_le_add (hstate _) (ascii_length_le (by decide))
  · cases s <;> exact quoted_length_le_add (hoperation _) (ascii_length_le (by decide))
  · cases a <;> exact quoted_length_le_add (haction _) (ascii_length_le (by decide))
  · cases e with
    | none => decide
    | _ => exact quoted_length_le_add (herror _) (ascii_length_le (by decide))
  · cases e with
    | none => decide
    | _ => exact quoted_length_le_add (hmessage _) (ascii_length_le (by decide))

lemma wholeText_cons_length (call : Call) (rest : List Call) :
    (wholeText (call :: rest)).length = call.whole.length + (wholeText rest).length := by
  rw [wholeText, List.flatMap_cons, List.length_append]
  rfl

lemma operationOrNull_length {has : Bool} {o : Operation} (h : has = true → Reported o) :
    (wholeText (operationOrNull has o)).length ≤ 177 := by
  obtain ⟨-, hstate, haction, herror, hmessage⟩ := names_length
  have hnil : (wholeText []).length = 0 := rfl
  unfold operationOrNull
  split_ifs with hhas
  · have hid : (quoted o.id).length = 34 := by
      rw [quoted_length (h hhas).plain.1, (h hhas).plain.2]
    have h1 := haction o.action
    have h2 := hstate o.state
    have h3 := herror o.error
    have h4 := hmessage o.error
    have l1 : (ascii "\x7b\"id\":").length = 6 := ascii_length _
    have l2 : (ascii ",\"action\":").length = 10 := ascii_length _
    have l3 : (ascii ",\"state\":").length = 9 := ascii_length _
    have l4 : (ascii ",\"error\":").length = 9 := ascii_length _
    have l5 : (ascii "\x7b\"code\":").length = 8 := ascii_length _
    have l6 : (ascii ",\"message\":").length = 11 := ascii_length _
    have l7 : (ascii "\x7d\x7d").length = 2 := ascii_length _
    have l8 : (ascii "null\x7d").length = 5 := ascii_length _
    unfold writeOperation
    split_ifs
    all_goals
      simp only [List.cons_append, List.nil_append, wholeText_cons_length, Call.whole_text,
        Call.whole_string, hid, l1, l2, l3, l4, l5, l6, l7, l8, hnil]
      omega
  · decide

lemma stringOrNull_length (t : List UInt8) : (stringOrNull t).whole.length ≤ 6 * t.length + 4 := by
  unfold stringOrNull
  split_ifs
  · have hnull : (Call.text (ascii "null")).whole.length = 4 := by decide
    omega
  · exact (quoted_length_le t).trans (by omega)

/-- The longest reply. -/
theorem statusCalls_length (s : Snapshot) : (wholeText (statusCalls s)).length ≤ 882 := by
  have hnil : (wholeText []).length = 0 := rfl
  have hbool : ∀ b : Bool, (boolText b).length ≤ 5 := by decide
  have hstate := names_length.1 s.state
  have hssid := stringOrNull_length s.ssid
  have hipv4 := stringOrNull_length s.ipv4
  have h1 := s.ssidFits.1
  have h2 := s.ipv4Fits.1
  have hmax : ssidMax = 32 := rfl
  have hpresent := operationOrNull_length s.present
  have hlast := operationOrNull_length s.last
  have hnumber : (Scanf.numeral 10 s.configRevision.toNat).length ≤ 10 := by
    have hlt := s.configRevision.toNat_lt
    exact Scanf.numeral_length 10 (by decide) (by decide) (by omega)
  have b1 := hbool s.supported
  have b2 := hbool s.enabled
  have b3 := hbool s.configured
  have b4 := hbool s.runtimeOverride
  have b5 := hbool s.configurationError
  have l1 : (ascii "\x7b\"ok\":true,\"action\":\"network.status\",\"supported\":").length = 49 := ascii_length _
  have l2 : (ascii ",\"enabled\":").length = 11 := ascii_length _
  have l3 : (ascii ",\"configured\":").length = 14 := ascii_length _
  have l4 : (ascii ",\"state\":").length = 9 := ascii_length _
  have l5 : (ascii ",\"ssid\":").length = 8 := ascii_length _
  have l6 : (ascii ",\"ipv4\":").length = 8 := ascii_length _
  have l7 : (ascii ",\"configRevision\":").length = 18 := ascii_length _
  have l8 : (ascii ",\"runtimeOverride\":").length = 19 := ascii_length _
  have l9 : (ascii ",\"configurationError\":").length = 22 := ascii_length _
  have l10 : (ascii ",\"operation\":").length = 13 := ascii_length _
  have l11 : (ascii ",\"lastOperation\":").length = 17 := ascii_length _
  have l12 : (ascii "\x7d").length = 1 := ascii_length _
  rw [statusCalls, leadingCalls, wholeText_append, wholeText_append, wholeText_append,
    wholeText_append]
  simp only [List.length_append, wholeText_cons_length, Call.whole_text, Call.whole_string,
    revisionText, l1, l2, l3, l4, l5, l6, l7, l8, l9, l10, l11, l12, hnil]
  omega

/-- With 1024 bytes there is a reply. -/
lemma writeStatus_room {output : List UInt8} (s : Snapshot) (h : 1024 ≤ output.length) :
    (writeStatus output s).1 = true := by
  have hlength := statusCalls_length s
  rcases writeStatus_cases output s [] with ⟨h, -⟩ | ⟨-, -, -, hshort⟩
  · exact h
  · omega

/-! ## Every snapshot and every capacity -/

/-- Well-formed UTF-8. -/
def Utf8Text (t : List UInt8) : Prop :=
  ∃ points : List ℕ, (∀ c ∈ points, Scalar c) ∧ t = encode points

/-- The buffer keeps its size and is terminated; a reply for an SSID in UTF-8 is one JSON document
that gives the snapshot back; and with 1024 bytes there is a reply. -/
theorem write_status_decodes (s : Snapshot) (output : List UInt8) :
    (writeStatus output s).2.length = output.length ∧
      (output ≠ [] → 0 ∈ (writeStatus output s).2) ∧
      (Utf8Text s.ssid → (writeStatus output s).1 = true →
        ∃ ms, Document (stringOf (writeStatus output s).2) ms ∧
          decodeStatus ms = some s.status) ∧
      (1024 ≤ output.length → (writeStatus output s).1 = true) := by
  refine ⟨?_, fun hne => ?_, fun hutf8 htrue => ?_, fun hcap => ?_⟩
  · rcases writeStatus_cases output s [] with ⟨-, -, -, -, -, h⟩ | ⟨-, h, -, -⟩ <;> exact h
  · rcases writeStatus_cases output s [] with ⟨-, message, rest, -, h, -⟩ | ⟨-, -, h, -⟩
    · rw [h]
      simp
    · exact h hne
  · obtain ⟨points, hscalar, hssid⟩ := hutf8
    rcases writeStatus_cases output s points with ⟨-, message, rest, hprefix, h, -⟩ | ⟨hfalse, -⟩
    · have htext : stringOf (writeStatus output s).2 =
          objectText (statusItems s points message) := by
        rw [h, stringOf_reply]
      have hplain : Plain message := fun b hb =>
        names_plain.2.2.2.2 s.lastOperation.error b (List.IsPrefix.subset hprefix hb)
      exact ⟨_, htext ▸ statusItems_document s hscalar hssid hplain,
        decodeStatus_items s message hssid⟩
    · rw [hfalse] at htrue
      cases htrue
  · exact writeStatus_room s hcap

/-! ## The service keeps what a snapshot needs -/

/-- The present operation and the last one were accepted. -/
lemma known_accepted {h : List Entry} {p : Protocol} (hr : Reaches protocol h p) :
    (∀ r, p.phase.request = some r → ∃ d, .accepted r d ∈ h) ∧
      ∀ q, p.last = some q → ∃ d, .accepted q d ∈ h := by
  apply hr.invariant
  · rintro p rfl
    refine ⟨fun r h => ?_, fun q h => ?_⟩ <;> cases h
  · intro h p l t _ ih hstep
    have hkeep : ∀ r, (∃ d, Entry.accepted r d ∈ h) → ∃ d, Entry.accepted r d ∈ h ++ [l] :=
      fun r ⟨d, hd⟩ => ⟨d, List.mem_append_left _ hd⟩
    have hlast := fun q hq => hkeep q (ih.2 q hq)
    cases hstep with
    | accepted r d hidle hne =>
      refine ⟨fun r' hr' => ?_, hlast⟩
      obtain rfl := Option.some.inj hr'
      exact ⟨d, List.mem_append_right _ (List.mem_singleton_self _)⟩
    | responseSent r d rel hq =>
      refine ⟨fun r' hr' => hkeep r' (ih.1 r' ?_), hlast⟩
      rw [hq]
      exact hr'
    | responseUnknown id => exact ⟨fun r hr' => hkeep r (ih.1 r hr'), hlast⟩
    | executed r d rel time hq hdue =>
      refine ⟨fun r' hr' => hkeep r' (ih.1 r' ?_), hlast⟩
      rw [hq]
      exact hr'
    | committed r record v hrun => exact ⟨fun r hr' => hkeep r (ih.1 r hr'), hlast⟩
    | completed report hrun =>
      refine ⟨fun r hr' => ?_, fun q hq => ?_⟩
      · cases hr'
      · obtain rfl := Option.some.inj hq
        exact hkeep _ (ih.1 _ (by rw [hrun, Phase.request]))

/-- In every state that the service reaches, the operations that it reports are those that a
snapshot may hold. -/
theorem reported_of_follows {sha256 : List UInt8 → List UInt8} {f : Phase → Prop} {c : Core}
    (h : Follows sha256 f c) : (c.hasOperation = true → Reported c.operation) ∧
      (c.hasLastOperation = true → Reported c.lastOperation) := by
  obtain ⟨p, hr, ha, -⟩ := h.run
  obtain ⟨hpresent, hlast⟩ := known_accepted hr
  have hid : ∀ r, (∃ d, Entry.accepted r d ∈ c.log) → lowerHexOperationId r.id = true :=
    fun r ⟨d, hd⟩ => (h.made r d hd).2.id
  refine ⟨fun hhas => ?_, fun hhas => ?_⟩
  · have hp := ha.present
    cases hph : p.phase with
    | idle =>
      rw [hph] at hp
      rw [hp.1] at hhas
      cases hhas
    | queued r d rel =>
      rw [hph] at hp
      rw [hp.2.2.1]
      exact { id := hid r (hpresent r (by rw [hph, Phase.request])), state := by simp }
    | running r =>
      rw [hph] at hp
      rw [hp.2.2]
      exact { id := hid r (hpresent r (by rw [hph, Phase.request])), state := by simp }
  · have hl := ha.last
    cases hq : p.last with
    | none =>
      rw [hq] at hl
      simp only [hl] at hhas
      cases hhas
    | some q =>
      rw [hq] at hl
      obtain ⟨-, -, hsame, -, hstate⟩ := hl
      refine ⟨by rw [hsame]; exact hid q (hlast q hq), ?_⟩
      rcases hstate with hs | hs <;> simp [hs]

/-! ## Other bytes in the SSID -/

lemma utf8Text_append {a b : List UInt8} (ha : Utf8Text a) (hb : Utf8Text b) :
    Utf8Text (a ++ b) := by
  obtain ⟨p, hp, rfl⟩ := ha
  obtain ⟨q, hq, rfl⟩ := hb
  refine ⟨p ++ q, fun c hc => (List.mem_append.mp hc).elim (hp c) (hq c), ?_⟩
  rw [encode, encode, encode, List.flatMap_append]

lemma utf8Text_ascii {t : List UInt8} (h : ∀ b ∈ t, b < 0x80) : Utf8Text t := by
  induction t with
  | nil => exact ⟨[], by simp, rfl⟩
  | cons b rest ih =>
    obtain ⟨hb, hrest⟩ := List.forall_mem_cons.mp h
    have hone : Utf8Text [b] :=
      ⟨[b.toNat], by simpa using scalar_ascii hb,
        by rw [encode_cons, encode_nil, utf8_ascii hb]; rfl⟩
    exact utf8Text_append hone (ih hrest)

lemma utf8Text_cons {b : UInt8} {t : List UInt8} (hb : b < 0x80) (ht : Utf8Text t) :
    Utf8Text (b :: t) :=
  utf8Text_append (a := [b]) (utf8Text_ascii (by simpa using hb)) ht

lemma utf8Text_ws {a : List UInt8} (h : Ws a) : Utf8Text a := by
  refine utf8Text_ascii fun b hb => ?_
  have hws := h b hb
  simp only [isWs, Bool.or_eq_true, beq_iff_eq] at hws
  rcases hws with ((rfl | rfl) | rfl) | rfl <;> decide

lemma utf8Text_hex4 {t : List UInt8} {v : ℕ} (h : Hex4 t v) : Utf8Text t := by
  have hlow : ∀ b : UInt8, ∀ x, hexValue b = some x → b < 0x80 := by
    intro b x hx
    unfold hexValue at hx
    split_ifs at hx with h1 h2 h3
    · exact UInt8.lt_of_le_of_lt h1.2 (by decide)
    · exact UInt8.lt_of_le_of_lt h2.2 (by decide)
    · exact UInt8.lt_of_le_of_lt h3.2 (by decide)
  obtain ⟨a, b, c, d, x, y, z, w, rfl, ha, hb, hc, hd, -⟩ := h
  refine utf8Text_ascii ?_
  simp only [List.forall_mem_cons, List.not_mem_nil, false_implies, implies_true, and_true]
  exact ⟨hlow _ _ ha, hlow _ _ hb, hlow _ _ hc, hlow _ _ hd⟩

lemma utf8Text_piece {p : List UInt8} {c : ℕ} (h : Piece p c) : Utf8Text p := by
  cases h with
  | plain h1 h2 h3 h4 => exact utf8Text_ascii (by simpa using h2)
  | utf8 h1 h2 => exact ⟨[c], by simpa using h2, by rw [encode_cons, encode_nil, List.append_nil]⟩
  | @escape b d he =>
    have hb := (simpleEscape_ascii he).1
    exact utf8Text_cons (by decide) (utf8Text_ascii (by simpa using hb))
  | unicode ht hv => exact utf8Text_cons (by decide) (utf8Text_cons (by decide) (utf8Text_hex4 ht))
  | surrogates ht hu _ _ _ _ =>
    exact utf8Text_append
      (utf8Text_cons (by decide) (utf8Text_cons (by decide) (utf8Text_hex4 ht)))
      (utf8Text_cons (by decide) (utf8Text_cons (by decide) (utf8Text_hex4 hu)))

lemma utf8Text_const {t : List UInt8} (h : (t.all fun b => decide (b < 0x80)) = true) :
    Utf8Text t :=
  utf8Text_ascii fun b hb => of_decide_eq_true (List.all_eq_true.mp h b hb)

lemma utf8Text_string {t : List UInt8} {s : List ℕ} (h : StringText t s) : Utf8Text t := by
  obtain ⟨body, rfl, hbody⟩ := h
  have hb : Utf8Text body := by
    induction hbody with
    | nil => exact ⟨[], by simp, rfl⟩
    | cons hp _ ih => exact utf8Text_append (utf8Text_piece hp) ih
  exact utf8Text_cons (by decide) (utf8Text_append hb (utf8Text_const (by decide)))

lemma utf8Text_digits {t : List UInt8} (h : Digits t) : Utf8Text t := by
  refine utf8Text_ascii fun b hb => ?_
  have hd := h b hb
  simp only [isDigit, Bool.and_eq_true, decide_eq_true_eq] at hd
  exact UInt8.lt_of_le_of_lt hd.2 (by decide)

lemma utf8Text_number {t : List UInt8} (h : NumberText t) : Utf8Text t := by
  obtain ⟨sign, int, frac, exp, rfl, hsign, hint, hfrac, hexp⟩ := h
  refine utf8Text_append ?_ (utf8Text_append ?_ (utf8Text_append ?_ ?_))
  · rcases hsign with rfl | rfl <;> exact utf8Text_const (by decide)
  · rcases hint with rfl | ⟨d, ds, rfl, -, h9, hds⟩
    · exact utf8Text_const (by decide)
    · exact utf8Text_cons (UInt8.lt_of_le_of_lt h9 (by decide)) (utf8Text_digits hds)
  · rcases hfrac with rfl | ⟨ds, rfl, -, hds⟩
    · exact utf8Text_const (by decide)
    · exact utf8Text_cons (by decide) (utf8Text_digits hds)
  · rcases hexp with rfl | ⟨e, s, ds, rfl, he, hs, -, hds⟩
    · exact utf8Text_const (by decide)
    · refine utf8Text_cons ?_ (utf8Text_append ?_ (utf8Text_digits hds))
      · rcases he with rfl | rfl <;> decide
      · rcases hs with rfl | rfl | rfl <;> exact utf8Text_const (by decide)

mutual

theorem utf8Text_value {t : List UInt8} {v : Value} (h : ValueText t v) : Utf8Text t := by
  have hclose : Utf8Text [rbracket] ∧ Utf8Text [rbrace] :=
    ⟨utf8Text_const (by decide), utf8Text_const (by decide)⟩
  cases h with
  | null => exact utf8Text_const (by decide)
  | bool b => cases b <;> exact utf8Text_const (by decide)
  | number hn => exact utf8Text_number hn
  | string hs => exact utf8Text_string hs
  | emptyArray ha => exact utf8Text_cons (by decide) (utf8Text_append (utf8Text_ws ha) hclose.1)
  | array ha ht =>
    exact utf8Text_cons (by decide)
      (utf8Text_append (utf8Text_ws ha) (utf8Text_append (utf8Text_items ht) hclose.1))
  | emptyObject ha => exact utf8Text_cons (by decide) (utf8Text_append (utf8Text_ws ha) hclose.2)
  | object ha ht =>
    exact utf8Text_cons (by decide)
      (utf8Text_append (utf8Text_ws ha) (utf8Text_append (utf8Text_members ht) hclose.2))

theorem utf8Text_items {t : List UInt8} {vs : List Value} (h : ItemsText t vs) : Utf8Text t := by
  cases h with
  | one hv ha => exact utf8Text_append (utf8Text_value hv) (utf8Text_ws ha)
  | cons hv ha hb hu =>
    exact utf8Text_append (utf8Text_value hv) (utf8Text_append (utf8Text_ws ha)
      (utf8Text_cons (by decide) (utf8Text_append (utf8Text_ws hb) (utf8Text_items hu))))

theorem utf8Text_members {t : List UInt8} {ms : List (List ℕ × Value)} (h : MembersText t ms) :
    Utf8Text t := by
  cases h with
  | one hk ha hb hv hc =>
    exact utf8Text_append (utf8Text_string hk) (utf8Text_append (utf8Text_ws ha)
      (utf8Text_cons (by decide) (utf8Text_append (utf8Text_ws hb)
        (utf8Text_append (utf8Text_value hv) (utf8Text_ws hc)))))
  | cons hk ha hb hv hc hd hu =>
    exact utf8Text_append (utf8Text_string hk) (utf8Text_append (utf8Text_ws ha)
      (utf8Text_cons (by decide) (utf8Text_append (utf8Text_ws hb)
        (utf8Text_append (utf8Text_value hv) (utf8Text_append (utf8Text_ws hc)
          (utf8Text_cons (by decide)
            (utf8Text_append (utf8Text_ws hd) (utf8Text_members hu))))))))

end

/-- A JSON document is UTF-8. -/
theorem utf8Text_document {t : List UInt8} {ms : List Member} (h : Document t ms) : Utf8Text t := by
  obtain ⟨a, u, c, rfl, ha, hc, hu⟩ := h
  exact utf8Text_append (utf8Text_ws ha) (utf8Text_append (utf8Text_value hu) (utf8Text_ws hc))

lemma utf8Text_noFf {t : List UInt8} (h : Utf8Text t) : (0xff : UInt8) ∉ t := by
  obtain ⟨points, hp, rfl⟩ := h
  have hne : ∀ n < 0xff, (0xff : UInt8) ≠ UInt8.ofNat n := by
    intro n hn he
    have hval := congrArg UInt8.toNat he
    rw [UInt8.toNat_ofNat_of_lt' (Nat.lt_trans hn (by decide))] at hval
    change 255 = n at hval
    omega
  intro hm
  obtain ⟨c, hc, hm⟩ := List.mem_flatMap.mp hm
  have hmax := (hp c hc).1
  unfold utf8 at hm
  split_ifs at hm <;> simp only [List.mem_cons, List.not_mem_nil, or_false] at hm
  · exact hne _ (by omega) hm
  · rcases hm with hm | hm <;> exact hne _ (by omega) hm
  · rcases hm with hm | hm | hm <;> exact hne _ (by omega) hm
  · rcases hm with hm | hm | hm | hm <;> exact hne _ (by omega) hm

/-- A service with a name that is not UTF-8. -/
def unnamed : Snapshot where
  supported := true
  enabled := false
  configured := false
  configurationError := false
  runtimeOverride := true
  state := .connecting
  configRevision := 0
  ssid := [0xff]
  ipv4 := []
  hasOperation := false
  hasLastOperation := false
  operation := {}
  lastOperation := {}
  ssidFits := by decide +kernel
  ipv4Fits := by decide +kernel
  present h := by cases h
  last h := by cases h

lemma mem_objectText {items : List Item} {m : Item} {b : UInt8} (hm : m ∈ items)
    (hb : b ∈ m.text) : b ∈ objectText items := by
  have hrow : b ∈ rowText items := by
    induction items with
    | nil => cases hm
    | cons m' rest ih =>
      cases rest with
      | nil =>
        obtain rfl := List.mem_singleton.mp hm
        simp [rowText, hb]
      | cons m'' rest =>
        rcases List.mem_cons.mp hm with rfl | hrest
        · simp [rowText, hb]
        · simp [rowText, ih hrest]
  simp [objectText, hrow]

/-- For an SSID that is not UTF-8 the reply is no JSON document. -/
theorem unnamed_not_json :
    (writeStatus (List.replicate 1024 0) unnamed).1 = true ∧
      ¬∃ ms, Document (stringOf (writeStatus (List.replicate 1024 0) unnamed).2) ms := by
  have hreply : (writeStatus (List.replicate 1024 0) unnamed).1 = true :=
    writeStatus_room unnamed (List.length_replicate).ge
  refine ⟨hreply, fun ⟨ms, hd⟩ => utf8Text_noFf (utf8Text_document hd) ?_⟩
  rcases writeStatus_cases (List.replicate 1024 0) unnamed [] with
    ⟨-, message, rest, -, h, -⟩ | ⟨hnone, -⟩
  · rw [h, stringOf_reply]
    have hssid : nullableItem .ssid unnamed.ssid [] ∈ statusItems unnamed [] message := by
      simp [statusItems]
    exact mem_objectText hssid (by decide)
  · rw [hreply] at hnone
    cases hnone

end EspVision.NetworkStatus
