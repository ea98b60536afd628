import EspVision.Redaction

/-!
# What redaction hides

A response is a value whose strings are put together from fixed segments and the two credentials.
Redaction gives the same value with the marker for each credential, and then tells nothing of the
password, unless one credential is a part of the other or of the marker in a way that the second
replacement meets what the first one left.
-/
namespace EspVision.Host.Redaction

open Replace

/-! ## Responses over the credentials -/

/-- A piece of a string in a response. -/
inductive Piece
  | segment (text : Text)
  | ssid
  | password
  deriving DecidableEq

/-- Whether the piece is an occurrence of a credential. -/
def Piece.isCredential : Piece → Bool
  | .segment _ => false
  | _ => true

/-- The text of a piece in the run with these credentials. -/
def Piece.text (ssid password : Text) : Piece → Text
  | .segment text => text
  | .ssid => ssid
  | .password => password

/-- The text that should stand for a piece. -/
def Piece.hidden : Piece → Text
  | .segment text => text
  | _ => redacted

/-- A string of the response in the run with these credentials. -/
def rendered (ssid password : Text) (pieces : List Piece) : Text :=
  pieces.flatMap (Piece.text ssid password)

/-- The string with the marker for each credential. -/
def hidden (pieces : List Piece) : Text := pieces.flatMap Piece.hidden

/-- The string is a concatenation of non-empty segments that share no character with the
credentials and the marker, and of credentials, of which no two are adjacent. -/
structure Concatenation (ssid password : Text) (pieces : List Piece) : Prop where
  nonempty : ∀ text, .segment text ∈ pieces → text ≠ []
  foreign : ∀ text, .segment text ∈ pieces →
    ∀ c ∈ text, c ∉ ssid ∧ c ∉ password ∧ c ∉ redacted
  spaced : pieces.IsChain fun a b => ¬(a.isCredential ∧ b.isCredential)

mutual

/-- The value with `f` applied to its strings. -/
def Doc.map {σ τ : Type} (f : σ → τ) : Doc σ → Doc τ
  | .atom a => .atom a
  | .string s => .string (f s)
  | .array items => .array (mapItems f items)
  | .object members => .object (mapMembers f members)

/-- `Doc.map` on the items of an array. -/
def mapItems {σ τ : Type} (f : σ → τ) : List (Doc σ) → List (Doc τ)
  | [] => []
  | item :: items => item.map f :: mapItems f items

/-- `Doc.map` on the members of an object. -/
def mapMembers {σ τ : Type} (f : σ → τ) : List (Text × Doc σ) → List (Text × Doc τ)
  | [] => []
  | (key, value) :: members => (key, value.map f) :: mapMembers f members

end

mutual

/-- The strings of a value. -/
def Doc.strings {σ : Type} : Doc σ → List σ
  | .atom _ => []
  | .string s => [s]
  | .array items => itemStrings items
  | .object members => memberStrings members

/-- The strings of the items of an array. -/
def itemStrings {σ : Type} : List (Doc σ) → List σ
  | [] => []
  | item :: items => item.strings ++ itemStrings items

/-- The strings of the members of an object. -/
def memberStrings {σ : Type} : List (Text × Doc σ) → List σ
  | [] => []
  | (_, value) :: members => value.strings ++ memberStrings members

end

mutual

/-- What redaction should give: the keys' fixed strings, and the marker for each credential. -/
def expected (redactSsid : Bool) (key : Text) : Doc (List Piece) → Doc Text
  | .string pieces =>
    match keyReplacement redactSsid key with
    | some text => .string text
    | none => .string (hidden pieces)
  | .array items =>
    match keyReplacement redactSsid key with
    | some text => .string text
    | none => .array (expectedItems redactSsid items)
  | .object members =>
    match keyReplacement redactSsid key with
    | some text => .string text
    | none => .object (expectedMembers redactSsid members)
  | .atom a =>
    match keyReplacement redactSsid key with
    | some text => .string text
    | none => .atom a

/-- `expected` on the items of an array. -/
def expectedItems (redactSsid : Bool) : List (Doc (List Piece)) → List (Doc Text)
  | [] => []
  | item :: items => expected redactSsid [] item :: expectedItems redactSsid items

/-- `expected` on the members of an object. -/
def expectedMembers (redactSsid : Bool) :
    List (Text × Doc (List Piece)) → List (Text × Doc Text)
  | [] => []
  | (key, value) :: members =>
    (key, expected redactSsid key value) :: expectedMembers redactSsid members

end

mutual

/-- The strings that no key hides as a whole. -/
def exposed (redactSsid : Bool) (key : Text) : Doc (List Piece) → List (List Piece)
  | .string pieces =>
    match keyReplacement redactSsid key with
    | some _ => []
    | none => [pieces]
  | .array items =>
    match keyReplacement redactSsid key with
    | some _ => []
    | none => exposedItems redactSsid items
  | .object members =>
    match keyReplacement redactSsid key with
    | some _ => []
    | none => exposedMembers redactSsid members
  | .atom _ => []

/-- `exposed` on the items of an array. -/
def exposedItems (redactSsid : Bool) : List (Doc (List Piece)) → List (List Piece)
  | [] => []
  | item :: items => exposed redactSsid [] item ++ exposedItems redactSsid items

/-- `exposed` on the members of an object. -/
def exposedMembers (redactSsid : Bool) : List (Text × Doc (List Piece)) → List (List Piece)
  | [] => []
  | (key, value) :: members => exposed redactSsid key value ++ exposedMembers redactSsid members

end

/-! ## One string -/

/-- The second replacement leaves the marker, or it makes the marker of the whole password. -/
def Safe (ssid password : Text) : Piece → Prop
  | .segment _ => True
  | .ssid => password = redacted ∨ ¬password <:+: redacted
  | .password => ¬ssid <:+: password ∨ ssid = redacted ∨ ssid = password ∧ ¬password <:+: redacted

variable {ssid password : Text}

/-- The SSID becomes the marker unless the password is a proper part of the marker. -/
theorem redactString_ssid (hs : ssid ≠ []) (hp : password ≠ []) :
    redactString [ssid, password] ssid = redacted ↔ Safe ssid password .ssid := by
  rw [redactString, List.foldl_cons, List.foldl_cons, List.foldl_nil, replaceAll_word_self hs]
  exact replaceAll_new_iff hp

/-- The password becomes the marker if the SSID is no part of it, or is replaced by itself, or
is the whole password and then not found again. -/
theorem redactString_password (hs : ssid ≠ []) (hp : password ≠ []) :
    redactString [ssid, password] password = redacted ↔ Safe ssid password .password := by
  rw [redactString, List.foldl_cons, List.foldl_cons, List.foldl_nil]
  by_cases hin : ssid <:+: password
  swap
  · rw [replaceAll_of_absent hin, replaceAll_word_self hp]
    exact iff_of_true rfl (Or.inl hin)
  by_cases hmarker : ssid = redacted
  · rw [← hmarker, replaceAll_self hs, replaceAll_word_self hp]
    exact iff_of_true rfl (Or.inr (Or.inl hmarker))
  by_cases hsame : ssid = password
  · subst hsame
    rw [replaceAll_word_self hs, replaceAll_new_iff hs]
    constructor
    · exact fun h => Or.inr (Or.inr ⟨rfl, h.resolve_left hmarker⟩)
    · exact fun h => Or.inr ((h.resolve_left (not_not.mpr hin)).resolve_left hmarker).2
  -- The marker for the SSID and the rest of the password stay.
  refine iff_of_false (fun h => ?_) fun h => ?_
  · obtain ⟨before, after, hpassword, hreplace⟩ := replaceAll_of_present redacted hs hin
    by_cases hagain : password <:+: replaceAll ssid redacted password
    · obtain ⟨before', after', htext, hreplace'⟩ := replaceAll_of_present redacted hp hagain
      rw [hreplace'] at h
      obtain ⟨rfl, hafter⟩ := eq_nil_of_append_eq h
      obtain rfl := eq_nil_of_replaceAll hp (by decide) hafter
      rw [List.nil_append, List.append_nil] at htext
      exact hmarker (eq_of_replaceAll_eq hs hin htext)
    · rw [replaceAll_of_absent hagain, hreplace] at h
      obtain ⟨rfl, hafter⟩ := eq_nil_of_append_eq h
      obtain rfl := eq_nil_of_replaceAll hs (by decide) hafter
      rw [List.nil_append, List.append_nil] at hpassword
      exact hsame hpassword.symm
  · exact h.elim (fun h => h hin) fun h => h.elim hmarker fun h => hsame h.1

/-- A character of no credential cuts the string for both replacements. -/
theorem redactString_append_cons (hs : ssid ≠ []) (hp : password ≠ []) {c : UInt16}
    (hcs : c ∉ ssid) (hcp : c ∉ password) (text rest : Text) :
    redactString [ssid, password] (text ++ c :: rest) =
      redactString [ssid, password] text ++ c :: redactString [ssid, password] rest := by
  simp only [redactString, List.foldl_cons, List.foldl_nil]
  rw [replaceAll_append_cons _ hs hcs, replaceAll_append_cons _ hp hcp]

theorem redactString_segment (hs : ssid ≠ []) (hp : password ≠ []) {segment : Text}
    (hf : ∀ c ∈ segment, c ∉ ssid ∧ c ∉ password) (rest : Text) :
    redactString [ssid, password] (segment ++ rest) =
      segment ++ redactString [ssid, password] rest := by
  simp only [redactString, List.foldl_cons, List.foldl_nil]
  rw [replaceAll_append_of_foreign hs fun c hc => (hf c hc).1,
    replaceAll_append_of_foreign hp fun c hc => (hf c hc).2]

theorem mem_redactString (hs : ssid ≠ []) (hp : password ≠ []) {text : Text} {c : UInt16}
    (h : c ∈ redactString [ssid, password] text) : c ∈ text ∨ c ∈ redacted := by
  simp only [redactString, List.foldl_cons, List.foldl_nil] at h
  rcases mem_replaceAll hp _ h with h | h
  · exact mem_replaceAll hs _ h
  · exact Or.inr h

/-- A credential alone becomes the marker exactly if its piece is safe. -/
theorem redactString_credential (hs : ssid ≠ []) (hp : password ≠ []) {x : Piece}
    (hx : x.isCredential) :
    redactString [ssid, password] (x.text ssid password) = redacted ↔ Safe ssid password x := by
  cases x with
  | segment text => exact absurd hx Bool.false_ne_true
  | ssid => exact redactString_ssid hs hp
  | password => exact redactString_password hs hp

theorem Concatenation.tail {x : Piece} {pieces : List Piece}
    (h : Concatenation ssid password (x :: pieces)) : Concatenation ssid password pieces :=
  ⟨fun text ht => h.nonempty text (List.mem_cons_of_mem x ht),
    fun text ht => h.foreign text (List.mem_cons_of_mem x ht), h.spaced.of_cons⟩

theorem rendered_cons (x : Piece) (pieces : List Piece) :
    rendered ssid password (x :: pieces) = x.text ssid password ++ rendered ssid password pieces :=
  List.flatMap_cons

theorem hidden_cons (x : Piece) (pieces : List Piece) :
    hidden (x :: pieces) = x.hidden ++ hidden pieces :=
  List.flatMap_cons

/-- Redaction hides the credentials of a string exactly if each of its pieces is safe. -/
theorem redactString_iff (hs : ssid ≠ []) (hp : password ≠ []) {pieces : List Piece}
    (hc : Concatenation ssid password pieces) :
    redactString [ssid, password] (rendered ssid password pieces) = hidden pieces ↔
      ∀ x ∈ pieces, Safe ssid password x := by
  induction pieces with
  | nil => simp [rendered, hidden, redactString]
  | cons x pieces ih =>
    have ih := ih hc.tail
    rw [rendered_cons, hidden_cons, List.forall_mem_cons, ← ih]
    cases hx : x.isCredential with
    | false =>
      cases x with
      | segment text =>
        have hf := hc.foreign text List.mem_cons_self
        rw [Piece.text, Piece.hidden,
          redactString_segment hs hp fun c hc => ⟨(hf c hc).1, (hf c hc).2.1⟩]
        simp [Safe]
      | ssid => exact absurd hx (by decide)
      | password => exact absurd hx (by decide)
    | true =>
      have hhidden : x.hidden = redacted := by
        cases x with
        | segment text => exact absurd hx Bool.false_ne_true
        | ssid => rfl
        | password => rfl
      rw [hhidden, ← redactString_credential hs hp hx]
      cases pieces with
      | nil => simp [rendered, hidden, redactString]
      | cons y rest =>
        -- The next piece is a segment, whose first character stays where it is.
        cases y with
        | ssid => exact absurd ⟨hx, rfl⟩ (List.isChain_cons_cons.mp hc.spaced).1
        | password => exact absurd ⟨hx, rfl⟩ (List.isChain_cons_cons.mp hc.spaced).1
        | segment text =>
          have hmem : Piece.segment text ∈ x :: .segment text :: rest := by simp
          obtain ⟨c, tail, rfl⟩ := List.exists_cons_of_ne_nil (hc.nonempty text hmem)
          obtain ⟨hcs, hcp, hcr⟩ := hc.foreign _ hmem c List.mem_cons_self
          have hcx : c ∉ redactString [ssid, password] (x.text ssid password) := by
            intro h
            rcases mem_redactString hs hp h with h | h
            · cases x with
              | segment text => exact absurd hx Bool.false_ne_true
              | ssid => exact hcs h
              | password => exact hcp h
            · exact hcr h
          rw [rendered_cons, hidden_cons, Piece.text, Piece.hidden, List.cons_append,
            List.cons_append, redactString_append_cons hs hp hcs hcp,
            ← List.nil_append (c :: (tail ++ rendered ssid password rest)),
            redactString_append_cons hs hp hcs hcp, append_cons_inj hcx hcr]
          simp [redactString]

/-! ## A whole response -/

/-- The strings that no key hides are concatenations over the credentials. -/
def Concatenations (redactSsid : Bool) (ssid password : Text) (response : Doc (List Piece)) :
    Prop :=
  ∀ pieces ∈ exposed redactSsid [] response, Concatenation ssid password pieces

/-- The pieces of the strings that no key hides are safe. -/
def AllSafe (redactSsid : Bool) (ssid password : Text) (response : Doc (List Piece)) : Prop :=
  ∀ pieces ∈ exposed redactSsid [] response, ∀ x ∈ pieces, Safe ssid password x

variable {redactSsid : Bool}

mutual

theorem sanitize_iff (hs : ssid ≠ []) (hp : password ≠ []) (key : Text) :
    ∀ response : Doc (List Piece),
      (∀ pieces ∈ exposed redactSsid key response, Concatenation ssid password pieces) →
      (sanitize [ssid, password] redactSsid key (response.map (rendered ssid password)) =
          expected redactSsid key response ↔
        ∀ pieces ∈ exposed redactSsid key response, ∀ x ∈ pieces, Safe ssid password x)
  | .atom a, _ => by
    rw [Doc.map, sanitize, expected, exposed]
    cases keyReplacement redactSsid key <;> simp
  | .string pieces, hc => by
    rw [exposed] at hc
    rw [Doc.map, sanitize, expected, exposed]
    cases hk : keyReplacement redactSsid key with
    | some text => simp
    | none =>
      rw [hk] at hc
      simpa using redactString_iff hs hp (hc pieces List.mem_cons_self)
  | .array items, hc => by
    rw [exposed] at hc
    rw [Doc.map, sanitize, expected, exposed]
    cases hk : keyReplacement redactSsid key with
    | some text => simp
    | none =>
      rw [hk] at hc
      simpa using sanitizeItems_iff hs hp items hc
  | .object members, hc => by
    rw [exposed] at hc
    rw [Doc.map, sanitize, expected, exposed]
    cases hk : keyReplacement redactSsid key with
    | some text => simp
    | none =>
      rw [hk] at hc
      simpa using sanitizeMembers_iff hs hp members hc

theorem sanitizeItems_iff (hs : ssid ≠ []) (hp : password ≠ []) :
    ∀ items : List (Doc (List Piece)),
      (∀ pieces ∈ exposedItems redactSsid items, Concatenation ssid password pieces) →
      (sanitizeItems [ssid, password] redactSsid (mapItems (rendered ssid password) items) =
          expectedItems redactSsid items ↔
        ∀ pieces ∈ exposedItems redactSsid items, ∀ x ∈ pieces, Safe ssid password x)
  | [], _ => by simp [mapItems, sanitizeItems, expectedItems, exposedItems]
  | item :: items, hc => by
    rw [exposedItems, List.forall_mem_append] at hc
    rw [mapItems, sanitizeItems, expectedItems, exposedItems, List.forall_mem_append,
      List.cons_eq_cons, sanitize_iff hs hp [] item hc.1, sanitizeItems_iff hs hp items hc.2]

theorem sanitizeMembers_iff (hs : ssid ≠ []) (hp : password ≠ []) :
    ∀ members : List (Text × Doc (List Piece)),
      (∀ pieces ∈ exposedMembers redactSsid members, Concatenation ssid password pieces) →
      (sanitizeMembers [ssid, password] redactSsid (mapMembers (rendered ssid password) members) =
          expectedMembers redactSsid members ↔
        ∀ pieces ∈ exposedMembers redactSsid members, ∀ x ∈ pieces, Safe ssid password x)
  | [], _ => by simp [mapMembers, sanitizeMembers, expectedMembers, exposedMembers]
  | (key, value) :: members, hc => by
    rw [exposedMembers, List.forall_mem_append] at hc
    rw [mapMembers, sanitizeMembers, expectedMembers, exposedMembers, List.forall_mem_append,
      List.cons_eq_cons, Prod.mk.injEq, sanitize_iff hs hp key value hc.1,
      sanitizeMembers_iff hs hp members hc.2]
    simp

end

/-- A network request with these credentials. -/
structure IsRequest (method : Text) (request : Doc Text) (ssid password : Text) : Prop where
  action : isNetworkAction method (some (.json request)) = true
  has_ssid : request.member (units "ssid") = some (.string ssid)
  has_password : request.member (units "password") = some (.string password)
  ssid_nonempty : ssid ≠ []
  password_nonempty : password ≠ []

variable {method : Text} {request : Doc Text}

theorem IsRequest.secrets (h : IsRequest method request ssid password) :
    requestSecrets (some (.json request)) = [ssid, password] := by
  have hs := List.length_pos_iff.mpr h.ssid_nonempty
  have hp := List.length_pos_iff.mpr h.password_nonempty
  simp [requestSecrets, Payload.member, h.has_ssid, h.has_password, hs, hp]

/-- The response is redacted as it should be exactly if all that no key hides is safe. -/
theorem redactRpcPayload_iff (h : IsRequest method request ssid password)
    {response : Doc (List Piece)} (hc : Concatenations redactSsid ssid password response) :
    redactRpcPayload method (.json (response.map (rendered ssid password)))
        (some (.json request)) redactSsid false = .json (expected redactSsid [] response) ↔
      AllSafe redactSsid ssid password response := by
  rw [redactRpcPayload, h.action, h.secrets, Bool.not_true, Bool.and_false,
    if_neg Bool.false_ne_true, Payload.json.injEq]
  exact sanitize_iff h.ssid_nonempty h.password_nonempty [] response hc

/-! ## Two runs -/

/-- The request with another password. -/
def withPassword (password : Text) : Doc Text → Doc Text
  | .object members => .object (members.map fun m =>
      if m.1 = units "password" then (m.1, .string password) else m)
  | doc => doc

theorem find?_withPassword (key password : Text) (members : List (Text × Doc Text)) :
    (members.map fun m => if m.1 = units "password" then (m.1, Doc.string password) else m).find?
        (fun m => m.1 == key) =
      (members.find? fun m => m.1 == key).map fun m =>
        if m.1 = units "password" then (m.1, Doc.string password) else m := by
  induction members with
  | nil => rfl
  | cons m members ih =>
    have hkey : (if m.1 = units "password" then (m.1, Doc.string password) else m).1 = m.1 := by
      split <;> rfl
    rw [List.map_cons, List.find?_cons, List.find?_cons, hkey, ih]
    cases m.1 == key <;> rfl

/-- The other members of the request are the same. -/
theorem member_withPassword {key : Text} (hkey : key ≠ units "password") (other : Text) :
    (withPassword other request).member key = request.member key := by
  cases request with
  | object members =>
    rw [withPassword, Doc.member, Doc.member, find?_withPassword, Option.map_map]
    cases hfind : members.find? fun m => m.1 == key with
    | none => rfl
    | some m =>
      have hm : m.1 = key := by simpa using List.find?_some hfind
      simp [hm, hkey]
  | atom a => rfl
  | string s => rfl
  | array items => rfl

theorem IsRequest.withPassword (h : IsRequest method request ssid password) {other : Text}
    (ho : other ≠ []) : IsRequest method (withPassword other request) ssid other where
  action := by
    have hm := h.action
    simp only [isNetworkAction, Option.bind_some, Payload.member] at hm ⊢
    rw [member_withPassword (by decide)]
    exact hm
  has_ssid := by
    rw [member_withPassword (by decide)]
    exact h.has_ssid
  has_password := by
    have hp := h.has_password
    cases request with
    | object members =>
      rw [Doc.member, Option.map_eq_some_iff] at hp
      obtain ⟨m, hfind, -⟩ := hp
      have hm : m.1 = units "password" := by simpa using List.find?_some hfind
      rw [Redaction.withPassword, Doc.member, find?_withPassword, hfind]
      simp [hm]
    | atom a => exact absurd hp (by simp [Doc.member])
    | string s => exact absurd hp (by simp [Doc.member])
    | array items => exact absurd hp (by simp [Doc.member])
  ssid_nonempty := h.ssid_nonempty
  password_nonempty := ho

/-- What the listeners see of the request does not depend on the password. -/
theorem sanitize_withPassword (secrets : List Text) (other : Text) :
    sanitize secrets true [] (withPassword other request) = sanitize secrets true [] request := by
  cases request with
  | object members =>
    have hmembers : ∀ members : List (Text × Doc Text),
        sanitizeMembers secrets true (members.map fun m =>
          if m.1 = units "password" then (m.1, Doc.string other) else m) =
        sanitizeMembers secrets true members := by
      intro members
      induction members with
      | nil => rfl
      | cons m members ih =>
        obtain ⟨key, value⟩ := m
        rw [List.map_cons]
        by_cases hkey : key = units "password"
        · subst hkey
          have hreplaced : keyReplacement true (units "password") = some redacted := by decide
          rw [if_pos rfl, sanitizeMembers, sanitizeMembers, ih]
          congr 2
          cases value <;> simp [sanitize, hreplaced]
        · rw [if_neg hkey, sanitizeMembers, sanitizeMembers, ih]
    rw [withPassword, sanitize, sanitize, hmembers]
  | atom a => rfl
  | string s => rfl
  | array items => rfl

section Map

variable {σ τ : Type} {f g : σ → τ}

mutual

theorem Doc.map_congr : ∀ doc : Doc σ, (∀ s ∈ doc.strings, f s = g s) → doc.map f = doc.map g
  | .atom _, _ => rfl
  | .string s, h => by rw [Doc.map, Doc.map, h s (by simp [Doc.strings])]
  | .array items, h => by
    rw [Doc.map, Doc.map, mapItems_congr items (by simpa [Doc.strings] using h)]
  | .object members, h => by
    rw [Doc.map, Doc.map, mapMembers_congr members (by simpa [Doc.strings] using h)]

theorem mapItems_congr : ∀ items : List (Doc σ), (∀ s ∈ itemStrings items, f s = g s) →
    mapItems f items = mapItems g items
  | [], _ => rfl
  | item :: items, h => by
    rw [itemStrings, List.forall_mem_append] at h
    rw [mapItems, mapItems, Doc.map_congr item h.1, mapItems_congr items h.2]

theorem mapMembers_congr : ∀ members : List (Text × Doc σ),
    (∀ s ∈ memberStrings members, f s = g s) → mapMembers f members = mapMembers g members
  | [], _ => rfl
  | (key, value) :: members, h => by
    rw [memberStrings, List.forall_mem_append] at h
    rw [mapMembers, mapMembers, Doc.map_congr value h.1, mapMembers_congr members h.2]

end

theorem Doc.member_map (key : Text) (doc : Doc σ) :
    (doc.map f).member key = (doc.member key).map (Doc.map f) := by
  cases doc with
  | object members =>
    rw [Doc.map, Doc.member, Doc.member]
    induction members with
    | nil => rfl
    | cons m members ih =>
      obtain ⟨k, value⟩ := m
      rw [mapMembers, List.find?_cons, List.find?_cons]
      by_cases hk : (k == key) = true
      · simp [hk]
      · simpa [hk] using ih
  | atom a => rfl
  | string s => rfl
  | array items => rfl

end Map

/-- The `ok` of the response, which the diagnostic carries as it is, has no password in it. -/
def OkPlain (response : Doc (List Piece)) : Prop :=
  ∀ ok, response.member (units "ok") = some ok → ∀ pieces ∈ ok.strings, Piece.password ∉ pieces

theorem rendered_of_plain {other : Text} {pieces : List Piece} (h : Piece.password ∉ pieces) :
    rendered ssid password pieces = rendered ssid other pieces := by
  refine List.flatMap_congr fun x hx => ?_
  cases x with
  | segment text => rfl
  | ssid => rfl
  | password => exact absurd hx h

/-- Two runs that differ in the password tell the listeners the same. -/
theorem told_eq (h : IsRequest method request ssid password) {other : Text} (ho : other ≠ [])
    {response : Doc (List Piece)} (hc : Concatenations true ssid password response)
    (hc' : Concatenations true ssid other response) (hok : OkPlain response)
    (hsafe : AllSafe true ssid password response) (hsafe' : AllSafe true ssid other response) :
    told method (.json request) (.json (response.map (rendered ssid password))) =
      told method (.json (withPassword other request))
        (.json (response.map (rendered ssid other))) := by
  have h' := h.withPassword ho
  have hrequest : redactRpcPayload method (.json request) none true false =
      redactRpcPayload method (.json (withPassword other request)) none true false := by
    rw [redactRpcPayload, redactRpcPayload, h.action, h'.action, sanitize_withPassword]
    rfl
  have hmember : (response.map (rendered ssid password)).member (units "ok") =
      (response.map (rendered ssid other)).member (units "ok") := by
    rw [Doc.member_map, Doc.member_map]
    cases hm : response.member (units "ok") with
    | none => rfl
    | some ok =>
      exact congrArg some (Doc.map_congr ok fun pieces hp =>
        rendered_of_plain (hok ok hm pieces hp))
  rw [told, told, hrequest, (redactRpcPayload_iff h hc).mpr hsafe,
    (redactRpcPayload_iff h' hc').mpr hsafe', Payload.member, Payload.member, hmember]

/-- A response is redacted as it should be exactly if all its pieces that no key hides are safe.
Then nothing that is shown for a piece has a character of the password but for the marker, and
the listeners are told the same in a run with another password, if that is safe as well and `ok`
is free of it. -/
theorem redaction_exact (h : IsRequest method request ssid password)
    (response : Doc (List Piece)) (redactSsid : Bool)
    (hc : Concatenations redactSsid ssid password response) :
    (redactRpcPayload method (.json (response.map (rendered ssid password)))
        (some (.json request)) redactSsid false = .json (expected redactSsid [] response) ↔
      AllSafe redactSsid ssid password response) ∧
    (∀ pieces ∈ exposed redactSsid [] response, ∀ x ∈ pieces,
      x.hidden = redacted ∨ ∀ c ∈ x.hidden, c ∉ password) ∧
    ∀ other, other ≠ [] → Concatenations true ssid password response →
      Concatenations true ssid other response → OkPlain response →
      AllSafe true ssid password response → AllSafe true ssid other response →
      told method (.json request) (.json (response.map (rendered ssid password))) =
        told method (.json (withPassword other request))
          (.json (response.map (rendered ssid other))) := by
  refine ⟨redactRpcPayload_iff h hc, fun pieces hp x hx => ?_,
    fun other ho hct hct' hok hsafe hsafe' => told_eq h ho hct hct' hok hsafe hsafe'⟩
  cases x with
  | segment text => exact Or.inr fun c hcm => ((hc pieces hp).foreign text hx c hcm).2.1
  | ssid => exact Or.inl rfl
  | password => exact Or.inl rfl

/-- A request to join a network. -/
def sampleRequest (ssid password : Text) : Doc Text :=
  .object [(units "action", .string (units "network.configure")), (units "ssid", .string ssid),
    (units "password", .string password)]

/-- A response that repeats the password. -/
def sampleResponse : Doc (List Piece) :=
  .object [(units "ok", .atom (.bool false)), (units "detail", .string [.password])]

theorem sampleRequest_isRequest {ssid password : Text} (hs : ssid ≠ []) (hp : password ≠ []) :
    IsRequest (units "device.control") (sampleRequest ssid password) ssid password :=
  ⟨rfl, rfl, rfl, hs, hp⟩

theorem sampleResponse_concatenations (redactSsid : Bool) (ssid password : Text) :
    Concatenations redactSsid ssid password sampleResponse := by
  intro pieces hp
  cases redactSsid <;> obtain rfl := List.mem_singleton.mp hp <;>
    exact ⟨by simp, by simp, List.IsChain.singleton _⟩

/-- With the SSID `lab` and the password `wifi2024` the response is redacted as it should be. -/
theorem redaction_exact_sample :
    redactRpcPayload (units "device.control")
      (.json (sampleResponse.map (rendered (units "lab") (units "wifi2024"))))
      (some (.json (sampleRequest (units "lab") (units "wifi2024")))) true false =
    .json (expected true [] sampleResponse) := by
  refine (redaction_exact (sampleRequest_isRequest (by decide) (by decide)) sampleResponse true
    (sampleResponse_concatenations true _ _)).1.mpr fun pieces hp x hx => ?_
  obtain rfl := List.mem_singleton.mp hp
  obtain rfl := List.mem_singleton.mp hx
  exact Or.inl (by decide)

/-- With the SSID `wifi` and the password `wifi2024` the rest of the password is shown, and a
listener tells two passwords apart. -/
theorem redaction_leaks_password :
    IsRequest (units "device.control") (sampleRequest (units "wifi") (units "wifi2024"))
      (units "wifi") (units "wifi2024") ∧
    Concatenations true (units "wifi") (units "wifi2024") sampleResponse ∧
    Concatenations true (units "wifi") (units "wifi2025") sampleResponse ∧
    redactRpcPayload (units "device.control")
      (.json (sampleResponse.map (rendered (units "wifi") (units "wifi2024"))))
      (some (.json (sampleRequest (units "wifi") (units "wifi2024")))) true false =
        .json (.object [(units "ok", .atom (.bool false)),
          (units "detail", .string (units "[redacted]2024"))]) ∧
    redactRpcPayload (units "device.control")
      (.json (sampleResponse.map (rendered (units "wifi") (units "wifi2024"))))
      (some (.json (sampleRequest (units "wifi") (units "wifi2024")))) true false ≠
        .json (expected true [] sampleResponse) ∧
    told (units "device.control") (.json (sampleRequest (units "wifi") (units "wifi2024")))
        (.json (sampleResponse.map (rendered (units "wifi") (units "wifi2024")))) ≠
      told (units "device.control")
        (.json (withPassword (units "wifi2025") (sampleRequest (units "wifi") (units "wifi2024"))))
        (.json (sampleResponse.map (rendered (units "wifi") (units "wifi2025")))) := by
  refine ⟨sampleRequest_isRequest (by decide) (by decide), sampleResponse_concatenations _ _ _,
    sampleResponse_concatenations _ _ _, rfl, fun h => ?_, fun h => ?_⟩
  · have hdetail := congrArg (Payload.member (units "detail")) h
    have hstring : Doc.string (units "[redacted]2024") = Doc.string redacted :=
      Option.some.inj hdetail
    exact absurd (Doc.string.inj hstring) (by decide)
  · have hdetail := congrArg (fun t => Payload.member (units "detail") t.response) h
    have hstring : Doc.string (units "[redacted]2024") = Doc.string (units "[redacted]2025") :=
      Option.some.inj hdetail
    exact absurd (Doc.string.inj hstring) (by decide)

end EspVision.Host.Redaction
