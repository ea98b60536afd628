import EspVision.NetworkJsonDocument
import EspVision.NetworkService

/-!
# Requests that reach the service (`network_service.c`)

What the checks before the critical section leave: a request whose lengths fit its arrays, and
whose fingerprint tells its parameters apart from all others.
-/
namespace EspVision.NetworkService

/-- What `make_request` guarantees. -/
structure NetworkRequest.WellFormed (sha256 : List UInt8 → List UInt8) (r : NetworkRequest) :
    Prop where
  id : lowerHexOperationId r.id = true
  hash : r.parameterHash = sha256 r.parameters
  ssid : r.ssidLength.toNat ≤ ssidMax ∧ r.ssid.length = ssidSize
  password : r.passwordLength.toNat ≤ passwordMax ∧ r.password.length = passwordSize
  named : r.action = .configure → r.ssidLength ≠ 0
  enabled : r.enabled ≤ 1

variable {sha256 : List UInt8 → List UInt8} {r q : NetworkRequest}

lemma memcpy_length {size n : ℕ} {src : List UInt8} (hn : n ≤ size) (hs : n ≤ src.length) :
    (memcpy (cleared size) src n).length = size := by
  simp only [memcpy, cleared, List.length_append, List.length_take, List.length_drop,
    List.length_replicate]
  omega

lemma passwordValid_length {password : List UInt8} {n : ℕ} (h : passwordValid password n = true) :
    n ≤ passwordMax := by
  unfold passwordValid at h
  split_ifs at h with h0 h64 hrange
  · rw [h0]
    exact Nat.zero_le _
  · exact h64.le
  · have hmax : passwordMax = 64 := rfl
    omega

lemma toUInt8_toNat {n : ℕ} (h : n < 256) : n.toUInt8.toNat = n := by
  simp [Nat.toUInt8, Nat.mod_eq_of_lt h]

/-- The parameters that the checks let through; the array sizes are those of the parser. -/
lemma requestParameters_wellFormed {json : Request} (hs : json.ssid.length = ssidSize)
    (hp : json.password.length = passwordSize) (h : requestParameters json = .ok r) :
    ({ r with parameterHash := sha256 r.parameters } : NetworkRequest).WellFormed sha256 := by
  unfold requestParameters at h
  dsimp only at h
  split at h
  · cases h
  rename_i hid
  have hid' : lowerHexOperationId (stringOf json.operationId) = true := by simpa using hid
  split at h
  · split at h
    · cases h
    rename_i hcheck
    simp only [Bool.or_eq_true, Bool.not_eq_true', decide_eq_true_eq, not_or] at hcheck
    obtain ⟨⟨⟨-, hne⟩, hlen⟩, hpw⟩ := hcheck
    have hmax : ssidMax = 32 ∧ ssidSize = 33 ∧ passwordMax = 64 ∧ passwordSize = 65 :=
      ⟨rfl, rfl, rfl, rfl⟩
    have hpl := passwordValid_length (by simpa using hpw)
    have hsn := toUInt8_toNat (n := json.ssidLength) (by omega)
    have hpn := toUInt8_toNat (n := json.passwordLength) (by omega)
    obtain rfl := Except.ok.inj h
    refine ⟨hid', rfl, ⟨?_, memcpy_length ?_ ?_⟩, ⟨?_, memcpy_length ?_ ?_⟩, fun _ h0 => hne ?_,
      by simp⟩
    · change json.ssidLength.toUInt8.toNat ≤ ssidMax
      omega
    · omega
    · omega
    · change json.passwordLength.toUInt8.toNat ≤ passwordMax
      omega
    · omega
    · omega
    · have h0' : json.ssidLength.toUInt8.toNat = 0 := by
        rw [show json.ssidLength.toUInt8 = 0 from h0]
        rfl
      omega
  have hcleared : ∀ (a : Action) (e : UInt8), a ≠ .configure → e ≤ 1 →
      ({ id := stringOf json.operationId, action := a, enabled := e
         parameterHash := sha256 (NetworkRequest.parameters
          { id := stringOf json.operationId, action := a, enabled := e }) } :
        NetworkRequest).WellFormed sha256 := fun a e ha he =>
    ⟨hid', rfl, ⟨Nat.zero_le _, rfl⟩, ⟨Nat.zero_le _, rfl⟩, fun h => absurd h ha, he⟩
  split at h
  · split at h
    · cases h
    obtain rfl := Except.ok.inj h
    refine hcleared .enable _ (by decide) ?_
    change (if json.enabled = true then (1 : UInt8) else 0) ≤ 1
    cases json.enabled <;> decide
  split at h
  · split at h
    · cases h
    obtain rfl := Except.ok.inj h
    exact hcleared .forget 0 (by decide) (by decide)
  · cases h

/-- Only well-formed requests reach the critical section. -/
theorem requestOf_wellFormed {text : List UInt8} {capacity : ℕ} {hashed : Bool}
    (h : requestOf sha256 text capacity hashed = .ok r) : r.WellFormed sha256 := by
  unfold requestOf at h
  split at h
  · cases h
  split at h
  · rename_i json hjson
    obtain ⟨ms, -, rfl⟩ := parse_sound hjson
    split at h
    · cases h
    split at h
    · split at h <;> cases h
    split at h
    · cases h
    unfold makeRequest at h
    cases hp : requestParameters (Request.decoded ms) with
    | error e =>
      rw [hp] at h
      cases h
    | ok r' =>
      rw [hp] at h
      cases hashed with
      | false => cases h
      | true =>
        obtain rfl := Except.ok.inj h
        exact requestParameters_wellFormed (textOf_length _ _) (textOf_length _ _) hp
  · split at h <;> cases h

/-! ## Fingerprints -/

/-- The same action with the same parameters. -/
def NetworkRequest.SameParameters (r q : NetworkRequest) : Prop :=
  r.action = q.action ∧ r.enabled = q.enabled ∧
    r.ssid.take r.ssidLength.toNat = q.ssid.take q.ssidLength.toNat ∧
    r.password.take r.passwordLength.toNat = q.password.take q.passwordLength.toNat

instance (r q : NetworkRequest) : Decidable (r.SameParameters q) :=
  inferInstanceAs (Decidable (_ ∧ _ ∧ _ ∧ _))

lemma Action.code_injective : Function.Injective Action.code := by
  intro a b h
  cases a <;> cases b <;> first | rfl | exact absurd h (by decide)

lemma NetworkRequest.WellFormed.ssid_take (h : r.WellFormed sha256) :
    (r.ssid.take r.ssidLength.toNat).length = r.ssidLength.toNat := by
  have hmax : ssidMax = 32 ∧ ssidSize = 33 := ⟨rfl, rfl⟩
  rw [List.length_take]
  have := h.ssid
  omega

lemma NetworkRequest.WellFormed.password_take (h : r.WellFormed sha256) :
    (r.password.take r.passwordLength.toNat).length = r.passwordLength.toNat := by
  have hmax : passwordMax = 64 ∧ passwordSize = 65 := ⟨rfl, rfl⟩
  rw [List.length_take]
  have := h.password
  omega

/-- The bytes that are hashed determine the parameters. -/
lemma parameters_eq_iff (hr : r.WellFormed sha256) (hq : q.WellFormed sha256) :
    r.parameters = q.parameters ↔ r.SameParameters q := by
  constructor
  · intro h
    simp only [NetworkRequest.parameters, List.cons_append, List.nil_append, List.cons.injEq,
      List.append_assoc] at h
    obtain ⟨ha, he, hl, h⟩ := h
    obtain ⟨hs, h⟩ := List.append_inj h (by rw [hr.ssid_take, hq.ssid_take, hl])
    obtain ⟨-, hp⟩ := List.cons.inj h
    exact ⟨Action.code_injective ha, he, hs, hp⟩
  · rintro ⟨ha, he, hs, hp⟩
    have hsl : r.ssidLength = q.ssidLength := by
      rw [← UInt8.toNat_inj, ← hr.ssid_take, ← hq.ssid_take, hs]
    have hpl : r.passwordLength = q.passwordLength := by
      rw [← UInt8.toNat_inj, ← hr.password_take, ← hq.password_take, hp]
    simp only [NetworkRequest.parameters]
    rw [ha, he, hs, hp, hsl, hpl]

/-- With an injective hash the service tells requests apart by their parameters. -/
theorem fingerprint_iff (hsha : Function.Injective sha256) (hr : r.WellFormed sha256)
    (hq : q.WellFormed sha256) :
    (r.action = q.action ∧ r.parameterHash = q.parameterHash) ↔ r.SameParameters q := by
  rw [hr.hash, hq.hash, hsha.eq_iff, parameters_eq_iff hr hq]
  exact ⟨fun h => h.2, fun h => ⟨h.1, h⟩⟩

end EspVision.NetworkService
