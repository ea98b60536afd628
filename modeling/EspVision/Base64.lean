import Mathlib.Tactic

/-!
# Base64 of file chunks

Six bits of each character enter a 32-bit accumulator of the decoder, and every eighth bit
completes a byte. The text ends before its first `=`, and spaces stand for nothing. The encoder
takes three bytes at a time and writes `=` for the characters that a last group does not have.
-/
namespace EspVision.Base64

/-- `ev_control_base64_value`. -/
def base64Value (c : UInt8) : Option UInt32 :=
  if 0x41 ≤ c ∧ c ≤ 0x5a then some (c - 0x41).toUInt32
  else if 0x61 ≤ c ∧ c ≤ 0x7a then some (c - 0x61 + 26).toUInt32
  else if 0x30 ≤ c ∧ c ≤ 0x39 then some (c - 0x30 + 52).toUInt32
  else if c = 0x2b then some 62
  else if c = 0x2f then some 63
  else none

/-- `isspace` of the C locale. -/
def isSpace (c : UInt8) : Bool := c == 0x20 || (0x09 ≤ c && c ≤ 0x0d)

/-- `ESP_ERR_INVALID_ARG` and `ESP_ERR_INVALID_SIZE`. -/
inductive DecodeError
  | invalidArg | invalidSize
  deriving DecidableEq

/-- `esp_err_to_name`. -/
def DecodeError.name : DecodeError → String
  | .invalidArg => "ESP_ERR_INVALID_ARG"
  | .invalidSize => "ESP_ERR_INVALID_SIZE"

/-- The loop of `ev_control_base64_decode`, with the bytes stored so far. -/
def decodeLoop (capacity : ℕ) :
    List UInt8 → UInt32 → ℕ → List UInt8 → Except DecodeError (List UInt8)
  | [], _, _, out => .ok out
  | c :: src, acc, bits, out =>
    if c = 0x3d then .ok out
    else if isSpace c then decodeLoop capacity src acc bits out
    else
      match base64Value c with
      | none => .error .invalidArg
      | some value =>
        let acc := acc <<< 6 ||| value
        if 8 ≤ bits + 6 then
          if capacity ≤ out.length then .error .invalidSize
          else
            decodeLoop capacity src acc (bits + 6 - 8)
              (out ++ [(acc >>> UInt32.ofNat (bits + 6 - 8)).toUInt8])
        else decodeLoop capacity src acc (bits + 6) out

/-- `ev_control_base64_decode`. -/
def base64Decode (src : List UInt8) (capacity : ℕ) : Except DecodeError (List UInt8) :=
  decodeLoop capacity src 0 0 []

/-! ## The encoder -/

/-- `s_base64_table`. -/
def base64Table : List UInt8 :=
  "ABCDEFGHIJKLMNOPQRSTUVWXYZabcdefghijklmnopqrstuvwxyz0123456789+/".toList.map
    fun c => UInt8.ofNat c.toNat

/-- The character of the low six bits. -/
def tableChar (value : UInt32) : UInt8 := base64Table.getD (value &&& 0x3f).toNat 0

/-- One turn of the loop, with the second and the third byte where the source has them. -/
def encodeGroup (a : UInt8) (b c : Option UInt8) : List UInt8 :=
  let value := a.toUInt32 <<< 16 ||| (b.getD 0).toUInt32 <<< 8 ||| (c.getD 0).toUInt32
  [tableChar (value >>> 18), tableChar (value >>> 12),
    if b.isSome then tableChar (value >>> 6) else 0x3d,
    if c.isSome then tableChar value else 0x3d]

/-- The loop of `ev_control_base64_encode`. -/
def encodeLoop : List UInt8 → List UInt8
  | [] => []
  | [a] => encodeGroup a none none
  | [a, b] => encodeGroup a (some b) none
  | a :: b :: c :: src => encodeGroup a (some b) (some c) ++ encodeLoop src

/-- `ev_control_base64_encode`: what it stores from the front of `dst` on, a `size_t` having
32 bits. -/
def base64Encode (src : List UInt8) (dstLen : UInt32) : Except DecodeError (List UInt8) :=
  let outLen := (UInt32.ofNat src.length + 2) / 3 * 4
  if dstLen ≤ outLen then .error .invalidSize else .ok (encodeLoop src ++ [0])

/-- `decoded_capacity` of `script.write`, from the `strlen` of the text. -/
def decodedCapacity (textLen : UInt32) : UInt32 := textLen * 3 / 4 + 4

example : base64Decode [0x59, 0x57, 0x20, 0x4a, 0x6a, 0x3d] 8 = .ok [0x61, 0x62, 0x63] := by
  decide

end EspVision.Base64
