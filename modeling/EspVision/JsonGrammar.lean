import Mathlib.Data.List.Basic
import Mathlib.Tactic

/-!
# JSON texts over bytes

The grammar of RFC 8259 over strict UTF-8, as a relation between a byte list and
the value it denotes. Strings denote lists of code points, so overlong forms and
surrogates have no derivation. Numbers keep their token. Whitespace inside
arrays and objects belongs to the structural characters around it.
-/
namespace EspVision.Json

/-! ## Characters -/

def isWs (b : UInt8) : Bool := b == 0x20 || b == 0x09 || b == 0x0d || b == 0x0a

def isDigit (b : UInt8) : Bool := 0x30 ≤ b && b ≤ 0x39

def comma : UInt8 := 0x2c
def colon : UInt8 := 0x3a
def quote : UInt8 := 0x22
def backslash : UInt8 := 0x5c
def lbracket : UInt8 := 0x5b
def rbracket : UInt8 := 0x5d
def lbrace : UInt8 := 0x7b
def rbrace : UInt8 := 0x7d

/-- A whitespace text. -/
def Ws (t : List UInt8) : Prop := ∀ b ∈ t, isWs b = true

/-- A Unicode scalar value. -/
def Scalar (c : ℕ) : Prop := c ≤ 0x10ffff ∧ ¬ (0xd800 ≤ c ∧ c ≤ 0xdfff)

instance (c : ℕ) : Decidable (Scalar c) := by unfold Scalar; infer_instance

/-- The UTF-8 form of a scalar value. -/
def utf8 (c : ℕ) : List UInt8 :=
  if c < 0x80 then [UInt8.ofNat c]
  else if c < 0x800 then [UInt8.ofNat (0xc0 + c / 64), UInt8.ofNat (0x80 + c % 64)]
  else if c < 0x10000 then
    [UInt8.ofNat (0xe0 + c / 4096), UInt8.ofNat (0x80 + c / 64 % 64), UInt8.ofNat (0x80 + c % 64)]
  else
    [UInt8.ofNat (0xf0 + c / 262144), UInt8.ofNat (0x80 + c / 4096 % 64),
      UInt8.ofNat (0x80 + c / 64 % 64), UInt8.ofNat (0x80 + c % 64)]

/-- The bytes of a decoded string. -/
def encode (s : List ℕ) : List UInt8 := s.flatMap utf8

@[simp] theorem encode_nil : encode [] = [] := rfl

@[simp] theorem encode_cons (c : ℕ) (s : List ℕ) : encode (c :: s) = utf8 c ++ encode s := rfl

/-- The value of a hexadecimal digit. -/
def hexValue (b : UInt8) : Option ℕ :=
  if 0x30 ≤ b ∧ b ≤ 0x39 then some (b.toNat - 0x30)
  else if 0x61 ≤ b ∧ b ≤ 0x66 then some (b.toNat - 0x61 + 10)
  else if 0x41 ≤ b ∧ b ≤ 0x46 then some (b.toNat - 0x41 + 10)
  else none

/-- Four hexadecimal digits and the code unit they write. -/
def Hex4 (t : List UInt8) (v : ℕ) : Prop :=
  ∃ a b c d x y z w, t = [a, b, c, d] ∧ hexValue a = some x ∧ hexValue b = some y ∧
    hexValue c = some z ∧ hexValue d = some w ∧ v = ((x * 16 + y) * 16 + z) * 16 + w

/-- The character of a two-character escape. -/
def simpleEscape (b : UInt8) : Option UInt8 :=
  if b = quote then some quote
  else if b = backslash then some backslash
  else if b = 0x2f then some 0x2f
  else if b = 0x62 then some 0x08
  else if b = 0x66 then some 0x0c
  else if b = 0x6e then some 0x0a
  else if b = 0x72 then some 0x0d
  else if b = 0x74 then some 0x09
  else none

/-- The code point of a surrogate pair. -/
def surrogatePair (hi lo : ℕ) : ℕ := 0x10000 + (hi - 0xd800) * 1024 + (lo - 0xdc00)

/-! ## Strings -/

/-- One character of a string and the code point it denotes. -/
inductive Piece : List UInt8 → ℕ → Prop
  | plain {b : UInt8} : 0x20 ≤ b → b < 0x80 → b ≠ quote → b ≠ backslash → Piece [b] b.toNat
  | utf8 {c : ℕ} : 0x80 ≤ c → Scalar c → Piece (utf8 c) c
  | escape {b d : UInt8} : simpleEscape b = some d → Piece [backslash, b] d.toNat
  | unicode {t : List UInt8} {v : ℕ} : Hex4 t v → Scalar v → Piece (backslash :: 0x75 :: t) v
  | surrogates {t u : List UInt8} {hi lo : ℕ} : Hex4 t hi → Hex4 u lo →
      0xd800 ≤ hi → hi ≤ 0xdbff → 0xdc00 ≤ lo → lo ≤ 0xdfff →
      Piece (backslash :: 0x75 :: t ++ backslash :: 0x75 :: u) (surrogatePair hi lo)

/-- The characters between the quotes. -/
inductive StringBody : List UInt8 → List ℕ → Prop
  | nil : StringBody [] []
  | cons {p t : List UInt8} {c : ℕ} {s : List ℕ} :
      Piece p c → StringBody t s → StringBody (p ++ t) (c :: s)

/-- A string in quotes. -/
def StringText (t : List UInt8) (s : List ℕ) : Prop :=
  ∃ body, t = quote :: (body ++ [quote]) ∧ StringBody body s

/-! ## Numbers -/

def Digits (t : List UInt8) : Prop := ∀ b ∈ t, isDigit b = true

def IntPart (t : List UInt8) : Prop :=
  t = [0x30] ∨ ∃ d ds, t = d :: ds ∧ 0x31 ≤ d ∧ d ≤ 0x39 ∧ Digits ds

def Fraction (t : List UInt8) : Prop :=
  t = [] ∨ ∃ ds, t = 0x2e :: ds ∧ ds ≠ [] ∧ Digits ds

def Exponent (t : List UInt8) : Prop :=
  t = [] ∨ ∃ e sign ds, t = e :: (sign ++ ds) ∧ (e = 0x65 ∨ e = 0x45) ∧
    (sign = [] ∨ sign = [0x2b] ∨ sign = [0x2d]) ∧ ds ≠ [] ∧ Digits ds

/-- A number token. -/
def NumberText (t : List UInt8) : Prop :=
  ∃ sign int frac exp, t = sign ++ (int ++ (frac ++ exp)) ∧ (sign = [] ∨ sign = [0x2d]) ∧
    IntPart int ∧ Fraction frac ∧ Exponent exp

/-- The value of a token made of digits. -/
def natValue (t : List UInt8) : ℕ := t.foldl (fun v b => v * 10 + (b.toNat - 0x30)) 0

/-! ## Values -/

/-- A JSON value; object members keep their order and their duplicates. -/
inductive Value where
  | null
  | bool (b : Bool)
  | number (token : List UInt8)
  | string (s : List ℕ)
  | array (items : List Value)
  | object (members : List (List ℕ × Value))

def nullText : List UInt8 := [0x6e, 0x75, 0x6c, 0x6c]

def boolText : Bool → List UInt8
  | true => [0x74, 0x72, 0x75, 0x65]
  | false => [0x66, 0x61, 0x6c, 0x73, 0x65]

mutual

/-- `ValueText t v`: the bytes `t` are exactly one JSON text of `v`. -/
inductive ValueText : List UInt8 → Value → Prop
  | null : ValueText nullText .null
  | bool (b : Bool) : ValueText (boolText b) (.bool b)
  | number {t : List UInt8} : NumberText t → ValueText t (.number t)
  | string {t : List UInt8} {s : List ℕ} : StringText t s → ValueText t (.string s)
  | emptyArray {a : List UInt8} : Ws a → ValueText (lbracket :: (a ++ [rbracket])) (.array [])
  | array {a t : List UInt8} {vs : List Value} : Ws a → ItemsText t vs →
      ValueText (lbracket :: (a ++ (t ++ [rbracket]))) (.array vs)
  | emptyObject {a : List UInt8} : Ws a → ValueText (lbrace :: (a ++ [rbrace])) (.object [])
  | object {a t : List UInt8} {ms : List (List ℕ × Value)} : Ws a → MembersText t ms →
      ValueText (lbrace :: (a ++ (t ++ [rbrace]))) (.object ms)

/-- The items of a nonempty array, with the whitespace after each. -/
inductive ItemsText : List UInt8 → List Value → Prop
  | one {t a : List UInt8} {v : Value} : ValueText t v → Ws a → ItemsText (t ++ a) [v]
  | cons {t a b u : List UInt8} {v : Value} {vs : List Value} : ValueText t v → Ws a → Ws b →
      ItemsText u vs → ItemsText (t ++ (a ++ comma :: (b ++ u))) (v :: vs)

/-- The members of a nonempty object, with the whitespace after each. -/
inductive MembersText : List UInt8 → List (List ℕ × Value) → Prop
  | one {k a b t c : List UInt8} {s : List ℕ} {v : Value} : StringText k s → Ws a → Ws b →
      ValueText t v → Ws c → MembersText (k ++ (a ++ colon :: (b ++ (t ++ c)))) [(s, v)]
  | cons {k a b t c d u : List UInt8} {s : List ℕ} {v : Value} {ms : List (List ℕ × Value)} :
      StringText k s → Ws a → Ws b → ValueText t v → Ws c → Ws d → MembersText u ms →
      MembersText (k ++ (a ++ colon :: (b ++ (t ++ (c ++ comma :: (d ++ u)))))) ((s, v) :: ms)

end

/-- One JSON object surrounded by whitespace only. -/
def Document (t : List UInt8) (ms : List (List ℕ × Value)) : Prop :=
  ∃ a u c, t = a ++ (u ++ c) ∧ Ws a ∧ Ws c ∧ ValueText u (.object ms)

mutual

/-- How many levels of values a value contains. -/
def Value.depth : Value → ℕ
  | .array items => depthItems items
  | .object members => depthMembers members
  | _ => 0

def depthItems : List Value → ℕ
  | [] => 0
  | v :: vs => max (v.depth + 1) (depthItems vs)

def depthMembers : List (List ℕ × Value) → ℕ
  | [] => 0
  | (_, v) :: ms => max (v.depth + 1) (depthMembers ms)

end

mutual

/-- The code point zero occurs in some string of the value. -/
def Value.hasNul : Value → Bool
  | .string s => s.contains 0
  | .array items => hasNulItems items
  | .object members => hasNulMembers members
  | _ => false

def hasNulItems : List Value → Bool
  | [] => false
  | v :: vs => v.hasNul || hasNulItems vs

def hasNulMembers : List (List ℕ × Value) → Bool
  | [] => false
  | (k, v) :: ms => k.contains 0 || v.hasNul || hasNulMembers ms

end

end EspVision.Json
