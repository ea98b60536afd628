import EspVision.JsonGrammar

/-!
# The scanning functions of the two JSON readers

The control parser and the network parser share their scanning code but for three
points: how a decoded byte is stored, what a NUL code point does, and how a number
is read. Those points are parameters here. The parser position is the list of bytes
that are left, so a read at or past the end has nothing to match on and is the
outcome `fault`, as is a loop that runs out of fuel.
-/
namespace EspVision.Json

/-- A call returned true, returned false, or went wrong. -/
inductive Outcome (α : Type*)
  | ok (a : α)
  | reject
  | fault
  deriving DecidableEq

def Outcome.bind {α β : Type*} (x : Outcome α) (f : α → Outcome β) : Outcome β :=
  match x with
  | .ok a => f a
  | .reject => .reject
  | .fault => .fault

instance : Monad Outcome where
  pure := .ok
  bind := Outcome.bind

@[simp] theorem Outcome.pure_eq {α : Type} (a : α) : (pure a : Outcome α) = .ok a := rfl

@[simp] theorem Outcome.ok_bind {α β : Type} (a : α) (f : α → Outcome β) :
    (Outcome.ok a >>= f) = f a := rfl

@[simp] theorem Outcome.reject_bind {α β : Type} (f : α → Outcome β) :
    ((Outcome.reject : Outcome α) >>= f) = .reject := rfl

@[simp] theorem Outcome.fault_bind {α β : Type} (f : α → Outcome β) :
    ((Outcome.fault : Outcome α) >>= f) = .fault := rfl

@[simp] theorem Outcome.bind_ok_self {α : Type} (x : Outcome α) : (x >>= Outcome.ok) = x := by
  cases x <;> rfl

theorem Outcome.bind_eq_ok {α β : Type} {x : Outcome α} {f : α → Outcome β} {b : β} :
    (x >>= f) = .ok b ↔ ∃ a, x = .ok a ∧ f a = .ok b := by
  cases x <;> simp

theorem Outcome.bind_ne_fault {α β : Type} {x : Outcome α} {f : α → Outcome β}
    (hx : x ≠ .fault) (hf : ∀ a, x = .ok a → f a ≠ .fault) : (x >>= f) ≠ .fault := by
  cases x with
  | ok a => exact hf a rfl
  | reject => simp
  | fault => exact absurd rfl hx

/-! ## Bytes -/

/-- `parser_whitespace`. -/
def whitespace (s : List UInt8) : List UInt8 := s.dropWhile isWs

/-- The next byte when it is the expected one. -/
def expect (b : UInt8) : List UInt8 → Outcome (List UInt8)
  | [] => .reject
  | c :: rest => if c = b then .ok rest else .reject

/-- `parser_literal`. -/
def literal (text s : List UInt8) : Outcome (List UInt8) :=
  if s.length < text.length then .reject
  else if s.take text.length ≠ text then .reject
  else .ok (s.drop text.length)

/-- The loop of `parser_hex4`; its caller has checked that the bytes are there. -/
def hexLoop : ℕ → ℕ → List UInt8 → Outcome (ℕ × List UInt8)
  | 0, value, s => .ok (value, s)
  | _ + 1, _, [] => .fault
  | n + 1, value, c :: rest =>
    match hexValue c with
    | some digit => hexLoop n ((value <<< 4 ||| digit) % 65536) rest
    | none => .reject

/-- `parser_hex4`. -/
def hex4 (s : List UInt8) : Outcome (ℕ × List UInt8) :=
  if s.length < 4 then .reject else hexLoop 4 0 s

/-- The trailing bytes of `parser_raw_utf8`: the code point so far and the bytes read. -/
def trailLoop : ℕ → ℕ → List UInt8 → List UInt8 → Outcome (ℕ × List UInt8 × List UInt8)
  | 0, codepoint, encoded, s => .ok (codepoint, encoded, s)
  | _ + 1, _, _, [] => .fault
  | n + 1, codepoint, encoded, b :: rest =>
    if b &&& 0xc0 ≠ 0x80 then .reject
    else trailLoop n (codepoint <<< 6 ||| (b &&& 0x3f).toNat) (encoded ++ [b]) rest

/-- The lead byte's payload and the number of bytes that follow it. -/
def utf8Lead (lead : UInt8) : Option (ℕ × ℕ) :=
  if 0xc2 ≤ lead ∧ lead ≤ 0xdf then some ((lead &&& 0x1f).toNat, 1)
  else if 0xe0 ≤ lead ∧ lead ≤ 0xef then some ((lead &&& 0x0f).toNat, 2)
  else if 0xf0 ≤ lead ∧ lead ≤ 0xf4 then some ((lead &&& 0x07).toNat, 3)
  else none

/-- `parser_raw_utf8` up to the point where the bytes are stored. -/
def rawUtf8 : List UInt8 → Outcome (List UInt8 × List UInt8)
  | [] => .fault
  | lead :: rest =>
    match utf8Lead lead with
    | none => .reject
    | some (payload, trailing) =>
      if rest.length < trailing then .reject
      else do
        let (codepoint, encoded, rest) ← trailLoop trailing payload [lead] rest
        if (trailing = 1 ∧ codepoint < 0x80) ∨ (trailing = 2 ∧ codepoint < 0x800) ∨
            (trailing = 3 ∧ codepoint < 0x10000) ∨ 0x10ffff < codepoint ∨
            (0xd800 ≤ codepoint ∧ codepoint ≤ 0xdfff) then .reject
        else .ok (encoded, rest)

/-- The bytes `parser_codepoint` stores for a code point that is not zero. -/
def codepointBytes (c : ℕ) : Outcome (List UInt8) :=
  if 0x10ffff < c ∨ (0xd800 ≤ c ∧ c ≤ 0xdfff) then .reject
  else if c < 0x80 then .ok [UInt8.ofNat c]
  else if c < 0x800 then .ok [UInt8.ofNat (0xc0 ||| c >>> 6), UInt8.ofNat (0x80 ||| c &&& 0x3f)]
  else if c < 0x10000 then
    .ok [UInt8.ofNat (0xe0 ||| c >>> 12), UInt8.ofNat (0x80 ||| c >>> 6 &&& 0x3f),
      UInt8.ofNat (0x80 ||| c &&& 0x3f)]
  else
    .ok [UInt8.ofNat (0xf0 ||| c >>> 18), UInt8.ofNat (0x80 ||| c >>> 12 &&& 0x3f),
      UInt8.ofNat (0x80 ||| c >>> 6 &&& 0x3f), UInt8.ofNat (0x80 ||| c &&& 0x3f)]

/-- The code point of a `\u` escape, after the letter. -/
def unicodeEscape (s : List UInt8) : Outcome (ℕ × List UInt8) := do
  let (first, s) ← hex4 s
  if 0xd800 ≤ first ∧ first ≤ 0xdbff then
    if s.length < 6 then .reject
    else match s with
      | b :: u :: s =>
        if b ≠ backslash ∨ u ≠ 0x75 then .reject
        else do
          let (second, s) ← hex4 s
          if second < 0xdc00 ∨ 0xdfff < second then .reject
          else .ok (0x10000 + (first - 0xd800) <<< 10 + (second - 0xdc00), s)
      | _ => .fault
  else if 0xdc00 ≤ first ∧ first ≤ 0xdfff then .reject
  else .ok (first, s)

/-! ## Strings -/

/-- Where decoded bytes go: one byte, and the code point zero. -/
structure Sink (σ : Type) where
  byte : UInt8 → σ → Outcome σ
  nul : σ → Outcome σ

/-- Store bytes one after the other. -/
def Sink.bytes {σ : Type} (k : Sink σ) : List UInt8 → σ → Outcome σ
  | [], out => .ok out
  | b :: bs, out => do
    let out ← k.byte b out
    k.bytes bs out

/-- `parser_codepoint`. -/
def Sink.codepoint {σ : Type} (k : Sink σ) (c : ℕ) (out : σ) : Outcome σ :=
  if c = 0 then k.nul out
  else do
    let bytes ← codepointBytes c
    k.bytes bytes out

/-- The effect of a decoded string on the sink. -/
def Sink.feed {σ : Type} (k : Sink σ) : List ℕ → σ → Outcome σ
  | [], out => .ok out
  | c :: cs, out => do
    let out ← k.codepoint c out
    k.feed cs out

/-- One character of the loop of `parser_string`, the closing quote excepted. -/
def stringStep {σ : Type} (k : Sink σ) (c : UInt8) (rest : List UInt8) (out : σ) :
    Outcome (σ × List UInt8) :=
  if c < 0x20 then .reject
  else if c ≠ backslash then
    if c < 0x80 then do
      let out ← k.byte c out
      .ok (out, rest)
    else do
      let (encoded, rest) ← rawUtf8 (c :: rest)
      let out ← k.bytes encoded out
      .ok (out, rest)
  else
    match rest with
    | [] => .reject
    | e :: rest =>
      match simpleEscape e with
      | some decoded => do
        let out ← k.byte decoded out
        .ok (out, rest)
      | none =>
        if e = 0x75 then do
          let (c, rest) ← unicodeEscape rest
          let out ← k.codepoint c out
          .ok (out, rest)
        else .reject

/-- The loop of `parser_string`. -/
def stringLoop {σ : Type} (k : Sink σ) : ℕ → List UInt8 → σ → Outcome (σ × List UInt8)
  | 0, _, _ => .fault
  | _ + 1, [], _ => .reject
  | fuel + 1, c :: rest, out =>
    if c = quote then .ok (out, rest)
    else do
      let (out, rest) ← stringStep k c rest out
      stringLoop k fuel rest out

/-- `parser_string`; the store of the terminator is left to the caller. -/
def string {σ : Type} (k : Sink σ) (s : List UInt8) (out : σ) : Outcome (σ × List UInt8) := do
  let rest ← expect quote s
  stringLoop k (rest.length + 1) rest out

/-! ## Numbers -/

def startsWithDigit : List UInt8 → Bool
  | b :: _ => isDigit b
  | [] => false

/-- Digits that must be there. -/
def digits1 (s : List UInt8) : Outcome (List UInt8) :=
  if startsWithDigit s then .ok (s.dropWhile isDigit) else .reject

def exponentPart : List UInt8 → Outcome (List UInt8)
  | [] => .ok []
  | e :: rest =>
    if e = 0x65 ∨ e = 0x45 then
      match rest with
      | sign :: rest' => if sign = 0x2b ∨ sign = 0x2d then digits1 rest' else digits1 rest
      | [] => digits1 rest
    else .ok (e :: rest)

def fractionPart : List UInt8 → Outcome (List UInt8)
  | [] => exponentPart []
  | b :: rest =>
    if b = 0x2e then do
      let rest ← digits1 rest
      exponentPart rest
    else exponentPart (b :: rest)

/-- The number of a skipped value. With `zeroAlone` a digit after a leading zero is refused at
once, as the control parser does; the network parser leaves it to its caller. -/
def number (zeroAlone : Bool) (s : List UInt8) : Outcome (List UInt8) :=
  let s := match s with
    | b :: rest => if b = 0x2d then rest else b :: rest
    | [] => []
  match s with
  | [] => .reject
  | b :: rest =>
    if b = 0x30 then
      if zeroAlone && startsWithDigit rest then .reject else fractionPart rest
    else if 0x31 ≤ b ∧ b ≤ 0x39 then fractionPart (rest.dropWhile isDigit)
    else .reject

/-! ## Skipped values -/

/-- What the two readers do differently when they skip a value. -/
structure Dialect where
  nulAllowed : Bool
  zeroAlone : Bool

/-- A null output validates without storing. -/
def skipSink (d : Dialect) : Sink Unit where
  byte _ _ := .ok ()
  nul _ := if d.nulAllowed then .ok () else .reject

def skipString (d : Dialect) (s : List UInt8) : Outcome (List UInt8) := do
  let (_, rest) ← string (skipSink d) s ()
  .ok rest

/-- The byte after an element: the loop ends at `close` and goes on after a comma. -/
def separator (close : UInt8) : List UInt8 → Outcome (Bool × List UInt8)
  | [] => .reject
  | b :: rest =>
    if b = close then .ok (true, rest)
    else if b = comma then .ok (false, whitespace rest)
    else .reject

/-- The greatest depth at which `parser_skip_value` looks at a value. -/
def depthMax : ℕ := 12

mutual

/-- `parser_skip_value`. -/
def skipValue (d : Dialect) : ℕ → ℕ → List UInt8 → Outcome (List UInt8)
  | 0, _, _ => .fault
  | fuel + 1, depth, s =>
    if depthMax < depth then .reject
    else match s with
      | [] => .reject
      | c :: rest =>
        if c = quote then skipString d (c :: rest)
        else if c = lbrace then
          match whitespace rest with
          | [] => skipMembers d fuel depth []
          | b :: rest' =>
            if b = rbrace then .ok rest' else skipMembers d fuel depth (b :: rest')
        else if c = lbracket then
          match whitespace rest with
          | [] => skipItems d fuel depth []
          | b :: rest' =>
            if b = rbracket then .ok rest' else skipItems d fuel depth (b :: rest')
        else if c = 0x74 then literal (boolText true) (c :: rest)
        else if c = 0x66 then literal (boolText false) (c :: rest)
        else if c = 0x6e then literal nullText (c :: rest)
        else number d.zeroAlone (c :: rest)

/-- The loop of `parser_skip_object`. -/
def skipMembers (d : Dialect) : ℕ → ℕ → List UInt8 → Outcome (List UInt8)
  | 0, _, _ => .fault
  | fuel + 1, depth, s => do
    let s ← skipString d s
    let s ← expect colon (whitespace s)
    let s ← skipValue d fuel (depth + 1) (whitespace s)
    let (closed, s) ← separator rbrace (whitespace s)
    if closed then .ok s else skipMembers d fuel depth s

/-- The loop of `parser_skip_array`. -/
def skipItems (d : Dialect) : ℕ → ℕ → List UInt8 → Outcome (List UInt8)
  | 0, _, _ => .fault
  | fuel + 1, depth, s => do
    let s ← skipValue d fuel (depth + 1) s
    let (closed, s) ← separator rbracket (whitespace s)
    if closed then .ok s else skipItems d fuel depth s

end

/-- Fuel that no call uses up. -/
def skipFuel (s : List UInt8) : ℕ := 2 * s.length + 1

end EspVision.Json
