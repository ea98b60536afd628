import Mathlib.Data.List.Basic
import Mathlib.Tactic

/-!
# String literals of Python

A literal between double quotes is read code point by code point. A piece of a literal spells a
code point when it stands for it wherever it is read; a literal that is made of such pieces has
the code points as its value.
-/
namespace EspVision.Python

def quote : ℕ := 0x22

def apostrophe : ℕ := 0x27

def backslash : ℕ := 0x5c

def lineFeed : ℕ := 0x0a

def carriageReturn : ℕ := 0x0d

/-- The value of a hexadecimal digit. -/
def hexValue (c : ℕ) : Option ℕ :=
  if 0x30 ≤ c ∧ c ≤ 0x39 then some (c - 0x30)
  else if 0x61 ≤ c ∧ c ≤ 0x66 then some (c - 0x57)
  else if 0x41 ≤ c ∧ c ≤ 0x46 then some (c - 0x37)
  else none

def octalValue (c : ℕ) : Option ℕ := if 0x30 ≤ c ∧ c ≤ 0x37 then some (c - 0x30) else none

/-- Where the reader is: between characters, behind a backslash, or in an escape that has so many
digits left. -/
inductive Mode
  | plain
  | escape
  | hex (left value : ℕ)
  | octal (left value : ℕ)

/-- What one code point does: code points of the value, and the next mode, or the end. -/
abbrev Reading := List ℕ × Option Mode

/-- What cannot stand in a literal as it is: no line ends inside of it, and a program holds
neither zeros nor surrogates. -/
def Barred (c : ℕ) : Prop :=
  c = lineFeed ∨ c = carriageReturn ∨ c = 0 ∨ (0xd800 ≤ c ∧ c ≤ 0xdfff)

instance (c : ℕ) : Decidable (Barred c) := by unfold Barred; infer_instance

/-- Between characters. -/
def readPlain (c : ℕ) : Option Reading :=
  if c = quote then some ([], none)
  else if c = backslash then some ([], some .escape)
  else if Barred c then none
  else some ([c], some .plain)

/-- The escapes of one letter. -/
def letterEscape (c : ℕ) : Option ℕ :=
  if c = backslash ∨ c = quote ∨ c = apostrophe then some c
  else if c = 0x61 then some 0x07
  else if c = 0x62 then some 0x08
  else if c = 0x66 then some 0x0c
  else if c = 0x6e then some lineFeed
  else if c = 0x72 then some carriageReturn
  else if c = 0x74 then some 0x09
  else if c = 0x76 then some 0x0b
  else none

/-- Behind a backslash; an escape that is not known stays as it is, and names of characters are
not read. -/
def readEscape (c : ℕ) : Option Reading :=
  match letterEscape c with
  | some value => some ([value], some .plain)
  | none =>
    match octalValue c with
    | some digit => some ([], some (.octal 2 digit))
    | none =>
      if c = lineFeed then some ([], some .plain)
      else if Barred c ∨ c = 0x4e then none
      else if c = 0x78 then some ([], some (.hex 2 0))
      else if c = 0x75 then some ([], some (.hex 4 0))
      else if c = 0x55 then some ([], some (.hex 8 0))
      else some ([backslash, c], some .plain)

def read : Mode → ℕ → Option Reading
  | .plain, c => readPlain c
  | .escape, c => readEscape c
  | .hex left value, c =>
    match hexValue c with
    | none => none
    | some digit =>
      if 1 < left then some ([], some (.hex (left - 1) (16 * value + digit)))
      else if 16 * value + digit ≤ 0x10ffff then some ([16 * value + digit], some .plain)
      else none
  | .octal left value, c =>
    match octalValue c with
    | some digit =>
      if 0 < left then some ([], some (.octal (left - 1) (8 * value + digit)))
      else some ([value, c], some .plain)
    | none => (readPlain c).map fun r => (value :: r.1, r.2)

/-- The value of a literal behind its opening quote, and what stands behind its closing quote. -/
def literal : Mode → List ℕ → Option (List ℕ × List ℕ)
  | _, [] => none
  | mode, c :: rest =>
    match read mode c with
    | none => none
    | some (out, none) => some (out, rest)
    | some (out, some mode) => (literal mode rest).map fun r => (out ++ r.1, r.2)

theorem literal_go {mode mode' : Mode} {c : ℕ} {out rest : List ℕ}
    (h : read mode c = some (out, some mode')) :
    literal mode (c :: rest) = (literal mode' rest).map fun r => (out ++ r.1, r.2) := by
  rw [literal, h]

@[simp] theorem literal_quote (rest : List ℕ) : literal .plain (quote :: rest) = some ([], rest) :=
  rfl

/-! ## Pieces of a literal -/

/-- The piece stands for this code point. -/
def Spells (piece : List ℕ) (c : ℕ) : Prop :=
  ∀ rest, literal .plain (piece ++ rest) = (literal .plain rest).map fun r => (c :: r.1, r.2)

theorem spells_self {c : ℕ} (hq : c ≠ quote) (hb : c ≠ backslash) (hc : ¬Barred c) :
    Spells [c] c := by
  intro rest
  have hread : read .plain c = some ([c], some .plain) := by
    rw [read, readPlain, if_neg hq, if_neg hb, if_neg hc]
  rw [List.singleton_append, literal_go hread]
  rfl

theorem spells_letter {c value : ℕ} (h : letterEscape c = some value) :
    Spells [backslash, c] value := by
  intro rest
  have hescape : read .plain backslash = some ([], some .escape) := rfl
  have hletter : read .escape c = some ([value], some .plain) := by
    rw [read, readEscape, h]
  rw [List.cons_append, List.singleton_append, literal_go hescape, literal_go hletter]
  cases literal .plain rest <;> rfl

/-! ## Escapes with hexadecimal digits -/

def hexDigit (d : ℕ) : ℕ := if d < 10 then 0x30 + d else 0x57 + d

/-- The last hexadecimal digits of a number, in lower case. -/
def hexDigits : ℕ → ℕ → List ℕ
  | 0, _ => []
  | n + 1, c => hexDigit (c / 16 ^ n % 16) :: hexDigits n c

theorem hexValue_hexDigit {d : ℕ} (h : d < 16) : hexValue (hexDigit d) = some d := by
  have hall : ∀ d : Fin 16, hexValue (hexDigit d) = some d.val := by decide
  exact hall ⟨d, h⟩

theorem read_hex {left value d : ℕ} (h : d < 16) : read (.hex left value) (hexDigit d) =
    if 1 < left then some ([], some (.hex (left - 1) (16 * value + d)))
    else if 16 * value + d ≤ 0x10ffff then some ([16 * value + d], some .plain)
    else none := by
  rw [read, hexValue_hexDigit h]

/-- The last digits of a number are read behind those in front of them. -/
theorem literal_hexDigits (n : ℕ) (value c : ℕ) (rest : List ℕ)
    (h : value * 16 ^ (n + 1) + c % 16 ^ (n + 1) ≤ 0x10ffff) :
    literal (.hex (n + 1) value) (hexDigits (n + 1) c ++ rest) =
      (literal .plain rest).map fun r => ((value * 16 ^ (n + 1) + c % 16 ^ (n + 1)) :: r.1, r.2) := by
  induction n generalizing value with
  | zero =>
    have hread : read (.hex 1 value) (hexDigit (c / 16 ^ 0 % 16)) =
        some ([value * 16 ^ 1 + c % 16 ^ 1], some .plain) := by
      rw [read_hex (Nat.mod_lt _ (by decide)), if_neg (by decide), if_pos] <;>
        simp only [pow_zero, Nat.div_one, pow_one, Nat.zero_add] at h ⊢
      · rw [Nat.mul_comm]
      · omega
    rw [hexDigits, List.cons_append, literal_go hread]
    rfl
  | succ n ih =>
    have hread : read (.hex (n + 2) value) (hexDigit (c / 16 ^ (n + 1) % 16)) =
        some ([], some (.hex (n + 1) (16 * value + c / 16 ^ (n + 1) % 16))) := by
      rw [read_hex (Nat.mod_lt _ (by decide)), if_pos (by omega)]
      rfl
    have hsum : (16 * value + c / 16 ^ (n + 1) % 16) * 16 ^ (n + 1) + c % 16 ^ (n + 1) =
        value * 16 ^ (n + 1 + 1) + c % 16 ^ (n + 1 + 1) := by
      have hmod : c % 16 ^ (n + 1 + 1) =
          c % 16 ^ (n + 1) + 16 ^ (n + 1) * (c / 16 ^ (n + 1) % 16) := by
        rw [pow_succ, Nat.mod_mul]
      rw [hmod]
      ring
    rw [hexDigits, List.cons_append, literal_go hread, ih _ (by rw [hsum]; exact h), hsum]
    cases literal .plain rest <;> rfl

theorem spells_short {c : ℕ} (h : c < 16 ^ 4) : Spells (backslash :: 0x75 :: hexDigits 4 c) c := by
  intro rest
  have hescape : read .plain backslash = some ([], some .escape) := rfl
  have hu : read .escape 0x75 = some ([], some (.hex 4 0)) := rfl
  have hdigits := literal_hexDigits 3 0 c rest (by rw [Nat.mod_eq_of_lt h]; omega)
  rw [List.cons_append, List.cons_append, literal_go hescape, literal_go hu, hdigits]
  simp only [Nat.zero_mul, Nat.zero_add, Nat.mod_eq_of_lt h]
  cases literal .plain rest <;> rfl

theorem spells_long {c : ℕ} (h : c ≤ 0x10ffff) : Spells (backslash :: 0x55 :: hexDigits 8 c) c := by
  intro rest
  have hescape : read .plain backslash = some ([], some .escape) := rfl
  have hu : read .escape 0x55 = some ([], some (.hex 8 0)) := rfl
  have hmod : c % 16 ^ 8 = c := Nat.mod_eq_of_lt (by omega)
  have hdigits := literal_hexDigits 7 0 c rest (by rw [hmod]; omega)
  rw [List.cons_append, List.cons_append, literal_go hescape, literal_go hu, hdigits]
  simp only [Nat.zero_mul, Nat.zero_add, hmod]
  cases literal .plain rest <;> rfl

/-- A literal of pieces has the value that they spell. -/
theorem literal_flatMap {piece : ℕ → List ℕ} {cs : List ℕ} (h : ∀ c ∈ cs, Spells (piece c) c)
    (rest : List ℕ) :
    literal .plain (cs.flatMap piece ++ quote :: rest) = some (cs, rest) := by
  induction cs with
  | nil => rfl
  | cons c cs ih =>
    rw [List.flatMap_cons, List.append_assoc, h c (List.mem_cons_self),
      ih fun d hd => h d (List.mem_cons_of_mem _ hd)]
    rfl

/-! ## Lines that execute an assignment -/

/-- The variables that hold a string. -/
abbrev Env := List ℕ → Option (List ℕ)

def isDigit (c : ℕ) : Bool := 0x30 ≤ c && c ≤ 0x39

def isIdentifier (c : ℕ) : Bool :=
  isDigit c || (0x41 ≤ c && c ≤ 0x5a) || (0x61 ≤ c && c ≤ 0x7a) || c == 0x5f

/-- The value of a text that is one literal. -/
def wholeLiteral : List ℕ → Option (List ℕ)
  | [] => none
  | c :: rest =>
    if c = quote then
      match literal .plain rest with
      | some (value, []) => some value
      | _ => none
    else none

/-- `name=literal` and `name+=literal`; only a variable that has a value can be added to. -/
def assign (env : Env) (source : List ℕ) : Option Env :=
  let name := source.takeWhile isIdentifier
  if name.head?.any (!isDigit ·) then
    match source.dropWhile isIdentifier with
    | 0x3d :: text => (wholeLiteral text).map fun value => Function.update env name (some value)
    | 0x2b :: 0x3d :: text => do
      let value ← wholeLiteral text
      let old ← env name
      return Function.update env name (some (old ++ value))
    | _ => none
  else none

/-- `exec(` and the quote. -/
def execOpen : List ℕ := [0x65, 0x78, 0x65, 0x63, 0x28, quote]

/-- The closing bracket and the end of the line. -/
def execClose : List ℕ := [0x29, carriageReturn, lineFeed]

/-- A line that executes a literal. -/
def execLine (env : Env) (line : List ℕ) : Option Env :=
  if execOpen.isPrefixOf line then
    match literal .plain (line.drop execOpen.length) with
    | some (source, rest) => if rest = execClose then assign env source else none
    | none => none
  else none

section Lines

variable {env : Env} {name text value : List ℕ} {piece : ℕ → List ℕ}

theorem execLine_flatMap (h : ∀ c ∈ text, Spells (piece c) c) :
    execLine env (execOpen ++ (text.flatMap piece ++ quote :: execClose)) = assign env text := by
  have hprefix : execOpen.isPrefixOf (execOpen ++ (text.flatMap piece ++ quote :: execClose)) =
      true := List.isPrefixOf_iff_prefix.mpr (List.prefix_append _ _)
  rw [execLine, if_pos hprefix, List.drop_left, literal_flatMap h]
  exact if_pos rfl

theorem wholeLiteral_flatMap (h : ∀ c ∈ value, Spells (piece c) c) :
    wholeLiteral (quote :: (value.flatMap piece ++ [quote])) = some value := by
  rw [wholeLiteral, if_pos rfl, literal_flatMap h]

theorem takeWhile_name {rest : List ℕ} {c : ℕ} (hname : ∀ d ∈ name, isIdentifier d = true)
    (hc : isIdentifier c = false) : (name ++ c :: rest).takeWhile isIdentifier = name := by
  rw [List.takeWhile_append_of_pos hname, List.takeWhile_cons_of_neg (by simp [hc]),
    List.append_nil]

theorem dropWhile_name {rest : List ℕ} {c : ℕ} (hname : ∀ d ∈ name, isIdentifier d = true)
    (hc : isIdentifier c = false) :
    (name ++ c :: rest).dropWhile isIdentifier = c :: rest := by
  rw [List.dropWhile_append_of_pos hname, List.dropWhile_cons_of_neg (by simp [hc])]

theorem assign_eq (hname : ∀ d ∈ name, isIdentifier d = true)
    (hfirst : name.head?.any (!isDigit ·) = true) (h : ∀ c ∈ value, Spells (piece c) c) :
    assign env (name ++ 0x3d :: quote :: (value.flatMap piece ++ [quote])) =
      some (Function.update env name (some value)) := by
  rw [assign, takeWhile_name hname (by decide), dropWhile_name hname (by decide)]
  rw [if_pos hfirst]
  change (wholeLiteral _).map _ = _
  rw [wholeLiteral_flatMap h, Option.map_some]

theorem assign_add {old : List ℕ} (hname : ∀ d ∈ name, isIdentifier d = true)
    (hfirst : name.head?.any (!isDigit ·) = true) (h : ∀ c ∈ value, Spells (piece c) c)
    (hold : env name = some old) :
    assign env (name ++ 0x2b :: 0x3d :: quote :: (value.flatMap piece ++ [quote])) =
      some (Function.update env name (some (old ++ value))) := by
  rw [assign, takeWhile_name hname (by decide), dropWhile_name hname (by decide)]
  rw [if_pos hfirst]
  change ((wholeLiteral _).bind fun added => (env name).bind fun old => _) = _
  rw [wholeLiteral_flatMap h, hold]
  rfl

/-- One more line after lines that run through. -/
theorem execLines_snoc {lines : List (List ℕ)} {line : List ℕ} {env' env'' : Env}
    (hlines : lines.foldlM execLine env = some env') (hline : execLine env' line = some env'') :
    (lines ++ [line]).foldlM execLine env = some env'' := by
  rw [List.foldlM_append, hlines, Option.bind_eq_bind, Option.bind_some, List.foldlM_cons, hline]
  rfl

end Lines

end EspVision.Python
