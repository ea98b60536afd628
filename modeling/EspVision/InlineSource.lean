import EspVision.PlainObject
import EspVision.PythonText
import EspVision.Utf16

/-!
# Source text as assignments (`createInlineSourceAssignments` of `evrepl.js`)

A source is cut into chunks that are assigned to a variable one behind the other. Every assignment
is a line `exec("…")` of the friendly REPL, which has a limit and drops what is not ASCII.
-/
namespace EspVision.InlineSource
open Host Json
open PlainObject (Text units)
open Python (hexDigits)

/-! ## Escapes -/

/-- One code point in a JSON string. -/
def quotePoint (c : ℕ) : List ℕ :=
  match shortEscape c with
  | some b => [Python.backslash, b.toNat]
  | none => if c < 0x20 ∨ ¬Scalar c then Python.backslash :: 0x75 :: hexDigits 4 c else [c]

/-- `JSON.stringify` of a string. -/
def stringify (value : Text) : Text :=
  fromPoints (Python.quote :: ((codePoints value).flatMap quotePoint ++ [Python.quote]))

/-- `replace` of every occurrence of a code unit. -/
def replaceAll (u : UInt16) (replacement t : Text) : Text :=
  t.flatMap fun v => if v = u then replacement else [v]

/-- The code points that are not printable ASCII become escapes. -/
def escapePoint (c : ℕ) : List ℕ :=
  if 0x20 ≤ c ∧ c ≤ 0x7e then [c]
  else if c ≤ 0xffff then Python.backslash :: 0x75 :: hexDigits 4 c
  else Python.backslash :: 0x55 :: hexDigits 8 c

/-- `escapeForExec`. -/
def escapeForExec (source : Text) : Text :=
  let slashes := replaceAll 0x5c [0x5c, 0x5c] source
  let quotes := replaceAll 0x22 [0x5c, 0x22] slashes
  let returns := replaceAll 0x0d [] quotes
  let lines := replaceAll 0x0a [0x5c, 0x6e] returns
  fromPoints ((codePoints lines).flatMap escapePoint)

/-- `exec("…")` and the end of the line. -/
def execCommand (source : Text) : Text :=
  units "exec(\"" ++ escapeForExec source ++ units "\")\r\n"

/-- `evReplExecInputBytes`. -/
def execInputBytes (source : Text) : ℕ := (encodeText (execCommand source)).length

/-! ## Assignments -/

inductive Failure
  | notPrivate
  | characterTooLong
  deriving DecidableEq

def Failure.message : Failure → String
  | .notPrivate => "Inline Python source requires a string and a private variable name"
  | .characterTooLong => "Inline Python source character exceeds the REPL input limit"

def isNameUnit (u : UInt16) : Bool := Python.isIdentifier u.toNat

/-- `/^__[A-Za-z0-9_]+$/`. -/
def isPrivateName (name : Text) : Bool :=
  (units "__").isPrefixOf name && 2 < name.length && name.all isNameUnit

def statementFor (name value : Text) (first : Bool) : Text :=
  name ++ (if first then units "=" else units "+=") ++ stringify value

/-- The statements that are complete, and the chunk that grows. -/
structure Cutting where
  statements : List Text := []
  chunk : Text := []
  deriving DecidableEq

/-- The body of the loop. -/
def addCharacter (limit : ℕ) (name : Text) (s : Cutting) (character : Text) :
    Except Failure Cutting :=
  let candidate := s.chunk ++ character
  if execInputBytes (statementFor name candidate s.statements.isEmpty) ≤ limit then
    .ok { s with chunk := candidate }
  else if s.chunk = [] then .error .characterTooLong
  else if execInputBytes (statementFor name character false) ≤ limit then
    .ok ⟨s.statements ++ [statementFor name s.chunk s.statements.isEmpty], character⟩
  else .error .characterTooLong

/-- What is left in the chunk becomes the last statement. -/
def finish (name : Text) (s : Cutting) : List Text :=
  if s.chunk ≠ [] ∨ s.statements = [] then
    s.statements ++ [statementFor name s.chunk s.statements.isEmpty]
  else s.statements

/-- `createInlineSourceAssignments`. -/
def createInlineSourceAssignments (limit : ℕ) (source name : Text) :
    Except Failure (List Text) :=
  if isPrivateName name then
    ((characters source).foldlM (addCharacter limit name) {}).map (finish name)
  else .error .notPrivate

/-- The statements carry the source: as lines they are printable ASCII and within the limit, and
executing them leaves the source in the variable. -/
structure Exact (limit : ℕ) (source name : Text) (statements : List Text) : Prop where
  printable : ∀ s ∈ statements, ∃ body, execCommand s = body ++ units "\r\n" ∧
    ∀ u ∈ body, 0x20 ≤ u ∧ u ≤ 0x7e
  fits : ∀ s ∈ statements, (encodeText (execCommand s)).length ≤ limit
  value : ∀ env : Python.Env, ∃ env', (statements.map fun s => codePoints (execCommand s)).foldlM
    Python.execLine env = some env' ∧ env' (codePoints name) = some (codePoints source)

end EspVision.InlineSource
