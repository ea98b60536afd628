import Mathlib.Logic.Function.Basic
import Mathlib.Tactic

/-!
# A file system whose calls may fail

Paths name files and other nodes. Each call takes its failure as an argument; a call that fails
leaves every path as it is. An inspection tells the truth: the error for a missing node is
given exactly when the node is missing.
-/
namespace EspVision.FileSystem

/-- What a path names. -/
inductive Node
  | file (bytes : List UInt8)
  | other
  deriving DecidableEq

def Node.isFile : Node → Bool
  | .file _ => true
  | .other => false

/-- The error numbers that are told apart. -/
inductive Errno
  | noEntry | exists
  | other (code : ℤ)
  deriving DecidableEq

/-- The nodes under their paths. -/
abbrev Files (α : Type*) := α → Option Node

section Inspect

variable {α : Type*}

/-- `stat`. -/
def stat (fs : Files α) (p : α) (failure : Option ℤ) : Except Errno Node :=
  match failure with
  | some code => .error (.other code)
  | none =>
    match fs p with
    | none => .error .noEntry
    | some node => .ok node

theorem stat_ok {fs : Files α} {p : α} {failure : Option ℤ} {node : Node}
    (h : stat fs p failure = .ok node) : fs p = some node := by
  cases failure with
  | some code => simp [stat] at h
  | none =>
    cases hp : fs p with
    | none => simp [stat, hp] at h
    | some node' => simpa [stat, hp] using h

theorem stat_noEntry {fs : Files α} {p : α} {failure : Option ℤ}
    (h : stat fs p failure = .error .noEntry) : fs p = none := by
  cases failure with
  | some code => simp [stat] at h
  | none =>
    cases hp : fs p with
    | none => rfl
    | some node' => simp [stat, hp] at h

end Inspect

variable {α : Type*} [DecidableEq α]

/-- `open` with `O_CREAT | O_EXCL`. -/
def openNew (fs : Files α) (p : α) (ok : Bool) : Option (Files α) :=
  if ok && (fs p).isNone then some (Function.update fs p (some (.file []))) else none

/-- `write` of bytes at the end of an open file. -/
def append (fs : Files α) (p : α) (bytes : List UInt8) : Files α :=
  match fs p with
  | some (.file old) => Function.update fs p (some (.file (old ++ bytes)))
  | _ => fs

/-- `rename`; one that succeeds replaces what stood at the new path. -/
def rename (fs : Files α) (a b : α) (failure : Option Errno) : Except Errno (Files α) :=
  match failure with
  | some e => .error e
  | none =>
    match fs a with
    | none => .error .noEntry
    | some node => .ok (Function.update (Function.update fs a none) b (some node))

/-- `unlink`. -/
def unlink (fs : Files α) (p : α) (ok : Bool) : Files α :=
  if ok then Function.update fs p none else fs

/-! ## What the calls leave alone -/

theorem openNew_some {fs fs' : Files α} {p : α} {ok : Bool} (h : openNew fs p ok = some fs') :
    fs p = none ∧ fs' = Function.update fs p (some (.file [])) := by
  unfold openNew at h
  by_cases hc : (ok && (fs p).isNone) = true
  · rw [if_pos hc] at h
    simp only [Bool.and_eq_true, Option.isNone_iff_eq_none] at hc
    exact ⟨hc.2, (Option.some.inj h).symm⟩
  · rw [if_neg hc] at h
    exact absurd h (by simp)

theorem append_of_ne {fs : Files α} {p q : α} (bytes : List UInt8) (h : q ≠ p) :
    append fs p bytes q = fs q := by
  cases hp : fs p with
  | none => simp [append, hp]
  | some node => cases node <;> simp [append, hp, h]

theorem append_file {fs : Files α} {p : α} {old : List UInt8} (bytes : List UInt8)
    (h : fs p = some (.file old)) : append fs p bytes p = some (.file (old ++ bytes)) := by
  simp [append, h]

/-- Only the two paths of a rename may change. -/
theorem rename_ok {fs fs' : Files α} {a b : α} {failure : Option Errno}
    (h : rename fs a b failure = .ok fs') :
    ∃ node, fs a = some node ∧
      fs' = Function.update (Function.update fs a none) b (some node) := by
  cases failure with
  | some e => simp [rename] at h
  | none =>
    cases ha : fs a with
    | none => simp [rename, ha] at h
    | some node =>
      refine ⟨node, rfl, ?_⟩
      simpa [rename, ha, eq_comm] using h

theorem unlink_of_ne {fs : Files α} {p q : α} (ok : Bool) (h : q ≠ p) :
    unlink fs p ok q = fs q := by
  cases ok with
  | false => rfl
  | true => exact Function.update_of_ne h _ _

end EspVision.FileSystem
