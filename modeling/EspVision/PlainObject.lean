import Mathlib.Data.List.Induction
import Mathlib.Data.List.Nodup
import Mathlib.Tactic

/-!
# Plain objects as dictionaries

Strings of UTF-16 code units, and objects that were written as `{}` and filled with entries. A key
that was never stored is looked up in the prototype, which has members of its own; the key
`__proto__` stores the prototype itself, so that the fields of an entry become visible as members.
-/
namespace EspVision.PlainObject

abbrev Text := List UInt16

/-- The code units of an ASCII text. -/
def units (s : String) : Text := s.toList.map fun c => UInt16.ofNat c.toNat

/-- The white space and the line terminators that `trim` removes. -/
def isSpace (u : UInt16) : Bool :=
  (0x09 ≤ u && u ≤ 0x0d) || u == 0x20 || u == 0xa0 || u == 0x1680 || (0x2000 ≤ u && u ≤ 0x200a) ||
    u == 0x2028 || u == 0x2029 || u == 0x202f || u == 0x205f || u == 0x3000 || u == 0xfeff

def trim (t : Text) : Text := ((t.dropWhile isSpace).reverse.dropWhile isSpace).reverse

/-- `t.split(separator).pop()`. -/
def lastPart (separator : UInt16) (t : Text) : Text :=
  (t.reverse.takeWhile (· != separator)).reverse

/-- The keys of `Object.prototype`. -/
def objectPrototype : List Text :=
  [units "constructor", units "__defineGetter__", units "__defineSetter__", units "hasOwnProperty",
    units "__lookupGetter__", units "__lookupSetter__", units "isPrototypeOf",
    units "propertyIsEnumerable", units "toString", units "valueOf", units "__proto__",
    units "toLocaleString"]

def protoKey : Text := units "__proto__"

/-- What a lookup gives: nothing, an entry, or a member that is no entry. -/
inductive Lookup (α : Type)
  | missing
  | entry (a : α)
  | foreign (truthy : Bool)
  deriving DecidableEq

/-- The entries in the order of their insertion, and the entry that became the prototype. -/
structure Object (α : Type) where
  own : List (Text × α) := []
  proto : Option α := none

namespace Object

variable {α : Type}

/-- The value of a key that was stored. -/
def find (own : List (Text × α)) (k : Text) : Option α :=
  (own.find? fun e => e.1 == k).map Prod.snd

/-- `o[k]`; `field` gives the own members of an entry, and whether they are truthy. -/
def get (field : α → Text → Option Bool) (o : Object α) (k : Text) : Lookup α :=
  match find o.own k with
  | some a => .entry a
  | none =>
    match o.proto with
    | none => if k ∈ objectPrototype then .foreign true else .missing
    | some e =>
      if k = protoKey then .entry e
      else match field e k with
        | some truthy => .foreign truthy
        | none => if k ∈ objectPrototype then .foreign true else .missing

/-- Replaces the value of a key where it stands, or adds the key behind the others. -/
def store (own : List (Text × α)) (k : Text) (a : α) : List (Text × α) :=
  if (find own k).isSome then own.map fun e => if e.1 = k then (k, a) else e else own ++ [(k, a)]

/-- `o[k] = a`, for an `a` that is an object. -/
def set (o : Object α) (k : Text) (a : α) : Object α :=
  if k = protoKey then { o with proto := some a } else { o with own := store o.own k a }

/-- The number that a key with the form of an array index stands for. -/
def arrayIndex (k : Text) : Option ℕ :=
  if k ≠ [] ∧ (k.all fun u => 0x30 ≤ u && u ≤ 0x39) = true ∧ (k = [0x30] ∨ k.head? ≠ some 0x30) then
    let n := k.foldl (fun n u => 10 * n + (u.toNat - 0x30)) 0
    if n < 2 ^ 32 - 1 then some n else none
  else none

/-- `Object.entries(o)`: array indices in ascending order, then the other keys as inserted. -/
def entries (o : Object α) : List (Text × α) :=
  let indexed := o.own.filterMap fun e => (arrayIndex e.1).map fun n => (n, e)
  (indexed.mergeSort fun a b => a.1 ≤ b.1).map Prod.snd ++
    o.own.filter fun e => (arrayIndex e.1).isNone

/-- `Object.values(o)`. -/
def values (o : Object α) : List α := o.entries.map Prod.snd

/-- `Object.keys(o)`. -/
def keys (o : Object α) : List Text := o.entries.map Prod.fst

/-! ## Lookups after stores -/

variable {o : Object α} {own : List (Text × α)} {k k' : Text} {a : α}

@[simp] theorem find_nil : find ([] : List (Text × α)) k = none := rfl

theorem find_cons (e : Text × α) :
    find (e :: own) k = if e.1 = k then some e.2 else find own k := by
  unfold find
  rw [List.find?_cons]
  by_cases h : e.1 = k
  · rw [if_pos h, h, beq_self_eq_true]
    rfl
  · rw [if_neg h, beq_false_of_ne h]

theorem find_append (rest : List (Text × α)) :
    find (own ++ rest) k = (find own k).or (find rest k) := by
  unfold find
  rw [List.find?_append, Option.map_or]

theorem find_isSome_iff : (find own k).isSome ↔ k ∈ own.map Prod.fst := by
  induction own with
  | nil => simp
  | cons e own ih =>
    rw [find_cons]
    by_cases h : e.1 = k
    · simp [h]
    · simp [h, ih, Ne.symm h]

theorem find_store_self : find (store own k a) k = some a := by
  unfold store
  split_ifs with h
  · rw [find_isSome_iff] at h
    induction own with
    | nil => cases h
    | cons e own ih =>
      rw [List.map_cons, find_cons]
      by_cases hk : e.1 = k
      · rw [if_pos hk, if_pos rfl]
      · rw [if_neg hk, if_neg hk]
        refine ih ?_
        simpa [Ne.symm hk] using h
  · rw [find_append, Option.not_isSome_iff_eq_none.mp h, find_cons, if_pos rfl]
    rfl

theorem find_store_ne (h : k ≠ k') : find (store own k a) k' = find own k' := by
  unfold store
  split_ifs with hk
  · clear hk
    induction own with
    | nil => rfl
    | cons e own ih =>
      rw [List.map_cons, find_cons, find_cons, ih]
      by_cases he : e.1 = k
      · rw [if_pos he, if_neg h, if_neg (he ▸ h)]
      · rw [if_neg he]
  · rw [find_append, find_cons, if_neg h, find_nil, Option.or_none]

@[simp] theorem set_own (h : k ≠ protoKey) : (o.set k a).own = store o.own k a := by
  rw [set, if_neg h]

@[simp] theorem set_proto (h : k ≠ protoKey) : (o.set k a).proto = o.proto := by
  rw [set, if_neg h]

theorem mem_store {e : Text × α} (h : e ∈ store own k a) : e = (k, a) ∨ e ∈ own := by
  unfold store at h
  split_ifs at h
  · obtain ⟨e', he', rfl⟩ := List.mem_map.mp h
    split_ifs with hk
    · exact Or.inl rfl
    · exact Or.inr he'
  · rcases List.mem_append.mp h with h | h
    · exact Or.inr h
    · exact Or.inl (List.mem_singleton.mp h)

theorem mem_entries {e : Text × α} : e ∈ o.entries ↔ e ∈ o.own := by
  unfold entries
  rw [List.mem_append, List.mem_map, List.mem_filter]
  simp only [List.mem_mergeSort, List.mem_filterMap, Option.map_eq_some_iff]
  constructor
  · rintro (⟨_, ⟨e', he', n, _, rfl⟩, rfl⟩ | h)
    · exact he'
    · exact h.1
  · intro h
    cases hn : arrayIndex e.1 with
    | none => exact Or.inr ⟨h, by simp⟩
    | some n => exact Or.inl ⟨(n, e), ⟨e, h, n, hn, rfl⟩, rfl⟩

/-! ## Objects that were filled -/

/-- `for (const e of es) o[key(e)] = e`. -/
def ofEntries (key : α → Text) (es : List α) : Object α :=
  es.foldl (fun o e => o.set (key e) e) {}

variable {key : α → Text} {es : List α}

theorem ofEntries_concat (e : α) :
    ofEntries key (es ++ [e]) = (ofEntries key es).set (key e) e := by
  simp [ofEntries]

/-- The last entry with a key is found. -/
theorem find_ofEntries (hk : k ≠ protoKey) :
    find (ofEntries key es).own k = es.reverse.find? fun e => key e == k := by
  induction es using List.reverseRecOn with
  | nil => rfl
  | append_singleton es e ih =>
    rw [ofEntries_concat, List.reverse_append, List.reverse_singleton, List.singleton_append,
      List.find?_cons]
    by_cases he : key e = k
    · rw [he, set_own hk, find_store_self, beq_self_eq_true]
    · rw [beq_false_of_ne he, ← ih]
      by_cases hp : key e = protoKey
      · rw [set, if_pos hp]
      · rw [set_own hp, find_store_ne he]

theorem find_ofEntries_protoKey : find (ofEntries key es).own protoKey = none := by
  induction es using List.reverseRecOn with
  | nil => rfl
  | append_singleton es e ih =>
    rw [ofEntries_concat]
    by_cases hp : key e = protoKey
    · rw [set, if_pos hp]
      exact ih
    · rw [set_own hp, find_store_ne hp, ih]

theorem proto_ofEntries :
    (ofEntries key es).proto = es.reverse.find? fun e => key e == protoKey := by
  induction es using List.reverseRecOn with
  | nil => rfl
  | append_singleton es e ih =>
    rw [ofEntries_concat, List.reverse_append, List.reverse_singleton, List.singleton_append,
      List.find?_cons]
    by_cases hp : key e = protoKey
    · rw [hp, set, if_pos rfl, beq_self_eq_true]
    · rw [set_proto hp, beq_false_of_ne hp, ih]

theorem mem_ofEntries {e : Text × α} (h : e ∈ (ofEntries key es).own) :
    e.2 ∈ es ∧ key e.2 = e.1 := by
  induction es using List.reverseRecOn with
  | nil => cases h
  | append_singleton es a ih =>
    rw [ofEntries_concat] at h
    by_cases hp : key a = protoKey
    · rw [set, if_pos hp] at h
      exact ⟨List.mem_append_left _ (ih h).1, (ih h).2⟩
    · rw [set_own hp] at h
      rcases mem_store h with rfl | h
      · exact ⟨List.mem_append_right _ (List.mem_singleton_self _), rfl⟩
      · exact ⟨List.mem_append_left _ (ih h).1, (ih h).2⟩

theorem mem_values_ofEntries (h : a ∈ (ofEntries key es).values) : a ∈ es := by
  obtain ⟨e, he, rfl⟩ := List.mem_map.mp h
  exact (mem_ofEntries (mem_entries.mp he)).1

/-- With distinct keys, an entry is found under its key. -/
theorem find?_reverse (hnd : (es.map key).Nodup) (ha : a ∈ es) :
    es.reverse.find? (fun e => key e == key a) = some a := by
  cases hfind : es.reverse.find? fun e => key e == key a with
  | none =>
    have := List.find?_eq_none.mp hfind a (List.mem_reverse.mpr ha)
    simp at this
  | some e =>
    have hmem := List.mem_reverse.mp (List.mem_of_find?_eq_some hfind)
    have hkey := List.find?_some hfind
    rw [List.inj_on_of_nodup_map hnd hmem ha (beq_iff_eq.mp hkey)]

/-- The members that a lookup finds although no entry has the key. -/
def Inherits (field : α → Text → Option Bool) (key : α → Text) (es : List α) (k : Text) : Prop :=
  (∀ e ∈ es, key e ≠ k) ∧
    ((∃ e ∈ es, key e = protoKey ∧ field e k = some true) ∨
      k ∈ objectPrototype ∧ ∀ e ∈ es, key e = protoKey → field e k = none)

/-- With distinct keys, a lookup gives the entry with the key, if there is one. -/
theorem get_ofEntries_of_mem {field : α → Text → Option Bool} (hnd : (es.map key).Nodup)
    (ha : a ∈ es) : (ofEntries key es).get field (key a) = .entry a := by
  unfold get
  by_cases hp : key a = protoKey
  · have hproto : (ofEntries key es).proto = some a := by
      rw [proto_ofEntries, ← hp]
      exact find?_reverse hnd ha
    rw [hp, find_ofEntries_protoKey, hproto]
    simp
  · rw [find_ofEntries hp, find?_reverse hnd ha]

/-- What a lookup gives for a key that no entry has. -/
theorem get_ofEntries_of_not_mem (field : α → Text → Option Bool) (hnd : (es.map key).Nodup)
    (hk : ∀ e ∈ es, key e ≠ k) :
    (Inherits field key es k ∧ (ofEntries key es).get field k = .foreign true) ∨
      (¬ Inherits field key es k ∧ ((ofEntries key es).get field k = .missing ∨
        (ofEntries key es).get field k = .foreign false)) := by
  have hfind : find (ofEntries key es).own k = none := by
    by_cases hp : k = protoKey
    · rw [hp, find_ofEntries_protoKey]
    · rw [find_ofEntries hp]
      exact List.find?_eq_none.mpr fun e he => by simpa using hk e (List.mem_reverse.mp he)
  unfold get Inherits
  rw [hfind]
  cases hproto : (ofEntries key es).proto with
  | none =>
    rw [proto_ofEntries, List.find?_eq_none] at hproto
    have hnone : ∀ e ∈ es, key e ≠ protoKey := fun e he => by
      simpa using hproto e (List.mem_reverse.mpr he)
    by_cases hin : k ∈ objectPrototype
    · exact Or.inl ⟨⟨hk, Or.inr ⟨hin, fun e he hp => absurd hp (hnone e he)⟩⟩, if_pos hin⟩
    · refine Or.inr ⟨?_, Or.inl (if_neg hin)⟩
      rintro ⟨-, ⟨e, he, hp, -⟩ | ⟨h, -⟩⟩
      · exact hnone e he hp
      · exact hin h
  | some e =>
    rw [proto_ofEntries] at hproto
    have hmem := List.mem_reverse.mp (List.mem_of_find?_eq_some hproto)
    have hkey : key e = protoKey := by simpa using List.find?_some hproto
    have honly : ∀ e' ∈ es, key e' = protoKey → e' = e := fun e' he' hp =>
      List.inj_on_of_nodup_map hnd he' hmem (hp.trans hkey.symm)
    have hne : k ≠ protoKey := fun h => hk e hmem (hkey.trans h.symm)
    dsimp only
    rw [if_neg hne]
    cases hf : field e k with
    | none =>
      by_cases hin : k ∈ objectPrototype
      · exact Or.inl ⟨⟨hk, Or.inr ⟨hin, fun e' he' hp => honly e' he' hp ▸ hf⟩⟩, if_pos hin⟩
      · refine Or.inr ⟨?_, Or.inl (if_neg hin)⟩
        rintro ⟨-, ⟨e', he', hp, hf'⟩ | ⟨h, -⟩⟩
        · rw [honly e' he' hp, hf] at hf'
          cases hf'
        · exact hin h
    | some truthy =>
      cases truthy with
      | true => exact Or.inl ⟨⟨hk, Or.inl ⟨e, hmem, hkey, hf⟩⟩, rfl⟩
      | false =>
        refine Or.inr ⟨?_, Or.inr rfl⟩
        rintro ⟨-, ⟨e', he', hp, hf'⟩ | ⟨-, hall⟩⟩
        · rw [honly e' he' hp, hf] at hf'
          cases hf'
        · rw [hall e hmem hkey] at hf
          cases hf

end Object

end EspVision.PlainObject
