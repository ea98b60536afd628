import Mathlib.Data.List.Infix
import Mathlib.Data.List.TakeWhile
import Mathlib.Tactic

/-!
# Resolving paths

A path is a text whose components are divided by a separator. It is resolved against a list of
names: empty components and single dots are dropped, two dots take the last name away and stop at
the root, and every other component is a further name. The text of a resolved path is a separator
in front of every name, and a single one for the root.
-/
namespace EspVision.PathResolution

variable {α : Type*} (sep dot : α)

/-- A name that may stand in a resolved path. -/
structure Plain (name : List α) : Prop where
  nonempty : name ≠ []
  not_dot : name ≠ [dot]
  not_dots : name ≠ [dot, dot]
  separate : sep ∉ name

/-- A separator in front of every name. -/
def joined (names : List (List α)) : List α := names.flatMap (sep :: ·)

/-- The text of a resolved path. -/
def text (names : List (List α)) : List α := if names = [] then [sep] else joined sep names

variable {sep dot}

theorem joined_append (names names' : List (List α)) :
    joined sep (names ++ names') = joined sep names ++ joined sep names' :=
  List.flatMap_append

theorem joined_singleton (name : List α) : joined sep [name] = sep :: name := by
  simp [joined]

theorem text_nil : text sep ([] : List (List α)) = [sep] := rfl

theorem text_of_ne_nil {names : List (List α)} (h : names ≠ []) :
    text sep names = joined sep names := if_neg h

theorem text_length_pos (names : List (List α)) : 0 < (text sep names).length := by
  cases names with
  | nil => exact Nat.one_pos
  | cons name names => simp [text, joined]

/-- The root is the only path with a text of one element. -/
theorem text_length_le_one {names : List (List α)} (h : ∀ n ∈ names, Plain sep dot n) :
    (text sep names).length ≤ 1 ↔ names = [] := by
  constructor
  · intro hle
    cases names with
    | nil => rfl
    | cons name names =>
      have hpos := List.length_pos_iff.mpr (h name List.mem_cons_self).nonempty
      simp only [text_of_ne_nil (List.cons_ne_nil name names), joined, List.flatMap_cons,
        List.cons_append, List.length_cons, List.length_append] at hle
      omega
  · rintro rfl
    exact le_rfl

/-! ## Resolution -/

section Resolution

variable [DecidableEq α] (sep dot)

/-- The components of a text. -/
def components (path : List α) : List (List α) := path.splitOn sep

/-- One component behind the names so far. -/
def walk (names : List (List α)) (component : List α) : List (List α) :=
  if component = [] ∨ component = [dot] then names
  else if component = [dot, dot] then names.dropLast
  else names ++ [component]

/-- Where the resolution starts. -/
def start (cwd : List (List α)) (path : List α) : List (List α) :=
  if path.head? = some sep then [] else cwd

/-- The path, resolved against the current directory. -/
def resolve (cwd : List (List α)) (path : List α) : List (List α) :=
  (components sep path).foldl (walk dot) (start sep cwd path)

/-- Every intermediate result leaves room for one more element. -/
def Fits (room : ℕ) (names : List (List α)) (parts : List (List α)) : Prop :=
  ∀ front, front <+: parts → (text sep (front.foldl (walk dot) names)).length < room

end Resolution

variable [DecidableEq α]

/-! ## Components -/

theorem components_of_not_mem {path : List α} (h : sep ∉ path) : components sep path = [path] :=
  List.splitOn_eq_singleton h

theorem components_append (a b : List α) :
    components sep (a ++ sep :: b) = components sep a ++ components sep b :=
  List.splitOn_append_cons_self a b

theorem components_cons (path : List α) :
    components sep (sep :: path) = [] :: components sep path :=
  components_append [] path

theorem mem_components_cons {c : α} {path name : List α} (h : name ∈ components sep (c :: path)) :
    name = [] ∨ name ∈ components sep path ∨
      c ≠ sep ∧ ∃ first ∈ components sep path, name = c :: first := by
  rw [components, List.splitOn_cons_eq_if_modifyHead] at h
  split_ifs at h with hc
  · exact (List.mem_cons.mp h).imp_right .inl
  · obtain ⟨first, rest, hparts⟩ := List.exists_cons_of_ne_nil (List.splitOn_ne_nil sep path)
    rw [hparts, List.modifyHead_cons] at h
    rw [components, hparts]
    rcases List.mem_cons.mp h with rfl | h
    · exact .inr (.inr ⟨by simpa using hc, first, List.mem_cons_self, rfl⟩)
    · exact .inr (.inl (List.mem_cons_of_mem _ h))

theorem not_mem_of_component {path name : List α} (h : name ∈ components sep path) :
    sep ∉ name := by
  induction path generalizing name with
  | nil =>
    obtain rfl : name = [] := by simpa [components] using h
    exact List.not_mem_nil
  | cons c path ih =>
    rcases mem_components_cons h with rfl | h | ⟨hc, first, hfirst, rfl⟩
    · exact List.not_mem_nil
    · exact ih h
    · exact List.not_mem_cons_of_ne_of_not_mem hc.symm (ih hfirst)

theorem subset_of_component {path name : List α} (h : name ∈ components sep path) :
    name ⊆ path := by
  induction path generalizing name with
  | nil =>
    obtain rfl : name = [] := by simpa [components] using h
    exact List.nil_subset _
  | cons c path ih =>
    rcases mem_components_cons h with rfl | h | ⟨-, first, hfirst, rfl⟩
    · exact List.nil_subset _
    · exact fun x hx => List.mem_cons_of_mem c (ih h hx)
    · exact List.cons_subset_cons c (ih hfirst)

/-- A text is its first component and what is behind it. -/
theorem components_span (path : List α) :
    components sep path = path.takeWhile (· ≠ sep) ::
      (components sep (path.dropWhile (· ≠ sep))).tail := by
  have hnot : sep ∉ path.takeWhile (· ≠ sep) := fun h => by
    simpa using List.mem_takeWhile_imp h
  conv_lhs => rw [← List.takeWhile_append_dropWhile (p := (· ≠ sep)) (l := path)]
  cases hrest : path.dropWhile (· ≠ sep) with
  | nil =>
    rw [List.append_nil, components_of_not_mem hnot]
    simp [components]
  | cons c rest =>
    have hhead := List.head?_dropWhile_not (· ≠ sep) path
    rw [hrest] at hhead
    obtain rfl : c = sep := by simpa using hhead
    rw [components_append, components_of_not_mem hnot, components_cons]
    rfl

/-! ## Walking -/

theorem walk_nil (names : List (List α)) : walk dot names [] = names := if_pos (.inl rfl)

theorem foldl_components_cons (names : List (List α)) (path : List α) :
    (components sep (sep :: path)).foldl (walk dot) names =
      (components sep path).foldl (walk dot) names := by
  rw [components_cons, List.foldl_cons, walk_nil]

/-- Behind the first component, a text goes on with a separator or not at all. -/
theorem components_tail (path : List α) :
    components sep (path.dropWhile (· ≠ sep)) =
      [] :: (components sep (path.dropWhile (· ≠ sep))).tail := by
  cases hrest : path.dropWhile (· ≠ sep) with
  | nil => simp [components]
  | cons c rest =>
    have hhead := List.head?_dropWhile_not (· ≠ sep) path
    rw [hrest] at hhead
    obtain rfl : c = sep := by simpa using hhead
    rw [components_cons]
    rfl

theorem plain_walk {names : List (List α)} {component : List α}
    (h : ∀ n ∈ names, Plain sep dot n) (hc : sep ∉ component) :
    ∀ n ∈ walk dot names component, Plain sep dot n := by
  unfold walk
  split_ifs with hskip hup
  · exact h
  · exact fun n hn => h n (List.dropLast_subset _ hn)
  · intro n hn
    push Not at hskip
    rcases List.mem_append.mp hn with hn | hn
    · exact h n hn
    · rw [List.mem_singleton.mp hn]
      exact ⟨hskip.1, hskip.2, hup, hc⟩

theorem plain_foldl {names : List (List α)} {parts : List (List α)}
    (h : ∀ n ∈ names, Plain sep dot n) (hparts : ∀ part ∈ parts, sep ∉ part) :
    ∀ n ∈ parts.foldl (walk dot) names, Plain sep dot n := by
  induction parts generalizing names with
  | nil => exact h
  | cons part parts ih =>
    exact ih (plain_walk h (hparts part List.mem_cons_self))
      fun p hp => hparts p (List.mem_cons_of_mem _ hp)

/-- A resolution makes no names up. -/
theorem mem_foldl_walk {names parts : List (List α)} {n : List α}
    (h : n ∈ parts.foldl (walk dot) names) : n ∈ names ∨ n ∈ parts := by
  induction parts generalizing names with
  | nil => exact .inl h
  | cons part parts ih =>
    rcases ih h with h | h
    · unfold walk at h
      split_ifs at h
      · exact .inl h
      · exact .inl (List.dropLast_subset _ h)
      · rcases List.mem_append.mp h with h | h
        · exact .inl h
        · exact .inr (List.mem_cons.mpr (.inl (List.mem_singleton.mp h)))
    · exact .inr (List.mem_cons_of_mem _ h)

theorem plain_resolve {cwd : List (List α)} (h : ∀ n ∈ cwd, Plain sep dot n) (path : List α) :
    ∀ n ∈ resolve sep dot cwd path, Plain sep dot n := by
  refine plain_foldl ?_ fun _ hpart => not_mem_of_component hpart
  unfold start
  split_ifs
  · exact fun _ hn => absurd hn List.not_mem_nil
  · exact h

theorem fits_nil {room : ℕ} {names : List (List α)} :
    Fits sep dot room names [] ↔ (text sep names).length < room := by
  constructor
  · exact fun h => h [] List.nil_prefix
  · intro h front hfront
    rw [List.prefix_nil.mp hfront]
    exact h

theorem fits_cons {room : ℕ} {names : List (List α)} {part : List α} {parts : List (List α)} :
    Fits sep dot room names (part :: parts) ↔
      (text sep names).length < room ∧ Fits sep dot room (walk dot names part) parts := by
  constructor
  · exact fun h => ⟨h [] List.nil_prefix, fun front hfront =>
      h (part :: front) (List.cons_prefix_cons.mpr ⟨rfl, hfront⟩)⟩
  · rintro ⟨hnow, hrest⟩ front hfront
    cases front with
    | nil => exact hnow
    | cons first front =>
      obtain ⟨rfl, hbehind⟩ := List.cons_prefix_cons.mp hfront
      exact hrest front hbehind

theorem Fits.here {room : ℕ} {names : List (List α)} {parts : List (List α)}
    (h : Fits sep dot room names parts) : (text sep names).length < room := h [] List.nil_prefix

/-- Separators in front of a text do not matter. -/
theorem foldl_dropWhile (names : List (List α)) (path : List α) :
    (components sep (path.dropWhile (· = sep))).foldl (walk dot) names =
      (components sep path).foldl (walk dot) names := by
  induction path with
  | nil => rfl
  | cons c path ih =>
    by_cases hc : c = sep
    · rw [List.dropWhile_cons_of_pos (by simpa using hc), ih, hc, foldl_components_cons]
    · rw [List.dropWhile_cons_of_neg (by simpa using hc)]

theorem fits_dropWhile {room : ℕ} {names : List (List α)} (path : List α) :
    Fits sep dot room names (components sep (path.dropWhile (· = sep))) ↔
      Fits sep dot room names (components sep path) := by
  induction path with
  | nil => rfl
  | cons c path ih =>
    by_cases hc : c = sep
    · rw [List.dropWhile_cons_of_pos (by simpa using hc), ih, hc, components_cons, fits_cons,
        walk_nil]
      exact ⟨fun h => ⟨h.here, h⟩, fun h => h.2⟩
    · rw [List.dropWhile_cons_of_neg (by simpa using hc)]

/-- The first component, and the rest of the text from the separator on. -/
theorem foldl_span (names : List (List α)) (path : List α) :
    (components sep (path.dropWhile (· ≠ sep))).foldl (walk dot)
        (walk dot names (path.takeWhile (· ≠ sep))) =
      (components sep path).foldl (walk dot) names := by
  obtain ⟨rest, hrest⟩ : ∃ rest, components sep (path.dropWhile (· ≠ sep)) = [] :: rest :=
    ⟨_, components_tail path⟩
  rw [components_span path, hrest, List.foldl_cons, List.foldl_cons, walk_nil, List.tail_cons]

theorem fits_span {room : ℕ} {names : List (List α)} (path : List α) :
    Fits sep dot room names (components sep path) ↔ (text sep names).length < room ∧
      Fits sep dot room (walk dot names (path.takeWhile (· ≠ sep)))
        (components sep (path.dropWhile (· ≠ sep))) := by
  obtain ⟨rest, hrest⟩ : ∃ rest, components sep (path.dropWhile (· ≠ sep)) = [] :: rest :=
    ⟨_, components_tail path⟩
  rw [components_span path, hrest, List.tail_cons, fits_cons, fits_cons, walk_nil]
  exact and_congr_right fun _ => ⟨fun h => ⟨h.here, h⟩, fun h => h.2⟩

/-! ## Reading texts -/

theorem components_joined {names : List (List α)} (h : ∀ n ∈ names, Plain sep dot n) :
    components sep (joined sep names) = [] :: names := by
  induction names with
  | nil => simp [joined, components]
  | cons name names ih =>
    have hname := (h name List.mem_cons_self).separate
    rw [joined, List.flatMap_cons, List.cons_append, components_cons]
    cases names with
    | nil =>
      rw [List.flatMap_nil, List.append_nil, components_of_not_mem hname]
    | cons next names =>
      have hrest := ih fun n hn => h n (List.mem_cons_of_mem _ hn)
      rw [joined, List.flatMap_cons, List.cons_append, components_cons] at hrest
      rw [List.flatMap_cons, List.cons_append, components_append, components_of_not_mem hname,
        List.tail_eq_of_cons_eq hrest]
      rfl

/-- A resolved path is read off its text. -/
theorem text_injective {names names' : List (List α)} (h : ∀ n ∈ names, Plain sep dot n)
    (h' : ∀ n ∈ names', Plain sep dot n) (heq : text sep names = text sep names') :
    names = names' := by
  have hroot := text_length_le_one h
  rw [heq, text_length_le_one h'] at hroot
  by_cases hnil : names = []
  · rw [hnil, hroot.mpr hnil]
  · rw [text_of_ne_nil hnil, text_of_ne_nil fun hn => hnil (hroot.mp hn)] at heq
    have hparts := components_joined h
    rw [heq, components_joined h'] at hparts
    exact (List.tail_eq_of_cons_eq hparts).symm

end EspVision.PathResolution
