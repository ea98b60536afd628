import Mathlib.Data.List.Infix

/-!
# Replacing every occurrence of a word

A text is cut at the occurrences of a non-empty word, from left to right and without overlaps,
and joined with another word in their place. A letter that is not in the word cuts the text for
the replacement as well.
-/
namespace EspVision.Replace

variable {α : Type} [DecidableEq α]

/-- The pieces between the occurrences of `word`. `piece` is the piece so far; the next `skip`
letters belong to an occurrence. -/
def splitFrom (word : List α) : ℕ → List α → List α → List (List α)
  | _, piece, [] => [piece]
  | skip + 1, piece, _ :: rest => splitFrom word skip piece rest
  | 0, piece, c :: rest =>
    if word.isPrefixOf (c :: rest) then piece :: splitFrom word (word.length - 1) [] rest
    else splitFrom word 0 (piece ++ [c]) rest

/-- The pieces of a text. -/
def split (word text : List α) : List (List α) := splitFrom word 0 [] text

/-- The text with `new` for every occurrence of `word`. -/
def replaceAll (word new text : List α) : List α := new.intercalate (split word text)

variable {word new : List α}

theorem splitFrom_skip (skip : ℕ) (piece text : List α) :
    splitFrom word skip piece text = splitFrom word 0 piece (text.drop skip) := by
  induction skip generalizing text with
  | zero => rw [List.drop_zero]
  | succ skip ih =>
    cases text with
    | nil => rfl
    | cons c rest => exact ih rest

variable (word) in
/-- The piece so far is the beginning of the first piece. -/
theorem splitFrom_piece (piece text : List α) :
    ∃ first rest, split word text = first :: rest ∧
      splitFrom word 0 piece text = (piece ++ first) :: rest := by
  suffices h : ∀ (text before piece : List α), ∃ first rest,
      splitFrom word 0 before text = (before ++ first) :: rest ∧
      splitFrom word 0 piece text = (piece ++ first) :: rest by
    exact h text [] piece
  intro text
  induction text with
  | nil => exact fun before piece => ⟨[], [], by simp [splitFrom], by simp [splitFrom]⟩
  | cons c text ih =>
    intro before piece
    rw [splitFrom, splitFrom]
    by_cases hword : word.isPrefixOf (c :: text)
    · rw [if_pos hword, if_pos hword]
      exact ⟨[], _, by rw [List.append_nil], by rw [List.append_nil]⟩
    · rw [if_neg hword, if_neg hword]
      obtain ⟨first, rest, hbefore, hpiece⟩ := ih (before ++ [c]) (piece ++ [c])
      exact ⟨c :: first, rest, by rw [hbefore, List.append_assoc]; rfl,
        by rw [hpiece, List.append_assoc]; rfl⟩

@[simp] theorem replaceAll_nil : replaceAll word new [] = [] := by
  simp [replaceAll, split, splitFrom, List.intercalate]

theorem replaceAll_cons {c : α} {text : List α} (h : ¬word <+: c :: text) :
    replaceAll word new (c :: text) = c :: replaceAll word new text := by
  rw [replaceAll, replaceAll, split, splitFrom, if_neg (by simpa using h)]
  obtain ⟨first, rest, hsplit, hpiece⟩ := splitFrom_piece word [c] text
  rw [List.nil_append, hpiece, hsplit]
  cases rest <;> simp [List.intercalate]

variable (new) in
theorem replaceAll_word (hword : word ≠ []) (text : List α) :
    replaceAll word new (word ++ text) = new ++ replaceAll word new text := by
  obtain ⟨c, tail, rfl⟩ := List.exists_cons_of_ne_nil hword
  have hprefix : (c :: tail).isPrefixOf (c :: (tail ++ text)) = true := by simp
  rw [replaceAll, replaceAll, split, List.cons_append, splitFrom, if_pos hprefix,
    splitFrom_skip, List.length_cons, Nat.add_sub_cancel, List.drop_left]
  obtain ⟨first, rest, hsplit, -⟩ := splitFrom_piece (c :: tail) [] text
  rw [split] at hsplit
  rw [split, hsplit]
  simp [List.intercalate]

theorem replaceAll_word_self (hword : word ≠ []) : replaceAll word new word = new := by
  have h := replaceAll_word new hword []
  rwa [List.append_nil, replaceAll_nil, List.append_nil] at h

variable (new) in
/-- A letter that is not in the word cuts the text. -/
theorem replaceAll_append_cons (hword : word ≠ []) {c : α} (hc : c ∉ word) (text rest : List α) :
    replaceAll word new (text ++ c :: rest) =
      replaceAll word new text ++ c :: replaceAll word new rest := by
  induction hn : text.length using Nat.strong_induction_on generalizing text with
  | _ n ih =>
    subst hn
    cases text with
    | nil =>
      rw [List.nil_append, replaceAll_nil, List.nil_append, replaceAll_cons]
      rintro ⟨tail, htail⟩
      obtain ⟨d, w, rfl⟩ := List.exists_cons_of_ne_nil hword
      obtain ⟨rfl, -⟩ := List.cons_eq_cons.mp htail
      exact hc List.mem_cons_self
    | cons d text =>
      by_cases hin : word <+: d :: text
      · obtain ⟨tail, htail⟩ := hin
        have hlen : tail.length < (d :: text).length := by
          rw [← htail, List.length_append]
          have := List.length_pos_iff.mpr hword
          omega
        rw [← htail, List.append_assoc, replaceAll_word _ hword, replaceAll_word _ hword,
          ih _ hlen tail rfl, List.append_assoc]
      · have hout : ¬word <+: d :: (text ++ c :: rest) := by
          intro hout
          rw [← List.cons_append] at hout
          rcases List.prefix_or_prefix_of_prefix hout (List.prefix_append _ _) with
            h | ⟨tail, htail⟩
          · exact hin h
          · rw [← htail, List.prefix_append_right_inj] at hout
            cases tail with
            | nil => exact hin (by rw [← htail, List.append_nil])
            | cons e tail =>
              obtain ⟨rest', hrest⟩ := hout
              obtain ⟨rfl, -⟩ := List.cons_eq_cons.mp hrest
              exact hc (by rw [← htail]; simp)
        rw [List.cons_append, replaceAll_cons hout, replaceAll_cons hin,
          ih _ (by simp) text rfl, List.cons_append]

/-- Text without a letter of the word stays as it is. -/
theorem replaceAll_append_of_foreign (hword : word ≠ []) {foreign : List α}
    (hf : ∀ c ∈ foreign, c ∉ word) (rest : List α) :
    replaceAll word new (foreign ++ rest) = foreign ++ replaceAll word new rest := by
  induction foreign with
  | nil => rfl
  | cons c foreign ih =>
    have hcut := replaceAll_append_cons new hword (hf c List.mem_cons_self) []
      (foreign ++ rest)
    rw [replaceAll_nil, List.nil_append, List.nil_append] at hcut
    rw [List.cons_append, hcut, ih fun d hd => hf d (List.mem_cons_of_mem c hd), List.cons_append]

theorem replaceAll_of_absent {text : List α} (h : ¬word <:+: text) :
    replaceAll word new text = text := by
  induction text with
  | nil => exact replaceAll_nil
  | cons c text ih =>
    rw [replaceAll_cons fun h' => h h'.isInfix, ih fun h' => h (List.infix_cons h')]

variable (new) in
/-- The leftmost occurrence is replaced, and then the rest. -/
theorem replaceAll_of_present (hword : word ≠ []) {text : List α} (h : word <:+: text) :
    ∃ before after, text = before ++ word ++ after ∧
      replaceAll word new text = before ++ new ++ replaceAll word new after := by
  induction text with
  | nil => exact absurd (List.infix_nil.mp h) hword
  | cons c text ih =>
    by_cases hin : word <+: c :: text
    · obtain ⟨after, hafter⟩ := hin
      exact ⟨[], after, by rw [← hafter]; rfl, by rw [← hafter, replaceAll_word _ hword]; rfl⟩
    · obtain ⟨before, after, htext, hreplace⟩ := ih ((List.infix_cons_iff.mp h).resolve_left hin)
      exact ⟨c :: before, after, by rw [htext]; rfl, by rw [replaceAll_cons hin, hreplace]; rfl⟩

/-- What a replacement is, by induction on the text behind the words that are replaced. -/
theorem replaceAll_induction {P : List α → List α → Prop} (hword : word ≠ [])
    (absent : ∀ text, P text text)
    (present : ∀ before after, P after (replaceAll word new after) →
      P (before ++ word ++ after) (before ++ new ++ replaceAll word new after))
    (text : List α) : P text (replaceAll word new text) := by
  induction hn : text.length using Nat.strong_induction_on generalizing text with
  | _ n ih =>
    subst hn
    by_cases hin : word <:+: text
    · obtain ⟨before, after, htext, hreplace⟩ := replaceAll_of_present new hword hin
      have hpos := List.length_pos_iff.mpr hword
      have hlen := congrArg List.length htext
      have hafter := ih after.length (by simp at hlen; omega) after rfl
      rw [hreplace, htext]
      exact present before after hafter
    · rw [replaceAll_of_absent hin]
      exact absent text

theorem length_le_replaceAll (hword : word ≠ []) (hle : word.length ≤ new.length)
    (text : List α) : text.length ≤ (replaceAll word new text).length := by
  refine replaceAll_induction (P := fun t t' => t.length ≤ t'.length) hword (fun _ => le_rfl)
    (fun before after ih => ?_) text
  simp only [List.length_append]
  omega

theorem replaceAll_length_le (hword : word ≠ []) (hle : new.length ≤ word.length)
    (text : List α) : (replaceAll word new text).length ≤ text.length := by
  refine replaceAll_induction (P := fun t t' => t'.length ≤ t.length) hword (fun _ => le_rfl)
    (fun before after ih => ?_) text
  simp only [List.length_append]
  omega

theorem replaceAll_self (hword : word ≠ []) (text : List α) : replaceAll word word text = text :=
  replaceAll_induction (P := fun t t' => t' = t) hword (fun _ => rfl)
    (fun _ _ ih => congrArg _ ih) text

theorem eq_nil_of_replaceAll (hword : word ≠ []) (hnew : new ≠ []) {text : List α}
    (h : replaceAll word new text = []) : text = [] := by
  by_cases hin : word <:+: text
  · obtain ⟨before, after, -, hreplace⟩ := replaceAll_of_present new hword hin
    rw [hreplace, List.append_eq_nil_iff, List.append_eq_nil_iff] at h
    exact absurd h.1.2 hnew
  · rwa [replaceAll_of_absent hin] at h

/-- A replacement leaves the letters of the text and of the new word. -/
theorem mem_replaceAll (hword : word ≠ []) (text : List α) {c : α}
    (h : c ∈ replaceAll word new text) : c ∈ text ∨ c ∈ new := by
  refine replaceAll_induction (P := fun t t' => c ∈ t' → c ∈ t ∨ c ∈ new) hword
    (fun _ => Or.inl) (fun before after ih hc => ?_) text h
  rw [List.mem_append, List.mem_append] at hc ⊢
  rcases hc with (hc | hc) | hc
  · exact Or.inl (Or.inl (Or.inl hc))
  · exact Or.inr hc
  · exact (ih hc).imp_left Or.inr

/-- Only a word that is no proper part of the new word leaves that as it is. -/
theorem replaceAll_new_iff (hword : word ≠ []) :
    replaceAll word new new = new ↔ word = new ∨ ¬word <:+: new := by
  constructor
  · intro h
    by_contra hcon
    obtain ⟨hne, hin⟩ := not_or.mp hcon
    have hin := not_not.mp hin
    have hle := hin.length_le
    obtain ⟨before, after, hnew, hreplace⟩ := replaceAll_of_present new hword hin
    have hafter := length_le_replaceAll hword hle after
    have h1 := congrArg List.length hnew
    have h2 := congrArg List.length (hreplace.symm.trans h)
    simp only [List.length_append] at h1 h2
    exact hne (hin.eq_of_length (by omega))
  · rintro (rfl | h)
    · exact replaceAll_self hword _
    · exact replaceAll_of_absent h

/-- A replacement that leaves a text with the word in it replaces the word by itself. -/
theorem eq_of_replaceAll_eq (hword : word ≠ []) {text : List α} (hin : word <:+: text)
    (h : replaceAll word new text = text) : word = new := by
  obtain ⟨before, after, htext, hreplace⟩ := replaceAll_of_present new hword hin
  have heq : new ++ replaceAll word new after = word ++ after := by
    have h' := hreplace.symm.trans (h.trans htext)
    rw [List.append_assoc, List.append_assoc] at h'
    exact List.append_cancel_left h'
  have hlen := congrArg List.length heq
  rw [List.length_append, List.length_append] at hlen
  have hsame : new.length = word.length := by
    rcases Nat.le_total word.length new.length with hle | hle
    · have := length_le_replaceAll hword hle after
      omega
    · have := replaceAll_length_le hword hle after
      omega
  exact (List.append_inj heq hsame).1.symm

omit [DecidableEq α] in
/-- A text that contains another one and is no longer is that one. -/
theorem eq_nil_of_append_eq {before middle after : List α}
    (h : before ++ middle ++ after = middle) : before = [] ∧ after = [] := by
  have hlen := congrArg List.length h
  simp only [List.length_append] at hlen
  exact ⟨List.length_eq_zero_iff.mp (by omega), List.length_eq_zero_iff.mp (by omega)⟩

omit [DecidableEq α] in
/-- Two texts that are cut at a letter's first place are equal piece by piece. -/
theorem append_cons_inj {c : α} {before before' after after' : List α} (h : c ∉ before)
    (h' : c ∉ before') :
    before ++ c :: after = before' ++ c :: after' ↔ before = before' ∧ after = after' := by
  refine ⟨fun heq => ?_, fun ⟨hb, ha⟩ => by rw [hb, ha]⟩
  induction before generalizing before' with
  | nil =>
    cases before' with
    | nil => exact ⟨rfl, (List.cons_eq_cons.mp heq).2⟩
    | cons d before' =>
      obtain ⟨rfl, -⟩ := List.cons_eq_cons.mp heq
      exact absurd List.mem_cons_self h'
  | cons d before ih =>
    cases before' with
    | nil =>
      obtain ⟨rfl, -⟩ := List.cons_eq_cons.mp heq
      exact absurd List.mem_cons_self h
    | cons e before' =>
      obtain ⟨rfl, htail⟩ := List.cons_eq_cons.mp heq
      obtain ⟨rfl, ha⟩ := ih (fun hm => h (List.mem_cons_of_mem d hm))
        (fun hm => h' (List.mem_cons_of_mem d hm)) htail
      exact ⟨rfl, ha⟩

end EspVision.Replace
