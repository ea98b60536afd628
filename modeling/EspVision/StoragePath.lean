import EspVision.PathResolution
import EspVision.StorageVfs

/-!
# Paths stay inside their volume

The resolver of `storage_vfs.c` works in place on a bounded buffer; what the buffer holds is
compared, component by component, with the resolution of lists of names. The full path is the
mount point and the text of the names, and a mount keeps that its current directory is resolved.
-/
namespace EspVision.StorageVfs
open Dialogue PathResolution
open FileSystem (Errno)
open BoundedText (overlay overlay_length overlay_take overlay_take_of_le overlay_getElem?)
open EvFileTransfer (Volume flashPath sdcardPath)

/-- The names of a resolved path, as C strings. -/
structure Normal (names : List Bytes) : Prop where
  plain : ∀ n ∈ names, Plain slash dot n
  noNul : ∀ n ∈ names, 0 ∉ n

/-- The path of the names. -/
abbrev pathText (names : List Bytes) : Bytes := text slash names

/-! ## The buffer -/

/-- The output holds the text of the names, and there is room for the NUL. -/
structure Shows (outputSize : ℕ) (names : List Bytes) (o : Output) : Prop where
  size : o.cells.length = outputSize
  len : o.len = (pathText names).length
  content : o.cells.take o.len = pathText names
  room : o.len < outputSize

variable {outputSize : ℕ} {names : List Bytes} {o : Output}

lemma backUp_spec {cells : Bytes} {a : ℕ} (hslash : cells.getD a 0 = slash) (k : ℕ)
    (hname : ∀ i, a < i → i ≤ a + k → cells.getD i 0 ≠ slash) :
    backUp cells (a + 1 + k) = a + 1 := by
  induction k with
  | zero => rw [Nat.add_zero, backUp, if_neg fun h => h.2 hslash]
  | succ k ih =>
    have hk : cells.getD (a + 1 + k) 0 ≠ slash := hname _ (by omega) (by omega)
    rw [← Nat.add_assoc, backUp, if_pos ⟨by omega, hk⟩]
    exact ih fun i hi hle => hname i hi (by omega)

lemma joined_length_pos {names : List Bytes} (h : names ≠ []) : 0 < (joined slash names).length := by
  rw [← text_of_ne_nil h]
  exact text_length_pos names

lemma leave_shows (h : Shows outputSize names o) (hplain : ∀ n ∈ names, Plain slash dot n) :
    Shows outputSize names.dropLast (leave o) := by
  rcases List.eq_nil_or_concat names with rfl | ⟨init, name, rfl⟩
  · have hlen : o.len = 1 := h.len
    have hleave : leave o = o := by
      rw [leave, hlen]
      simp [backUp, ← hlen]
    rw [hleave]
    exact h
  · rw [List.concat_eq_append] at h hplain ⊢
    rw [List.dropLast_concat]
    set front := joined slash init with hfront
    have hne : init ++ [name] ≠ [] := by simp
    have htext : pathText (init ++ [name]) = front ++ slash :: name := by
      rw [pathText, text_of_ne_nil hne, joined_append, joined_singleton]
    have hlen : o.len = front.length + 1 + name.length := by
      rw [h.len, htext, List.length_append, List.length_cons]
      omega
    have hat : ∀ i < o.len, o.cells.getD i 0 = (front ++ slash :: name).getD i 0 := by
      intro i hi
      rw [← htext, ← h.content, List.getD_eq_getElem?_getD, List.getD_eq_getElem?_getD,
        List.getElem?_take_of_lt hi]
    have hback : backUp o.cells o.len = front.length + 1 := by
      rw [hlen]
      refine backUp_spec ?_ _ fun i hi hle => ?_
      · rw [hat _ (by omega)]
        simp
      · obtain ⟨j, rfl⟩ := Nat.exists_eq_add_of_lt hi
        have hj : j < name.length := by omega
        rw [hat _ (by omega), List.getD_eq_getElem?_getD, List.getElem?_append_right (by omega),
          show front.length + j + 1 - front.length = j + 1 by omega, List.getElem?_cons_succ,
          List.getElem?_eq_getElem hj, Option.getD_some]
        intro hsep
        exact (hplain name (by simp)).separate (hsep ▸ List.getElem_mem hj)
    have hleave : leave o = ⟨o.cells, if init = [] then 1 else front.length⟩ := by
      rw [leave, hback]
      by_cases hinit : init = []
      · simp [hfront, hinit, joined]
      · have hpos := joined_length_pos hinit
        rw [← hfront] at hpos
        rw [if_neg hinit]
        simp only [Output.mk.injEq, true_and]
        rw [if_pos (by omega)]
        omega
    rw [hleave]
    by_cases hinit : init = []
    · subst hinit
      refine ⟨h.size, rfl, ?_, by simp only [if_pos]; have := h.room; omega⟩
      have hone := congrArg (List.take 1) h.content
      rw [List.take_take, min_eq_left (by omega), htext] at hone
      simpa [hfront, joined, text] using hone
    · rw [if_neg hinit]
      refine ⟨h.size, by rw [pathText, text_of_ne_nil hinit], ?_, by have := h.room; dsimp only; omega⟩
      have hcut := congrArg (List.take front.length) h.content
      rw [List.take_take, min_eq_left (by omega), htext, List.take_left] at hcut
      rw [pathText, text_of_ne_nil hinit]
      exact hcut

/-- A name behind the text so far: the name does not fit, or the output shows it. -/
lemma enter_shows (h : Shows outputSize names o) (component : Bytes)
    (hplain : ∀ n ∈ names, Plain slash dot n) :
    (outputSize ≤ (pathText (names ++ [component])).length ∧
      enter outputSize component o = .error (.osError enametoolong)) ∨
    (pathText (names ++ [component])).length < outputSize ∧
      ∃ o', enter outputSize component o = .ok o' ∧ Shows outputSize (names ++ [component]) o' := by
  have hne : names ++ [component] ≠ [] := by simp
  have htext : pathText (names ++ [component]) = joined slash names ++ slash :: component := by
    rw [pathText, text_of_ne_nil hne, joined_append, joined_singleton]
  have hlen := h.len
  have hroom := h.room
  have hsize := h.size
  by_cases hroot : names = []
  · subst hroot
    have hone : o.len = 1 := hlen
    have htotal : (pathText ([] ++ [component])).length = 1 + component.length := by
      rw [htext]
      simp [joined, Nat.add_comm]
    simp only [enter, hone, lt_irrefl, if_false, ne_eq, not_true_eq_false, Nat.add_zero]
    by_cases hfit : outputSize < 1 + component.length + 1
    · exact .inl ⟨by omega, by rw [if_pos hfit, pathError, if_pos hfit.le]⟩
    · rw [if_neg hfit]
      refine .inr ⟨by omega, _, rfl, ?_, htotal.symm, ?_, by dsimp only; omega⟩
      · rw [← hsize]
        exact overlay_length (by omega)
      · have hcontent := h.content
        rw [hone] at hcontent
        rw [overlay_take (by omega), hcontent, htext]
        rfl
  · have hmany : 1 < o.len := by
      rw [hlen]
      exact not_le.mp fun hle => hroot ((text_length_le_one hplain).mp hle)
    have hjoined : pathText names = joined slash names := text_of_ne_nil hroot
    have htotal : (pathText (names ++ [component])).length = o.len + 1 + component.length := by
      rw [htext, hlen, hjoined, List.length_append, List.length_cons]
      omega
    simp only [enter, if_pos hmany, ne_eq, one_ne_zero, not_false_eq_true, if_true]
    by_cases hfit : outputSize < o.len + 1 + component.length + 1
    · exact .inl ⟨by omega, by rw [if_pos hfit, pathError, if_pos hfit.le]⟩
    · rw [if_neg hfit]
      have hsep : (overlay o.cells o.len [slash]).length = o.cells.length :=
        overlay_length (by rw [List.length_singleton]; omega)
      have hin : o.len ≤ o.cells.length := by omega
      have hfront : (overlay o.cells o.len [slash]).take (o.len + [slash].length) =
          joined slash names ++ [slash] := by
        rw [overlay_take hin, h.content, hjoined]
      refine .inr ⟨by omega, _, rfl, ?_, htotal.symm, ?_, by dsimp only; omega⟩
      · have hbehind : o.len + 1 + component.length ≤ (overlay o.cells o.len [slash]).length := by
          rw [hsep]
          omega
        exact (overlay_length hbehind).trans (hsep.trans hsize)
      · have htake : (overlay (overlay o.cells o.len [slash]) (o.len + 1) component).take
            (o.len + 1 + component.length) =
            (overlay o.cells o.len [slash]).take (o.len + 1) ++ component :=
          overlay_take (by omega)
        rw [htake, show o.len + 1 = o.len + [slash].length from rfl, hfront, htext,
          List.append_assoc]
        rfl

/-- A component in its place: what it makes of the path does not fit, or the output shows it. -/
lemma place_shows (h : Shows outputSize names o) (component : Bytes)
    (hplain : ∀ n ∈ names, Plain slash dot n) :
    (outputSize ≤ (pathText (walk dot names component)).length ∧
      place outputSize component o = .error (.osError enametoolong)) ∨
    (pathText (walk dot names component)).length < outputSize ∧
      ∃ o', place outputSize component o = .ok o' ∧
        Shows outputSize (walk dot names component) o' := by
  unfold place walk
  split_ifs with hskip hup
  · exact .inr ⟨h.len ▸ h.room, o, rfl, h⟩
  · have hleft := leave_shows h hplain
    exact .inr ⟨hleft.len ▸ hleft.room, leave o, rfl, hleft⟩
  · exact enter_shows h component hplain

lemma loop_ends (h : Shows outputSize names o) :
    Fits slash dot outputSize names (components slash ([] : Bytes)) ∧
      (components slash ([] : Bytes)).foldl (walk dot) names = names := by
  have hnow : (pathText names).length < outputSize := h.len ▸ h.room
  have hparts : components slash ([] : Bytes) = [[]] := components_of_not_mem List.not_mem_nil
  rw [hparts, fits_cons, fits_nil, List.foldl_cons, walk_nil]
  exact ⟨⟨hnow, hnow⟩, rfl⟩

/-- A turn of the loop takes a byte of the path at least. -/
lemma turn_shortens {rest : Bytes} (h : rest ≠ []) :
    ((rest.dropWhile (· = slash)).dropWhile (· ≠ slash)).length < rest.length := by
  obtain ⟨c, rest, rfl⟩ := List.exists_cons_of_ne_nil h
  have hle : ∀ (p : UInt8 → Bool) (l : Bytes), (l.dropWhile p).length ≤ l.length :=
    fun p l => List.length_dropWhile_le p l
  rw [List.length_cons]
  by_cases hc : c = slash
  · rw [List.dropWhile_cons_of_pos (by simpa using hc)]
    exact Nat.lt_succ_of_le ((hle _ _).trans (hle _ _))
  · rw [List.dropWhile_cons_of_neg (by simpa using hc), List.dropWhile_cons_of_pos (by simpa using hc)]
    exact Nat.lt_succ_of_le (hle _ _)

/-- The loop resolves the rest of the path, unless an intermediate result does not fit. -/
lemma normalizeLoop_shows {turns : ℕ} {rest : Bytes} (hturns : rest.length ≤ turns)
    (h : Shows outputSize names o) (hplain : ∀ n ∈ names, Plain slash dot n) :
    (¬ Fits slash dot outputSize names (components slash rest) ∧
      normalizeLoop outputSize turns rest o = .error (.osError enametoolong)) ∨
    Fits slash dot outputSize names (components slash rest) ∧
      ∃ o', normalizeLoop outputSize turns rest o = .ok o' ∧
        Shows outputSize ((components slash rest).foldl (walk dot) names) o' := by
  induction turns generalizing rest names o with
  | zero =>
    obtain rfl : rest = [] := List.length_eq_zero_iff.mp (by omega)
    exact .inr ⟨(loop_ends h).1, o, rfl, by rw [(loop_ends h).2]; exact h⟩
  | succ turns ih =>
    by_cases hrest : rest = []
    · subst hrest
      exact .inr ⟨(loop_ends h).1, o, rfl, by rw [(loop_ends h).2]; exact h⟩
    · rw [normalizeLoop, if_neg hrest]
      dsimp only
      set behind := rest.dropWhile (· = slash) with hbehind
      set component := behind.takeWhile (· ≠ slash) with hcomponent
      set tail := behind.dropWhile (· ≠ slash) with htail
      rw [← fits_dropWhile, ← hbehind, fits_span, ← hcomponent, ← htail, ← foldl_dropWhile,
        ← hbehind, ← foldl_span, ← hcomponent, ← htail]
      have hshort : tail.length ≤ turns :=
        Nat.le_of_lt_succ ((turn_shortens hrest).trans_le hturns)
      rcases place_shows h component hplain with ⟨hlong, herror⟩ | ⟨hfit, o', hok, h'⟩
      · rw [herror]
        exact .inl ⟨fun hfits => absurd hfits.2.here (not_lt.mpr hlong), rfl⟩
      · rw [hok]
        have hnot : slash ∉ component := fun hmem => by simpa using List.mem_takeWhile_imp hmem
        have hnext := ih hshort h' (plain_walk hplain hnot)
        rcases hnext with ⟨hno, herror⟩ | ⟨hfits, hdone⟩
        · exact .inl ⟨fun hfits => hno hfits.2, herror⟩
        · exact .inr ⟨⟨h.len ▸ h.room, hfits⟩, hdone⟩

/-! ## The resolver -/

lemma cstr_of_terminated {text rest : Bytes} (h : 0 ∉ text) : cstr (text ++ 0 :: rest) = text := by
  have hall : ∀ c ∈ text, decide (c ≠ 0) = true := fun c hc =>
    decide_eq_true fun h0 => h (h0 ▸ hc)
  rw [cstr, List.takeWhile_append_of_pos hall, List.takeWhile_cons_of_neg (by simp),
    List.append_nil]

lemma pathText_noNul (h : ∀ n ∈ names, 0 ∉ n) : 0 ∉ pathText names := by
  intro hmem
  by_cases hnil : names = []
  · rw [hnil, pathText, text_nil] at hmem
    exact absurd (List.mem_singleton.mp hmem) (by decide)
  · rw [pathText, text_of_ne_nil hnil, joined, List.mem_flatMap] at hmem
    obtain ⟨n, hn, hmem⟩ := hmem
    rcases List.mem_cons.mp hmem with h0 | hmem
    · exact absurd h0 (by decide)
    · exact h n hn hmem

lemma normal_resolve {cwd : List Bytes} (h : Normal cwd) {path : Bytes} (hnul : 0 ∉ path) :
    Normal (resolve slash dot cwd path) := by
  refine ⟨plain_resolve h.plain path, fun n hn => ?_⟩
  rcases mem_foldl_walk hn with hn | hn
  · unfold start at hn
    split_ifs at hn
    · exact absurd hn List.not_mem_nil
    · exact h.noNul n hn
  · exact fun h0 => hnul (subset_of_component hn h0)

/-- What the resolver makes of a path. -/
structure Normalized (cwd : List Bytes) (path : Bytes) (outputSize : ℕ)
    (result : Except Raised Bytes) : Prop where
  nul : 0 ∈ path → result = .error (.osError einval)
  long : 0 ∉ path →
    ¬ Fits slash dot outputSize (start slash cwd path) (components slash path) →
    result = .error (.osError enametoolong)
  resolved : 0 ∉ path → Fits slash dot outputSize (start slash cwd path) (components slash path) →
    ∃ output, result = .ok output ∧ output.length = outputSize ∧
      cstr output = pathText (resolve slash dot cwd path)
  normal : 0 ∉ path → Normal (resolve slash dot cwd path)

/-- The loop and the NUL behind its output. -/
lemma terminated_shows {turns : ℕ} {rest : Bytes} (hturns : rest.length ≤ turns)
    (h : Shows outputSize names o) (hnormal : Normal names) (hnul : 0 ∉ rest) :
    let result : Except Raised Bytes := match normalizeLoop outputSize turns rest o with
      | .error e => .error e
      | .ok o => .ok (overlay o.cells o.len [0])
    (¬ Fits slash dot outputSize names (components slash rest) →
      result = .error (.osError enametoolong)) ∧
    (Fits slash dot outputSize names (components slash rest) →
      ∃ output, result = .ok output ∧ output.length = outputSize ∧
        cstr output = pathText ((components slash rest).foldl (walk dot) names)) := by
  rcases normalizeLoop_shows hturns h hnormal.plain with ⟨hno, herror⟩ | ⟨hfits, o', hok, h'⟩
  · rw [herror]
    exact ⟨fun _ => rfl, fun hfits => absurd hfits hno⟩
  · rw [hok]
    refine ⟨fun hno => absurd hfits hno, fun _ => ⟨_, rfl, ?_, ?_⟩⟩
    · have hroom := h'.room
      rw [← h'.size]
      exact overlay_length (by rw [h'.size, List.length_singleton]; omega)
    · rw [overlay, h'.content]
      refine cstr_of_terminated (pathText_noNul fun n hn h0 => ?_)
      rcases mem_foldl_walk hn with hn | hn
      · exact hnormal.noNul n hn h0
      · exact hnul (subset_of_component hn h0)

theorem normalizePath_spec {cwd : List Bytes} (h : Normal cwd) (path : Bytes) {output : Bytes}
    (hsize : output.length = outputSize) (hroom : 1 < outputSize) :
    Normalized cwd path outputSize (normalizePath (pathText cwd) path output outputSize) := by
  unfold normalizePath
  by_cases hnul : 0 ∈ path
  · rw [if_pos hnul]
    exact ⟨fun _ => by rw [pathError, if_neg (by omega)], fun h => absurd hnul h,
      fun h => absurd hnul h, fun h => absurd hnul h⟩
  rw [if_neg hnul]
  by_cases habsolute : path.head? = some slash
  · rw [if_pos habsolute]
    obtain ⟨rest, rfl⟩ : ∃ rest, path = slash :: rest := by
      cases path with
      | nil => cases habsolute
      | cons c rest => exact ⟨rest, by rw [Option.some.inj habsolute]⟩
    have hstart : start slash cwd (slash :: rest) = [] := if_pos rfl
    have hshows : Shows outputSize [] ⟨overlay output 0 [slash], 1⟩ := by
      refine ⟨?_, rfl, ?_, hroom⟩
      · rw [← hsize]
        exact overlay_length (by rw [hsize, List.length_singleton]; omega)
      · have htake : (overlay output 0 [slash]).take (0 + [slash].length) =
            output.take 0 ++ [slash] := overlay_take (Nat.zero_le _)
        exact htake
    have hrest : 0 ∉ rest := fun h0 => hnul (List.mem_cons_of_mem _ h0)
    have hloop := terminated_shows (Nat.le_succ rest.length) hshows
      ⟨fun _ hn => absurd hn List.not_mem_nil, fun _ hn => absurd hn List.not_mem_nil⟩ hrest
    have hfits : Fits slash dot outputSize (start slash cwd (slash :: rest))
        (components slash (slash :: rest)) ↔
        Fits slash dot outputSize [] (components slash rest) := by
      rw [hstart, components_cons, fits_cons, walk_nil]
      exact ⟨fun h => h.2, fun h => ⟨h.here, h⟩⟩
    have hresolve : resolve slash dot cwd (slash :: rest) =
        (components slash rest).foldl (walk dot) [] := by
      rw [resolve, hstart, foldl_components_cons]
    refine ⟨fun h => absurd h hnul, fun _ hno => hloop.1 (hfits.not.mp hno), fun _ hyes => ?_,
      fun _ => normal_resolve h hnul⟩
    rw [hresolve]
    exact hloop.2 (hfits.mp hyes)
  · rw [if_neg habsolute]
    have hstart : start slash cwd path = cwd := if_neg habsolute
    by_cases hlong : outputSize ≤ (pathText cwd).length
    · rw [if_pos hlong]
      have hno : ¬ Fits slash dot outputSize (start slash cwd path) (components slash path) :=
        fun hfits => absurd (hstart ▸ hfits.here) (not_lt.mpr hlong)
      exact ⟨fun h => absurd h hnul, fun _ _ => by rw [pathError, if_pos hlong],
        fun _ hfits => absurd hfits hno, fun _ => normal_resolve h hnul⟩
    · rw [if_neg hlong]
      have hshows : Shows outputSize cwd ⟨overlay output 0 (pathText cwd), (pathText cwd).length⟩ := by
        refine ⟨?_, rfl, ?_, not_le.mp hlong⟩
        · rw [← hsize]
          exact overlay_length (by omega)
        · have htake : (overlay output 0 (pathText cwd)).take (0 + (pathText cwd).length) =
              output.take 0 ++ pathText cwd := overlay_take (Nat.zero_le _)
          rwa [Nat.zero_add] at htake
      have hloop := terminated_shows (le_refl path.length) hshows h hnul
      refine ⟨fun h => absurd h hnul, fun _ hno => hloop.1 (hstart ▸ hno), fun _ hyes => ?_,
        fun _ => normal_resolve h hnul⟩
      rw [resolve, hstart]
      exact hloop.2 (hstart ▸ hyes)

/-! ## Full paths -/

/-- The mount points and their volumes. -/
inductive IsMount : Bytes → Volume → Prop
  | flash : IsMount flashPath .flash
  | sd : IsMount sdcardPath .sd

/-- The full path of the names. -/
def fullText (base : Bytes) (names : List Bytes) : Bytes := base ++ joined slash names

lemma isMount_length {base : Bytes} {volume : Volume} (h : IsMount base volume) :
    base.length + allocPathMax < fullPathMax := by
  cases h <;> decide

lemma isMount_noNul {base : Bytes} {volume : Volume} (h : IsMount base volume) : 0 ∉ base := by
  cases h <;> decide

lemma joined_noNul (h : ∀ n ∈ names, 0 ∉ n) : 0 ∉ joined slash names := by
  by_cases hnil : names = []
  · rw [hnil]
    exact List.not_mem_nil
  · rw [← text_of_ne_nil hnil]
    exact pathText_noNul h

/-- What is copied behind the mount point. -/
lemma suffix_eq {internal : Bytes} (hplain : ∀ n ∈ names, Plain slash dot n)
    (h : cstr internal = pathText names) :
    let offset := if (cstr internal).length = 1 then 1 else 0
    (internal.drop offset).take ((cstr internal).length - offset) = joined slash names ∧
      (cstr internal).length - offset = (joined slash names).length ∧
      offset ≤ (cstr internal).length := by
  have hpos : 0 < (pathText names).length := text_length_pos names
  by_cases hnil : names = []
  · subst hnil
    have hone : (cstr internal).length = 1 := by rw [h]; rfl
    simp only [hone, if_true, Nat.sub_self, List.take_zero]
    exact ⟨rfl, rfl, le_rfl⟩
  · have hmany : (cstr internal).length ≠ 1 := by
      rw [h]
      exact fun hone => hnil ((text_length_le_one hplain).mp hone.le)
    have hjoined : pathText names = joined slash names := text_of_ne_nil hnil
    have htake : internal.take (cstr internal).length = cstr internal :=
      (List.prefix_iff_eq_take.mp (List.takeWhile_prefix _)).symm
    simp only [if_neg hmany, List.drop_zero, Nat.sub_zero]
    exact ⟨by rw [htake, h, hjoined], by rw [h, hjoined], Nat.zero_le _⟩

/-- The two paths of a request: the resolved path in the mount, and the full path. -/
structure Made (v : Vfs) (names : List Bytes) (paths : Paths) : Prop where
  normal : Normal names
  internal : cstr paths.internal = pathText names
  room : (pathText names).length ≤ allocPathMax
  full : cstr paths.full = fullText v.basePath names

theorem makePathRaw_spec {v : Vfs} {volume : Volume} (hmount : IsMount v.basePath volume)
    {cwd : List Bytes} (hcwd : Normal cwd) (hv : v.cwd = pathText cwd) (path : Bytes)
    {internal full : Bytes} (hinternal : internal.length = allocPathMax + 1)
    (hfull : full.length = fullPathMax) {paths : Paths}
    (h : makePathRaw v path internal full = .ok paths) : ∃ names, Made v names paths := by
  have hspec := normalizePath_spec hcwd path hinternal (by decide)
  rw [← hv] at hspec
  unfold makePathRaw at h
  by_cases hnul : 0 ∈ path
  · rw [hspec.nul hnul] at h
    cases h
  by_cases hfits : Fits slash dot (allocPathMax + 1) (start slash cwd path) (components slash path)
  swap
  · rw [hspec.long hnul hfits] at h
    cases h
  obtain ⟨output, houtput, -, hcstr⟩ := hspec.resolved hnul hfits
  have hnormal := hspec.normal hnul
  have hroom : (pathText (resolve slash dot cwd path)).length ≤ allocPathMax :=
    Nat.le_of_lt_succ (hfits _ (List.prefix_refl _))
  set names := resolve slash dot cwd path
  obtain ⟨hsuffix, hlength, hoffset⟩ := suffix_eq hnormal.plain hcstr
  have hbase := isMount_length hmount
  have hlong : (cstr output).length = (pathText names).length := congrArg List.length hcstr
  rw [houtput] at h
  dsimp only at h
  generalize (if (cstr output).length = 1 then 1 else 0) = offset at hsuffix hlength hoffset h
  rw [hsuffix] at h
  split_ifs at h with hraise
  · obtain rfl := Except.ok.inj h
    refine ⟨names, hnormal, hcstr, hroom, ?_⟩
    have hend : v.basePath.length + (cstr output).length - offset + 1 - 1 =
        v.basePath.length + (joined slash names).length := by omega
    have hfirst : (overlay full 0 v.basePath).length = full.length := overlay_length (by omega)
    have hbasePath : (overlay full 0 v.basePath).take (0 + v.basePath.length) =
        full.take 0 ++ v.basePath := overlay_take (Nat.zero_le _)
    rw [Nat.zero_add, List.take_zero, List.nil_append] at hbasePath
    have hboth : (overlay (overlay full 0 v.basePath) v.basePath.length (joined slash names)).take
        (v.basePath.length + (joined slash names).length) = fullText v.basePath names := by
      rw [overlay_take (by omega), hbasePath, fullText]
    rw [hend, overlay, hboth]
    refine cstr_of_terminated fun h0 => ?_
    rcases List.mem_append.mp h0 with h0 | h0
    · exact isMount_noNul hmount h0
    · exact joined_noNul hnormal.noNul h0

/-- The path is on the mount: the mount point or below it, without a dot component, short enough
for its buffer, and on the volume of the mount. -/
structure Inside (base : Bytes) (volume : Volume) (path : Bytes) : Prop where
  under : path = base ∨ base ++ [slash] <+: path
  components : ∀ c ∈ components slash path, c ≠ [dot] ∧ c ≠ [dot, dot]
  fits : path.length < fullPathMax
  volume_eq : volumeForPath path = volume

lemma isMount_name {base : Bytes} {volume : Volume} (h : IsMount base volume) :
    ∃ name, Plain slash dot name ∧ base = joined slash [name] := by
  have hplain : ∀ name : Bytes, name ≠ [] ∧ name ≠ [dot] ∧ name ≠ [dot, dot] ∧ slash ∉ name →
      Plain slash dot name := fun _ h => ⟨h.1, h.2.1, h.2.2.1, h.2.2.2⟩
  cases h with
  | flash => exact ⟨flashPath.tail, hplain _ (by decide), rfl⟩
  | sd => exact ⟨sdcardPath.tail, hplain _ (by decide), rfl⟩

lemma joined_head (names : List Bytes) :
    (joined slash names)[0]? = none ∨ (joined slash names)[0]? = some slash := by
  cases names with
  | nil => exact .inl rfl
  | cons name names => exact .inr rfl

lemma volumeForPath_full {base : Bytes} {volume : Volume} (h : IsMount base volume)
    (names : List Bytes) : volumeForPath (fullText base names) = volume := by
  cases h with
  | flash => exact if_neg fun hsd => absurd hsd.1 (by simp [fullText, flashPath, sdcardPath])
  | sd =>
    refine if_pos ⟨List.take_left, ?_⟩
    rw [fullText, List.getElem?_append_right le_rfl, Nat.sub_self]
    exact joined_head names

theorem fullText_inside {base : Bytes} {volume : Volume} (h : IsMount base volume)
    (hnormal : Normal names) (hroom : (pathText names).length ≤ allocPathMax) :
    Inside base volume (fullText base names) := by
  obtain ⟨name, hname, hbase⟩ := isMount_name h
  refine ⟨?_, ?_, ?_, volumeForPath_full h names⟩
  · cases names with
    | nil => exact .inl (List.append_nil base)
    | cons first names =>
      exact .inr ⟨first ++ joined slash names, by simp [fullText, joined]⟩
  · have hplain : ∀ n ∈ [name] ++ names, Plain slash dot n := by
      intro n hn
      rcases List.mem_cons.mp hn with rfl | hn
      · exact hname
      · exact hnormal.plain n hn
    rw [fullText, hbase, ← joined_append, components_joined hplain]
    intro c hc
    rcases List.mem_cons.mp hc with rfl | hc
    · exact ⟨List.cons_ne_nil _ _ |>.symm, List.cons_ne_nil _ _ |>.symm⟩
    · exact ⟨(hplain c hc).not_dot, (hplain c hc).not_dots⟩
  · have hlong := isMount_length h
    have hjoined : (joined slash names).length ≤ (pathText names).length := by
      by_cases hnil : names = []
      · rw [hnil]
        exact Nat.zero_le _
      · exact (congrArg List.length (text_of_ne_nil hnil)).ge
    rw [fullText, List.length_append]
    omega

/-! ## Runs of a mount -/

/-- The paths and volumes of the call are those of the mount. -/
def Call.Inside (base : Bytes) (volume : Volume) : Call → Prop
  | .begin v _ => v = volume
  | .finish v => v = volume
  | .stat path => StorageVfs.Inside base volume path
  | .openFile _ path _ => StorageVfs.Inside base volume path
  | .opendir _ path => StorageVfs.Inside base volume path
  | .mkdir path => StorageVfs.Inside base volume path
  | .unlink path => StorageVfs.Inside base volume path
  | .rmdir path => StorageVfs.Inside base volume path
  | .rename old new => StorageVfs.Inside base volume old ∧ StorageVfs.Inside base volume new
  | .fatInfo path => StorageVfs.Inside base volume path
  | _ => True

/-- The mount is where it was, and its current directory is resolved. -/
structure Settled (base : Bytes) (v : Vfs) : Prop where
  basePath_eq : v.basePath = base
  cwd : ∃ names, Normal names ∧ v.cwd = pathText names ∧ v.cwd.length ≤ allocPathMax

/-- All mounts are settled, and the calls since `before` were inside the mount `mount`. -/
structure Kept (volumeOf : ℕ → Volume) (mount : ℕ) (before : Log)
    (w : World Machine Call.Value Raised) : Prop where
  settled : ∀ i, Settled (mountPath (volumeOf i)) (w.state.mounts i)
  calls : ∃ calls, w.log = before ++ calls ∧
    ∀ e ∈ calls, e.call.Inside (mountPath (volumeOf mount)) (volumeOf mount)

/-- The program keeps the mounts, however it ends. -/
def Keeps (volumeOf : ℕ → Volume) (mount : ℕ) (before : Log) {α : Type} (p : Flow α) : Prop :=
  Triple (Kept volumeOf mount before) p (fun _ => Kept volumeOf mount before)
    (Kept volumeOf mount before)

section Keeps

variable {volumeOf : ℕ → Volume} {mount : ℕ} {before : Log} {α β : Type}

lemma keptBy : KeptBy (Call.Inside (mountPath (volumeOf mount)) (volumeOf mount))
    (Kept volumeOf mount before) := by
  rintro w e he ⟨hsettled, calls, hlog, hcalls⟩
  refine ⟨hsettled, calls ++ [e], by rw [hlog, List.append_assoc], fun x hx => ?_⟩
  rcases List.mem_append.mp hx with hx | hx
  · exact hcalls x hx
  · rw [List.mem_singleton.mp hx]
    exact he

lemma isMount_mountPath (volume : Volume) : IsMount (mountPath volume) volume := by
  cases volume
  · exact .flash
  · exact .sd

theorem keeps_pure (a : α) : Keeps volumeOf mount before (pure a) := .pure fun _ h => h

theorem keeps_fail (e : Raised) : Keeps volumeOf mount before (fail e : Flow α) :=
  .fail fun _ h => h

theorem keeps_bind {p : Flow α} {f : α → Flow β} (hp : Keeps volumeOf mount before p)
    (hf : ∀ a, Keeps volumeOf mount before (f a)) : Keeps volumeOf mount before (p >>= f) :=
  .bind hp hf

theorem keeps_failIf {c : Prop} [Decidable c] {e : Raised} :
    Keeps volumeOf mount before (failIf c e) := .failIf (fun _ _ h => h) fun _ h => h

theorem keeps_lift {x : Except Raised α} : Keeps volumeOf mount before (lift x : Flow α) :=
  .lift (fun _ _ _ h => h) fun _ h => h

theorem keeps_ask {c : Call} (h : c.Inside (mountPath (volumeOf mount)) (volumeOf mount)) :
    Keeps volumeOf mount before (ask c) :=
  (keptBy.ask (fun _ h => h) h).post fun _ _ hw => hw.1

theorem keeps_getState : Keeps volumeOf mount before getState := .getState fun _ h => h

theorem keeps_getMount {f : Vfs → Flow α}
    (hf : ∀ v, Settled (mountPath (volumeOf mount)) v → Keeps volumeOf mount before (f v)) :
    Keeps volumeOf mount before (getMount mount >>= f) := by
  refine .bind (Q := fun v w => Settled (mountPath (volumeOf mount)) v ∧ Kept volumeOf mount before w)
    ?_ fun v env w hw => hf v hw.1 env w hw.2
  exact .reading fun m => .pure fun w hw => ⟨hw.2 ▸ hw.1.settled mount, hw.1⟩

/-- An update that leaves the mounts alone. -/
theorem keeps_update {f : Machine → Machine} (hf : ∀ m, (f m).mounts = m.mounts) :
    Keeps volumeOf mount before (update f) :=
  .update fun _ h => ⟨fun i => by rw [hf]; exact h.settled i, h.calls⟩

theorem keeps_setMount {f : Vfs → Vfs}
    (hf : ∀ v, Settled (mountPath (volumeOf mount)) v → Settled (mountPath (volumeOf mount)) (f v)) :
    Keeps volumeOf mount before (setMount mount f) := by
  refine .update fun w h => ⟨fun i => ?_, h.calls⟩
  by_cases hi : i = mount
  · subst hi
    simp only [Machine.setMount, Function.update_self]
    exact hf _ (h.settled i)
  · simp only [Machine.setMount, Function.update_of_ne hi]
    exact h.settled i

theorem keeps_waitFor {turn : Flow (Turn α)} (h : Keeps volumeOf mount before turn) (fuel : ℕ) :
    Keeps volumeOf mount before (waitFor turn fuel) :=
  (Triple.waitFor (I := fun _ => Kept volumeOf mount before)
    (Q := fun _ => Kept volumeOf mount before)
    (fun _ => h.post fun turn _ hw => by cases turn <;> exact hw) 0 fuel).post
      fun found _ hw => by cases found <;> exact hw

theorem keeps_retry {c : Flow (Except Errno Unit)} (h : Keeps volumeOf mount before c)
    (fuel : ℕ) : Keeps volumeOf mount before (retry fuel c) :=
  keeps_bind (keeps_waitFor (keeps_bind h fun _ => keeps_pure _) fuel) fun _ => keeps_pure _

/-! ### Objects -/

theorem keeps_handleOpen (volume : Volume) : Keeps volumeOf mount before (handleOpen volume) :=
  keeps_update fun _ => by split_ifs <;> rfl

theorem keeps_handleClose (volume : Volume) : Keeps volumeOf mount before (handleClose volume) :=
  keeps_update fun _ => by split_ifs <;> rfl

theorem keeps_newObject (volume : Volume) : Keeps volumeOf mount before (newObject volume) :=
  keeps_bind (keeps_ask trivial) fun _ => keeps_bind keeps_getState fun _ =>
    keeps_bind (keeps_update fun _ => rfl) fun _ => keeps_pure _

theorem keeps_setDescriptor (object : ℕ) (d : Descriptor) :
    Keeps volumeOf mount before (setDescriptor object d) := keeps_update fun _ => rfl

theorem keeps_released (object : ℕ) (result : Except Errno Unit) :
    Keeps volumeOf mount before (released object result) := by
  refine keeps_bind keeps_getState fun m => keeps_bind (keeps_setDescriptor _ _) fun _ => ?_
  split_ifs
  · exact keeps_handleClose _
  · exact keeps_pure _

theorem keeps_fileClose (fuel file : ℕ) : Keeps volumeOf mount before (fileClose fuel file) := by
  refine keeps_bind keeps_getState fun m => ?_
  cases (m.objects file).descriptor with
  | fd fd =>
    refine keeps_bind (keeps_retry (keeps_ask (c := .close file fd) trivial) fuel)
      fun result => ?_
    cases result with
    | none => exact keeps_pure _
    | some result => exact keeps_bind (keeps_released _ _) fun _ => keeps_pure _
  | absent => exact keeps_pure _
  | dir dir => exact keeps_pure _

theorem keeps_dirIterClose (iter : ℕ) : Keeps volumeOf mount before (dirIterClose iter) := by
  refine keeps_bind keeps_getState fun m => ?_
  cases (m.objects iter).descriptor with
  | dir dir => exact keeps_bind (keeps_ask trivial) fun result => keeps_released _ _
  | absent => exact keeps_pure _
  | fd fd => exact keeps_pure _

theorem keeps_nextTurn (iter dir : ℕ) : Keeps volumeOf mount before (nextTurn iter dir) := by
  refine keeps_bind (keeps_ask trivial) fun entry => ?_
  cases entry with
  | error e =>
    refine keeps_bind (keeps_dirIterClose iter) fun _ => ?_
    cases e with
    | none => exact keeps_pure _
    | some e => exact keeps_fail _
  | ok entry =>
    dsimp only
    split_ifs
    · exact keeps_pure _
    · exact keeps_bind (keeps_ask trivial) fun _ => keeps_pure _

theorem keeps_dirIterNext (fuel iter : ℕ) :
    Keeps volumeOf mount before (dirIterNext fuel iter) := by
  refine keeps_bind keeps_getState fun m => ?_
  cases (m.objects iter).descriptor with
  | dir dir => exact keeps_waitFor (keeps_nextTurn iter dir) fuel
  | absent => exact keeps_pure _
  | fd fd => exact keeps_pure _

/-! ### Methods of the mount -/

section Methods

variable {path : Bytes}

theorem keeps_vfsBegin {volume : Volume} (h : volume = volumeOf mount) (writing : Bool) :
    Keeps volumeOf mount before (vfsBegin volume writing) :=
  keeps_bind (keeps_ask h) fun _ => keeps_failIf

theorem keeps_vfsFinish {volume : Volume} (h : volume = volumeOf mount) :
    Keeps volumeOf mount before (vfsFinish volume) :=
  keeps_bind (keeps_ask h) fun _ => keeps_failIf

theorem keeps_makePath (fresh : Fresh) {v : Vfs} (hv : Settled (mountPath (volumeOf mount)) v)
    (path : Bytes) {f : Paths → Flow α}
    (hf : ∀ paths, Inside (mountPath (volumeOf mount)) (volumeOf mount) (cstr paths.full) →
      (∃ names, Normal names ∧ cstr paths.internal = pathText names ∧
        (cstr paths.internal).length ≤ allocPathMax) → Keeps volumeOf mount before (f paths)) :
    Keeps volumeOf mount before (makePath fresh v path >>= f) := by
  refine .given (fun _ h => h) fun paths hpaths => ?_
  obtain ⟨hbase, cwd, hcwd, htext, -⟩ := hv
  have hmount : IsMount v.basePath (volumeOf mount) := hbase ▸ isMount_mountPath _
  obtain ⟨names, hmade⟩ := makePathRaw_spec hmount hcwd htext path (fresh _).2 (fresh _).2 hpaths
  refine hf paths ?_ ⟨names, hmade.normal, hmade.internal, by rw [hmade.internal]; exact hmade.room⟩
  rw [hmade.full, ← hbase]
  exact fullText_inside hmount hmade.normal hmade.room

theorem keeps_openTurn {file : ℕ} {flags : Flags}
    (h : Inside (mountPath (volumeOf mount)) (volumeOf mount) path) :
    Keeps volumeOf mount before (openTurn file path flags) := by
  refine keeps_bind (keeps_ask h) fun opened => ?_
  cases opened with
  | ok fd => exact keeps_pure _
  | error e =>
    exact keeps_bind (keeps_vfsFinish h.volume_eq) fun _ => keeps_bind keeps_failIf fun _ =>
      keeps_bind (keeps_ask trivial) fun _ => keeps_bind (keeps_vfsBegin h.volume_eq _) fun _ =>
        keeps_pure _

theorem keeps_fileOpen (fuel : ℕ) (mode : Bytes)
    (h : Inside (mountPath (volumeOf mount)) (volumeOf mount) path) :
    Keeps volumeOf mount before (fileOpen fuel path mode) := by
  refine keeps_bind (keeps_newObject _) fun file => keeps_bind (keeps_vfsBegin h.volume_eq _)
    fun _ => keeps_bind (keeps_waitFor (keeps_openTurn h) fuel) fun opened => ?_
  cases opened.join with
  | none => exact keeps_pure _
  | some fd =>
    refine keeps_bind (keeps_setDescriptor _ _) fun _ => keeps_bind (keeps_handleOpen _) fun _ =>
      keeps_bind (keeps_ask h.volume_eq) fun finished => ?_
    split_ifs
    · refine keeps_bind (keeps_retry (keeps_ask (c := .close file fd) trivial) fuel)
        fun result => ?_
      cases result with
      | none => exact keeps_pure _
      | some result => exact keeps_bind (keeps_released _ _) fun _ => keeps_fail _
    · exact keeps_pure _

theorem keeps_vfsOpen (fresh : Fresh) (fuel : ℕ) (path mode : Bytes) :
    Keeps volumeOf mount before (vfsOpen fresh fuel mount path mode) :=
  keeps_getMount fun _ hv => keeps_bind keeps_failIf fun _ => keeps_makePath fresh hv path
    fun _ hfull _ => keeps_fileOpen fuel _ hfull

theorem keeps_statInside (h : Inside (mountPath (volumeOf mount)) (volumeOf mount) path) :
    Keeps volumeOf mount before (statInside path) :=
  keeps_bind (keeps_vfsBegin h.volume_eq _) fun _ => keeps_bind (keeps_ask h) fun _ =>
    keeps_bind (keeps_vfsFinish h.volume_eq) fun _ => keeps_lift

theorem keeps_vfsChdir (fresh : Fresh) (path : Bytes) :
    Keeps volumeOf mount before (vfsChdir fresh mount path) :=
  keeps_getMount fun _ hv => keeps_makePath fresh hv path fun _ hfull ⟨names, hnames, htext, hroom⟩ =>
    keeps_bind (keeps_statInside hfull) fun _ => keeps_bind keeps_failIf fun _ =>
      keeps_setMount fun _ hv => ⟨hv.basePath_eq, names, hnames, htext, hroom⟩

theorem keeps_vfsMount (readonly mkfs : Bool) :
    Keeps volumeOf mount before (vfsMount mount readonly mkfs) :=
  keeps_bind keeps_failIf fun _ => keeps_setMount fun _ hv => ⟨hv.basePath_eq, hv.cwd⟩

theorem keeps_vfsGetcwd : Keeps volumeOf mount before (vfsGetcwd mount) :=
  keeps_getMount fun _ _ => keeps_bind (keeps_ask trivial) fun _ => keeps_pure _

theorem keeps_vfsIlistdir (fresh : Fresh) (path : Bytes) :
    Keeps volumeOf mount before (vfsIlistdir fresh mount path) := by
  refine keeps_getMount fun _ hv => keeps_makePath fresh hv path fun paths hfull _ =>
    keeps_bind (keeps_newObject _) fun iter => keeps_bind (keeps_vfsBegin hfull.volume_eq _)
      fun _ => keeps_bind (keeps_ask hfull) fun opened => ?_
  cases opened with
  | error e => exact keeps_bind (keeps_vfsFinish hfull.volume_eq) fun _ => keeps_fail _
  | ok dir =>
    refine keeps_bind (keeps_setDescriptor _ _) fun _ => keeps_bind (keeps_handleOpen _) fun _ =>
      keeps_bind (keeps_ask hfull.volume_eq) fun finished => ?_
    split_ifs
    · exact keeps_bind (keeps_ask trivial) fun _ => keeps_bind (keeps_released _ _) fun _ =>
        keeps_fail _
    · exact keeps_pure _

theorem keeps_vfsChange (fresh : Fresh) (path : Bytes) {function : Bytes → Flow (Except Errno Unit)}
    (h : ∀ p, Inside (mountPath (volumeOf mount)) (volumeOf mount) p →
      Keeps volumeOf mount before (function p)) :
    Keeps volumeOf mount before (vfsChange fresh mount path function) :=
  keeps_getMount fun _ _ => keeps_bind keeps_failIf fun _ => keeps_getMount fun _ hv =>
    keeps_makePath fresh hv path fun _ hfull _ => keeps_bind (keeps_vfsBegin hfull.volume_eq _)
      fun _ => keeps_bind (h _ hfull) fun _ => keeps_bind (keeps_vfsFinish hfull.volume_eq)
        fun _ => keeps_lift

theorem keeps_renameFiles (fuel : ℕ) {old new : Bytes}
    (hold : Inside (mountPath (volumeOf mount)) (volumeOf mount) old)
    (hnew : Inside (mountPath (volumeOf mount)) (volumeOf mount) new) :
    Keeps volumeOf mount before (renameFiles fuel old new) := by
  have hrename : Keeps volumeOf mount before (retry fuel (ask (.rename old new))) :=
    keeps_retry (keeps_ask (c := .rename old new) ⟨hold, hnew⟩) fuel
  refine keeps_bind hrename fun result => ?_
  cases result with
  | none => exact keeps_pure _
  | some result =>
    dsimp only
    split_ifs
    · refine keeps_bind (keeps_ask hnew) fun kind => ?_
      rcases kind with e | kind
      · exact keeps_pure _
      · cases kind with
        | directory => exact keeps_pure _
        | other => exact keeps_pure _
        | regular =>
          refine keeps_bind (keeps_retry (keeps_ask (c := .unlink new) hnew) fuel) fun unlinked => ?_
          rcases unlinked with - | e | ⟨⟩
          · exact keeps_pure _
          · exact keeps_pure _
          · exact hrename
    · exact keeps_pure _

theorem keeps_beginSecond {oldVolume newVolume : Volume} (hold : oldVolume = volumeOf mount)
    (hnew : newVolume = volumeOf mount) :
    Keeps volumeOf mount before (beginSecond oldVolume newVolume) := by
  unfold beginSecond
  split_ifs
  · refine keeps_bind (keeps_ask hnew) fun granted => ?_
    split_ifs
    · exact keeps_bind (keeps_vfsFinish hold) fun _ => keeps_fail _
    · exact keeps_pure _
  · exact keeps_pure _

theorem keeps_finishBoth {oldVolume newVolume : Volume} (hold : oldVolume = volumeOf mount)
    (hnew : newVolume = volumeOf mount) :
    Keeps volumeOf mount before (finishBoth oldVolume newVolume) := by
  have hlast : ∀ newFinished : Bool, Keeps volumeOf mount before (ask (.finish oldVolume) >>=
      fun oldFinished => failIf (newFinished = false ∨ oldFinished = false) (.osError eio)) :=
    fun _ => keeps_bind (keeps_ask hold) fun _ => keeps_failIf
  unfold finishBoth
  split_ifs
  · exact keeps_bind (keeps_pure _) hlast
  · exact keeps_bind (keeps_ask hnew) hlast

theorem keeps_vfsRename (fresh : Fresh) (fuel : ℕ) (old new : Bytes) :
    Keeps volumeOf mount before (vfsRename fresh fuel mount old new) := by
  refine keeps_getMount fun _ hv => keeps_bind keeps_failIf fun _ =>
    keeps_makePath fresh hv old fun oldPaths hold _ => keeps_makePath fresh hv new
      fun newPaths hnew _ => keeps_bind (keeps_vfsBegin hold.volume_eq _) fun _ =>
        keeps_bind (keeps_beginSecond hold.volume_eq hnew.volume_eq) fun _ =>
          keeps_bind (keeps_renameFiles fuel hold hnew) fun result => ?_
  cases result with
  | none => exact keeps_pure _
  | some result =>
    exact keeps_bind (keeps_finishBoth hold.volume_eq hnew.volume_eq) fun _ =>
      keeps_bind keeps_lift fun _ => keeps_pure _

theorem keeps_vfsStat (fresh : Fresh) (path : Bytes) :
    Keeps volumeOf mount before (vfsStat fresh mount path) :=
  keeps_getMount fun _ hv => keeps_makePath fresh hv path fun _ hfull _ =>
    keeps_bind (keeps_statInside hfull) fun _ => keeps_bind (keeps_ask trivial) fun _ =>
      keeps_pure _

lemma inside_mountPath (volume : Volume) : Inside (mountPath volume) volume (mountPath volume) := by
  have h : Inside (mountPath volume) volume (fullText (mountPath volume) []) :=
    fullText_inside (isMount_mountPath volume) ⟨fun _ hn => absurd hn List.not_mem_nil, fun _ hn => absurd hn List.not_mem_nil⟩ (by decide)
  rwa [fullText, joined, List.flatMap_nil, List.append_nil] at h

theorem keeps_vfsStatvfs : Keeps volumeOf mount before (vfsStatvfs mount) := by
  refine keeps_getMount fun v hv => ?_
  have hbase : Inside (mountPath (volumeOf mount)) (volumeOf mount) v.basePath :=
    hv.basePath_eq ▸ inside_mountPath _
  refine keeps_bind (keeps_vfsBegin hbase.volume_eq _) fun _ => keeps_bind (keeps_ask hbase)
    fun info => keeps_bind (keeps_vfsFinish hbase.volume_eq) fun _ => ?_
  cases info with
  | none => exact keeps_fail _
  | some info => exact keeps_bind (keeps_ask trivial) fun _ => keeps_pure _

theorem keeps_vfsImportStat (fresh : Fresh) (path : Bytes) :
    Keeps volumeOf mount before (vfsImportStat fresh mount path) := by
  refine keeps_getMount fun _ hv => keeps_makePath fresh hv _ fun paths hfull _ =>
    keeps_bind (keeps_ask hfull.volume_eq) fun granted => ?_
  split_ifs
  · exact keeps_pure _
  · refine keeps_bind (keeps_ask hfull) fun result => keeps_bind (keeps_ask hfull.volume_eq)
      fun finished => ?_
    split_ifs
    · exact keeps_pure _
    · rcases result with e | kind
      · exact keeps_pure _
      · cases kind <;> exact keeps_pure _

theorem keeps_returns {p : Flow α} (h : Keeps volumeOf mount before p) :
    Keeps volumeOf mount before (returns p) := keeps_bind h fun _ => keeps_pure _

theorem keeps_mayReturn {p : Flow (Option α)} (h : Keeps volumeOf mount before p) :
    Keeps volumeOf mount before (mayReturn p) := keeps_bind h fun _ => keeps_pure _

theorem keeps_serve (fresh : Fresh) (fuel : ℕ) (request : Request) :
    Keeps volumeOf mount before (serve fresh fuel mount request) := by
  cases request with
  | mount readonly mkfs => exact keeps_returns (keeps_vfsMount readonly mkfs)
  | umount => exact keeps_pure _
  | openFile path mode => exact keeps_mayReturn (keeps_vfsOpen fresh fuel path mode)
  | chdir path => exact keeps_returns (keeps_vfsChdir fresh path)
  | getcwd => exact keeps_returns keeps_vfsGetcwd
  | ilistdir path => exact keeps_returns (keeps_vfsIlistdir fresh path)
  | mkdir path => exact keeps_returns (keeps_vfsChange fresh path fun _ h => keeps_ask h)
  | remove path => exact keeps_returns (keeps_vfsChange fresh path fun _ h => keeps_ask h)
  | rmdir path => exact keeps_returns (keeps_vfsChange fresh path fun _ h => keeps_ask h)
  | rename old new => exact keeps_mayReturn (keeps_vfsRename fresh fuel old new)
  | stat path => exact keeps_returns (keeps_vfsStat fresh path)
  | statvfs => exact keeps_returns keeps_vfsStatvfs
  | importStat path => exact keeps_returns (keeps_vfsImportStat fresh path)
  | close file => exact keeps_fileClose fuel file
  | next iter => exact keeps_mayReturn (keeps_dirIterNext fuel iter)
  | finalise iter => exact keeps_returns (keeps_dirIterClose iter)

end Methods

end Keeps

/-! ## Runs -/

/-- All mounts are settled. -/
def AllSettled (volumeOf : ℕ → Volume) (w : World Machine Call.Value Raised) : Prop :=
  ∀ i, Settled (mountPath (volumeOf i)) (w.state.mounts i)

lemma start_settled (volumeOf : ℕ → Volume) : AllSettled volumeOf ⟨Machine.start volumeOf, []⟩ :=
  fun _ => ⟨rfl, [], ⟨fun _ hn => absurd hn List.not_mem_nil,
    fun _ hn => absurd hn List.not_mem_nil⟩, rfl, Nat.one_le_two_pow (n := 7)⟩

lemma served_settled {volumeOf : ℕ → Volume} (fresh : Fresh) (fuel : ℕ) (request : ℕ × Request) :
    Triple (AllSettled volumeOf) (served fresh fuel request) (fun _ => AllSettled volumeOf)
      (AllSettled volumeOf) := by
  have hserve : Triple (AllSettled volumeOf) (serve fresh fuel request.1 request.2)
      (fun _ => AllSettled volumeOf) (AllSettled volumeOf) := by
    intro env w hw
    have hserve : Keeps volumeOf request.1 w.log (serve fresh fuel request.1 request.2) :=
      keeps_serve fresh fuel request.2
    have hkept := hserve env w ⟨hw, [], (List.append_nil _).symm, fun _ he => absurd he List.not_mem_nil⟩
    rcases hr : serve fresh fuel request.1 request.2 env w with ⟨w', e | r⟩ <;> rw [hr] at hkept <;>
      exact hkept.settled
  exact .attempt hserve fun _ => .pure fun _ h => h

lemma serveAll_settled {volumeOf : ℕ → Volume} (fresh : Fresh) (fuel : ℕ)
    (requests : List (ℕ × Request)) :
    Triple (AllSettled volumeOf) (serveAll fresh fuel requests) (fun _ => AllSettled volumeOf)
      (AllSettled volumeOf) := by
  induction requests with
  | nil => exact .pure fun _ h => h
  | cons request rest ih =>
    refine .bind (served_settled fresh fuel request) fun result => ?_
    cases result with
    | none => exact .pure fun _ h => h
    | some => exact ih

/-- The resolver fails or gives the resolution of the path, and over all requests every path that a
mount hands to the system is inside that mount. -/
theorem paths_stay_inside :
    (∀ (cwd : List Bytes) (path output : Bytes), Normal cwd → output.length = allocPathMax + 1 →
      Normalized cwd path (allocPathMax + 1)
        (normalizePath (pathText cwd) path output (allocPathMax + 1))) ∧
    ∀ (volumeOf : ℕ → Volume) (fresh : Fresh) (fuel : ℕ) (env : Partner Call.Value Raised)
      (requests : List (ℕ × Request)) (mount : ℕ) (request : Request),
      let before := (serveAll fresh fuel requests env ⟨Machine.start volumeOf, []⟩).1
      Kept volumeOf mount before.log (serve fresh fuel mount request env before).1 := by
  refine ⟨fun cwd path output hcwd hsize => normalizePath_spec hcwd path hsize (by decide), ?_⟩
  intro volumeOf fresh fuel env requests mount request before
  have hbefore : AllSettled volumeOf before := by
    have hends := serveAll_settled fresh fuel requests env _ (start_settled volumeOf)
    revert hends
    unfold before
    rcases serveAll fresh fuel requests env ⟨Machine.start volumeOf, []⟩ with ⟨w, e | r⟩ <;>
      exact id
  have hkept : Kept volumeOf mount before.log before :=
    ⟨hbefore, [], (List.append_nil _).symm, fun _ he => absurd he List.not_mem_nil⟩
  have hends := keeps_serve fresh fuel request env before hkept
  rcases hr : serve fresh fuel mount request env before with ⟨w, e | r⟩ <;> rw [hr] at hends <;>
    exact hends

end EspVision.StorageVfs
