import EspVision.InlineSource

/-!
# The statements carry the source

Both escapes spell the code point they stand for. A chunk ends between two code points, so that
the chunks are the code points of the source, one behind the other.
-/
namespace EspVision.InlineSource
open Host Json
open PlainObject (Text units)
open Python (Spells Barred hexDigits execOpen execClose)

/-! ## What the escapes spell -/

def Printable (c : ℕ) : Prop := 0x20 ≤ c ∧ c ≤ 0x7e

instance (c : ℕ) : Decidable (Printable c) := by unfold Printable; infer_instance

lemma Printable.scalar {c : ℕ} (h : Printable c) : Scalar c := by
  unfold Printable at h
  unfold Scalar
  omega

lemma hexDigits_printable (n c : ℕ) : ∀ d ∈ hexDigits n c, Printable d := by
  induction n with
  | zero => exact nofun
  | succ n ih =>
    refine List.forall_mem_cons.mpr ⟨?_, ih⟩
    have := Nat.mod_lt (c / 16 ^ n) (show 0 < 16 by decide)
    unfold Python.hexDigit Printable
    split_ifs <;> omega

lemma shortEscape_some {c : ℕ} {b : UInt8} (h : shortEscape c = some b) :
    Python.letterEscape b.toNat = some c ∧ Printable b.toNat := by
  unfold shortEscape at h
  split_ifs at h with h₁ h₂ h₃ h₄ h₅ h₆ <;> obtain rfl := Option.some.inj h <;> subst c <;>
    exact ⟨rfl, by decide⟩

lemma shortEscape_none {c : ℕ} (h : shortEscape c = none) :
    c ≠ Python.quote ∧ c ≠ Python.backslash := by
  unfold shortEscape at h
  split_ifs at h
  unfold Python.quote Python.backslash
  omega

theorem spells_quotePoint {c : ℕ} (hc : c ≤ 0x10ffff) : Spells (quotePoint c) c := by
  unfold quotePoint
  cases h : shortEscape c with
  | some b => exact Python.spells_letter (shortEscape_some h).1
  | none =>
    dsimp only
    split_ifs with hlow
    · refine Python.spells_short ?_
      unfold Scalar at hlow
      omega
    · obtain ⟨hquote, hslash⟩ := shortEscape_none h
      refine Python.spells_self hquote hslash ?_
      unfold Scalar at hlow
      unfold Barred Python.lineFeed Python.carriageReturn
      omega

/-- A JSON string holds no control characters and no surrogates. -/
lemma quotePoint_plain {c : ℕ} (hc : c ≤ 0x10ffff) :
    ∀ d ∈ quotePoint c, 0x20 ≤ d ∧ Scalar d := by
  have hprintable : ∀ {d}, Printable d → 0x20 ≤ d ∧ Scalar d := fun h => ⟨h.1, h.scalar⟩
  unfold quotePoint
  cases h : shortEscape c with
  | some b =>
    refine List.forall_mem_cons.mpr ⟨by decide, List.forall_mem_singleton.mpr ?_⟩
    exact hprintable (shortEscape_some h).2
  | none =>
    dsimp only
    split_ifs with hlow
    · refine List.forall_mem_cons.mpr ⟨by decide, List.forall_mem_cons.mpr ⟨by decide, ?_⟩⟩
      exact fun d hd => hprintable (hexDigits_printable 4 c d hd)
    · rw [not_or, not_not] at hlow
      exact List.forall_mem_singleton.mpr ⟨by omega, hlow.2⟩

/-- What `escapeForExec` makes of a code point. -/
def execPiece (c : ℕ) : List ℕ :=
  if c = 0x5c then [0x5c, 0x5c]
  else if c = 0x22 then [0x5c, 0x22]
  else if c = 0x0d then []
  else if c = 0x0a then [0x5c, 0x6e]
  else escapePoint c

lemma execPiece_printable (c : ℕ) : ∀ d ∈ execPiece c, Printable d := by
  unfold execPiece escapePoint
  split_ifs with _ _ _ _ h
  · decide
  · decide
  · exact nofun
  · decide
  · exact List.forall_mem_singleton.mpr h
  · exact List.forall_mem_cons.mpr ⟨by decide, List.forall_mem_cons.mpr ⟨by decide,
      hexDigits_printable 4 c⟩⟩
  · exact List.forall_mem_cons.mpr ⟨by decide, List.forall_mem_cons.mpr ⟨by decide,
      hexDigits_printable 8 c⟩⟩

/-- Only a carriage return is lost. -/
theorem spells_execPiece {c : ℕ} (hc : c ≤ 0x10ffff) (hr : c ≠ 0x0d) : Spells (execPiece c) c := by
  unfold execPiece escapePoint
  split_ifs with hslash hquote hfeed hprint hshort
  · subst c
    exact Python.spells_letter (by decide)
  · subst c
    exact Python.spells_letter (by decide)
  · subst c
    exact Python.spells_letter (by decide)
  · refine Python.spells_self hquote hslash ?_
    unfold Barred Python.lineFeed Python.carriageReturn
    omega
  · exact Python.spells_short (by omega)
  · exact Python.spells_long hc

/-! ## Escaping the code units -/

lemma replaceAll_ofPoint {n : ℕ} (hn : n < 0xd800) (rep : List ℕ) {c : ℕ} (hc : c ≤ 0x10ffff) :
    replaceAll (UInt16.ofNat n) (fromPoints rep) (ofPoint c) =
      fromPoints (if c = n then rep else [c]) := by
  have hunit {m : ℕ} (hm : m < 0x10000) : UInt16.ofNat m = UInt16.ofNat n ↔ m = n := by
    rw [← UInt16.toNat_inj, toNat_ofNat_of_lt hm, toNat_ofNat_of_lt (by omega)]
  have hsame : fromPoints [c] = ofPoint c := List.append_nil _
  rw [replaceAll]
  by_cases h : c < 0x10000
  · have hpoint : ofPoint c = [UInt16.ofNat c] := if_pos h
    rw [hpoint, List.flatMap_singleton]
    by_cases he : c = n
    · rw [if_pos ((hunit h).mpr he), if_pos he]
    · rw [if_neg (mt (hunit h).mp he), if_neg he, hsame, hpoint]
  · have hpoint : ofPoint c = [UInt16.ofNat (0xd800 + (c - 0x10000) / 0x400),
        UInt16.ofNat (0xdc00 + (c - 0x10000) % 0x400)] := if_neg h
    rw [hpoint, List.flatMap_cons, List.flatMap_singleton, if_neg (mt (hunit (by omega)).mp (by omega)),
      if_neg (mt (hunit (by omega)).mp (by omega)), if_neg (by omega), hsame, hpoint]
    rfl

lemma replaceAll_fromPoints {n : ℕ} (hn : n < 0xd800) (rep : List ℕ) {cs : List ℕ}
    (hcs : ∀ c ∈ cs, Scalar c) :
    replaceAll (UInt16.ofNat n) (fromPoints rep) (fromPoints cs) =
      fromPoints (cs.flatMap fun c => if c = n then rep else [c]) := by
  induction cs with
  | nil => rfl
  | cons c cs ih =>
    obtain ⟨hc, hcs⟩ := List.forall_mem_cons.mp hcs
    rw [fromPoints_cons, replaceAll, List.flatMap_append, List.flatMap_cons, fromPoints_append,
      ← replaceAll_ofPoint hn rep hc.1, ← ih hcs]
    rfl

/-- `escapeForExec` works on each code point alone. -/
theorem escapeForExec_fromPoints {cs : List ℕ} (h : ∀ c ∈ cs, Scalar c) :
    escapeForExec (fromPoints cs) = fromPoints (cs.flatMap execPiece) := by
  -- what is put in place of a code point is no surrogate either
  have hkeep : ∀ (u : ℕ) (rep : List ℕ), (∀ d ∈ rep, Scalar d) → ∀ cs : List ℕ,
      (∀ c ∈ cs, Scalar c) → ∀ c ∈ cs.flatMap fun c => if c = u then rep else [c], Scalar c := by
    intro u rep hrep cs hcs d hd
    obtain ⟨c, hc, hd⟩ := List.mem_flatMap.mp hd
    split_ifs at hd
    · exact hrep d hd
    · exact List.mem_singleton.mp hd ▸ hcs c hc
  have h₁ := hkeep 0x5c [0x5c, 0x5c] (by decide) cs h
  have h₂ := hkeep 0x22 [0x5c, 0x22] (by decide) _ h₁
  have h₃ := hkeep 0x0d [] nofun _ h₂
  have h₄ := hkeep 0x0a [0x5c, 0x6e] (by decide) _ h₃
  have hall : ∀ c, (((((if c = 0x5c then [0x5c, 0x5c] else [c]).flatMap
      fun c => if c = 0x22 then [0x5c, 0x22] else [c]).flatMap
      fun c => if c = 0x0d then [] else [c]).flatMap
      fun c => if c = 0x0a then [0x5c, 0x6e] else [c]).flatMap escapePoint) = execPiece c := by
    intro c
    unfold execPiece
    by_cases hslash : c = 0x5c
    · subst c
      rfl
    by_cases hquote : c = 0x22
    · subst c
      rfl
    by_cases hreturn : c = 0x0d
    · subst c
      rfl
    by_cases hfeed : c = 0x0a
    · subst c
      rfl
    simp [hslash, hquote, hreturn, hfeed]
  rw [escapeForExec]
  change fromPoints ((codePoints (replaceAll (UInt16.ofNat 0x0a) (fromPoints [0x5c, 0x6e])
    (replaceAll (UInt16.ofNat 0x0d) (fromPoints []) (replaceAll (UInt16.ofNat 0x22)
      (fromPoints [0x5c, 0x22]) (replaceAll (UInt16.ofNat 0x5c) (fromPoints [0x5c, 0x5c])
        (fromPoints cs)))))).flatMap escapePoint) = _
  rw [replaceAll_fromPoints (by decide) _ h, replaceAll_fromPoints (by decide) _ h₁,
    replaceAll_fromPoints (by decide) _ h₂, replaceAll_fromPoints (by decide) _ h₃,
    codePoints_fromPoints (pointsOfText_of_scalar h₄), List.flatMap_assoc, List.flatMap_assoc,
    List.flatMap_assoc, List.flatMap_assoc]
  congr 1
  refine List.flatMap_congr fun c _ => ?_
  rw [← hall c]
  simp only [List.flatMap_assoc]

/-- The line is printable but for its end. -/
def lineBody (cs : List ℕ) : List ℕ := execOpen ++ (cs.flatMap execPiece ++ [Python.quote, 0x29])

lemma lineBody_printable (cs : List ℕ) : ∀ c ∈ lineBody cs, Printable c := by
  unfold lineBody
  simp only [List.forall_mem_append, List.mem_flatMap]
  exact ⟨by decide, fun d ⟨c, _, hd⟩ => execPiece_printable c d hd, by decide⟩

theorem execCommand_fromPoints {cs : List ℕ} (h : ∀ c ∈ cs, Scalar c) :
    execCommand (fromPoints cs) = fromPoints (lineBody cs) ++ units "\r\n" := by
  rw [execCommand, escapeForExec_fromPoints h, lineBody, fromPoints_append, fromPoints_append,
    List.append_assoc, List.append_assoc, List.append_assoc]
  rfl

theorem codePoints_execCommand {cs : List ℕ} (h : ∀ c ∈ cs, Scalar c) :
    codePoints (execCommand (fromPoints cs)) = execOpen ++ (cs.flatMap execPiece ++
      Python.quote :: execClose) := by
  have hline : lineBody cs ++ [0x0d, 0x0a] = execOpen ++ (cs.flatMap execPiece ++
      Python.quote :: execClose) := by
    rw [lineBody, List.append_assoc, List.append_assoc]
    rfl
  have hscalar : ∀ c ∈ lineBody cs ++ [0x0d, 0x0a], Scalar c :=
    List.forall_mem_append.mpr ⟨fun c hc => (lineBody_printable cs c hc).scalar, by decide⟩
  rw [execCommand_fromPoints h, ← hline, ← codePoints_fromPoints (pointsOfText_of_scalar hscalar),
    fromPoints_append]
  rfl

/-! ## One statement -/

/-- The code points of `statementFor`. -/
def statementPoints (name value : List ℕ) (first : Bool) : List ℕ :=
  name ++ ((if first then [0x3d] else [0x2b, 0x3d]) ++
    Python.quote :: (value.flatMap quotePoint ++ [Python.quote]))

theorem statementFor_points (name : Text) {value : List ℕ} (hvalue : PointsOfText value)
    (first : Bool) : statementFor name (fromPoints value) first =
      fromPoints (statementPoints (codePoints name) value first) := by
  rw [statementFor, stringify, codePoints_fromPoints hvalue, statementPoints, fromPoints_append,
    fromPoints_append, fromPoints_codePoints, List.append_assoc]
  cases first <;> rfl

/-- Units below the surrogates are code points. -/
lemma codePoints_units {t : Text} (h : ∀ u ∈ t, u.toNat < 0xd800) :
    codePoints t = t.map UInt16.toNat := by
  induction t with
  | nil => rfl
  | cons u t ih =>
    obtain ⟨hu, ht⟩ := List.forall_mem_cons.mp h
    rw [codePoints_single fun hhigh => by rw [isHigh_iff] at hhigh; omega, ih ht, List.map_cons]

lemma isIdentifier_printable {c : ℕ} (h : Python.isIdentifier c = true) : Printable c := by
  unfold Printable
  simp [Python.isIdentifier, Python.isDigit] at h
  omega

/-- What the proofs use of a private name. -/
structure Named (name : Text) : Prop where
  points : codePoints name = name.map UInt16.toNat
  identifier : ∀ c ∈ codePoints name, Python.isIdentifier c = true
  first : (codePoints name).head?.any (!Python.isDigit ·) = true

theorem named_of_private {name : Text} (h : isPrivateName name = true) : Named name := by
  rw [isPrivateName, Bool.and_eq_true, Bool.and_eq_true, List.all_eq_true] at h
  obtain ⟨⟨hstart, -⟩, hall⟩ := h
  have hpoints : codePoints name = name.map UInt16.toNat := codePoints_units fun u hu => by
    have := (isIdentifier_printable (hall u hu)).2
    omega
  refine ⟨hpoints, fun c hc => ?_, ?_⟩
  · rw [hpoints] at hc
    obtain ⟨u, hu, rfl⟩ := List.mem_map.mp hc
    exact hall u hu
  · obtain ⟨rest, rfl⟩ := List.isPrefixOf_iff_prefix.mp hstart
    rw [hpoints]
    rfl

section Statement

variable {name : Text} (hname : Named name) {value : List ℕ} (hvalue : PointsOfText value)
include hname hvalue

lemma statementPoints_plain (first : Bool) :
    ∀ c ∈ statementPoints (codePoints name) value first, 0x20 ≤ c ∧ Scalar c := by
  have hsign : ∀ c ∈ if first then [0x3d] else [0x2b, 0x3d], 0x20 ≤ c ∧ Scalar c := by
    cases first <;> decide
  have hquote : 0x20 ≤ Python.quote ∧ Scalar Python.quote := by decide
  unfold statementPoints
  simp only [List.forall_mem_append, List.forall_mem_cons, List.mem_flatMap]
  refine ⟨fun c hc => ?_, hsign, hquote, fun d hd => ?_, hquote, List.forall_mem_nil _⟩
  · have hprint := isIdentifier_printable (hname.identifier c hc)
    exact ⟨hprint.1, hprint.scalar⟩
  · obtain ⟨c, hc, hmem⟩ := hd
    exact quotePoint_plain (hvalue.le c hc) d hmem

/-- A line that holds a statement is printable, up to its end. -/
theorem statement_printable (first : Bool) :
    ∃ body, execCommand (statementFor name (fromPoints value) first) = body ++ units "\r\n" ∧
      ∀ u ∈ body, 0x20 ≤ u ∧ u ≤ 0x7e := by
  have hplain := fun c hc => (statementPoints_plain hname hvalue first c hc).2
  rw [statementFor_points name hvalue, execCommand_fromPoints hplain]
  refine ⟨_, rfl, fun u hu => ?_⟩
  obtain ⟨c, hc, hu⟩ := List.mem_flatMap.mp hu
  have hprint := lineBody_printable _ c hc
  unfold Printable at hprint
  rw [ofPoint, if_pos (by omega), List.mem_singleton] at hu
  rw [hu, UInt16.le_iff_toNat_le, UInt16.le_iff_toNat_le, toNat_ofNat_of_lt (by omega)]
  exact hprint

/-- Executing the line is the assignment. -/
theorem execLine_statement (env : Python.Env) (first : Bool) :
    Python.execLine env (codePoints (execCommand (statementFor name (fromPoints value) first))) =
      Python.assign env (statementPoints (codePoints name) value first) := by
  have hplain := statementPoints_plain hname hvalue first
  rw [statementFor_points name hvalue, codePoints_execCommand fun c hc => (hplain c hc).2]
  refine Python.execLine_flatMap fun c hc => ?_
  have h := hplain c hc
  exact spells_execPiece h.2.1 (by omega)

theorem assign_first (env : Python.Env) :
    Python.assign env (statementPoints (codePoints name) value true) =
      some (Function.update env (codePoints name) (some value)) :=
  Python.assign_eq hname.identifier hname.first fun c hc => spells_quotePoint (hvalue.le c hc)

theorem assign_next {env : Python.Env} {old : List ℕ} (hold : env (codePoints name) = some old) :
    Python.assign env (statementPoints (codePoints name) value false) =
      some (Function.update env (codePoints name) (some (old ++ value))) :=
  Python.assign_add hname.identifier hname.first (fun c hc => spells_quotePoint (hvalue.le c hc))
    hold

end Statement

/-! ## Cutting the source -/

/-- Statements that are within the limit, with the code points that they carry. -/
inductive Carry (limit : ℕ) (name : Text) : List ℕ → List Text → Prop
  | none : Carry limit name [] []
  | push {done last : List ℕ} {statements : List Text} : Carry limit name done statements →
      execInputBytes (statementFor name (fromPoints last) statements.isEmpty) ≤ limit →
      Carry limit name (done ++ last)
        (statements ++ [statementFor name (fromPoints last) statements.isEmpty])

/-- After the code points `seen`: some are in statements, the others in a chunk that fits. -/
structure Cut (limit : ℕ) (name : Text) (seen : List ℕ) (s : Cutting) : Prop where
  parts : ∃ done last, seen = done ++ last ∧ s.chunk = fromPoints last ∧
    Carry limit name done s.statements
  empty : s.chunk = [] → seen = [] ∧ s.statements = []
  fits : s.chunk ≠ [] → execInputBytes (statementFor name s.chunk s.statements.isEmpty) ≤ limit

section Cutting

variable {limit : ℕ} {name : Text} {seen : List ℕ} {s s' : Cutting}

theorem Cut.addCharacter {c : ℕ} (h : Cut limit name seen s)
    (hstep : addCharacter limit name s (ofPoint c) = .ok s') : Cut limit name (seen ++ [c]) s' := by
  obtain ⟨done, last, rfl, hchunk, hcarry⟩ := h.parts
  have hgrown : s.chunk ++ ofPoint c = fromPoints (last ++ [c]) := by
    rw [hchunk, fromPoints_append, fromPoints_cons, fromPoints_nil, List.append_nil]
  unfold InlineSource.addCharacter at hstep
  dsimp only at hstep
  split_ifs at hstep with hfits hempty hnext
  · -- the chunk grows
    obtain rfl := Except.ok.inj hstep
    refine ⟨⟨done, last ++ [c], List.append_assoc _ _ _, hgrown, hcarry⟩, fun hnil => ?_,
      fun _ => hfits⟩
    exact absurd hnil (List.append_ne_nil_of_right_ne_nil _ (ofPoint_ne_nil c))
  · -- the chunk is complete, and the character begins the next one
    obtain rfl := Except.ok.inj hstep
    have hpush := hcarry.push (hchunk ▸ h.fits hempty)
    rw [← hchunk] at hpush
    refine ⟨⟨done ++ last, [c], rfl, (List.append_nil _).symm, hpush⟩,
      fun hnil => absurd hnil (ofPoint_ne_nil c), fun _ => ?_⟩
    have hlater : (s.statements ++ [statementFor name s.chunk s.statements.isEmpty]).isEmpty =
        false := by simp
    exact hlater ▸ hnext

theorem Cut.run {cs : List ℕ} (h : Cut limit name seen s)
    (hrun : (cs.map ofPoint).foldlM (InlineSource.addCharacter limit name) s = .ok s') :
    Cut limit name (seen ++ cs) s' := by
  induction cs generalizing seen s with
  | nil =>
    obtain rfl := Except.ok.inj hrun
    rwa [List.append_nil]
  | cons c cs ih =>
    rw [List.map_cons, List.foldlM_cons] at hrun
    cases hstep : InlineSource.addCharacter limit name s (ofPoint c) with
    | error e =>
      rw [hstep] at hrun
      cases hrun
    | ok next =>
      rw [hstep] at hrun
      rw [List.append_cons]
      exact ih (h.addCharacter hstep) hrun

/-- Only the statement of an empty source is not measured. -/
theorem Cut.finish (h : Cut limit name seen s)
    (hfits : seen = [] → execInputBytes (statementFor name [] true) ≤ limit) :
    Carry limit name seen (InlineSource.finish name s) ∧ InlineSource.finish name s ≠ [] := by
  obtain ⟨done, last, rfl, hchunk, hcarry⟩ := h.parts
  by_cases hc : s.chunk = []
  · obtain ⟨hseen, hnone⟩ := h.empty hc
    obtain rfl := (List.append_eq_nil_iff.mp hseen).1
    have hlast : execInputBytes (statementFor name (fromPoints last) s.statements.isEmpty) ≤
        limit := by
      rw [← hchunk, hc, hnone]
      exact hfits hseen
    rw [InlineSource.finish, if_pos (Or.inr hnone), hchunk]
    exact ⟨hcarry.push hlast, List.concat_ne_nil _ _⟩
  · rw [InlineSource.finish, if_pos (Or.inl hc), hchunk]
    exact ⟨hcarry.push (hchunk ▸ h.fits hc), List.concat_ne_nil _ _⟩

/-- What is returned carries the source, unless the source is empty and its statement too long. -/
theorem carry_create {source : Text} {statements : List Text}
    (hcreate : createInlineSourceAssignments limit source name = .ok statements)
    (hfits : source = [] → execInputBytes (statementFor name [] true) ≤ limit) :
    Carry limit name (codePoints source) statements ∧ statements ≠ [] := by
  rw [createInlineSourceAssignments] at hcreate
  split_ifs at hcreate
  rw [characters_eq] at hcreate
  cases hrun : ((codePoints source).map ofPoint).foldlM (addCharacter limit name) {} with
  | error e =>
    rw [hrun] at hcreate
    cases hcreate
  | ok s =>
    rw [hrun] at hcreate
    obtain rfl := Except.ok.inj hcreate
    have hstart : Cut limit name [] {} :=
      ⟨⟨[], [], rfl, rfl, .none⟩, fun _ => ⟨rfl, rfl⟩, fun hne => absurd rfl hne⟩
    refine (hstart.run hrun).finish fun hnil => hfits ?_
    rw [List.nil_append] at hnil
    rw [← fromPoints_codePoints source, hnil, fromPoints_nil]

end Cutting

/-! ## Executing the statements -/

section Executing

variable {limit : ℕ} {name : Text} {done : List ℕ} {statements : List Text}

theorem Carry.printable (h : Carry limit name done statements) (hname : Named name)
    (hdone : PointsOfText done) : ∀ s ∈ statements, ∃ body, execCommand s = body ++ units "\r\n" ∧
      ∀ u ∈ body, 0x20 ≤ u ∧ u ≤ 0x7e := by
  induction h with
  | none => exact nofun
  | push hcarry hfits ih =>
    exact List.forall_mem_append.mpr ⟨ih hdone.append_left,
      List.forall_mem_singleton.mpr (statement_printable hname hdone.append_right _)⟩

theorem Carry.fits (h : Carry limit name done statements) :
    ∀ s ∈ statements, execInputBytes s ≤ limit := by
  induction h with
  | none => exact nofun
  | push hcarry hfits ih =>
    exact List.forall_mem_append.mpr ⟨ih, List.forall_mem_singleton.mpr hfits⟩

lemma Carry.nil (h : Carry limit name done statements) (hnone : statements = []) : done = [] := by
  cases h with
  | none => rfl
  | push hcarry hfits => exact absurd hnone (List.concat_ne_nil _ _)

/-- The lines run through and leave the code points in the variable. -/
theorem Carry.value (h : Carry limit name done statements) (hname : Named name)
    (hdone : PointsOfText done) (hne : statements ≠ []) (env : Python.Env) :
    ∃ env', (statements.map fun s => codePoints (execCommand s)).foldlM Python.execLine env =
      some env' ∧ env' (codePoints name) = some done := by
  induction h with
  | none => exact absurd rfl hne
  | @push done last statements hcarry hfits ih =>
    have hexec := execLine_statement hname hdone.append_right
    rw [List.map_append, List.map_singleton]
    by_cases hnone : statements = []
    · obtain rfl := hcarry.nil hnone
      subst hnone
      exact ⟨_, Python.execLines_snoc rfl
        ((hexec env true).trans (assign_first hname hdone.append_right env)),
        Function.update_self _ _ _⟩
    · obtain ⟨old, hrun, hold⟩ := ih hdone.append_left hnone
      have hlater : statements.isEmpty = false := by simpa using hnone
      rw [hlater]
      exact ⟨_, Python.execLines_snoc hrun
        ((hexec old false).trans (assign_next hname hdone.append_right hold)),
        Function.update_self _ _ _⟩

theorem Carry.exact {source : Text} (h : Carry limit name (codePoints source) statements)
    (hname : Named name) (hne : statements ≠ []) : Exact limit source name statements where
  printable := h.printable hname (pointsOfText_codePoints source)
  fits := h.fits
  value := h.value hname (pointsOfText_codePoints source) hne

end Executing

/-! ## The empty source -/

lemma execPiece_identifier {c : ℕ} (h : Python.isIdentifier c = true) : execPiece c = [c] := by
  have hprint := isIdentifier_printable h
  have hslash : c ≠ 0x5c := by
    rintro rfl
    cases h
  have hquote : c ≠ 0x22 := by
    rintro rfl
    cases h
  unfold Printable at hprint
  rw [execPiece, if_neg hslash, if_neg hquote, if_neg (by omega), if_neg (by omega), escapePoint,
    if_pos hprint]

/-- An ASCII text has a byte for each code point. -/
lemma encodeText_ascii {t : Text} (h : ∀ c ∈ codePoints t, c < 0x80) :
    (encodeText t).length = (codePoints t).length := by
  have hone : ∀ c ∈ codePoints t, (if Scalar c then utf8 c else utf8 0xfffd).length = 1 := by
    intro c hc
    have := h c hc
    rw [if_pos (by unfold Scalar; omega), utf8, if_pos this, List.length_singleton]
  rw [encodeText, List.length_flatMap, List.map_congr_left hone, List.map_const', List.sum_replicate,
    smul_eq_mul, Nat.mul_one]

/-- The line that assigns the empty text: the name and 15 bytes. -/
theorem execInputBytes_empty {name : Text} (hname : Named name) :
    execInputBytes (statementFor name [] true) = name.length + 15 := by
  have hnil : PointsOfText [] := ⟨nofun, .nil⟩
  have hescaped : (statementPoints (codePoints name) [] true).flatMap execPiece =
      codePoints name ++ [0x3d, 0x5c, 0x22, 0x5c, 0x22] := by
    rw [statementPoints, List.flatMap_append,
      List.flatMap_congr fun c hc => execPiece_identifier (hname.identifier c hc),
      List.flatMap_singleton']
    rfl
  have hline : codePoints (execCommand (statementFor name (fromPoints []) true)) =
      execOpen ++ (codePoints name ++ [0x3d, 0x5c, 0x22, 0x5c, 0x22] ++
        Python.quote :: execClose) := by
    rw [statementFor_points name hnil, codePoints_execCommand
      fun c hc => (statementPoints_plain hname hnil true c hc).2, hescaped]
  have hascii : ∀ c ∈ codePoints (execCommand (statementFor name (fromPoints []) true)),
      c < 0x80 := by
    rw [hline]
    simp only [List.forall_mem_append]
    refine ⟨by decide, ⟨fun c hc => ?_, by decide⟩, by decide⟩
    have := (isIdentifier_printable (hname.identifier c hc)).2
    omega
  have hlength := encodeText_ascii hascii
  rw [hline, hname.points] at hlength
  rw [execInputBytes, ← fromPoints_nil, hlength]
  simp only [List.length_append, List.length_map]
  change 6 + (name.length + 5 + 4) = name.length + 15
  omega

theorem create_empty (limit : ℕ) {name : Text} (hname : isPrivateName name = true) :
    createInlineSourceAssignments limit [] name = .ok [statementFor name [] true] := by
  rw [createInlineSourceAssignments, if_pos hname]
  rfl

/-- Each statement is a line within the limit and the lines assign the source, except that the
statement of an empty source is returned however long the name makes it. -/
theorem inline_source_exact (limit : ℕ) (source name : Text) (hname : isPrivateName name = true) :
    (∀ statements, createInlineSourceAssignments limit source name = .ok statements →
      Exact limit source name statements) ↔ (source = [] → name.length + 15 ≤ limit) := by
  have hn := named_of_private hname
  rw [← execInputBytes_empty hn]
  constructor
  · rintro hall rfl
    exact (hall _ (create_empty limit hname)).fits _ (List.mem_singleton_self _)
  · intro hfits statements hcreate
    obtain ⟨hcarry, hne⟩ := carry_create hcreate hfits
    exact hcarry.exact hn hne

theorem inline_source_exact_pair : isPrivateName (units "__src") = true ∧
    ((∀ statements,
      createInlineSourceAssignments 511 [0xd83d, 0xde00, 0x0d, 0x5c] (units "__src") =
        .ok statements → Exact 511 [0xd83d, 0xde00, 0x0d, 0x5c] (units "__src") statements) ↔
      (([0xd83d, 0xde00, 0x0d, 0x5c] : Text) = [] → (units "__src").length + 15 ≤ 511)) :=
  ⟨by decide, inline_source_exact 511 [0xd83d, 0xde00, 0x0d, 0x5c] (units "__src") (by decide)⟩

/-- A name of 497 letters. -/
def longName : Text := units "__" ++ List.replicate 495 0x61

theorem longName_private : isPrivateName longName = true := by
  have hunderscore : (units "__").all isNameUnit = true := by decide
  have hletter : ∀ u ∈ longName, isNameUnit u = true := by
    intro u hu
    rcases List.mem_append.mp hu with hu | hu
    · exact List.all_eq_true.mp hunderscore u hu
    · rw [List.eq_of_mem_replicate hu]
      decide
  have hstart : (units "__").isPrefixOf longName = true :=
    List.isPrefixOf_iff_prefix.mpr (List.prefix_append _ _)
  have hlength : longName.length = 497 := by
    rw [longName, List.length_append, List.length_replicate]
    rfl
  rw [isPrivateName, hstart, hlength, List.all_eq_true.mpr hletter]
  rfl

theorem longName_statement_too_long : isPrivateName longName = true ∧
    createInlineSourceAssignments 511 [] longName = .ok [statementFor longName [] true] ∧
    ¬Exact 511 [] longName [statementFor longName [] true] := by
  refine ⟨longName_private, create_empty 511 longName_private, fun h => ?_⟩
  have hfits := h.fits _ (List.mem_singleton_self _)
  change execInputBytes (statementFor longName [] true) ≤ 511 at hfits
  rw [execInputBytes_empty (named_of_private longName_private), longName, List.length_append,
    List.length_replicate] at hfits
  exact absurd hfits (by decide)

end EspVision.InlineSource
