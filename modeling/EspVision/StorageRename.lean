import EspVision.StorageHandles

/-!
# What a rename leaves behind

FAT refuses to rename onto a file, so `esp_vision_storage_vfs_rename` removes the destination and
renames again. The calls of a rename are replayed on the files that they act on; both files survive
a failure unless the destination was removed and the second rename failed.
-/
namespace EspVision.StorageVfs
open Dialogue EventLog
open FileSystem (Errno Files Node)
open EvFileTransfer (Volume flashPath)

/-! ## The files -/

/-- What the calls so far made of the files. -/
structure Effect (α : Type) where
  files : Files α
  /-- A file was removed. -/
  removed : Bool := false
  renamed : Bool := false
  /-- Whether the last rename or removal succeeded. -/
  last : Option Bool := none

section Files

variable {α : Type} [DecidableEq α] (locate : Bytes → α)

/-- One call more; `locate` gives the entry of the medium that a path names. -/
def Effect.step (s : Effect α) : Event Call.Value Raised → Effect α
  | ⟨.rename old new, .ok (.ok ())⟩ =>
    { s with
      files := match FileSystem.rename s.files (locate old) (locate new) none with
        | .ok files => files
        | .error _ => s.files
      renamed := true
      last := some true }
  | ⟨.unlink p, .ok (.ok ())⟩ =>
    { s with
      files := FileSystem.unlink s.files (locate p) true
      removed := true
      last := some true }
  | ⟨.rename _ _, .ok (.error _)⟩ => { s with last := some false }
  | ⟨.unlink _, .ok (.error _)⟩ => { s with last := some false }
  | _ => s

def effect (fs : Files α) (calls : Log) : Effect α := calls.foldl (Effect.step locate) { files := fs }

/-- The answer is true of the files; only a free name, or another name of the file itself, is
accepted as the new one. -/
def TrueOf (fs : Files α) : Event Call.Value Raised → Prop
  | ⟨.rename old new, .ok (.ok ())⟩ =>
    (fs (locate old)).isSome ∧ (locate new = locate old ∨ fs (locate new) = none)
  | ⟨.unlink p, .ok (.ok ())⟩ => (fs (locate p)).isSome
  | ⟨.stat p, .ok (.ok .regular)⟩ => ∃ bytes, fs (locate p) = some (.file bytes)
  | ⟨.stat p, .ok (.ok _)⟩ => fs (locate p) = some .other
  | _ => True

/-- Every answer is true of the files that the calls in front of it left. -/
def Truthful (fs : Files α) (calls : Log) : Prop :=
  Justified (fun before e => TrueOf locate (effect locate fs before).files e) calls

/-- An admission could not be given back. -/
def unfinished (calls : Log) : Bool :=
  calls.any fun
    | ⟨.finish _, .ok finished⟩ => !finished
    | _ => false

variable (fs : Files α) (a b : α) (calls : Log)

/-- A rename that ended: a failed operation leaves both files, a return has moved the source, a
directory stays, and the admissions are ended once. -/
structure Atomic (result : Except Raised (Option Unit)) : Prop where
  failed : (∃ e, result = .error e) → (effect locate fs calls).last = some false →
    (effect locate fs calls).files a = fs a ∧ (effect locate fs calls).files b = fs b
  moved : result = .ok (some ()) →
    (effect locate fs calls).files b = fs a ∧ (effect locate fs calls).files a = none
  directory : fs b = some .other → (effect locate fs calls).files b = some .other
  paired : ∀ v, Paired (begins v) (ends v) calls

/-- The destination was not removed in front of a rename that failed, and the two paths are not
those of one file that was renamed. -/
structure Spared : Prop where
  kept : ¬ ((effect locate fs calls).removed = true ∧ (effect locate fs calls).last = some false)
  distinct : ¬ (a = b ∧ (effect locate fs calls).renamed = true ∧ unfinished calls = false)

end Files

/-- The full path; empty where the path is refused. -/
def fullPath (fresh : Fresh) (v : Vfs) (path : Bytes) : Bytes :=
  match makePathRaw v path (fresh (allocPathMax + 1)) (fresh fullPathMax) with
  | .ok paths => cstr paths.full
  | .error _ => []

/-! ## Courses -/

section Courses

variable {α : Type} [DecidableEq α] {locate : Bytes → α} {fs : Files α}

lemma effect_snoc (calls : Log) (e : Event Call.Value Raised) :
    effect locate fs (calls ++ [e]) = (effect locate fs calls).step locate e := by
  rw [effect, List.foldl_append]
  rfl

/-- The calls behind `before` are in `phi`, if their answers are true. -/
def Since (locate : Bytes → α) (fs : Files α) (before : Log) (phi : Log → Prop)
    (w : World Machine Call.Value Raised) : Prop :=
  ∃ calls, w.log = before ++ calls ∧ (Returned calls → Truthful locate fs calls → phi calls)

variable {before : Log} {phi psi : Log → Prop}

lemma since_mono (h : ∀ calls, phi calls → psi calls) {w : World Machine Call.Value Raised}
    (hw : Since locate fs before phi w) : Since locate fs before psi w := by
  obtain ⟨calls, hlog, hphi⟩ := hw
  exact ⟨calls, hlog, fun hr ht => h calls (hphi hr ht)⟩

/-- A call that raises nothing. -/
theorem since_ask (c : Call) (hc : ¬ c.MayRaise) {T : c.Value → Log → Prop}
    {X : World Machine Call.Value Raised → Prop}
    (h : ∀ answer calls, phi calls →
      TrueOf locate (effect locate fs calls).files ⟨c, .ok answer⟩ → T answer (calls ++ [⟨c, .ok answer⟩]))
    (hX : ∀ (e : Raised) (w : World Machine Call.Value Raised), Since locate fs before (fun _ => False)
        { w with log := w.log ++ [⟨c, .error e⟩] } → X { w with log := w.log ++ [⟨c, .error e⟩] }) :
    Triple (Since locate fs before phi) (ask c) (fun answer => Since locate fs before (T answer))
      X := by
  refine .call (fun answer w hw => ?_) fun e w hw => hX e w ?_
  · obtain ⟨calls, hlog, hphi⟩ := hw
    refine ⟨calls ++ [⟨c, .ok answer⟩], ?_, fun hr ht => ?_⟩
    · rw [← List.append_assoc, ← hlog]
    · exact h answer calls (hphi hr.of_snoc ht.of_append) ht.last
  · obtain ⟨calls, hlog, hphi⟩ := hw
    refine ⟨calls ++ [⟨c, .error e⟩], ?_, fun hr _ => ?_⟩
    · rw [← List.append_assoc, ← hlog]
    · exact hc (hr ⟨c, .error e⟩ (by simp) ⟨e, rfl⟩)

/-- The source under the new name. -/
def movedFiles (fs : Files α) (a b : α) : Files α :=
  Function.update (Function.update fs a none) b (fs a)

/-- Nothing was done. -/
def Untouched (locate : Bytes → α) (fs : Files α) (last : Option Bool) (calls : Log) : Prop :=
  effect locate fs calls = { files := fs, last := last } ∧ unfinished calls = false

/-- The destination was a file, and was removed. -/
def Removed (locate : Bytes → α) (fs : Files α) (b : α) (last : Option Bool) (calls : Log) : Prop :=
  (∃ bytes, fs b = some (.file bytes)) ∧
    effect locate fs calls =
      { files := Function.update fs b none, removed := true, last := last } ∧
    unfinished calls = false

/-- The source was moved to a free name or to its own. -/
def Moved (locate : Bytes → α) (fs : Files α) (a b : α) (calls : Log) : Prop :=
  ((fs a).isSome ∧ (b = a ∨ fs b = none)) ∧
    effect locate fs calls =
      { files := movedFiles fs a b, renamed := true, last := some true } ∧
    unfinished calls = false

/-- The source was moved behind the removal of another file. -/
def Replaced (locate : Bytes → α) (fs : Files α) (a b : α) (calls : Log) : Prop :=
  (a ≠ b ∧ ∃ bytes, fs b = some (.file bytes)) ∧
    effect locate fs calls =
      { files := movedFiles fs a b, removed := true, renamed := true, last := some true } ∧
    unfinished calls = false

lemma unfinished_snoc (calls : Log) (e : Event Call.Value Raised) :
    unfinished (calls ++ [e]) = (unfinished calls || unfinished [e]) := by
  simp [unfinished]

/-- Nothing comes of a call that raised although it cannot. -/
lemma since_never {w : World Machine Call.Value Raised}
    (hw : Since locate fs before (fun _ => False) w) : Since locate fs before psi w :=
  since_mono (fun _ => False.elim) hw

variable {old new : Bytes} {X : World Machine Call.Value Raised → Prop}

/-- A rename of the untouched files. -/
lemma first_rename (hX : ∀ w, Since locate fs before (fun _ => False) w → X w) (fuel : ℕ) :
    Triple (Since locate fs before fun calls => ∃ o, Untouched locate fs o calls)
      (retry fuel (ask (.rename old new))) (fun
        | none => Since locate fs before fun calls => ∃ o, Untouched locate fs o calls
        | some (.ok ()) => Since locate fs before (Moved locate fs (locate old) (locate new))
        | some (.error _) => Since locate fs before (Untouched locate fs (some false))) X := by
  have hstep : Triple (Since locate fs before fun calls => ∃ o, Untouched locate fs o calls)
      (ask (.rename old new)) (fun r => Since locate fs before (match r with
        | .ok () => Moved locate fs (locate old) (locate new)
        | .error _ => Untouched locate fs (some false))) X := by
    refine since_ask (.rename old new) not_false (fun r calls hphi htrue => ?_) fun e w hw => hX _ hw
    obtain ⟨o, heffect, hclean⟩ := hphi
    rw [heffect] at htrue
    have hcleaned : unfinished (calls ++ [⟨.rename old new, .ok r⟩]) = false := by
      rw [unfinished_snoc, hclean]
      rfl
    rcases r with e | ⟨⟩
    · refine ⟨?_, hcleaned⟩
      rw [effect_snoc, heffect]
      rfl
    · refine ⟨htrue, ?_, hcleaned⟩
      obtain ⟨node, hnode⟩ : ∃ node, fs (locate old) = some node :=
        Option.isSome_iff_exists.mp htrue.1
      rw [effect_snoc, heffect]
      simp only [Effect.step, FileSystem.rename, movedFiles, hnode]
  refine (triple_retry hstep (fun w hw => since_mono (fun calls h => ⟨_, h⟩) hw) fuel).post ?_
  rintro (- | e | ⟨⟩) w hw <;> exact hw

/-- A rename behind the removal of the destination. -/
lemma second_rename (hX : ∀ w, Since locate fs before (fun _ => False) w → X w) (fuel : ℕ) :
    Triple (Since locate fs before fun calls => ∃ o, Removed locate fs (locate new) o calls)
      (retry fuel (ask (.rename old new))) (fun
        | none => Since locate fs before fun calls => ∃ o, Removed locate fs (locate new) o calls
        | some (.ok ()) => Since locate fs before (Replaced locate fs (locate old) (locate new))
        | some (.error _) => Since locate fs before
          (Removed locate fs (locate new) (some false))) X := by
  have hstep : Triple (Since locate fs before fun calls => ∃ o, Removed locate fs (locate new) o calls)
      (ask (.rename old new)) (fun r => Since locate fs before (match r with
        | .ok () => Replaced locate fs (locate old) (locate new)
        | .error _ => Removed locate fs (locate new) (some false))) X := by
    refine since_ask (.rename old new) not_false (fun r calls hphi htrue => ?_) fun e w hw => hX _ hw
    obtain ⟨o, hfile, heffect, hclean⟩ := hphi
    rw [heffect] at htrue
    have hcleaned : unfinished (calls ++ [⟨.rename old new, .ok r⟩]) = false := by
      rw [unfinished_snoc, hclean]
      rfl
    rcases r with e | ⟨⟩
    · refine ⟨hfile, ?_, hcleaned⟩
      rw [effect_snoc, heffect]
      rfl
    · obtain ⟨node, hnode⟩ := Option.isSome_iff_exists.mp htrue.1
      have hne : locate old ≠ locate new := by
        intro heq
        rw [heq] at hnode
        simp at hnode
      dsimp only at hnode
      rw [Function.update_of_ne hne] at hnode
      refine ⟨⟨hne, hfile⟩, ?_, hcleaned⟩
      rw [effect_snoc, heffect]
      simp only [Effect.step, FileSystem.rename, movedFiles, Function.update_of_ne hne, hnode]
      rw [Function.update_comm hne.symm, Function.update_idem]
  refine (triple_retry hstep (fun w hw => since_mono (fun calls h => ⟨_, h⟩) hw) fuel).post ?_
  rintro (- | e | ⟨⟩) w hw <;> exact hw

/-- The removal of a destination that is a file. -/
lemma removal (hX : ∀ w, Since locate fs before (fun _ => False) w → X w) (fuel : ℕ) :
    Triple (Since locate fs before fun calls =>
        (∃ bytes, fs (locate new) = some (.file bytes)) ∧ Untouched locate fs (some false) calls)
      (retry fuel (ask (.unlink new))) (fun
        | none => Since locate fs before (Untouched locate fs (some false))
        | some (.ok ()) => Since locate fs before fun calls =>
          ∃ o, Removed locate fs (locate new) o calls
        | some (.error _) => Since locate fs before (Untouched locate fs (some false))) X := by
  have hstep : Triple (Since locate fs before fun calls =>
        (∃ bytes, fs (locate new) = some (.file bytes)) ∧ Untouched locate fs (some false) calls)
      (ask (.unlink new)) (fun r => Since locate fs before (match r with
        | .ok () => fun calls => ∃ o, Removed locate fs (locate new) o calls
        | .error _ => fun calls => (∃ bytes, fs (locate new) = some (.file bytes)) ∧
          Untouched locate fs (some false) calls)) X := by
    refine since_ask (.unlink new) not_false (fun r calls hphi _ => ?_) fun e w hw => hX _ hw
    obtain ⟨hfile, heffect, hclean⟩ := hphi
    have hcleaned : unfinished (calls ++ [⟨.unlink new, .ok r⟩]) = false := by
      rw [unfinished_snoc, hclean]
      rfl
    rcases r with e | ⟨⟩
    · refine ⟨hfile, ?_, hcleaned⟩
      rw [effect_snoc, heffect]
      rfl
    · refine ⟨some true, hfile, ?_, hcleaned⟩
      rw [effect_snoc, heffect]
      rfl
  refine (triple_retry hstep (fun w hw => hw) fuel).post ?_
  rintro (- | e | ⟨⟩) w hw
  · exact since_mono (fun _ h => h.2) hw
  · exact since_mono (fun _ h => h.2) hw
  · exact hw

/-- What the system calls of a rename come to. -/
def Outcome (locate : Bytes → α) (fs : Files α) (a b : α) :
    Option (Except Errno Unit) → Log → Prop
  | none => fun _ => True
  | some (.ok ()) => fun calls => Moved locate fs a b calls ∨ Replaced locate fs a b calls
  | some (.error _) => fun calls =>
    Untouched locate fs (some false) calls ∨ Removed locate fs b (some false) calls

lemma courses_renameFiles (hX : ∀ w, Since locate fs before (fun _ => False) w → X w) (fuel : ℕ) :
    Triple (Since locate fs before (Untouched locate fs none)) (renameFiles fuel old new)
      (fun r => Since locate fs before (Outcome locate fs (locate old) (locate new) r)) X := by
  refine .bind ((first_rename hX fuel).pre fun w hw => since_mono (fun _ h => ⟨_, h⟩) hw)
    fun result => ?_
  rcases result with - | e | ⟨⟩
  · exact .pure fun w hw => since_mono (fun _ _ => trivial) hw
  · dsimp only
    by_cases hexists : (Except.error e : Except Errno Unit) = .error .exists ∧ old ≠ new
    swap
    · rw [if_neg hexists]
      exact .pure fun w hw => since_mono (fun _ h => .inl h) hw
    rw [if_pos hexists]
    have hstat : Triple (Since locate fs before (Untouched locate fs (some false)))
        (ask (.stat new)) (fun r => Since locate fs before fun calls =>
          (r = .ok .regular → ∃ bytes, fs (locate new) = some (.file bytes)) ∧
            Untouched locate fs (some false) calls) X := by
      refine since_ask (.stat new) not_false (fun r calls hphi htrue => ?_) fun e w hw => hX _ hw
      obtain ⟨heffect, hclean⟩ := hphi
      rw [heffect] at htrue
      refine ⟨fun hr => ?_, ?_, ?_⟩
      · subst hr
        exact htrue
      · rw [effect_snoc, heffect]
        rfl
      · rw [unfinished_snoc, hclean]
        rfl
    have hstays : ∀ r : Except Errno Kind, Triple (Since locate fs before fun calls =>
          (r = .ok .regular → ∃ bytes, fs (locate new) = some (.file bytes)) ∧
            Untouched locate fs (some false) calls) (pure (some (.error e)))
        (fun r => Since locate fs before (Outcome locate fs (locate old) (locate new) r)) X :=
      fun r => .pure fun w hw => since_mono (fun _ h => .inl h.2) hw
    refine .bind hstat fun kind => ?_
    rcases kind with e | kind
    · exact hstays _
    · cases kind with
      | directory => exact hstays _
      | other => exact hstays _
      | regular =>
        refine .bind ((removal hX fuel).pre fun w hw =>
          since_mono (fun _ h => ⟨h.1 rfl, h.2⟩) hw) fun unlinked => ?_
        rcases unlinked with - | e | ⟨⟩
        · exact .pure fun w hw => since_mono (fun _ _ => trivial) hw
        · exact .pure fun w hw => since_mono (fun _ h => .inl h) hw
        · refine (second_rename hX fuel).post ?_
          rintro (- | e | ⟨⟩) w hw
          · exact since_mono (fun _ _ => trivial) hw
          · exact since_mono (fun _ h => .inr h) hw
          · exact since_mono (fun _ h => .inr h) hw
  · dsimp only
    rw [if_neg (by rintro ⟨h, -⟩; cases h)]
    exact .pure fun w hw => since_mono (fun _ h => .inl h) hw

/-- The effect of the calls of a rename that raised: nothing was done, or the last operation
failed, or an admission could not be given back. -/
def Quit (locate : Bytes → α) (fs : Files α) (a b : α) (calls : Log) : Prop :=
  (∃ o, o ≠ some true ∧ effect locate fs calls = { files := fs, last := o }) ∨
  ((∃ bytes, fs b = some (.file bytes)) ∧ effect locate fs calls =
    { files := Function.update fs b none, removed := true, last := some false }) ∨
  ((b = a ∨ ∀ node, fs b = some node → node ≠ .other) ∧
    (effect locate fs calls).files = movedFiles fs a b ∧
    (effect locate fs calls).last = some true ∧ unfinished calls = true)

variable {a b : α}

lemma Quit.finish {calls : Log} (h : Quit locate fs a b calls) (v : Volume) (finished : Bool) :
    Quit locate fs a b (calls ++ [⟨.finish v, .ok finished⟩]) := by
  have hsame : effect locate fs (calls ++ [⟨.finish v, .ok finished⟩]) = effect locate fs calls :=
    effect_snoc _ _
  unfold Quit
  rw [hsame, unfinished_snoc]
  rcases h with h | h | ⟨hb, hfiles, hlast, hun⟩
  · exact .inl h
  · exact .inr (.inl h)
  · exact .inr (.inr ⟨hb, hfiles, hlast, by rw [hun, Bool.true_or]⟩)

lemma Untouched.quit {calls : Log} {o : Option Bool} (h : Untouched locate fs o calls)
    (ho : o ≠ some true) : Quit locate fs a b calls := .inl ⟨o, ho, h.1⟩

/-- What the admission makes of the outcome when it is given back. -/
lemma Outcome.finish {calls : Log} {result : Except Errno Unit}
    (h : Outcome locate fs a b (some result) calls) (v : Volume) (finished : Bool) :
    (finished = true → Outcome locate fs a b (some result) (calls ++ [⟨.finish v, .ok finished⟩])) ∧
    (finished = false → Quit locate fs a b (calls ++ [⟨.finish v, .ok finished⟩])) := by
  have hsame : effect locate fs (calls ++ [⟨.finish v, .ok finished⟩]) = effect locate fs calls :=
    effect_snoc _ _
  have hun : unfinished (calls ++ [⟨.finish v, .ok finished⟩]) = (unfinished calls || !finished) := by
    rw [unfinished_snoc]
    simp [unfinished]
  rcases result with e | ⟨⟩
  · rcases h with ⟨heffect, hclean⟩ | ⟨hfile, heffect, hclean⟩
    · refine ⟨fun hf => .inl ⟨hsame.trans heffect, ?_⟩, fun _ =>
        .inl ⟨some false, nofun, hsame.trans heffect⟩⟩
      rw [hun, hclean, hf]
      rfl
    · refine ⟨fun hf => .inr ⟨hfile, hsame.trans heffect, ?_⟩, fun _ =>
        .inr (.inl ⟨hfile, hsame.trans heffect⟩)⟩
      rw [hun, hclean, hf]
      rfl
  · rcases h with ⟨hfree, heffect, hclean⟩ | ⟨hother, heffect, hclean⟩
    · refine ⟨fun hf => .inl ⟨hfree, hsame.trans heffect, ?_⟩, fun hf => .inr (.inr ⟨?_, ?_, ?_, ?_⟩)⟩
      · rw [hun, hclean, hf]
        rfl
      · exact hfree.2.imp_right fun hnone node hnode => by rw [hnone] at hnode; cases hnode
      · rw [hsame, heffect]
      · rw [hsame, heffect]
      · rw [hun, hf, Bool.not_false, Bool.or_true]
    · refine ⟨fun hf => .inr ⟨hother, hsame.trans heffect, ?_⟩, fun hf => .inr (.inr ⟨?_, ?_, ?_, ?_⟩)⟩
      · rw [hun, hclean, hf]
        rfl
      · obtain ⟨-, bytes, hfile⟩ := hother
        refine .inr fun node hnode => ?_
        rw [hfile] at hnode
        cases hnode
        nofun
      · rw [hsame, heffect]
      · rw [hsame, heffect]
      · rw [hun, hf, Bool.not_false, Bool.or_true]

/-- A call outside the operations, whose answer does not matter. -/
lemma courses_quiet {v : Volume} {writing : Bool} {o : Option Bool}
    (hX : ∀ w, Since locate fs before (fun _ => False) w → X w) :
    Triple (Since locate fs before (Untouched locate fs o)) (ask (.begin v writing))
      (fun _ => Since locate fs before (Untouched locate fs o)) X := by
  refine since_ask (.begin v writing) not_false (fun granted calls hphi _ => ⟨?_, ?_⟩)
    fun e w hw => hX _ hw
  · exact (effect_snoc _ _).trans hphi.1
  · rw [unfinished_snoc, hphi.2]
    rfl

lemma courses_finish {v : Volume} {T : Bool → Log → Prop}
    (hT : ∀ finished calls, phi calls → T finished (calls ++ [⟨.finish v, .ok finished⟩])) :
    Triple (Since locate fs before phi) (ask (.finish v))
      (fun finished => Since locate fs before (T finished))
      (Since locate fs before (Quit locate fs a b)) :=
  since_ask (.finish v) not_false (fun finished calls hphi _ => hT finished calls hphi)
    fun _ _ hw => since_never hw

lemma courses_finishBoth {result : Except Errno Unit} (oldVolume newVolume : Volume) :
    Triple (Since locate fs before (Outcome locate fs a b (some result)))
      (finishBoth oldVolume newVolume)
      (fun _ => Since locate fs before (Outcome locate fs a b (some result)))
      (Since locate fs before (Quit locate fs a b)) := by
  have hlast : ∀ newFinished : Bool, Triple (Since locate fs before fun calls =>
        (newFinished = true → Outcome locate fs a b (some result) calls) ∧
        (newFinished = false → Quit locate fs a b calls))
      (ask (.finish oldVolume) >>= fun oldFinished =>
        failIf (newFinished = false ∨ oldFinished = false) (.osError eio))
      (fun _ => Since locate fs before (Outcome locate fs a b (some result)))
      (Since locate fs before (Quit locate fs a b)) := by
    intro newFinished
    refine .bind (courses_finish (T := fun oldFinished calls =>
      (newFinished = true ∧ oldFinished = true → Outcome locate fs a b (some result) calls) ∧
      (newFinished = false ∨ oldFinished = false → Quit locate fs a b calls))
      fun oldFinished calls h => ?_) fun oldFinished => ?_
    · cases newFinished with
      | false => exact ⟨fun hf => absurd hf.1 Bool.false_ne_true, fun _ => (h.2 rfl).finish _ _⟩
      | true =>
        have hfinish := (h.1 rfl).finish oldVolume oldFinished
        exact ⟨fun hf => hfinish.1 hf.2, fun hf => hfinish.2 (hf.resolve_left nofun)⟩
    · unfold failIf
      split_ifs with hc
      · exact .fail fun w hw => since_mono (fun _ h => h.2 hc) hw
      · refine .pure fun w hw => since_mono (fun _ h => h.1 ?_) hw
        simpa using hc
  unfold finishBoth
  split_ifs
  · exact .bind (.pure fun w hw => since_mono (fun _ h => ⟨fun _ => h, nofun⟩) hw) hlast
  · exact .bind (courses_finish fun finished calls h => h.finish newVolume finished) hlast

lemma courses_vfsRename (fresh : Fresh) (fuel mount : ℕ) (v : Vfs) (oldPath newPath : Bytes)
    (ha : locate (fullPath fresh v oldPath) = a) (hb : locate (fullPath fresh v newPath) = b) :
    Triple (fun w => w.log = before ∧ w.state.mounts mount = v)
      (vfsRename fresh fuel mount oldPath newPath) (fun
        | none => fun _ => True
        | some () => Since locate fs before (Outcome locate fs a b (some (.ok ()))))
      (Since locate fs before (Quit locate fs a b)) := by
  have hquit : ∀ w, Since locate fs before (Untouched locate fs none) w →
      Since locate fs before (Quit locate fs a b) w := fun w hw =>
    since_mono (fun _ h => h.quit nofun) hw
  have hnever : ∀ w, Since locate fs before (fun _ => False) w →
      Since locate fs before (Quit locate fs a b) w := fun w hw => since_never hw
  have hfinish : ∀ volume, Triple (Since locate fs before (Untouched locate fs none))
      (vfsFinish volume) (fun _ => Since locate fs before (Quit locate fs a b))
      (Since locate fs before (Quit locate fs a b)) := fun volume =>
    .bind (courses_finish (T := fun _ => Quit locate fs a b)
      fun finished calls h => (h.quit nofun).finish _ _) fun _ =>
        .failIf (fun _ _ h => h) fun _ h => h
  refine .bind (Q := fun v' w => v' = v ∧ Since locate fs before (Untouched locate fs none) w)
    (.reading fun m => .pure fun w hw => ⟨?_, [], ?_, fun _ _ => ⟨rfl, rfl⟩⟩) fun v' => ?_
  · rw [← hw.2, hw.1.2]
  · rw [hw.1.1, List.append_nil]
  intro env w hw
  obtain ⟨rfl, hw⟩ := hw
  revert env w
  show Triple _ _ _ _
  refine .passed hquit fun _ => ?_
  refine .given hquit fun old hold => .given hquit fun new hnew => ?_
  have hola : locate (cstr old.full) = a := by
    rw [← ha, fullPath, hold]
  have hnewb : locate (cstr new.full) = b := by
    rw [← hb, fullPath, hnew]
  refine .bind (Q := fun _ => Since locate fs before (Untouched locate fs none))
    (.bind (courses_quiet hnever) fun granted => .failIf (fun _ _ h => h) hquit) fun _ => ?_
  refine .bind (Q := fun _ => Since locate fs before (Untouched locate fs none)) ?_ fun _ => ?_
  · unfold beginSecond
    split_ifs
    · refine .bind (courses_quiet hnever) fun granted => ?_
      split_ifs
      · exact .bind (hfinish _) fun _ => .fail fun _ h => h
      · exact .pure fun _ h => h
    · exact .pure fun _ h => h
  refine .bind (courses_renameFiles hnever fuel) fun result => ?_
  cases result with
  | none => exact .pure fun _ _ => trivial
  | some result =>
    rw [hola, hnewb]
    refine .bind (courses_finishBoth _ _) fun _ => ?_
    rcases result with e | ⟨⟩
    · refine .given (fun w hw => since_mono (fun _ h => ?_) hw) nofun
      rcases h with h | ⟨hfile, heffect, -⟩
      · exact h.quit nofun
      · exact .inr (.inl ⟨hfile, heffect⟩)
    · exact fun _ _ hw => hw

/-! ## When both files survive -/

lemma movedFiles_same (fs : Files α) (a : α) : movedFiles fs a a = fs := by
  rw [movedFiles, Function.update_idem, Function.update_eq_self]

lemma movedFiles_new (fs : Files α) (a b : α) : movedFiles fs a b b = fs a :=
  Function.update_self _ _ _

lemma movedFiles_old {a b : α} (h : a ≠ b) (fs : Files α) : movedFiles fs a b a = none := by
  rw [movedFiles, Function.update_of_ne h, Function.update_self]

variable {calls : Log} (hpaired : ∀ v, Paired (begins v) (ends v) calls)
include hpaired

lemma atomic_of_quit (h : Quit locate fs a b calls) (e : Raised) :
    Atomic locate fs a b calls (.error e) ↔ Spared locate fs a b calls := by
  rcases h with ⟨o, ho, heffect⟩ | ⟨⟨bytes, hfile⟩, heffect⟩ | ⟨hb, hfiles, hlast, hun⟩
  · constructor
    · intro _
      exact ⟨by simp [heffect], by simp [heffect]⟩
    · intro _
      exact ⟨fun _ _ => by simp [heffect], nofun, fun hdir => by simpa [heffect] using hdir, hpaired⟩
  · constructor
    · intro h
      have hkept := (h.failed ⟨e, rfl⟩ (by rw [heffect])).2
      rw [heffect, hfile] at hkept
      simp at hkept
    · intro h
      exact absurd ⟨by rw [heffect], by rw [heffect]⟩ h.kept
  · constructor
    · intro _
      refine ⟨fun h => ?_, fun h => ?_⟩
      · rw [hlast] at h
        exact nomatch h.2
      · rw [hun] at h
        exact nomatch h.2.2
    · intro _
      refine ⟨fun _ h => ?_, nofun, fun hdir => ?_, hpaired⟩
      · rw [hlast] at h
        cases h
      · rcases hb with rfl | hb
        · rw [hfiles, movedFiles_same]
          exact hdir
        · exact absurd rfl (hb _ hdir)

lemma atomic_of_returned (h : Outcome locate fs a b (some (.ok ())) calls) :
    Atomic locate fs a b calls (.ok (some ())) ↔ Spared locate fs a b calls := by
  have hmoved : ∀ {removed : Bool}, a ≠ b → (∀ node, fs b = some node → node ≠ .other) →
      effect locate fs calls =
        { files := movedFiles fs a b, removed := removed, renamed := true, last := some true } →
      (Atomic locate fs a b calls (.ok (some ())) ↔ Spared locate fs a b calls) := by
    intro removed hne hfree heffect
    constructor
    · intro _
      exact ⟨by simp [heffect], fun h => hne h.1⟩
    · intro _
      refine ⟨fun ⟨_, h⟩ => (nomatch h), fun _ => ?_, fun hdir => absurd rfl (hfree _ hdir), hpaired⟩
      rw [heffect]
      exact ⟨movedFiles_new fs a b, movedFiles_old hne fs⟩
  rcases h with ⟨⟨hsome, hfree⟩, heffect, hclean⟩ | ⟨⟨hne, bytes, hfile⟩, heffect, hclean⟩
  · rcases hfree with rfl | hfree
    · constructor
      · intro h
        have hgone := (h.moved rfl).2
        rw [heffect] at hgone
        simp only [movedFiles_same] at hgone
        rw [hgone] at hsome
        cases hsome
      · intro h
        exact absurd ⟨rfl, by rw [heffect], hclean⟩ h.distinct
    · refine hmoved ?_ (fun node hnode => by rw [hfree] at hnode; cases hnode) heffect
      rintro rfl
      rw [hfree] at hsome
      cases hsome
  · exact hmoved hne (fun node hnode => by rw [hfile] at hnode; cases hnode; nofun) heffect

end Courses

/-- A rename that ends, after other requests, is atomic exactly when the destination was not
removed in front of a rename that failed and the paths are not those of one renamed file. -/
theorem rename_atomic_iff {α : Type} [DecidableEq α] (locate : Bytes → α) (fs : Files α)
    {volumeOf : ℕ → Volume} {fresh : Fresh} {fuel mount : ℕ} {env : Partner Call.Value Raised}
    {requests : List (ℕ × Request)} {oldPath newPath : Bytes} {calls : Log}
    {w w' : World Machine Call.Value Raised} {r result : Except Raised (Option Unit)}
    (hbefore : serveAll fresh fuel requests env ⟨Machine.start volumeOf, []⟩ = (w, r))
    (hr : r ≠ .ok none)
    (hrun : vfsRename fresh fuel mount oldPath newPath env w = (w', result))
    (hresult : result ≠ .ok none) (hlog : w'.log = w.log ++ calls) (hreturned : Returned w'.log)
    (htrue : Truthful locate fs calls) :
    Atomic locate fs (locate (fullPath fresh (w.state.mounts mount) oldPath))
        (locate (fullPath fresh (w.state.mounts mount) newPath)) calls result ↔
      Spared locate fs (locate (fullPath fresh (w.state.mounts mount) oldPath))
        (locate (fullPath fresh (w.state.mounts mount) newPath)) calls := by
  have hidle : Idle w := by
    have hends := steps_serveAll fresh fuel requests env _ (start_idle volumeOf)
    rw [hbefore] at hends
    rcases r with e | - | ⟨⟩
    · exact hends
    · exact absurd rfl hr
    · exact hends
  have hafter : Idle w' := by
    have hends := steps_vfsRename fresh fuel mount oldPath newPath env w hidle
    rw [hrun] at hends
    rcases result with e | - | ⟨⟩
    · exact hends
    · exact absurd rfl hresult
    · exact hends
  have hreturned' : Returned w.log := fun e he => hreturned e (hlog ▸ List.mem_append_left _ he)
  have hpaired : ∀ v, Paired (begins v) (ends v) calls := fun v => by
    have hw := (hafter hreturned).2 v
    have hstart : w.log.foldl (pairStep (begins v) (ends v)) (some false) = some false :=
      (hidle hreturned').2 v
    rw [hlog, openAfter, List.foldl_append, hstart] at hw
    exact paired_of_openAfter hw
  have hcourse : Ends _ (Since locate fs w.log (Quit locate fs _ _)) _ :=
    courses_vfsRename fresh fuel mount (w.state.mounts mount) oldPath newPath rfl rfl env w ⟨rfl, rfl⟩
  rw [hrun] at hcourse
  have hsince : ∀ phi, Since locate fs w.log phi w' → phi calls := by
    rintro phi ⟨calls', hlog', hphi⟩
    obtain rfl := List.append_cancel_left (hlog.symm.trans hlog')
    exact hphi (fun e he => hreturned e (hlog ▸ List.mem_append_right _ he)) htrue
  rcases result with e | - | ⟨⟩
  · exact atomic_of_quit hpaired (hsince _ hcourse) e
  · exact absurd rfl hresult
  · exact atomic_of_returned hpaired (hsince _ hcourse)

/-! ## A destination that is lost -/

/-- `/flash/a`. -/
def sourceA : Bytes := flashPath ++ [slash, 0x61]
/-- `/flash/b`. -/
def targetB : Bytes := flashPath ++ [slash, 0x62]

/-- The gate admits everything, both paths are files, and the second rename fails. -/
def losing : Partner Call.Value Raised := fun log c => .ok <| match c with
  | .begin _ _ => true
  | .finish _ => true
  | .stat _ => .ok .regular
  | .unlink _ => .ok ()
  | .rename _ _ => .error (if log.any fun e => e.call = .unlink targetB then eio else .exists)
  | .openFile _ _ _ => .error eio
  | .opendir _ _ => .error eio
  | .readdir _ _ => .error none
  | .fatInfo _ => none
  | .handlePending => ()
  | .alloc => ()
  | .close _ _ => .error eio
  | .closedir _ _ => .error eio
  | .mkdir _ => .error eio
  | .rmdir _ => .error eio

def zeros : Fresh := fun n => ⟨List.replicate n 0, List.length_replicate⟩

def twoFiles : Files Bytes := fun p =>
  if p = sourceA then some (.file [1]) else if p = targetB then some (.file [2]) else none

/-- `rename("a", "b")` on the flash mount. -/
def losingRun : World Machine Call.Value Raised × Except Raised (Option Unit) :=
  vfsRename zeros 2 0 [0x61] [0x62] losing ⟨Machine.start fun _ => .flash, []⟩

def losingCalls : Log :=
  [succeeded (.begin .flash true) true, succeeded (.rename sourceA targetB) (.error .exists),
    succeeded (.stat targetB) (.ok .regular), succeeded (.unlink targetB) (.ok ()),
    succeeded (.rename sourceA targetB) (.error eio), succeeded (.finish .flash) true]

instance : ∀ c : Call, DecidableEq c.Value
  | .begin _ _ | .finish _ => inferInstanceAs (DecidableEq Bool)
  | .stat _ => inferInstanceAs (DecidableEq (Except Errno Kind))
  | .openFile _ _ _ | .opendir _ _ => inferInstanceAs (DecidableEq (Except Errno ℕ))
  | .readdir _ _ => inferInstanceAs (DecidableEq (Except (Option Errno) Entry))
  | .fatInfo _ => inferInstanceAs (DecidableEq (Option (ℕ × ℕ)))
  | .handlePending | .alloc => inferInstanceAs (DecidableEq Unit)
  | .close _ _ | .closedir _ _ | .mkdir _ | .unlink _ | .rmdir _ | .rename _ _ =>
    inferInstanceAs (DecidableEq (Except Errno Unit))

lemma losingRun_eq : losingRun.1.log = losingCalls ∧ losingRun.2 = .error (.osError eio) := by
  decide +kernel

lemma losingCalls_truthful : Truthful id twoFiles losingCalls := by
  have h : ∀ log e, Truthful id twoFiles log → TrueOf id (effect id twoFiles log).files e →
      Truthful id twoFiles (log ++ [e]) := fun _ _ hlog he => hlog.snoc he
  exact h [_, _, _, _, _] _ (h [_, _, _, _] _ (h [_, _, _] _ (h [_, _] _ (h [_] _ (h [] _
    justified_nil trivial) trivial) ⟨[2], rfl⟩) rfl) trivial) trivial

/-- The rename fails, and the file that was the destination is gone. -/
theorem rename_loses_destination : losingRun.1.log = losingCalls ∧
    losingRun.2 = .error (.osError eio) ∧ Truthful id twoFiles losingCalls ∧
    twoFiles targetB = some (.file [2]) ∧ (effect id twoFiles losingCalls).files targetB = none ∧
    ¬ Atomic id twoFiles sourceA targetB losingCalls losingRun.2 := by
  have hremoved : (effect id twoFiles losingCalls).files targetB = none := by decide +kernel
  refine ⟨losingRun_eq.1, losingRun_eq.2, losingCalls_truthful, by decide +kernel, hremoved,
    fun h => ?_⟩
  have hkept := (h.failed ⟨_, losingRun_eq.2⟩ (by decide +kernel)).2
  exact absurd hkept (by decide +kernel)

theorem rename_atomic_iff_losing : Atomic id twoFiles sourceA targetB losingCalls losingRun.2 ↔
    Spared id twoFiles sourceA targetB losingCalls := by
  have hbefore : serveAll zeros 2 [] losing ⟨Machine.start fun _ => .flash, []⟩ =
      (⟨Machine.start fun _ => .flash, []⟩, .ok (some ())) := rfl
  have hrun : vfsRename zeros 2 0 [0x61] [0x62] losing ⟨Machine.start fun _ => .flash, []⟩ =
      (losingRun.1, losingRun.2) := (Prod.eta losingRun).symm
  have hresult : losingRun.2 ≠ .ok none := by
    rw [losingRun_eq.2]
    nofun
  refine rename_atomic_iff id twoFiles hbefore (by nofun) hrun hresult losingRun_eq.1 ?_
    losingCalls_truthful
  rw [losingRun_eq.1]
  intro e he hfailed
  obtain ⟨err, herr⟩ := hfailed
  simp only [losingCalls, succeeded, List.mem_cons, List.not_mem_nil, or_false] at he
  rcases he with rfl | rfl | rfl | rfl | rfl | rfl <;> cases herr

end EspVision.StorageVfs
