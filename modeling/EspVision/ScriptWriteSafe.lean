import EspVision.ScriptWrite

/-!
# What `script.write` publishes

The handler remembers no upload, but the history of its answers does: since the last chunk at
offset zero a temporary file holds the chunks it has taken, one after another. Where each of
them had the offset that had been reached, the published file has the declared length and every
byte at the position that its chunk gave it.
-/
namespace EspVision.ScriptWrite

open EspVision.FileSystem EspVision.TransitionSystem

/-! ## Chunks one after another -/

def contents (cs : List Chunk) : List UInt8 := cs.flatMap (·.bytes)

/-- Each chunk begins where the one before it ends, the first at `n`. -/
def InOrder : ℕ → List Chunk → Prop
  | _, [] => True
  | n, c :: cs => c.offset = n ∧ InOrder (n + c.bytes.length) cs

lemma contents_cons (c : Chunk) (cs : List Chunk) : contents (c :: cs) = c.bytes ++ contents cs :=
  rfl

lemma contents_snoc (cs : List Chunk) (c : Chunk) : contents (cs ++ [c]) = contents cs ++ c.bytes := by
  simp [contents]

lemma inOrder_snoc {n : ℕ} {cs : List Chunk} {c : Chunk} :
    InOrder n (cs ++ [c]) ↔ InOrder n cs ∧ c.offset = n + (contents cs).length := by
  induction cs generalizing n with
  | nil => simp [InOrder, contents]
  | cons d cs ih =>
    simp only [List.cons_append, InOrder, ih, contents_cons, List.length_append, and_assoc]
    have hsum : n + d.bytes.length + (contents cs).length =
        n + (d.bytes.length + (contents cs).length) := by omega
    rw [hsum]

lemma InOrder.le_offset {n : ℕ} {cs : List Chunk} (h : InOrder n cs) {d : Chunk} (hd : d ∈ cs) :
    n ≤ d.offset := by
  induction cs generalizing n with
  | nil => simp at hd
  | cons c cs ih =>
    rcases List.mem_cons.mp hd with rfl | hd
    · exact h.1.ge
    · have := ih h.2 hd
      omega

/-- A chunk in order gives each of its bytes the position that it names. -/
lemma InOrder.byte {n : ℕ} {cs : List Chunk} (h : InOrder n cs) {d : Chunk} (hd : d ∈ cs) {i : ℕ}
    (hc : d.covers i) : (contents cs)[i - n]? = d.bytes[i - d.offset]? := by
  obtain ⟨hlo, hhi⟩ := hc
  induction cs generalizing n with
  | nil => simp at hd
  | cons c cs ih =>
    rw [contents_cons]
    rcases List.mem_cons.mp hd with rfl | hd
    · rw [← h.1, List.getElem?_append_left (by omega)]
    · have hn := h.2.le_offset hd
      rw [List.getElem?_append_right (by omega), ← ih h.2 hd]
      congr 1
      omega

/-- Chunks in order leave no gap. -/
lemma InOrder.covered {n : ℕ} {cs : List Chunk} (h : InOrder n cs) {i : ℕ} (hlo : n ≤ i)
    (hhi : i < n + (contents cs).length) : ∃ d ∈ cs, d.covers i := by
  induction cs generalizing n with
  | nil => simp [contents] at hhi; omega
  | cons c cs ih =>
    rw [contents_cons, List.length_append] at hhi
    by_cases hi : i < n + c.bytes.length
    · have hoff := h.1
      exact ⟨c, List.mem_cons_self, by omega, by omega⟩
    · obtain ⟨d, hd, hc⟩ := ih h.2 (by omega) (by omega)
      exact ⟨d, List.mem_cons_of_mem c hd, hc⟩

/-! ## What a request does -/

variable {α : Type*} [DecidableEq α] {locate : Path → α}

/-- Whether the request has touched no file when this is its answer. -/
def Fault.early : Fault → Bool
  | .prepareFailed | .writeFailed | .renameFailed => false
  | _ => true

lemma checkContent_ok {r : Request} {path : Path} {content : List UInt8} {a : Answers} {c : Chunk}
    (hp : r.path = some path) (hcontent : r.contentBase64 = some content)
    (h : checkContent r path content a = .ok c) : r.chunk = some c := by
  unfold checkContent at h
  unfold Request.chunk
  rw [hp, hcontent]
  dsimp only
  by_cases hm : (!a.malloc) = true
  · simp [hm] at h
  rw [if_neg hm] at h
  cases hd : Base64.base64Decode content (content.length * 3 / 4 + 4) with
  | error e => simp [hd] at h
  | ok bytes =>
    simp only [hd] at h
    by_cases hlen : (tmpPath path).length ≥ tmpCap
    · simp [hlen] at h
    rw [if_neg hlen] at h
    cases ht : r.totalBytes with
    | none => simpa [ht] using h
    | some total =>
      simp only [ht] at h
      by_cases hx : (r.offset.getD 0).toNat + bytes.length > total.toNat
      · simp [hx] at h
      · rw [if_neg hx] at h
        simpa using h

omit [DecidableEq α] in
lemma check_ok {fs : Files α} {r : Request} {a : Answers} {c : Chunk}
    (h : check locate fs r a = .ok c) : r.chunk = some c := by
  unfold check at h
  cases hp : r.path with
  | none => simp [hp] at h
  | some path =>
    cases hcontent : r.contentBase64 with
    | none => simp [hp, hcontent] at h
    | some content =>
      simp only [hp, hcontent] at h
      cases hf : checkFields r path with
      | some f => simp [hf] at h
      | none =>
        simp only [hf] at h
        cases htarget : checkTarget locate fs r path a with
        | some f => simp [htarget] at h
        | none => exact checkContent_ok hp hcontent (by simpa only [htarget] using h)

lemma checkFields_early {r : Request} {path : Path} {f : Fault}
    (h : checkFields r path = some f) : f.early = true := by
  unfold checkFields at h
  split_ifs at h <;> cases h <;> rfl

omit [DecidableEq α] in
lemma checkTarget_early {fs : Files α} {r : Request} {path : Path} {a : Answers} {f : Fault}
    (h : checkTarget locate fs r path a = some f) : f.early = true := by
  unfold checkTarget at h
  split_ifs at h
  cases hl : vfsExists fs (locate path) a.examine with
  | none => simp only [hl, Option.some.injEq] at h; subst h; rfl
  | some found => cases found <;> simp only [hl, Option.some.injEq, reduceCtorEq] at h; subst h; rfl

lemma checkContent_early {r : Request} {path : Path} {content : List UInt8} {a : Answers}
    {f : Fault} (h : checkContent r path content a = .error f) : f.early = true := by
  unfold checkContent at h
  by_cases hm : (!a.malloc) = true
  · rw [if_pos hm] at h
    cases h
    rfl
  rw [if_neg hm] at h
  cases hd : Base64.base64Decode content (content.length * 3 / 4 + 4) with
  | error e => simp only [hd, Except.error.injEq] at h; subst h; rfl
  | ok bytes =>
    simp only [hd] at h
    by_cases hlen : (tmpPath path).length ≥ tmpCap
    · rw [if_pos hlen] at h
      cases h
      rfl
    rw [if_neg hlen] at h
    cases ht : r.totalBytes with
    | none => simp [ht] at h
    | some total =>
      simp only [ht] at h
      split_ifs at h
      cases h
      rfl

omit [DecidableEq α] in
/-- The checks precede every effect. -/
lemma check_early {fs : Files α} {r : Request} {a : Answers} {f : Fault}
    (h : check locate fs r a = .error f) : f.early = true := by
  unfold check at h
  cases hp : r.path with
  | none => simp only [hp, Except.error.injEq] at h; subst h; rfl
  | some path =>
    cases hcontent : r.contentBase64 with
    | none => simp only [hp, hcontent, Except.error.injEq] at h; subst h; rfl
    | some content =>
      simp only [hp, hcontent] at h
      cases hf : checkFields r path with
      | some g =>
        simp only [hf, Except.error.injEq] at h
        exact h ▸ checkFields_early hf
      | none =>
        simp only [hf] at h
        cases htarget : checkTarget locate fs r path a with
        | some g =>
          simp only [htarget, Except.error.injEq] at h
          exact h ▸ checkTarget_early htarget
        | none => exact checkContent_early (by simpa only [htarget] using h)

/-- What the temporary file holds before it takes a chunk. -/
def Begins (fs : Files α) (t : α) (c : Chunk) (old : List UInt8) : Prop :=
  if c.offset = 0 then old = [] else fs t = some (.file old)

lemma vfsRemoveIfExists_of_ne {fs : Files α} {p q : α} (a : Removal) (h : q ≠ p) :
    (vfsRemoveIfExists fs p a).1 q = fs q := by
  unfold vfsRemoveIfExists
  cases vfsExists fs p a.look with
  | none => rfl
  | some found =>
    cases found with
    | false => rfl
    | true =>
      cases a.raised with
      | none => exact Function.update_of_ne h _ _
      | some gone =>
        cases gone with
        | false => rfl
        | true => exact Function.update_of_ne h _ _

lemma update_vfsRemoveIfExists (fs : Files α) (p : α) (a : Removal) (node : Option Node) :
    Function.update (vfsRemoveIfExists fs p a).1 p node = Function.update fs p node := by
  funext q
  by_cases hq : q = p
  · simp [hq]
  · rw [Function.update_of_ne hq, Function.update_of_ne hq, vfsRemoveIfExists_of_ne a hq]

lemma vfsWriteFileMode_of_ne {fs : Files α} {p q : α} (data : List UInt8) (append : Bool)
    (failure : Option (Option Node)) (h : q ≠ p) :
    (vfsWriteFileMode fs p data append failure).1 q = fs q := by
  unfold vfsWriteFileMode
  cases failure with
  | some left => exact Function.update_of_ne h _ _
  | none =>
    cases openedWith fs p append with
    | none => rfl
    | some old => exact Function.update_of_ne h _ _

lemma vfsWriteFileMode_ok {fs : Files α} {p : α} {data : List UInt8} {append : Bool}
    {failure : Option (Option Node)} (h : (vfsWriteFileMode fs p data append failure).2 = true) :
    ∃ old, openedWith fs p append = some old ∧
      (vfsWriteFileMode fs p data append failure).1 =
        Function.update fs p (some (.file (old ++ data))) := by
  cases failure with
  | some left => simp [vfsWriteFileMode] at h
  | none =>
    cases ho : openedWith fs p append with
    | none => simp [vfsWriteFileMode, ho] at h
    | some old => exact ⟨old, rfl, by simp [vfsWriteFileMode, ho]⟩

/-- A settled write is done, or is undone and changes no other file. -/
lemma settle_outcome (fs : Files α) (t : α) (c : Chunk) (a : Answers) (append : Bool) :
    let st := stage.settle a t (vfsWriteFileMode fs t c.bytes append a.write)
    (st.2 = none ∧ ∃ old, openedWith fs t append = some old ∧
        st.1 = Function.update fs t (some (.file (old ++ c.bytes)))) ∨
      (st.2 = some .writeFailed ∧ ∀ q ≠ t, st.1 q = fs q) := by
  intro st
  cases hw : vfsWriteFileMode fs t c.bytes append a.write with
  | mk fs' ok =>
    have hne : ∀ q ≠ t, fs' q = fs q := fun q hq => by
      have hq' : (vfsWriteFileMode fs t c.bytes append a.write).1 q = fs q :=
        vfsWriteFileMode_of_ne _ _ _ hq
      rwa [hw] at hq'
    cases ok with
    | true =>
      obtain ⟨old, ho, heq⟩ := vfsWriteFileMode_ok (by rw [hw] :
        (vfsWriteFileMode fs t c.bytes append a.write).2 = true)
      rw [hw] at heq
      exact .inl ⟨by simp [st, hw, stage.settle], old, ho, by simpa [st, hw, stage.settle] using heq⟩
    | false =>
      refine .inr ⟨by simp [st, hw, stage.settle], fun q hq => ?_⟩
      rw [← hne q hq]
      simpa [st, hw, stage.settle] using vfsRemoveIfExists_of_ne a.cleanup hq

omit [DecidableEq α] in
lemma openedWith_wb {fs : Files α} {p : α} {old : List UInt8}
    (h : openedWith fs p false = some old) : old = [] := by
  cases hp : fs p with
  | none => simpa [openedWith, hp, eq_comm] using h
  | some node => cases node <;> simp_all [openedWith]

omit [DecidableEq α] in
lemma openedWith_ab {fs : Files α} {p : α} {old : List UInt8} (hsome : (fs p).isSome = true)
    (h : openedWith fs p true = some old) : fs p = some (.file old) := by
  cases hp : fs p with
  | none => simp [hp] at hsome
  | some node => cases node <;> simp_all [openedWith]

omit [DecidableEq α] in
lemma vfsExists_true {fs : Files α} {p : α} {look : Look} (h : vfsExists fs p look = some true) :
    (fs p).isSome = true := by
  cases look <;> simp_all [vfsExists]

/-- Staging a chunk writes it at the end of what the file held, or fails and changes no other
file. -/
lemma stage_outcome (fs : Files α) (t : α) (c : Chunk) (a : Answers) :
    ((stage fs t c a).2 = none ∧ ∃ old, Begins fs t c old ∧
        (stage fs t c a).1 = Function.update fs t (some (.file (old ++ c.bytes)))) ∨
      stage fs t c a = (fs, some .missingTmp) ∨
      (((stage fs t c a).2 = some .prepareFailed ∨ (stage fs t c a).2 = some .writeFailed) ∧
        ∀ q ≠ t, (stage fs t c a).1 q = fs q) := by
  by_cases hoff : c.offset = 0
  · cases hr : vfsRemoveIfExists fs t a.prepare with
    | mk fs₁ ok =>
      have hfirst : fs₁ = (vfsRemoveIfExists fs t a.prepare).1 := by rw [hr]
      have hne : ∀ q ≠ t, fs₁ q = fs q := fun q hq => by
        rw [hfirst, vfsRemoveIfExists_of_ne a.prepare hq]
      cases ok with
      | false => exact .inr (.inr ⟨by simp [stage, hoff, hr], by simpa [stage, hoff, hr] using hne⟩)
      | true =>
        have hst : stage fs t c a =
            stage.settle a t (vfsWriteFileMode fs₁ t c.bytes false a.write) := by
          simp [stage, hoff, hr]
        rw [hst]
        rcases settle_outcome fs₁ t c a false with
          ⟨hok, old, ho, heq⟩ | ⟨hfail, hq⟩
        · refine .inl ⟨hok, old, ?_, ?_⟩
          · unfold Begins
            rw [if_pos hoff]
            exact openedWith_wb ho
          · rw [heq, hfirst, update_vfsRemoveIfExists]
        · exact .inr (.inr ⟨.inr hfail, fun q hqt => (hq q hqt).trans (hne q hqt)⟩)
  · cases hl : vfsExists fs t a.look with
    | none => exact .inr (.inl (by simp [stage, hoff, hl]))
    | some found =>
      cases found with
      | false => exact .inr (.inl (by simp [stage, hoff, hl]))
      | true =>
        have hst : stage fs t c a =
            stage.settle a t (vfsWriteFileMode fs t c.bytes true a.write) := by
          simp [stage, hoff, hl]
        rw [hst]
        rcases settle_outcome fs t c a true with
          ⟨hok, old, ho, heq⟩ | ⟨hfail, hq⟩
        · refine .inl ⟨hok, old, ?_, heq⟩
          unfold Begins
          rw [if_neg hoff]
          exact openedWith_ab (vfsExists_true hl) ho
        · exact .inr (.inr ⟨.inr hfail, hq⟩)

/-- The file at a place once a chunk has been written there. -/
def taken (fs : Files α) (t : α) (old : List UInt8) (c : Chunk) : Files α :=
  Function.update fs t (some (.file (old ++ c.bytes)))

/-- The event publishes the target of a chunk: its answer says so, or the rename is done and
raises all the same. -/
def Event.Publishes (locate : Path → α) (e : Event) (c : Chunk) : Prop :=
  c.complete = true ∧ ((∃ run, e.reply = .written c run) ∨
    (e.request.chunk = some c ∧ e.reply = .error .renameFailed ∧
      e.answers.rename = some .moved ∧ locate (tmpPath c.path) ≠ locate c.path))

/-- What one request does. -/
inductive Outcome (locate : Path → α) (fs : Files α) (e : Event) : Files α → Prop
  | refused (f : Fault) (hreply : e.reply = .error f) (hf : f.early = true) :
      Outcome locate fs e fs
  | unstaged {fs' : Files α} (c : Chunk) (f : Fault) (hchunk : e.request.chunk = some c)
      (hreply : e.reply = .error f) (hf : f = .prepareFailed ∨ f = .writeFailed)
      (hne : ∀ q ≠ locate (tmpPath c.path), fs' q = fs q) : Outcome locate fs e fs'
  | stored (c : Chunk) (old : List UInt8) (run : Bool) (hchunk : e.request.chunk = some c)
      (hreply : e.reply = .written c run) (hmore : c.complete = false)
      (hold : Begins fs (locate (tmpPath c.path)) c old) :
      Outcome locate fs e (taken fs (locate (tmpPath c.path)) old c)
  | published (c : Chunk) (old : List UInt8) (run : Bool) (hchunk : e.request.chunk = some c)
      (hreply : e.reply = .written c run) (hlast : c.complete = true)
      (hold : Begins fs (locate (tmpPath c.path)) c old) :
      Outcome locate fs e
        (moved (taken fs (locate (tmpPath c.path)) old c) (locate (tmpPath c.path))
          (locate c.path))
  | unpublished {fs' : Files α} (c : Chunk) (old : List UInt8)
      (hchunk : e.request.chunk = some c) (hreply : e.reply = .error .renameFailed)
      (hold : Begins fs (locate (tmpPath c.path)) c old)
      (hmoved : e.answers.rename = some .moved → locate (tmpPath c.path) ≠ locate c.path →
        fs' (locate c.path) = some (.file (old ++ c.bytes)))
      (hne : ∀ q ≠ locate (tmpPath c.path), q ≠ locate c.path → fs' q = fs q) :
      Outcome locate fs e fs'

lemma moved_of_ne {fs : Files α} {a b q : α} (ha : q ≠ a) (hb : q ≠ b) : moved fs a b q = fs q := by
  unfold moved
  cases fs a with
  | none => rfl
  | some node => simp [Function.update_of_ne hb, Function.update_of_ne ha]

lemma moved_target {fs : Files α} {a b : α} {node : Node} (h : fs a = some node) :
    moved fs a b b = some node := by
  simp [moved, h]

lemma vfsRename_of_ne {fs : Files α} {a b q : α} (failure : Option RenameFault) (ha : q ≠ a)
    (hb : q ≠ b) : (vfsRename fs a b failure).1 q = fs q := by
  cases failure with
  | none => exact moved_of_ne ha hb
  | some f =>
    cases f with
    | untouched => rfl
    | targetLost => exact Function.update_of_ne hb _ _
    | moved => exact moved_of_ne ha hb

/-- The last chunk is renamed over the target, or the rename raises. -/
lemma rename_outcome {fs fs' : Files α} {e : Event} {c : Chunk} {old : List UInt8}
    (hchunk : e.request.chunk = some c) (hlast : c.complete = true)
    (hold : Begins fs (locate (tmpPath c.path)) c old)
    (h : (match vfsRename (taken fs (locate (tmpPath c.path)) old c) (locate (tmpPath c.path))
        (locate c.path) e.answers.rename with
      | (fs, false) =>
        ((vfsRemoveIfExists fs (locate (tmpPath c.path)) e.answers.cleanup).1,
          Reply.error .renameFailed)
      | (fs, true) => (fs, .written c e.request.runAfterWrite)) = (fs', e.reply)) :
    Outcome locate fs e fs' := by
  have htmp : taken fs (locate (tmpPath c.path)) old c (locate (tmpPath c.path)) =
      some (.file (old ++ c.bytes)) := Function.update_self _ _ _
  cases hr : vfsRename (taken fs (locate (tmpPath c.path)) old c) (locate (tmpPath c.path))
      (locate c.path) e.answers.rename with
  | mk fs₁ ok =>
    simp only [hr] at h
    cases ok with
    | true =>
      obtain ⟨rfl, hreply⟩ := Prod.mk.inj h
      cases ha : e.answers.rename with
      | none =>
        rw [ha] at hr
        obtain ⟨rfl, -⟩ := Prod.mk.inj hr
        exact .published c old _ hchunk hreply.symm hlast hold
      | some f => cases f <;> simp [ha, vfsRename] at hr
    | false =>
      obtain ⟨rfl, hreply⟩ := Prod.mk.inj h
      refine .unpublished c old hchunk hreply.symm hold (fun ha hapart => ?_) fun q hq hq' => ?_
      · rw [ha] at hr
        obtain ⟨rfl, -⟩ := Prod.mk.inj hr
        rw [vfsRemoveIfExists_of_ne _ hapart.symm]
        exact moved_target htmp
      · have hfirst : fs₁ = _ := (congrArg Prod.fst hr).symm
        rw [vfsRemoveIfExists_of_ne _ hq, hfirst, vfsRename_of_ne _ hq hq']
        exact Function.update_of_ne hq _ _

theorem scriptWrite_outcome {fs fs' : Files α} {e : Event}
    (h : scriptWrite locate fs e.request e.answers = (fs', e.reply)) :
    Outcome locate fs e fs' := by
  unfold scriptWrite at h
  cases hcheck : check locate fs e.request e.answers with
  | error f =>
    simp only [hcheck, Prod.mk.injEq] at h
    obtain ⟨rfl, hreply⟩ := h
    exact .refused f hreply.symm (check_early hcheck)
  | ok c =>
    have hchunk := check_ok hcheck
    simp only [hcheck] at h
    rcases stage_outcome fs (locate (tmpPath c.path)) c e.answers with
      ⟨hok, old, hold, htaken⟩ | hmissing | ⟨hfail, hne⟩
    · have hst : stage fs (locate (tmpPath c.path)) c e.answers =
          (taken fs (locate (tmpPath c.path)) old c, none) := Prod.ext htaken hok
      simp only [hst] at h
      cases hc : c.complete with
      | false =>
        simp only [hc, Bool.false_eq_true, if_false, Prod.mk.injEq] at h
        obtain ⟨rfl, hreply⟩ := h
        exact .stored c old _ hchunk hreply.symm hc hold
      | true =>
        simp only [hc, if_true] at h
        exact rename_outcome hchunk hc hold h
    · simp only [hmissing, Prod.mk.injEq] at h
      obtain ⟨rfl, hreply⟩ := h
      exact .refused .missingTmp hreply.symm rfl
    · cases hst : stage fs (locate (tmpPath c.path)) c e.answers with
      | mk fs₁ fault =>
        rw [hst] at hfail hne
        rcases hfail with rfl | rfl
        all_goals
          simp only [hst, Prod.mk.injEq] at h
          obtain ⟨rfl, hreply⟩ := h
        · exact .unstaged c _ hchunk hreply.symm (.inl rfl) hne
        · exact .unstaged c _ hchunk hreply.symm (.inr rfl) hne

/-! ## Uploads -/

/-- The chunks that each temporary file has taken since its last chunk at offset zero; `none`
where a failed call or a publication may have left something else. -/
abbrev Uploads (α : Type*) := α → Option (List Chunk)

/-- The chunks of the upload with one more. -/
def Uploads.extended (us : Uploads α) (t : α) (c : Chunk) : Option (List Chunk) :=
  if c.offset = 0 then some [c] else (us t).map (· ++ [c])

/-- What one request makes of the uploads. -/
def Uploads.after (locate : Path → α) (us : Uploads α) (e : Event) : Uploads α :=
  match e.request.chunk with
  | none => us
  | some c =>
    let t := locate (tmpPath c.path)
    match e.reply with
    | .written _ _ =>
      if c.complete then Function.update (Function.update us t none) (locate c.path) none
      else Function.update us t (us.extended t c)
    | .error f =>
      if f = .renameFailed then
        Function.update (Function.update us t none) (locate c.path) none
      else if f.early then us
      else Function.update us t none

/-- The uploads under way after a history. -/
def uploads (locate : Path → α) (h : List Event) : Uploads α :=
  h.foldl (Uploads.after locate) fun _ => none

lemma uploads_snoc (h : List Event) (e : Event) :
    uploads locate (h ++ [e]) = (uploads locate h).after locate e := by
  simp [uploads]

/-- Every temporary file of an upload holds its chunks. -/
def Backed (us : Uploads α) (fs : Files α) : Prop :=
  ∀ t cs, us t = some cs → fs t = some (.file (contents cs))

omit [DecidableEq α] in
/-- What the temporary file held and the chunk make up the upload. -/
lemma Backed.extended {us : Uploads α} {fs : Files α} (hb : Backed us fs) {t : α} {c : Chunk}
    {old : List UInt8} (hold : Begins fs t c old) {cs : List Chunk}
    (h : us.extended t c = some cs) : old ++ c.bytes = contents cs := by
  unfold Begins at hold
  unfold Uploads.extended at h
  by_cases hoff : c.offset = 0
  · rw [if_pos hoff] at hold h
    obtain rfl := Option.some.inj h
    simp [hold, contents]
  · rw [if_neg hoff] at hold h
    obtain ⟨ds, hds, rfl⟩ := Option.map_eq_some_iff.mp h
    have := hb t ds hds
    rw [hold] at this
    obtain rfl : old = contents ds := by simpa using this
    rw [contents_snoc]

lemma Backed.forget {us : Uploads α} {fs fs' : Files α} (hb : Backed us fs) {t : α}
    (hne : ∀ q ≠ t, fs' q = fs q) : Backed (Function.update us t none) fs' := by
  intro q cs hq
  by_cases hqt : q = t
  · simp [hqt] at hq
  · rw [Function.update_of_ne hqt] at hq
    rw [hne q hqt]
    exact hb q cs hq

lemma Backed.forgetTwo {us : Uploads α} {fs fs' : Files α} (hb : Backed us fs) {t u : α}
    (hne : ∀ q ≠ t, q ≠ u → fs' q = fs q) :
    Backed (Function.update (Function.update us t none) u none) fs' := by
  intro q cs hq
  by_cases hqu : q = u
  · simp [hqu] at hq
  rw [Function.update_of_ne hqu] at hq
  by_cases hqt : q = t
  · simp [hqt] at hq
  rw [Function.update_of_ne hqt] at hq
  rw [hne q hqt hqu]
  exact hb q cs hq

lemma taken_of_ne {fs : Files α} {t q : α} {old : List UInt8} {c : Chunk} (h : q ≠ t) :
    taken fs t old c q = fs q :=
  Function.update_of_ne h _ _

theorem backed_step {us : Uploads α} {fs fs' : Files α} {e : Event} (hb : Backed us fs)
    (h : Outcome locate fs e fs') : Backed (us.after locate e) fs' := by
  cases h with
  | refused f hreply hf =>
    have hus : us.after locate e = us := by
      unfold Uploads.after
      cases e.request.chunk with
      | none => rfl
      | some c => cases f <;> simp_all [Fault.early]
    rwa [hus]
  | unstaged c f hchunk hreply hf hne =>
    have hus : us.after locate e = Function.update us (locate (tmpPath c.path)) none := by
      rcases hf with rfl | rfl <;> simp [Uploads.after, hchunk, hreply, Fault.early]
    rw [hus]
    exact hb.forget hne
  | stored c old run hchunk hreply hmore hold =>
    have hus : us.after locate e = Function.update us (locate (tmpPath c.path))
        (us.extended (locate (tmpPath c.path)) c) := by
      simp [Uploads.after, hchunk, hreply, hmore]
    rw [hus]
    intro q cs hq
    by_cases hqt : q = locate (tmpPath c.path)
    · subst hqt
      rw [Function.update_self] at hq
      rw [← hb.extended hold hq]
      exact Function.update_self _ _ _
    · rw [Function.update_of_ne hqt] at hq
      rw [taken_of_ne hqt]
      exact hb q cs hq
  | published c old run hchunk hreply hlast hold =>
    have hus : us.after locate e = Function.update
        (Function.update us (locate (tmpPath c.path)) none) (locate c.path) none := by
      simp [Uploads.after, hchunk, hreply, hlast]
    rw [hus]
    exact hb.forgetTwo fun q hq hq' => (moved_of_ne hq hq').trans (taken_of_ne hq)
  | unpublished c old hchunk hreply hold hmoved hne =>
    have hus : us.after locate e = Function.update
        (Function.update us (locate (tmpPath c.path)) none) (locate c.path) none := by
      simp [Uploads.after, hchunk, hreply]
    rw [hus]
    exact hb.forgetTwo hne

theorem backed {h : List Event} {fs : Files α} (hr : Reaches (scriptWrites locate) h fs) :
    Backed (uploads locate h) fs := by
  refine hr.invariant (I := fun h fs => Backed (uploads locate h) fs) ?_ ?_
  · intro fs _ t cs ht
    simp [uploads] at ht
  · intro h fs e fs' _ hb hstep
    rw [uploads_snoc]
    exact backed_step hb (scriptWrite_outcome hstep)

/-! ## Publications -/

/-- A publication moves what the temporary file held, with the last chunk behind it. -/
lemma Event.Publishes.target {fs fs' : Files α} {e : Event} {c : Chunk}
    (hp : e.Publishes locate c) (h : Outcome locate fs e fs') :
    ∃ old, Begins fs (locate (tmpPath c.path)) c old ∧
      fs' (locate c.path) = some (.file (old ++ c.bytes)) := by
  obtain ⟨hlast, ⟨run, hw⟩ | ⟨hchunk, hw, hmoved, hapart⟩⟩ := hp
  · cases h with
    | published d old run' hchunk' hreply hlast' hold =>
      obtain ⟨rfl, -⟩ := Reply.written.inj (hw.symm.trans hreply)
      exact ⟨old, hold, moved_target (Function.update_self _ _ _)⟩
    | stored d old run' hchunk' hreply hmore hold =>
      obtain ⟨rfl, -⟩ := Reply.written.inj (hw.symm.trans hreply)
      exact absurd hlast (by simp [hmore])
    | refused f hreply => exact absurd (hw.symm.trans hreply) (by simp)
    | unstaged d f _ hreply => exact absurd (hw.symm.trans hreply) (by simp)
    | unpublished d old _ hreply => exact absurd (hw.symm.trans hreply) (by simp)
  · cases h with
    | unpublished d old hchunk' hreply hold hmoved' =>
      obtain rfl := Option.some.inj (hchunk.symm.trans hchunk')
      exact ⟨old, hold, hmoved' hmoved hapart⟩
    | refused f hreply hf =>
      obtain rfl := Reply.error.inj (hw.symm.trans hreply)
      exact absurd hf (by decide)
    | unstaged d f _ hreply hf =>
      obtain rfl := Reply.error.inj (hw.symm.trans hreply)
      exact absurd hf (by decide)
    | stored d old run _ hreply => exact absurd (hw.symm.trans hreply) (by simp)
    | published d old run _ hreply => exact absurd (hw.symm.trans hreply) (by simp)

omit [DecidableEq α] in
lemma extended_getLast {us : Uploads α} {t : α} {c : Chunk} {cs : List Chunk}
    (h : us.extended t c = some cs) : ∃ ds, cs = ds ++ [c] := by
  unfold Uploads.extended at h
  by_cases hoff : c.offset = 0
  · rw [if_pos hoff] at h
    exact ⟨[], (Option.some.inj h).symm⟩
  · rw [if_neg hoff] at h
    obtain ⟨ds, -, rfl⟩ := Option.map_eq_some_iff.mp h
    exact ⟨ds, rfl⟩

/-- After any requests, the next one: when it publishes, its chunk ends at the declared total and
the published file is the chunks of the upload one after another; the file has the declared total
length exactly when the last chunk had the offset that had been reached, and when each had, then
every position has the byte of the chunk that covers it. A request that a check refuses changes
no file. -/
theorem script_write_publication {h : List Event} {fs fs' : Files α} {e : Event}
    (hr : Reaches (scriptWrites locate) h fs) (hstep : (scriptWrites locate).step fs e fs') :
    (∀ c, e.Publishes locate c → c.offset + c.bytes.length = c.total ∧
      ∀ cs, (uploads locate h).extended (locate (tmpPath c.path)) c = some cs →
        fs' (locate c.path) = some (.file (contents cs)) ∧
        ((contents cs).length = c.total ↔ c.offset = (contents cs.dropLast).length) ∧
        (InOrder 0 cs → (contents cs).length = c.total ∧
          ∀ i < c.total, (∃ d ∈ cs, d.covers i) ∧
            ∀ d ∈ cs, d.covers i → (contents cs)[i]? = d.bytes[i - d.offset]?)) ∧
      ∀ f, e.reply = .error f → f.early = true → fs' = fs := by
  have hout := scriptWrite_outcome hstep
  refine ⟨fun c hp => ?_, fun f hreply hf => ?_⟩
  · have htotal : c.offset + c.bytes.length = c.total := by simpa [Chunk.complete] using hp.1
    refine ⟨htotal, fun cs hcs => ?_⟩
    obtain ⟨old, hold, hfile⟩ := hp.target hout
    rw [(backed hr).extended hold hcs] at hfile
    obtain ⟨ds, rfl⟩ := extended_getLast hcs
    have hlen : (contents (ds ++ [c])).length = c.total ↔ c.offset = (contents ds).length := by
      rw [contents_snoc, List.length_append]
      omega
    refine ⟨hfile, by simpa using hlen, fun horder => ?_⟩
    have hreached := (inOrder_snoc.mp horder).2
    have hall := hlen.mpr (by omega)
    refine ⟨hall, fun i hi => ⟨horder.covered (by omega) (by omega), fun d hd hc => ?_⟩⟩
    exact horder.byte hd hc
  · cases hout with
    | refused => rfl
    | unstaged d g _ hreply' hg =>
      obtain rfl := Reply.error.inj (hreply.symm.trans hreply')
      rcases hg with rfl | rfl <;> exact absurd hf (by decide)
    | unpublished d old _ hreply' =>
      obtain rfl := Reply.error.inj (hreply.symm.trans hreply')
      exact absurd hf (by decide)
    | stored d old run _ hreply' => exact absurd (hreply.symm.trans hreply') (by simp)
    | published d old run _ hreply' => exact absurd (hreply.symm.trans hreply') (by simp)

/-! ## Requests served without a failure -/

/-- The requests are served one after another, and no call fails. -/
def serve (locate : Path → α) (fs : Files α) : List Request → Files α × List Event
  | [] => (fs, [])
  | r :: rs =>
    let now := scriptWrite locate fs r {}
    let later := serve locate now.1 rs
    (later.1, ⟨r, {}, now.2⟩ :: later.2)

lemma serve_path (fs : Files α) (rs : List Request) :
    TransitionSystem.Path (scriptWrites locate) fs (serve locate fs rs).2
      (serve locate fs rs).1 := by
  induction rs generalizing fs with
  | nil => exact .nil fs
  | cons r rs ih => exact .cons rfl (ih _)

lemma serve_reaches (fs : Files α) (rs : List Request) :
    Reaches (scriptWrites locate) (serve locate fs rs).2 (serve locate fs rs).1 :=
  (Reaches.init (S := scriptWrites locate) (s := fs) trivial).append (serve_path fs rs)

/-- A request for `/a`, of nine bytes. -/
def ofNine (offset : UInt32) (content : List UInt8) : Request where
  path := some [0x2f, 0x61]
  contentBase64 := some content
  offset := some offset
  totalBytes := some 9

/-- `abc`, `def` and `ghi`, each at its own offset. -/
def firstThree : Request := ofNine 0 [0x59, 0x57, 0x4a, 0x6a]
def secondThree : Request := ofNine 3 [0x5a, 0x47, 0x56, 0x6d]
def lastThree : Request := ofNine 6 [0x5a, 0x32, 0x68, 0x70]

/-- The chunk of `lastThree`. -/
def lastChunk : Chunk := ⟨[0x2f, 0x61], [0x67, 0x68, 0x69], 6, 9⟩

theorem script_write_publication_lastThree :
    let fs : Files Path := fun _ => none
    let served := serve id fs [firstThree, secondThree]
    let now := scriptWrite id served.1 lastThree {}
    (Event.mk lastThree {} now.2).Publishes id lastChunk ∧
      ∃ bytes, now.1 [0x2f, 0x61] = some (.file bytes) ∧ bytes.length = 9 := by
  intro fs served now
  have hp : (Event.mk lastThree {} now.2).Publishes id lastChunk := ⟨rfl, .inl ⟨false, by decide⟩⟩
  have hr : Reaches (scriptWrites id) served.2 served.1 := serve_reaches fs _
  have hp' := (script_write_publication hr (e := ⟨lastThree, {}, now.2⟩) rfl).1 lastChunk hp
  obtain ⟨hfile, -, horder⟩ := hp'.2 [⟨[0x2f, 0x61], [97, 98, 99], 0, 9⟩,
    ⟨[0x2f, 0x61], [100, 101, 102], 3, 9⟩, lastChunk] (by decide)
  exact ⟨hp, _, hfile, (horder ⟨rfl, rfl, rfl, trivial⟩).1⟩

/-- The second chunk is sent again: it is appended once more, and twelve bytes are published. -/
theorem resent_chunk_is_appended :
    let fs : Files Path := fun _ => none
    let served := serve id fs [firstThree, secondThree]
    let again := scriptWrite id served.1 secondThree {}
    let now := scriptWrite id again.1 lastThree {}
    Reaches (scriptWrites id) served.2 served.1 ∧
      served.1 (tmpPath [0x2f, 0x61]) = some (.file [97, 98, 99, 100, 101, 102]) ∧
      again.2 = .written ⟨[0x2f, 0x61], [100, 101, 102], 3, 9⟩ false ∧
      again.1 (tmpPath [0x2f, 0x61]) = some (.file [97, 98, 99, 100, 101, 102, 100, 101, 102]) ∧
      (Event.mk lastThree {} now.2).Publishes id lastChunk ∧
      now.1 [0x2f, 0x61] =
        some (.file [97, 98, 99, 100, 101, 102, 100, 101, 102, 103, 104, 105]) := by
  intro fs served again now
  exact ⟨serve_reaches fs _, by decide, by decide, by decide, ⟨rfl, .inl ⟨false, by decide⟩⟩,
    by decide⟩

end EspVision.ScriptWrite
