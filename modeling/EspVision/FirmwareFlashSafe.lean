import EspVision.EventLog
import EspVision.FirmwareFlash

/-!
# The flashing session is safe

What a call may find in the log before it is a predicate on logs; the calls that touch the flash
are allowed behind the checks alone. The session's methods are then followed call by call with
assertions that harmless calls keep.
-/
namespace EspVision.Firmware
open Dialogue EventLog

/-! ## What the log shows -/

def Call.touches : Call → Bool
  | .eraseRegion _ _ => true
  | .flashData _ _ => true
  | _ => false

/-- The call neither touches the flash nor gives the loader up. -/
def Call.Harmless (c : Call) : Prop := c.touches = false ∧ c ≠ .disconnect

instance (c : Call) : Decidable c.Harmless := by unfold Call.Harmless; infer_instance

/-- The call succeeded with this value. -/
def succeeded (c : Call) (v : c.Value) : Event Call.Value Err := ⟨c, .ok v⟩

/-- The calls that touch the flash. -/
def touched (log : Log) : Log := log.filter fun e => e.call.touches

/-- How often the loader was given up. -/
def disconnects (log : Log) : ℕ := log.countP fun e => e.call = .disconnect

section Checks

variable (sha256 : Bytes → String)

/-- The checks of `connect` have been passed for this image. -/
structure Qualified (image : Image) (mode : Mode) (filesystem : Option Range) (log : Log) :
    Prop where
  cloned : succeeded .image image ∈ log
  valid : ∃ bytes payload, validateFirmwareImage sha256 image bytes mode = .ok payload ∧
    (mode = .install → ∃ range, planInstallFilesystemErase image payload = .ok range ∧
      filesystem = some range)
  chip : ∃ v, succeeded .chip v ∈ log ∧ chipMatches image v = true
  security : ∃ v, succeeded .getSecurityInfo v ∈ log ∧ checkSecurity v = .ok ()
  capacity : mode = .install → ∃ v, succeeded .flashId v ∈ log ∧ capacityOk image v = true
  layout : mode = .update → ∃ table v, image.partitionTable = some table ∧
    succeeded (.readFlash table.offset table.bytes) v ∈ log ∧
    digestMatches sha256 v table.sha256 = true

/-- What a write finds of earlier calls that touch the flash: an installation has erased its
filesystem once, and nothing else. -/
def erased (mode : Mode) (filesystem : Option Range) : Log :=
  match mode, filesystem with
  | .install, some range => [succeeded (.eraseRegion range.offset range.size) ()]
  | _, _ => []

/-- The call may come behind this log. -/
def Allowed (log : Log) (c : Call) : Prop :=
  match c with
  | .eraseRegion offset size => touched log = [] ∧ ∃ image range,
      Qualified sha256 image .install (some range) log ∧ offset = range.offset ∧
        size = range.size
  | .flashData data offset => ∃ image mode filesystem,
      Qualified sha256 image mode filesystem log ∧
        validateFirmwareImage sha256 image (some data) mode = .ok data ∧
        offset = image.offset ∧ touched log = erased mode filesystem
  | _ => True

/-- Every call of the log was allowed where it came. -/
def Safe (log : Log) : Prop := Justified (fun before e => Allowed sha256 before e.call) log

variable {sha256}

theorem Qualified.mono {image : Image} {mode : Mode} {filesystem : Option Range} {log log' : Log}
    (h : Qualified sha256 image mode filesystem log) (hsub : ∀ e ∈ log, e ∈ log') :
    Qualified sha256 image mode filesystem log' where
  cloned := hsub _ h.cloned
  valid := h.valid
  chip := h.chip.imp fun _ hv => ⟨hsub _ hv.1, hv.2⟩
  security := h.security.imp fun _ hv => ⟨hsub _ hv.1, hv.2⟩
  capacity := fun hm => (h.capacity hm).imp fun _ hv => ⟨hsub _ hv.1, hv.2⟩
  layout := fun hm => (h.layout hm).imp fun _ ht => ht.imp fun _ hv => ⟨hv.1, hsub _ hv.2.1, hv.2.2⟩

variable (sha256) in
/-- The log is safe and the loader is still held. -/
def Good (log : Log) : Prop := Safe sha256 log ∧ disconnects log = 0

lemma disconnects_snoc {log : Log} {e : Event Call.Value Err} (he : e.call ≠ .disconnect) :
    disconnects (log ++ [e]) = disconnects log := by
  simp [disconnects, he]

lemma touched_snoc {log : Log} {e : Event Call.Value Err} (he : e.call.touches = false) :
    touched (log ++ [e]) = touched log := by
  simp [touched, he]

lemma Good.snoc {log : Log} (h : Good sha256 log) {e : Event Call.Value Err}
    (he : e.call ≠ .disconnect) (ha : Allowed sha256 log e.call) : Good sha256 (log ++ [e]) :=
  ⟨h.1.snoc ha, (disconnects_snoc he).trans h.2⟩

lemma allowed_of_harmless {log : Log} {c : Call} (h : c.touches = false) :
    Allowed sha256 log c := by
  cases c <;> trivial

end Checks

/-! ## Following the calls -/

/-- An assertion about worlds that harmless calls keep. -/
def Stable (R : World Session Call.Value Err → Prop) : Prop :=
  ∀ w e, e.call.Harmless → R w → R { w with log := w.log ++ [e] }

lemma Stable.and {R S : World Session Call.Value Err → Prop} (hR : Stable R) (hS : Stable S) :
    Stable fun w => R w ∧ S w := fun w e he h => ⟨hR w e he h.1, hS w e he h.2⟩

lemma stable_good {sha256 : Bytes → String} : Stable fun w => Good sha256 w.log := fun _ _ he hg =>
  hg.snoc he.2 (allowed_of_harmless he.1)

variable (sha256 : Bytes → String) in
/-- The session is in this phase, and the flash is untouched. -/
def Holding (phase : Phase) (w : World Session Call.Value Err) : Prop :=
  (Good sha256 w.log ∧ touched w.log = []) ∧ w.state.phase = phase

lemma stable_holding {sha256 : Bytes → String} (phase : Phase) : Stable (Holding sha256 phase) :=
  fun w e he hg => ⟨⟨stable_good w e he hg.1.1, (touched_snoc he.1).trans hg.1.2⟩, hg.2⟩

lemma stable_mem (x : Event Call.Value Err) : Stable fun w => x ∈ w.log :=
  fun _ _ _ h => List.mem_append_left _ h

lemma stable_const (p : Prop) : Stable fun _ => p := fun _ _ _ h => h

section Steps

variable {α : Type} {G R : World Session Call.Value Err → Prop}
  {Q : α → World Session Call.Value Err → Prop}

theorem harmless {c : Call} (hG : Stable G) (hR : Stable R) (hc : c.Harmless) :
    Triple (fun w => G w ∧ R w) (ask c) (fun _ w => G w ∧ R w) fun w => G w :=
  .call (fun _ _ hw => ⟨hG _ _ hc hw.1, hR _ _ hc hw.2⟩) fun _ _ hw => hG _ _ hc hw.1

/-- A harmless call whose value does not matter. -/
theorem skip {c : Call} (hG : Stable G) (hR : Stable R) (hc : c.Harmless) {f : c.Value → Flow α}
    (next : ∀ v, Triple (fun w => G w ∧ R w) (f v) Q fun w => G w) :
    Triple (fun w => G w ∧ R w) (ask c >>= f) Q fun w => G w :=
  .bind (harmless hG hR hc) next

/-- A harmless call whose value is kept in mind. -/
theorem keep {c : Call} (hG : Stable G) (hR : Stable R) (hc : c.Harmless) {f : c.Value → Flow α}
    (next : ∀ v, Triple (fun w => G w ∧ R w ∧ succeeded c v ∈ w.log) (f v) Q
      fun w => G w) :
    Triple (fun w => G w ∧ R w) (ask c >>= f) Q fun w => G w :=
  .bind (Q := fun v w => G w ∧ R w ∧ succeeded c v ∈ w.log)
    (.call (fun _ _ hw => ⟨hG _ _ hc hw.1, hR _ _ hc hw.2, by simp [succeeded]⟩)
      fun _ _ hw => hG _ _ hc hw.1) next

/-- A pure check that gave a value. -/
theorem given {β : Type} {x : Except Err β} {f : β → Flow α}
    (next : ∀ b, x = .ok b → Triple (fun w => G w ∧ R w) (f b) Q fun w => G w) :
    Triple (fun w => G w ∧ R w) (lift x >>= f) Q fun w => G w :=
  .bind (Q := fun b w => x = .ok b ∧ G w ∧ R w)
    (.lift (fun _ _ hb hw => ⟨hb, hw⟩) fun _ hw => hw.1)
    fun b env w hw => next b hw.1 env w hw.2

/-- A condition that did not fail. -/
theorem passed {c : Prop} [Decidable c] {e : Err} {f : Unit → Flow α}
    (next : ¬c → Triple (fun w => G w ∧ R w) (f ()) Q fun w => G w) :
    Triple (fun w => G w ∧ R w) (failIf c e >>= f) Q fun w => G w :=
  .bind (Q := fun _ w => ¬c ∧ G w ∧ R w)
    (.failIf (fun _ hc hw => ⟨hc, hw⟩) fun _ hw => hw.1)
    fun _ env w hw => next hw.1 env w hw.2

/-- The state is read. -/
theorem reading {f : Session → Flow α}
    (next : ∀ s, Triple (fun w => G w ∧ R w ∧ w.state = s) (f s) Q fun w => G w) :
    Triple (fun w => G w ∧ R w) (getState >>= f) Q fun w => G w :=
  .bind (Q := fun s w => G w ∧ R w ∧ w.state = s) (.getState fun _ hw => ⟨hw.1, hw.2, rfl⟩)
    next

end Steps

/-! ## `connect` -/

section Connect

variable {sha256 : Bytes → String}

variable (sha256) in
/-- The session holds the image and its erase plan. -/
structure Planned (image : Image) (w : World Session Call.Value Err) : Prop where
  image_eq : w.state.image = some image
  cloned : succeeded .image image ∈ w.log
  valid : ∃ bytes payload, validateFirmwareImage sha256 image bytes w.state.mode = .ok payload ∧
    (w.state.mode = .install → ∃ range, planInstallFilesystemErase image payload = .ok range ∧
      w.state.filesystem = some range)

lemma stable_planned (image : Image) : Stable (Planned sha256 image) := fun _ _ _ h =>
  ⟨h.image_eq, List.mem_append_left _ h.cloned, h.valid⟩

theorem prepare_spec (bytes : Option Bytes) :
    Triple (fun w => Holding sha256 .connecting w ∧ True) (prepare sha256 bytes)
      (fun image w => Holding sha256 .connecting w ∧ Planned sha256 image w) fun w => Holding sha256 .connecting w := by
  refine skip (stable_holding _) (stable_const _) (by decide) fun _ => ?_
  refine keep (stable_holding _) (stable_const _) (by decide) fun image => ?_
  have hcloned := (stable_const True).and (stable_mem (succeeded .image image))
  refine skip (stable_holding _) hcloned (by decide) fun name => ?_
  refine given fun mode hmode => given fun payload hpayload => given fun filesystem hplan => ?_
  refine .bind (Q := fun _ w => Holding sha256 .connecting w ∧ Planned sha256 image w)
    (.update fun w hw => ⟨hw.1, rfl, hw.2.2, bytes, payload, hpayload, ?_⟩) fun _ => ?_
  · rintro rfl
    rw [if_pos rfl] at hplan
    cases hp : planInstallFilesystemErase image payload with
    | error e => simp [hp, Except.map] at hplan
    | ok range => exact ⟨range, rfl, by simpa [hp, Except.map] using hplan.symm⟩
  · exact skip (stable_holding _) (stable_planned image) (by decide) fun _ => .pure fun _ hw => hw

variable {R : World Session Call.Value Err → Prop}

/-- The chip and the security mode have been checked. -/
def LoaderChecked (image : Image) (log : Log) : Prop :=
  (∃ v, succeeded .chip v ∈ log ∧ chipMatches image v = true) ∧
    ∃ v, succeeded .getSecurityInfo v ∈ log ∧ checkSecurity v = .ok ()

theorem checkLoader_spec (hR : Stable R) (image : Image) :
    Triple (fun w => Holding sha256 .connecting w ∧ R w) (checkLoader image)
      (fun _ w => Holding sha256 .connecting w ∧ R w ∧ LoaderChecked image w.log)
      fun w => Holding sha256 .connecting w := by
  refine skip (stable_holding _) hR (by decide) fun _ => skip (stable_holding _) hR (by decide) fun _ => ?_
  refine keep (stable_holding _) hR (by decide) fun chip => passed fun hchip => ?_
  have hR1 := hR.and (stable_mem (succeeded .chip chip))
  refine keep (stable_holding _) hR1 (by decide) fun security => ?_
  have hR2 := hR1.and (stable_mem (succeeded .getSecurityInfo security))
  refine skip (stable_holding _) hR2 (by decide) fun _ => given fun _ hsecurity => ?_
  refine skip (stable_holding _) hR2 (by decide) fun _ => ?_
  refine (harmless (stable_holding _) hR2 (by decide)).post fun _ w hw => ?_
  obtain ⟨hquiet, ⟨hw, hc⟩, hs⟩ := hw
  exact ⟨hquiet, hw, ⟨chip, hc, by simpa using hchip⟩, security, hs, hsecurity⟩

theorem require_spec (hR : Stable R) (name : String) (e : Err) :
    Triple (fun w => Holding sha256 .connecting w ∧ R w) (require name e)
      (fun _ w => Holding sha256 .connecting w ∧ R w) fun w => Holding sha256 .connecting w :=
  skip (stable_holding _) hR ⟨rfl, by simp⟩ fun (has : Bool) =>
    .failIf (c := has = false) (fun _ _ hw => hw) fun _ hw => hw.1

theorem checkInstall_spec (hR : Stable R) (image : Image) :
    Triple (fun w => Holding sha256 .connecting w ∧ R w) (checkInstall image)
      (fun _ w => Holding sha256 .connecting w ∧ R w ∧
        ∃ v, succeeded .flashId v ∈ w.log ∧ capacityOk image v = true)
      fun w => Holding sha256 .connecting w := by
  refine .bind (require_spec hR _ _) fun _ => ?_
  refine keep (stable_holding _) hR (by decide) fun id => ?_
  have hR1 := hR.and (stable_mem (succeeded .flashId id))
  refine skip (stable_holding _) hR1 (by decide) fun _ => passed fun hid => ?_
  refine .bind (require_spec hR1 _ _) fun _ => .bind (require_spec hR1 _ _) fun _ => ?_
  exact (require_spec hR1 _ _).post fun _ w hw => ⟨hw.1, hw.2.1, id, hw.2.2, by simpa using hid⟩

theorem checkLayout_spec (hR : Stable R) (image : Image) :
    Triple (fun w => Holding sha256 .connecting w ∧ R w) (checkLayout sha256 image)
      (fun _ w => Holding sha256 .connecting w ∧ R w ∧
        ∃ table v, image.partitionTable = some table ∧
          succeeded (.readFlash table.offset table.bytes) v ∈ w.log ∧
          digestMatches sha256 v table.sha256 = true)
      fun w => Holding sha256 .connecting w := by
  unfold checkLayout
  cases htable : image.partitionTable with
  | none => exact .fail fun _ hw => hw.1
  | some table =>
    refine keep (stable_holding _) hR ⟨rfl, by simp⟩ fun data => ?_
    exact .failIf (fun w hd hw => ⟨hw.1, hw.2.1, table, data, rfl, hw.2.2, by simpa using hd⟩)
      fun _ hw => hw.1

variable (sha256) in
/-- The session may flash: its image and its device have been checked. -/
def Ready (w : World Session Call.Value Err) : Prop :=
  ∃ image, w.state.image = some image ∧
    Qualified sha256 image w.state.mode w.state.filesystem w.log

lemma stable_ready : Stable (Ready sha256) := fun _ _ _ h =>
  h.imp fun _ hq => ⟨hq.1, hq.2.mono fun _ he => List.mem_append_left _ he⟩

theorem qualify_spec (bytes : Option Bytes) :
    Triple (fun w => Holding sha256 .connecting w ∧ True) (qualify sha256 bytes)
      (fun _ w => Holding sha256 .connected w ∧ Ready sha256 w)
      fun w => Holding sha256 .connecting w := by
  refine .bind (prepare_spec bytes) fun image => ?_
  refine .bind (checkLoader_spec (stable_planned image) image) fun _ => reading fun s => ?_
  have hstate : Stable fun w => Planned sha256 image w ∧ LoaderChecked image w.log ∧ w.state = s :=
    fun w e he h => ⟨stable_planned image w e he h.1,
      ⟨h.2.1.1.imp fun _ hv => ⟨List.mem_append_left _ hv.1, hv.2⟩,
        h.2.1.2.imp fun _ hv => ⟨List.mem_append_left _ hv.1, hv.2⟩⟩, h.2.2⟩
  have hmiddle : Triple
      (fun w => Holding sha256 .connecting w ∧ Planned sha256 image w ∧
        LoaderChecked image w.log ∧ w.state = s)
      (if s.mode = .install then checkInstall image else checkLayout sha256 image : Flow Unit)
      (fun _ w => Holding sha256 .connecting w ∧ Ready sha256 w)
      fun w => Holding sha256 .connecting w := by
    split_ifs with hmode
    · refine (checkInstall_spec hstate image).post fun _ w hw => ⟨hw.1, ?_⟩
      obtain ⟨-, ⟨hp, hl, rfl⟩, hid⟩ := hw
      exact ⟨image, hp.image_eq, hp.cloned, hp.valid, hl.1, hl.2, fun _ => hid,
        fun hno => by simp [hmode] at hno⟩
    · refine (checkLayout_spec hstate image).post fun _ w hw => ⟨hw.1, ?_⟩
      obtain ⟨-, ⟨hp, hl, rfl⟩, htable⟩ := hw
      exact ⟨image, hp.image_eq, hp.cloned, hp.valid, hl.1, hl.2, fun hno => absurd hno hmode,
        fun _ => htable⟩
  refine .bind (hmiddle.pre fun w hw => ⟨hw.1, hw.2.1.1, hw.2.1.2, hw.2.2⟩) fun _ => ?_
  refine skip (stable_holding _) stable_ready (by decide) fun _ => ?_
  exact .update fun w hw => ⟨⟨hw.1.1, rfl⟩, hw.2⟩

variable (sha256) in
/-- The session is over: the loader has been given up once. -/
structure Closed (w : World Session Call.Value Err) : Prop where
  phase : w.state.phase = .closed
  safe : Safe sha256 w.log
  once : disconnects w.log = 1

variable (sha256) in
/-- The loader is still held. -/
def Open (w : World Session Call.Value Err) : Prop :=
  Good sha256 w.log ∧ w.state.phase ≠ .closed

lemma stable_open : Stable (Open sha256) := fun w e he h => ⟨stable_good w e he h.1, h.2⟩

/-- An assertion about logs that every call keeps when it succeeds. -/
def Grown (F : Log → Prop) : Prop := ∀ log e, ¬ e.Failed → F log → F (log ++ [e])

lemma not_failed (c : Call) (v : c.Value) : ¬ (succeeded c v).Failed := by
  rintro ⟨err, h⟩
  cases h

theorem disconnect_spec {F : Log → Prop} (hF : Grown F) :
    Triple (fun w => Open sha256 w ∧ F w.log) disconnect (fun _ w => Closed sha256 w ∧ F w.log)
      (Closed sha256) := by
  have hclosed : ∀ (w : World Session Call.Value Err) e, Good sha256 w.log →
      w.state.phase = .closed → e.call = .disconnect →
      Closed sha256 { w with log := w.log ++ [e] } := fun w e hg hp he =>
    ⟨hp, hg.1.snoc (allowed_of_harmless (by rw [he]; rfl)), by
      have h0 := hg.2
      simp only [disconnects] at h0 ⊢
      rw [List.countP_append, h0]
      simp [he]⟩
  refine .bind (.getState (Q := fun s w => s = w.state ∧ Open sha256 w ∧ F w.log)
    fun w hw => ⟨rfl, hw⟩) fun s => ?_
  by_cases hs : s.phase = .closed
  · rw [if_pos hs]
    refine .pure fun w hw => ?_
    obtain ⟨rfl, ⟨-, hne⟩, -⟩ := hw
    exact absurd hs hne
  · rw [if_neg hs]
    refine .bind (Q := fun _ w => (Good sha256 w.log ∧ w.state.phase = .closed) ∧ F w.log)
      (.update fun w hw => ⟨⟨hw.2.1.1, rfl⟩, hw.2.2⟩) fun _ => ?_
    exact .call (fun v w hw => ⟨hclosed w _ hw.1.1 hw.1.2 rfl, hF _ _ (not_failed .disconnect v) hw.2⟩)
      fun _ w hw => hclosed w _ hw.1.1 hw.1.2 rfl

theorem connect_spec (bytes : Option Bytes) :
    Triple (Holding sha256 .idle) (connect sha256 bytes)
      (fun _ w => Holding sha256 .connected w ∧ Ready sha256 w) (Closed sha256) := by
  refine .bind (.getState (Q := fun s w => s = w.state ∧ Holding sha256 .idle w)
    fun w hw => ⟨rfl, hw⟩) fun s => ?_
  refine .bind (Q := fun _ w => Holding sha256 .idle w) ?_ fun _ => ?_
  · intro env w hw
    obtain ⟨rfl, hw⟩ := hw
    rw [failIf, if_neg (by simp [hw.2])]
    exact hw
  refine .bind (Q := fun _ w => Holding sha256 .connecting w ∧ True)
    (.update fun w hw => ⟨⟨hw.1, rfl⟩, trivial⟩) fun _ => ?_
  refine .attempt (qualify_spec bytes) fun e => ?_
  refine .bind (Q := fun _ => Closed sha256) ?_ fun _ => .fail fun _ hw => hw
  exact (disconnect_spec (F := fun _ => True) fun _ _ _ h => h).conseq
    (fun w hw => ⟨⟨hw.1.1, by rw [hw.2]; decide⟩, trivial⟩) (fun _ _ hw => hw.1) fun _ hw => hw

end Connect

/-! ## `flash` -/

/-- The successful reads, with their places, sizes and data. -/
def reads (log : Log) : List (Js × Js × Option Bytes) :=
  log.filterMap fun
    | ⟨.readFlash offset count, .ok data⟩ => some (offset, count, data)
    | _ => none

/-- Reads of these chunks one behind the other, the first `n` bytes behind `offset`. -/
def laid (offset : Js) : ℕ → List Bytes → List (Js × Js × Option Bytes)
  | _, [] => []
  | n, chunk :: rest =>
    (offsetBy offset n, .ofNat chunk.length, some chunk) :: laid offset (n + chunk.length) rest

lemma laid_snoc (offset : Js) (n : ℕ) (chunks : List Bytes) (chunk : Bytes) :
    laid offset n (chunks ++ [chunk]) = laid offset n chunks ++
      [(offsetBy offset (n + chunks.flatten.length), .ofNat chunk.length, some chunk)] := by
  induction chunks generalizing n with
  | nil => simp [laid]
  | cons c chunks ih => simp [laid, ih, Nat.add_assoc]

section Flash

variable {sha256 : Bytes → String}

variable (sha256) in
/-- What `flashData` returned is a receipt for the payload, or the reads behind it cover the
written range and have the payload's digest. -/
def Confirmed (image : Image) (payload : Bytes) (during : Log) : Option Receipt → Prop
  | some receipt => receiptOk image payload receipt = true
  | none => ∃ chunks, reads during = laid image.offset 0 chunks ∧
      chunks.flatten.length = payload.length ∧
      (Js.string (sha256 chunks.flatten)).same image.sha256 = true

variable (sha256) in
/-- The log has a write of an approved image that was confirmed. -/
def Verified (log : Log) : Prop :=
  ∃ image payload before receipt during rest,
    log = before ++ succeeded (.flashData payload image.offset) receipt :: (during ++ rest) ∧
    (Js.string (sha256 payload)).same image.sha256 = true ∧
    Confirmed sha256 image payload during receipt

lemma Verified.snoc {log : Log} (h : Verified sha256 log) (e : Event Call.Value Err) :
    Verified sha256 (log ++ [e]) := by
  obtain ⟨image, payload, before, receipt, during, rest, rfl, h⟩ := h
  exact ⟨image, payload, before, receipt, during, rest ++ [e], by simp, h⟩

variable (sha256) in
/-- The session is `s`, and its image and device have been checked. -/
def Checked (s : Session) (image : Image) (w : World Session Call.Value Err) : Prop :=
  w.state = s ∧ Qualified sha256 image s.mode s.filesystem w.log

lemma stable_checked (s : Session) (image : Image) : Stable (Checked sha256 s image) :=
  fun _ _ _ h => ⟨h.1, h.2.mono fun _ he => List.mem_append_left _ he⟩

lemma stable_touched (log : Log) : Stable fun w => touched w.log = log :=
  fun _ _ he h => (touched_snoc he.1).trans h

theorem erase_spec (s : Session) (image : Image) :
    Triple (fun w => Open sha256 w ∧ Checked sha256 s image w ∧ touched w.log = [])
      (if s.mode = .install then eraseFilesystem s.filesystem else pure () : Flow Unit)
      (fun _ w => Open sha256 w ∧ Checked sha256 s image w ∧
        touched w.log = erased s.mode s.filesystem)
      (Open sha256) := by
  by_cases hmode : s.mode = .install
  · rw [if_pos hmode]
    cases hfs : s.filesystem with
    | none => exact .fail fun _ hw => hw.1
    | some range =>
      have hchecked : Stable (Checked sha256 s image) := stable_checked s image
      have hR := hchecked.and (stable_touched [])
      have hR' := hchecked.and (stable_touched (erased s.mode s.filesystem))
      refine skip stable_open hR ⟨rfl, by simp⟩ fun _ => ?_
      refine skip stable_open hR (by decide) fun _ => ?_
      have hallowed : ∀ w, Checked sha256 s image w ∧ touched w.log = [] →
          Allowed sha256 w.log (.eraseRegion range.offset range.size) := fun w hw =>
        ⟨hw.2, image, range, by rw [← hmode, ← hfs]; exact hw.1.2, rfl, rfl⟩
      refine .bind (Q := fun _ w => Open sha256 w ∧ Checked sha256 s image w ∧
        touched w.log = erased s.mode s.filesystem) (.call (fun v w hw => ?_) fun e w hw => ?_)
        fun _ => by rw [← hfs]; exact harmless stable_open hR' (by decide)
      · refine ⟨⟨hw.1.1.snoc (by simp) (hallowed w hw.2), hw.1.2⟩,
          ⟨hw.2.1.1, hw.2.1.2.mono fun _ he => List.mem_append_left _ he⟩, ?_⟩
        have htouched := hw.2.2
        simp only [touched] at htouched ⊢
        rw [List.filter_append, htouched, hmode, hfs]
        rfl
      · exact ⟨hw.1.1.snoc (by simp) (hallowed w hw.2), hw.1.2⟩
  · rw [if_neg hmode]
    refine .pure fun w hw => ⟨hw.1, hw.2.1, hw.2.2.trans ?_⟩
    cases hm : s.mode with
    | install => exact absurd hm hmode
    | update => rfl

/-- Behind the write, the reads so far are these chunks. -/
def Reading (s : Session) (before : Log) (write : Event Call.Value Err) (offset : Js)
    (chunks : List Bytes) (w : World Session Call.Value Err) : Prop :=
  w.state = s ∧ ∃ during, w.log = before ++ write :: during ∧
    reads during = laid offset 0 chunks

theorem block_lt {i n total : ℕ} (h : i + (n + 1) = (total + blockBytes - 1) / blockBytes) :
    blockBytes * i < total := by
  have hle := Nat.div_mul_le_self (total + blockBytes - 1) blockBytes
  rw [← h] at hle
  simp only [blockBytes] at hle ⊢
  omega

theorem block_add {i total : ℕ} (h : blockBytes * i < total) :
    blockBytes * i + min blockBytes (total - blockBytes * i) = min (blockBytes * (i + 1)) total := by
  rw [Nat.mul_succ, ← Nat.add_min_add_left, Nat.add_sub_cancel' h.le]

/-- A call that reads nothing. -/
theorem unread {s : Session} {before : Log} {write : Event Call.Value Err} {offset : Js} {chunks : List Bytes}
    {c : Call} (hc : c.Harmless) (hr : ∀ v, reads [succeeded c v] = []) :
    Triple (fun w => Open sha256 w ∧ Reading s before write offset chunks w) (ask c)
      (fun _ w => Open sha256 w ∧ Reading s before write offset chunks w) (Open sha256) := by
  refine .call (fun v w hw => ⟨stable_open w _ hc hw.1, hw.2.1, ?_⟩)
    fun e w hw => stable_open w _ hc hw.1
  obtain ⟨-, -, during, hlog, hreads⟩ := hw
  refine ⟨during ++ [succeeded c v], by rw [hlog]; simp [succeeded], ?_⟩
  have hv := hr v
  simp only [reads] at hreads hv ⊢
  rw [List.filterMap_append, hreads, hv, List.append_nil]

theorem readBlocks_spec {s : Session} {before : Log} {write : Event Call.Value Err} {offset : Js}
    {total : ℕ} (n : ℕ) : ∀ (i : ℕ) (chunks : List Bytes),
    i + n = (total + blockBytes - 1) / blockBytes →
    chunks.flatten.length = min (blockBytes * i) total →
    Triple (fun w => Open sha256 w ∧ Reading s before write offset chunks w)
      (readBlocks offset total (List.range' i n) chunks.flatten)
      (fun data w => Open sha256 w ∧ ∃ chunks, Reading s before write offset chunks w ∧
        data = chunks.flatten ∧ data.length = total)
      (Open sha256) := by
  induction n with
  | zero =>
    intro i chunks hi hlen
    refine .pure fun w hw => ⟨hw.1, chunks, hw.2, rfl, ?_⟩
    simp only [blockBytes] at hi hlen
    omega
  | succ n ih =>
    intro i chunks hi hlen
    have hlt := block_lt hi
    have hstart : chunks.flatten.length = blockBytes * i := hlen.trans (min_eq_left hlt.le)
    rw [List.range'_succ, readBlocks]
    refine .bind (Q := fun v w => Open sha256 w ∧ ∀ chunk, v = some chunk →
      chunk.length = min blockBytes (total - blockBytes * i) →
      Reading s before write offset (chunks ++ [chunk]) w) ?_ fun v => ?_
    · refine .call (fun v w hw => ⟨stable_open w _ ⟨rfl, by simp⟩ hw.1, ?_⟩)
        fun e w hw => stable_open w _ ⟨rfl, by simp⟩ hw.1
      rintro chunk rfl hchunk
      obtain ⟨-, hs, during, hlog, hreads⟩ := hw
      refine ⟨hs, during ++ [succeeded (.readFlash (offsetBy offset (blockBytes * i))
        (.ofNat (min blockBytes (total - blockBytes * i)))) (some chunk)],
        by rw [hlog]; simp [succeeded], ?_⟩
      simp only [reads] at hreads ⊢
      rw [List.filterMap_append, hreads, laid_snoc, Nat.zero_add, hstart, hchunk]
      rfl
    · refine .bind (Q := fun chunk w => chunk.length = min blockBytes (total - blockBytes * i) ∧
        Open sha256 w ∧ Reading s before write offset (chunks ++ [chunk]) w) ?_ fun chunk => ?_
      · refine .lift (fun chunk w hv hw => ?_) fun _ hw => hw.1
        cases v with
        | none => simp at hv
        | some c =>
          simp only at hv
          split_ifs at hv with hc
          obtain rfl : c = chunk := by simpa using hv
          exact ⟨hc, hw.1, hw.2 c rfl hc⟩
      · intro env w hw
        obtain ⟨hchunk, hw⟩ := hw
        have hflat : chunks.flatten ++ chunk = (chunks ++ [chunk]).flatten := by simp
        rw [hflat]
        refine Triple.bind (unread ⟨rfl, by simp⟩ fun _ => rfl) (fun _ => ?_) env w hw
        refine ih (i + 1) (chunks ++ [chunk]) (by rw [← hi, Nat.add_right_comm, Nat.add_assoc]) ?_
        rw [← hflat, List.length_append, hchunk, hstart, block_add hlt]

/-- A validation that passes returns its bytes, and they have the digest of the image. -/
lemma digest_of_valid {image : Image} {bytes : Option Bytes} {mode : Mode} {payload : Bytes}
    (h : validateFirmwareImage sha256 image bytes mode = .ok payload) :
    bytes = some payload ∧ (Js.string (sha256 payload)).same image.sha256 = true := by
  unfold validateFirmwareImage at h
  by_cases hversion : (!image.evMuxVersion.same (.number 4)) = true
  · rw [if_pos hversion] at h
    cases h
  rw [if_neg hversion] at h
  cases bytes with
  | none => cases h
  | some bytes =>
    simp only at h
    by_cases hlen : (!(Js.ofNat bytes.length).same image.bytes) = true
    · rw [if_pos hlen] at h
      cases h
    rw [if_neg hlen] at h
    by_cases hbounds : (!boundsOk image bytes mode) = true
    · rw [if_pos hbounds] at h
      cases h
    rw [if_neg hbounds] at h
    by_cases hdigest : (!(Js.string (sha256 bytes)).same image.sha256) = true
    · rw [if_pos hdigest] at h
      cases h
    rw [if_neg hdigest] at h
    obtain rfl : bytes = payload := by
      by_cases hmode : mode = .install
      · simp only [hmode, if_true] at h
        cases hs : checkSegments sha256 bytes 0
            [image.bootloader, image.partitionTable, image.application] with
        | error e => rw [hs] at h; cases h
        | ok u => rw [hs] at h; exact Except.ok.inj h
      · simp only [if_neg hmode] at h
        exact Except.ok.inj h
    exact ⟨rfl, by simpa using hdigest⟩

/-- What comes behind the write says that it was right. -/
theorem verify_spec {s : Session} {image : Image} {payload : Bytes} {before : Log}
    (install : Bool) (receipt : Option Receipt) :
    Triple
      (fun w => Open sha256 w ∧ w.state = s ∧
        w.log = before ++ [succeeded (.flashData payload image.offset) receipt])
      (verify sha256 image install payload receipt)
      (fun _ w => Open sha256 w ∧ ∃ during,
        w.log = before ++ succeeded (.flashData payload image.offset) receipt :: during ∧
        Confirmed sha256 image payload during receipt)
      (Open sha256) := by
  cases receipt with
  | some receipt =>
    refine .bind (Q := fun _ w => Open sha256 w ∧ ∃ during,
      w.log = before ++ succeeded (.flashData payload image.offset) (some receipt) :: during) ?_
      fun _ => ?_
    · refine .call (fun v w hw => ⟨stable_open w _ ⟨rfl, by simp⟩ hw.1,
        [succeeded (.onPhase _) v], by rw [hw.2.2]; simp [succeeded]⟩)
        fun _ w hw => stable_open w _ ⟨rfl, by simp⟩ hw.1
    · exact .failIf (fun w hok hw => ⟨hw.1, hw.2.imp fun during hlog =>
        ⟨hlog, by simpa [Confirmed] using hok⟩⟩) fun _ hw => hw.1
  | none =>
    refine .bind (Q := fun _ w => Open sha256 w ∧ Reading s before
      (succeeded (.flashData payload image.offset) none) image.offset [] w) ?_ fun _ => ?_
    · refine .pre (unread ⟨rfl, by simp⟩ fun _ => rfl) fun w hw => ⟨hw.1, hw.2.1, [], ?_⟩
      exact ⟨hw.2.2, rfl⟩
    · simp only [List.range_eq_range']
      refine .bind (readBlocks_spec _ 0 [] (by simp) (by simp)) fun data => ?_
      refine .failIf (fun w hok hw => ⟨hw.1, ?_⟩) fun _ hw => hw.1
      obtain ⟨chunks, ⟨-, during, hlog, hreads⟩, rfl, hlen⟩ := hw.2
      exact ⟨during, hlog, chunks, hreads, hlen, by simpa [digestMatches] using hok⟩

variable (sha256) in
/-- The log holds a confirmed write, and no call of it behind `start` has failed. -/
def Done (start log : Log) : Prop :=
  Verified sha256 log ∧ ∃ done, log = start ++ done ∧ ∀ e ∈ done, ¬ e.Failed

/-- The write itself and its verification. -/
theorem write_spec (s : Session) (image : Image) (bytes : Option Bytes) (payload : Bytes)
    (hvalid : validateFirmwareImage sha256 image bytes s.mode = .ok payload) :
    Triple
      (fun w => Open sha256 w ∧ Checked sha256 s image w ∧
        touched w.log = erased s.mode s.filesystem)
      (do
        let receipt ← ask (.flashData payload image.offset)
        verify sha256 image (s.mode = .install) payload receipt)
      (fun _ w => Open sha256 w ∧ Verified sha256 w.log) (Open sha256) := by
  obtain ⟨rfl, hdigest⟩ := digest_of_valid hvalid
  intro env w hw
  obtain ⟨hopen, ⟨hs, hqualified⟩, htouched⟩ := hw
  have hallowed : Allowed sha256 w.log (.flashData payload image.offset) :=
    ⟨image, s.mode, s.filesystem, hqualified, hvalid, rfl, htouched⟩
  have hkeep : ∀ e : Event Call.Value Err, e.call = .flashData payload image.offset →
      Open sha256 { w with log := w.log ++ [e] } := fun e he =>
    ⟨hopen.1.snoc (by simp [he]) (by rw [he]; exact hallowed), hopen.2⟩
  refine Triple.bind (P := (· = w)) (Q := fun receipt w' => Open sha256 w' ∧ w'.state = s ∧
    w'.log = w.log ++ [succeeded (.flashData payload image.offset) receipt]) ?_
    (fun receipt => ?_) env w rfl
  · refine .call (fun v w' hw => ?_) fun e w' hw => ?_
    · subst hw
      exact ⟨hkeep _ rfl, hs, rfl⟩
    · subst hw
      exact hkeep _ rfl
  · refine (verify_spec _ receipt).post fun _ w' hw => ⟨hw.1, ?_⟩
    obtain ⟨-, during, hlog, hconfirmed⟩ := hw
    exact ⟨image, payload, w.log, receipt, during, [], by simp [hlog], hdigest, hconfirmed⟩

/-- `flash` up to the end of the verification. -/
theorem writeFirmware_spec (bytes : Option Bytes) :
    Triple (fun w => Open sha256 w ∧ Ready sha256 w ∧ touched w.log = [])
      (writeFirmware sha256 bytes) (fun _ w => Open sha256 w ∧ Verified sha256 w.log)
      (Open sha256) := by
  have hready : Stable (Ready sha256) := stable_ready
  have hR := hready.and (stable_touched [])
  refine skip stable_open hR (by decide) fun _ => reading fun s => ?_
  cases himage : s.image with
  | none =>
    exact .bind (Q := fun _ _ => False) (.lift (fun _ _ h => by cases h) fun _ hw => hw.1)
      fun _ _ _ h => h.elim
  | some image =>
    refine given fun a ha => given fun payload hvalid => ?_
    obtain rfl : image = a := Except.ok.inj ha
    have hchecked : Stable (Checked sha256 s image) := stable_checked s image
    have hC := hchecked.and (stable_touched [])
    refine .pre (skip stable_open hC (by decide) fun _ => ?_) fun w hw => ?_
    · refine .bind (erase_spec s image) fun _ => ?_
      have hE := hchecked.and (stable_touched (erased s.mode s.filesystem))
      refine skip stable_open hE ⟨rfl, by simp⟩ fun _ => ?_
      refine skip stable_open hE (by decide) fun _ => ?_
      have hrest : Triple (fun w => Open sha256 w ∧ Verified sha256 w.log)
          (do
            ask (.onProgress 100)
            setPhase .verified
            pure image : Flow Image)
          (fun _ w => Open sha256 w ∧ Verified sha256 w.log) (Open sha256) := by
        refine skip stable_open (fun _ e _ h => h.snoc e) ⟨rfl, by simp⟩ fun _ => ?_
        exact .bind (Q := fun _ w => Open sha256 w ∧ Verified sha256 w.log)
          (.update fun w hw => ⟨⟨hw.1.1, by simp⟩, hw.2⟩) fun _ => .pure fun _ hw => hw
      have hboth := (write_spec s image bytes payload hvalid).bind fun _ => hrest
      rw [bind_assoc] at hboth
      exact hboth
    · obtain ⟨hopen, ⟨⟨image', himage', hq⟩, htouched⟩, rfl⟩ := hw
      rw [himage] at himage'
      obtain rfl : image = image' := Option.some.inj himage'
      exact ⟨hopen, ⟨rfl, hq⟩, htouched⟩

/-- The calls of the reset that may fail behind a verified write. -/
def Call.Resets (c : Call) : Prop :=
  match c with
  | .readRegister _ => True
  | .writeRegister _ _ _ => True
  | .reset => True
  | _ => False

lemma Call.Resets.harmless {c : Call} (h : c.Resets) : c.Harmless := by
  cases c <;> first | exact h.elim | exact ⟨rfl, by simp⟩

variable (sha256) in
/-- Behind `start` come calls without a failure, with a confirmed write, and then calls whose
failures are calls of the reset and come only if `p`. -/
def Since (start : Log) (p : Prop) (log : Log) : Prop :=
  ∃ done last, log = start ++ done ++ last ∧ (∀ e ∈ done, ¬ e.Failed) ∧
    Verified sha256 (start ++ done) ∧ ∀ e ∈ last, e.Failed → e.call.Resets ∧ p

lemma Since.snoc {start log : Log} {p : Prop} (h : Since sha256 start p log)
    {e : Event Call.Value Err} (he : e.Failed → e.call.Resets ∧ p) :
    Since sha256 start p (log ++ [e]) := by
  obtain ⟨done, last, rfl, hdone, hverified, hlast⟩ := h
  refine ⟨done, last ++ [e], by simp, hdone, hverified, fun x hx => ?_⟩
  rcases List.mem_append.mp hx with hx | hx
  · exact hlast x hx
  · rw [List.mem_singleton.mp hx]
    exact he

lemma Since.mono {start log : Log} {p q : Prop} (h : Since sha256 start p log) (hpq : p → q) :
    Since sha256 start q log := by
  obtain ⟨done, last, hlog, hdone, hverified, hlast⟩ := h
  exact ⟨done, last, hlog, hdone, hverified, fun e he hf => (hlast e he hf).imp_right hpq⟩

lemma grown_since (start : Log) (p : Prop) : Grown (Since sha256 start p) :=
  fun _ _ he h => h.snoc fun hf => absurd hf he

variable {start : Log}

/-- A call that must succeed. -/
theorem needed {p : Prop} {c : Call} (hc : c.Harmless) :
    Triple (fun w => Open sha256 w ∧ Since sha256 start p w.log) (ask c)
      (fun _ w => Open sha256 w ∧ Since sha256 start p w.log) (Open sha256) :=
  .call (fun v w hw => ⟨stable_open w _ hc hw.1, grown_since start p _ _ (not_failed c v) hw.2⟩)
    fun _ w hw => stable_open w _ hc hw.1

/-- A call of the reset. -/
theorem resetting {c : Call} (hc : c.Resets) :
    Triple (fun w => Open sha256 w ∧ Since sha256 start False w.log) (ask c)
      (fun _ w => Open sha256 w ∧ Since sha256 start False w.log)
      (fun w => Open sha256 w ∧ Since sha256 start True w.log) :=
  .call (fun v w hw => ⟨stable_open w _ hc.harmless hw.1,
      grown_since start False _ _ (not_failed c v) hw.2⟩)
    fun _ w hw => ⟨stable_open w _ hc.harmless hw.1,
      (hw.2.mono False.elim).snoc fun _ => ⟨hc, trivial⟩⟩

theorem clearDownloadLatch_spec (chipFamily : Js) :
    Triple (fun w => Open sha256 w ∧ Since sha256 start False w.log)
      (clearDownloadLatch chipFamily)
      (fun _ w => Open sha256 w ∧ Since sha256 start False w.log)
      (fun w => Open sha256 w ∧ Since sha256 start True w.log) := by
  have hweak : ∀ w : World Session Call.Value Err, Open sha256 w ∧ Since sha256 start False w.log →
      Open sha256 w ∧ Since sha256 start True w.log := fun _ hw => ⟨hw.1, hw.2.mono False.elim⟩
  unfold clearDownloadLatch
  simp only
  by_cases hchip : (!chipFamily.same (.number 0x3280) && !chipFamily.same (.number 0x3231)) = true
  · rw [if_pos hchip]
    exact .pure fun _ hw => hw
  · rw [if_neg hchip]
    refine .bind (resetting trivial) fun before => ?_
    refine .bind (.lift (Q := fun _ w => Open sha256 w ∧ Since sha256 start False w.log)
      (fun _ _ _ hw => hw) hweak) fun word => ?_
    refine .bind (Q := fun _ w => Open sha256 w ∧ Since sha256 start False w.log) ?_ fun _ => ?_
    · by_cases hword : word &&& 4 ≠ 0
      · rw [if_pos hword]
        exact resetting trivial
      · rw [if_neg hword]
        exact .pure fun _ hw => hw
    · exact .bind (resetting trivial) fun after => .failIf (fun _ _ hw => hw) hweak

theorem resetDevice_spec (image : Image) :
    Triple (fun w => Open sha256 w ∧ Since sha256 start False w.log) (resetDevice image)
      (fun failure w => Open sha256 w ∧ Since sha256 start (failure.isSome = true) w.log)
      (Open sha256) := by
  refine .attempt (Y := fun w => Open sha256 w ∧ Since sha256 start True w.log) ?_ fun e => ?_
  · refine .bind (clearDownloadLatch_spec _) fun _ => .bind (resetting trivial) fun _ => ?_
    exact .pure fun _ hw => ⟨hw.1, hw.2.mono False.elim⟩
  · exact .bind (needed ⟨rfl, by simp⟩) fun _ => .pure fun _ hw => ⟨hw.1, hw.2.mono fun _ => rfl⟩

variable (sha256) in
/-- What a result of `flash` says about the calls behind `start`. -/
def Reported (start : Log) (r : Result) (log : Log) : Prop :=
  r.verified = true ∧ r.needsReset = r.resetError.isSome ∧
    Since sha256 start (r.needsReset = true) log

theorem report_spec (failure : Option Err) :
    Triple (fun w => Open sha256 w ∧ Since sha256 start (failure.isSome = true) w.log)
      (report failure) (fun r w => Open sha256 w ∧ Reported sha256 start r w.log)
      (Open sha256) := by
  cases failure with
  | some e => exact .pure fun _ hw => ⟨hw.1, rfl, rfl, hw.2⟩
  | none => exact .bind (needed ⟨rfl, by simp⟩) fun _ => .pure fun _ hw => ⟨hw.1, rfl, rfl, hw.2⟩

lemma careful_if {c : Prop} [Decidable c] {p q : Flow Unit} (hp : Careful p) (hq : Careful q) :
    Careful (if c then p else q) := by
  split_ifs
  · exact hp
  · exact hq

lemma careful_readBlocks (offset : Js) (total : ℕ) (blocks : List ℕ) (readback : Bytes) :
    Careful (readBlocks offset total blocks readback) := by
  induction blocks generalizing readback with
  | nil => exact .pure _
  | cons i rest ih =>
    exact .bind (.call _) fun _ => .bind (.lift _) fun _ => .bind (.call _) fun _ => ih _

lemma careful_verify (image : Image) (install : Bool) (payload : Bytes)
    (receipt : Option Receipt) : Careful (verify sha256 image install payload receipt) := by
  cases receipt with
  | some receipt => exact .bind (.call _) fun _ => .failIf _ _
  | none =>
    exact .bind (.call _) fun _ => .bind (careful_readBlocks _ _ _ _) fun _ => .failIf _ _

/-- `flash` goes on behind no failure, up to the end of the verification. -/
theorem careful_writeFirmware (bytes : Option Bytes) : Careful (writeFirmware sha256 bytes) := by
  have herase : ∀ range, Careful (eraseFilesystem range) := fun range => by
    cases range with
    | none => exact .fail _
    | some range =>
      exact .bind (.call _) fun _ => .bind (.call _) fun _ => .bind (.call _) fun _ => .call _
  refine .bind (.call _) fun _ => .bind .getState fun s => .bind (.lift _) fun image => ?_
  refine .bind (.lift _) fun payload => .bind (.call _) fun _ => ?_
  refine .bind (careful_if (herase _) (.pure ())) fun _ => .bind (.call _) fun _ => ?_
  refine .bind (.call _) fun _ => .bind (.call _) fun receipt => ?_
  refine .bind (careful_verify _ _ _ _) fun _ => .bind (.call _) fun _ => ?_
  exact .bind (.update _) fun _ => .pure _

theorem writeAndReset_spec (bytes : Option Bytes) :
    Triple (fun w => (Open sha256 w ∧ Ready sha256 w ∧ touched w.log = []) ∧ w.log = start)
      (writeAndReset sha256 bytes) (fun r w => Open sha256 w ∧ Reported sha256 start r w.log)
      (Open sha256) := by
  refine .bind (Q := fun _ w => Open sha256 w ∧ Since sha256 start False w.log) ?_ fun image => ?_
  · refine ((writeFirmware_spec bytes).and ((careful_writeFirmware bytes).triple start)).conseq
      (fun w hw => ⟨hw.1, [], by simp [hw.2], by simp⟩) (fun _ w hw => ⟨hw.1.1, ?_⟩)
      fun _ hw => hw.1
    obtain ⟨⟨-, hverified⟩, done, hlog, hfine⟩ := hw
    exact ⟨done, [], by simp [hlog], hfine, hlog ▸ hverified, by simp⟩
  · exact .bind (resetDevice_spec image) fun failure => report_spec failure

/-- `flash` of a session that may flash ends with the loader given up. -/
theorem flash_spec (bytes : Option Bytes) :
    Triple (fun w => (Holding sha256 .connected w ∧ Ready sha256 w) ∧ w.log = start)
      (flash sha256 bytes) (fun r w => Closed sha256 w ∧ Reported sha256 start r w.log)
      (Closed sha256) := by
  refine .bind (.getState (Q := fun s w => s = w.state ∧
    (Holding sha256 .connected w ∧ Ready sha256 w) ∧ w.log = start) fun w hw => ⟨rfl, hw⟩)
    fun s => ?_
  refine .bind (Q := fun _ w => (Holding sha256 .connected w ∧ Ready sha256 w) ∧ w.log = start)
    ?_ fun _ => ?_
  · intro env w hw
    obtain ⟨rfl, hw⟩ := hw
    rw [failIf, if_neg (by simp [hw.1.1.2])]
    exact hw
  refine .bind (Q := fun _ w =>
      (Open sha256 w ∧ Ready sha256 w ∧ touched w.log = []) ∧ w.log = start)
    (.update fun w hw => ⟨⟨⟨hw.1.1.1.1, by simp⟩, hw.1.2, hw.1.1.1.2⟩, hw.2⟩) fun _ => ?_
  refine .andFinally (M := fun r w => Open sha256 w ∧ Reported sha256 start r w.log)
    (Y := Open sha256) (.attempt (writeAndReset_spec bytes) fun e => ?_) (fun r => ?_) ?_
  · exact .bind (Q := fun _ => Open sha256) (.update fun w hw => ⟨hw.1, by simp⟩)
      fun _ => .fail fun _ hw => hw
  · exact disconnect_spec fun log e he h => ⟨h.1, h.2.1, grown_since start _ log e he h.2.2⟩
  · exact (disconnect_spec (F := fun _ => True) fun _ _ _ h => h).conseq
      (fun w hw => ⟨hw, trivial⟩) (fun _ _ hw => hw.1) fun _ hw => hw

end Flash

end EspVision.Firmware
