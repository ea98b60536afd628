import EspVision.PluginBundle

/-!
# What the bundle hash determines

The hash is taken over paths and contents that each end in a NUL byte. A content may hold NUL bytes
itself, so the bytes determine the files only together with the number of NUL bytes in each of them.
-/
namespace EspVision.PluginBundle
open Host (Value)
open LenientJson (ascii)
open PlainObject (Text units)

/-! ## Separated fields -/

section Separated

variable {β : Type} [DecidableEq β] {sep : β} {x y a b : List β}

/-- The end of a field is where its separators are used up. -/
theorem append_separator_inj (h : x ++ sep :: a = y ++ sep :: b) (hc : x.count sep = y.count sep) :
    x = y ∧ a = b := by
  induction x generalizing y with
  | nil =>
    cases y with
    | nil => exact ⟨rfl, (List.cons.inj h).2⟩
    | cons u y =>
      rw [← (List.cons.inj h).1, List.count_cons_self] at hc
      cases hc
  | cons u x ih =>
    cases y with
    | nil =>
      rw [(List.cons.inj h).1, List.count_cons_self] at hc
      cases hc
    | cons v y =>
      obtain ⟨rfl, htail⟩ := List.cons.inj h
      obtain ⟨rfl, rfl⟩ := ih htail (by
        rw [List.count_cons, List.count_cons] at hc
        exact Nat.add_right_cancel hc)
      exact ⟨rfl, rfl⟩

end Separated

/-! ## The input of the hash -/

/-- The numbers of NUL bytes in the contents, file for file. -/
def nulCounts (files : List (FileName × Bytes)) : List ℕ := files.map fun f => f.2.count 0

theorem hashInput_cons (f : FileName × Bytes) (files : List (FileName × Bytes)) :
    hashInput (f :: files) = f.1.1 ++ 0 :: (f.2 ++ 0 :: hashInput files) := by
  simp [hashInput]

theorem hashInput_inj {files files' : List (FileName × Bytes)}
    (h : hashInput files = hashInput files') (hc : nulCounts files = nulCounts files') :
    files = files' := by
  induction files generalizing files' with
  | nil =>
    cases files' with
    | nil => rfl
    | cons f' files' => cases hc
  | cons f files ih =>
    cases files' with
    | nil => cases hc
    | cons f' files' =>
      obtain ⟨hcount, hcounts⟩ := List.cons.inj hc
      rw [hashInput_cons, hashInput_cons] at h
      have hpath : f.1.1.count 0 = f'.1.1.count 0 := by
        rw [List.count_eq_zero.mpr f.1.2, List.count_eq_zero.mpr f'.1.2]
      obtain ⟨hname, h⟩ := append_separator_inj h hpath
      obtain ⟨hcontent, h⟩ := append_separator_inj h hcount
      rw [ih h hcounts, Prod.ext (Subtype.ext hname) hcontent]

/-- Of files with the same hash input, equal ones are those with equal NUL counts. -/
theorem hashInput_eq_iff {files files' : List (FileName × Bytes)}
    (h : hashInput files = hashInput files') :
    files = files' ↔ nulCounts files = nulCounts files' :=
  ⟨fun he => he ▸ rfl, hashInput_inj h⟩

theorem nulCounts_eq_replicate {files : List (FileName × Bytes)}
    (h : ∀ f ∈ files, (0 : UInt8) ∉ f.2) : nulCounts files = List.replicate files.length 0 := by
  refine List.eq_replicate_iff.mpr ⟨by simp [nulCounts], fun n hn => ?_⟩
  obtain ⟨f, hf, rfl⟩ := List.mem_map.mp hn
  exact List.count_eq_zero.mpr (h f hf)

theorem count_hashInput (files : List (FileName × Bytes)) :
    (hashInput files).count 0 = (nulCounts files).sum + 2 * files.length := by
  induction files with
  | nil => rfl
  | cons f files ih =>
    rw [hashInput_cons, List.count_append, List.count_cons_self, List.count_append,
      List.count_cons_self, ih, List.count_eq_zero.mpr f.1.2]
    simp only [nulCounts, List.map_cons, List.sum_cons, List.length_cons]
    omega

/-- Without NUL bytes in the contents, the hash input determines the files. -/
theorem hashInput_inj_of_no_nul {files files' : List (FileName × Bytes)}
    (h : hashInput files = hashInput files') (hfiles : ∀ f ∈ files, (0 : UInt8) ∉ f.2)
    (hfiles' : ∀ f ∈ files', (0 : UInt8) ∉ f.2) : files = files' := by
  refine hashInput_inj h ?_
  have hcount := congrArg (List.count 0) h
  rw [count_hashInput, count_hashInput, nulCounts_eq_replicate hfiles,
    nulCounts_eq_replicate hfiles', List.sum_replicate, List.sum_replicate, smul_zero,
    smul_zero] at hcount
  rw [nulCounts_eq_replicate hfiles, nulCounts_eq_replicate hfiles']
  congr 1
  omega

/-! ## Accepted targets -/

variable {P : Platform}

theorem except_bind_ok {α β ε : Type} {x : Except ε α} {f : α → Except ε β} {b : β}
    (h : x >>= f = .ok b) : ∃ a, x = .ok a ∧ f a = .ok b := by
  cases x with
  | error e => cases h
  | ok a => exact ⟨a, rfl, h⟩

/-- The hash that `validatePayload` returns is the hash of the files that it collected. -/
theorem validatePayload_ok {root : Node} {version : Text} {files : List PayloadFile} {hash : Bytes}
    (h : validatePayload P root version = .ok (files, hash)) :
    collectPayload P root = .ok files ∧ hash = calculateBundleHash P files := by
  unfold validatePayload at h
  obtain ⟨collected, hcollect, h⟩ := except_bind_ok h
  obtain ⟨_, _, h⟩ := except_bind_ok h
  obtain ⟨rfl, rfl⟩ := Prod.mk.inj (Except.ok.inj h)
  exact ⟨hcollect, rfl⟩

theorem refuseIf_ok {c : Bool} {message : Bytes} {code : Code} {u : Unit}
    (h : refuseIf c message code = .ok u) : c = false := by
  unfold refuseIf at h
  split_ifs at h with hc
  · exact absurd h (by simp [fail])
  · exact Bool.not_eq_true _ ▸ hc

/-- An accepted target is a directory whose payload has the hash of the package. -/
theorem installedTargetState_ok {target : Node} {place : Bytes} {expected : PackageInfo}
    (h : installedTargetState P (some target) place expected = .ok true) :
    ∃ files, validatePayload P target expected.version = .ok (files, expected.bundleHash) := by
  unfold installedTargetState at h
  cases target with
  | directory children =>
    obtain ⟨marker, _, h⟩ := except_bind_ok h
    obtain ⟨_, _, h⟩ := except_bind_ok h
    obtain ⟨⟨files, hash⟩, hvalid, h⟩ := except_bind_ok h
    obtain ⟨_, hrefuse, _⟩ := except_bind_ok h
    have hhash : hash = expected.bundleHash := by simpa using (Bool.or_eq_false_iff.mp
      (refuseIf_ok hrefuse)).2
    exact ⟨files, hhash ▸ hvalid⟩
  | file mode content => cases h
  | symlink target => cases h
  | other => cases h

/-- What makes a directory an accepted target. -/
theorem installedTargetState_accepts {children : List (FileName × Node)} {version : Text}
    {hash : Bytes} {marker : Value} {files : List PayloadFile} (place : Bytes)
    (hmarker : ∀ missing invalid, readMarker P (.directory children) missing invalid = .ok marker)
    (hname : isText (property marker "name") packageName = true)
    (hversion : isText (property marker "version") version = true)
    (hhash : isText (property marker "bundleHash") (hash.map UInt8.toUInt16) = true)
    (hvalid : validatePayload P (.directory children) version = .ok (files, hash)) :
    installedTargetState P (some (.directory children)) place ⟨version, hash⟩ = .ok true := by
  simp [installedTargetState, hmarker, hname, hversion, hhash, hvalid, refuseIf, bind, Except.bind,
    pure, Except.pure]

lemma isText_string (t : Text) : isText (.string t) t = true := by
  simp [isText]

/-- The payload of an accepted target is that of the package, path for path and byte for byte, just
when its files have as many NUL bytes as those of the package, file for file; bundle hashes and
artifact hashes agree on other files too, and determine files without NUL bytes. -/
theorem accepted_iff (P : Platform) (hsha : Function.Injective P.sha256) :
    (∀ package target version place files hash,
      validatePayload P package version = .ok (files, hash) →
      installedTargetState P (some target) place ⟨version, hash⟩ = .ok true →
      ∃ installed, collectPayload P target = .ok installed ∧
        (installed.map PayloadFile.entry = files.map PayloadFile.entry ↔
          nulCounts (installed.map PayloadFile.entry) = nulCounts (files.map PayloadFile.entry))) ∧
    (∀ files files', calculateBundleHash P files = calculateBundleHash P files' →
      (files.map PayloadFile.entry = files'.map PayloadFile.entry ↔
        nulCounts (files.map PayloadFile.entry) = nulCounts (files'.map PayloadFile.entry))) ∧
    (∀ artifacts artifacts',
      hashWorkbuddyArtifacts P artifacts = hashWorkbuddyArtifacts P artifacts' →
      (sortBy P Prod.fst artifacts = sortBy P Prod.fst artifacts' ↔
        nulCounts (sortBy P Prod.fst artifacts) = nulCounts (sortBy P Prod.fst artifacts'))) := by
  refine ⟨fun package target version place files hash hpackage haccept => ?_,
    fun files files' h => hashInput_eq_iff (hsha h),
    fun artifacts artifacts' h => hashInput_eq_iff (hsha h)⟩
  obtain ⟨installed, hinstalled⟩ := installedTargetState_ok haccept
  obtain ⟨hcollect, hhash⟩ := validatePayload_ok hinstalled
  refine ⟨installed, hcollect, hashInput_eq_iff (hsha ?_)⟩
  exact hhash.symm.trans (validatePayload_ok hpackage).2

/-! ## A target that differs from its package -/

def text (s : String) : Value := .string (units s)

def manifest (name : String) : Value :=
  .object [(units "name", text name), (units "version", text "1.0.0")]

def catalog (source : Value) : Value :=
  .object [(units "name", text "esp-vision"), (units "plugins", .array [.object
    [(units "name", text "esp-vision"), (units "source", source)]])]

def servers (type : String) : Value :=
  .object [(units "mcpServers", .object [(units "esp-vision-knowledge", .object
    [(units "type", text type), (units "url", text "https://mcp.vision.espressif.com/mcp")])])]

/-- A tree with the text of a document, or with one byte, in each file. -/
def document (value : Value) : Node := .file 0o644 ((Host.jsonText value).getD [])
def small : Node := .file 0o644 [0x78]

/-- A bundle with these license files, and a marker where it is installed. -/
def bundle (licenses marker : List (FileName × Node)) : Node :=
  .directory ([
    (fileName ".agents", .directory [(fileName "plugins", .directory [
      (fileName "marketplace.json", document (catalog (.object
        [(units "source", text "local"), (units "path", text "./")])))])]),
    (fileName ".claude-plugin", .directory [
      (fileName "marketplace.json", document (catalog (text "./"))),
      (fileName "plugin.json", document (manifest "esp-vision"))]),
    (fileName ".mcp.json", document (servers "http")),
    (fileName "assets", .directory [(fileName "esp-vision-logo.png", small)]),
    (fileName "DEVICE_CORE_NOTICE.md", small), (fileName "LICENSE", small),
    (fileName "README.md", small), (fileName "THIRD_PARTY_NOTICES.md", small),
    (fileName "mcp.json", document (servers "streamable-http")),
    (fileName "plugin.json", document (manifest "esp-vision")),
    (fileName "cli", .directory [(fileName "device-cli.mjs", small),
      (fileName "node_serial.py", small), (fileName "node_rom.py", small),
      (fileName "licenses", .directory licenses)]),
    (fileName "skills", .directory [(fileName "esp-vision-development", .directory [
      (fileName "SKILL.md", small),
      (fileName "references", .directory [(fileName "application-workflow.md", small)])])]),
    (fileName "workbuddy", .directory [(fileName "mcp.json", document (servers "streamableHttp")),
      (fileName "README.md", small)]),
    (fileName "package.json", document (manifest "@esp-vision/plugin"))] ++ marker)

def twoLicenses : List (FileName × Node) :=
  [(fileName "a", .file 0o644 [0x31]), (fileName "b", .file 0o644 [0x32])]

/-- The second license inside the first one. -/
def oneLicense : List (FileName × Node) :=
  [(fileName "a", .file 0o644 ([0x31, 0] ++ ascii "cli/licenses/b" ++ [0, 0x32]))]

def collationKey (u : UInt8) : UInt8 :=
  if u = 0x5f then 0x2c else if 0x41 ≤ u ∧ u ≤ 0x5a then u + 0x20 else u

/-- The collation order of these names. -/
def keysLe : Bytes → Bytes → Bool
  | [], _ => true
  | _ :: _, [] => false
  | u :: x, v :: y =>
    if collationKey u = collationKey v then keysLe x y else collationKey u < collationKey v

/-- A platform that parses these documents. -/
def demo (marker : Value) : Platform where
  parseJson b := ([catalog (.object [(units "source", text "local"), (units "path", text "./")]),
    catalog (text "./"), manifest "esp-vision", manifest "@esp-vision/plugin", servers "http",
    servers "streamable-http", servers "streamableHttp", marker]).find? fun v =>
      Host.jsonText v = some b
  localeLe a b := keysLe a.1 b.1
  sha256 b := b

/-- The digest of both bundles. -/
def demoHash : Bytes :=
  match collectPayload (demo .null) (bundle twoLicenses []) with
  | .ok files => calculateBundleHash (demo .null) files
  | .error _ => []

/-- The marker of an installed bundle. -/
def demoMarker : Value :=
  .object [(units "name", text "@esp-vision/plugin"), (units "version", text "1.0.0"),
    (units "bundleHash", .string (demoHash.map UInt8.toUInt16))]

/-- The target, and how the installer sees package and target. -/
def demoTarget : Node := bundle oneLicense [(installMarker, document demoMarker)]

/-- Two payloads with the hash of the demo and different numbers of files. -/
def collide : Except Failure (List PayloadFile × Bytes) →
    Except Failure (List PayloadFile × Bytes) → Bool
  | .ok (files, hash), .ok (installed, hash') =>
    decide (hash = demoHash) && decide (hash' = demoHash) &&
      decide (installed.length ≠ files.length)
  | _, _ => false

lemma collide_spec {package target : Except Failure (List PayloadFile × Bytes)}
    (h : collide package target = true) : ∃ files installed, package = .ok (files, demoHash) ∧
      target = .ok (installed, demoHash) ∧ installed.length ≠ files.length := by
  unfold collide at h
  split at h
  · rename_i files hash installed hash'
    simp only [Bool.and_eq_true, decide_eq_true_eq] at h
    exact ⟨files, installed, by rw [h.1.1], by rw [h.1.2], h.2⟩
  · cases h

lemma demo_collide :
    collide (validatePayload (demo demoMarker) (bundle twoLicenses []) (units "1.0.0"))
      (validatePayload (demo demoMarker) demoTarget (units "1.0.0")) = true := by
  decide +kernel

/-- The marker is told from the other documents by its text. -/
lemma demo_parseJson {content : Bytes} (h : Host.jsonText demoMarker = some content) :
    (demo demoMarker).parseJson content = some demoMarker := by
  have hother : ([catalog (.object [(units "source", text "local"), (units "path", text "./")]),
      catalog (text "./"), manifest "esp-vision", manifest "@esp-vision/plugin", servers "http",
      servers "streamable-http", servers "streamableHttp"].all fun other =>
        decide (Host.jsonText other ≠ Host.jsonText demoMarker)) = true := by
    decide +kernel
  simp only [List.all_cons, List.all_nil, Bool.and_true, Bool.and_eq_true, decide_eq_true_eq,
    h] at hother
  simp [demo, h, hother]

/-- A last child is found if no other child has its name. -/
lemma lstat_last {name : FileName} {children : List (FileName × Node)} (node : Node)
    (h : ∀ c ∈ children, c.1 ≠ name) :
    (Node.directory (children ++ [(name, node)])).lstat [name] = some node := by
  have hnone : children.find? (fun c => c.1 = name) = none :=
    List.find?_eq_none.mpr fun c hc => by
      rw [decide_eq_true_eq]
      exact h c hc
  simp [Node.lstat, Node.follow, childOf, List.find?_append, hnone]

lemma demo_lstat : demoTarget.lstat [installMarker] = some (document demoMarker) :=
  lstat_last _ (by decide +kernel)

lemma readMarker_file {target : Node} {mode : ℕ} {content : Bytes} {marker : Value}
    (hlstat : target.lstat [installMarker] = some (.file mode content))
    (hparse : P.parseJson content = some marker) (missing invalid : Bytes) :
    readMarker P target missing invalid = .ok marker := by
  have hread : target.readFile [installMarker] = some content := by
    simp [Node.readFile, hlstat, Node.follow]
  rw [readMarker, hlstat]
  simp only [hread, Option.bind_some, hparse]

lemma demo_readMarker (missing invalid : Bytes) :
    readMarker (demo demoMarker) demoTarget missing invalid = .ok demoMarker := by
  obtain ⟨content, htext⟩ : ∃ content, Host.jsonText demoMarker = some content := by
    rw [demoMarker, Host.jsonText]
    exact ⟨_, rfl⟩
  have hdocument : document demoMarker = .file 0o644 content := by
    rw [document, htext, Option.getD_some]
  exact readMarker_file (hdocument ▸ demo_lstat) (demo_parseJson htext) missing invalid

lemma demo_marker : isText (property demoMarker "name") packageName = true ∧
    isText (property demoMarker "version") (units "1.0.0") = true ∧
    isText (property demoMarker "bundleHash") (demoHash.map UInt8.toUInt16) = true := by
  have hbundle : property demoMarker "bundleHash" = .string (demoHash.map UInt8.toUInt16) := rfl
  refine ⟨by decide +kernel, by decide +kernel, ?_⟩
  rw [hbundle]
  exact isText_string _

theorem demo_accepted : ∃ files installed,
    validatePayload (demo demoMarker) (bundle twoLicenses []) (units "1.0.0") =
      .ok (files, demoHash) ∧
    installedTargetState (demo demoMarker) (some demoTarget) [] ⟨units "1.0.0", demoHash⟩ =
      .ok true ∧
    collectPayload (demo demoMarker) demoTarget = .ok installed ∧
    installed.length ≠ files.length := by
  obtain ⟨files, installed, hpackage, htarget, hlength⟩ := collide_spec demo_collide
  refine ⟨files, installed, hpackage, ?_, (validatePayload_ok htarget).1, hlength⟩
  obtain ⟨children, hchildren⟩ : ∃ children, demoTarget = .directory children := ⟨_, rfl⟩
  have hmarker := demo_readMarker
  rw [hchildren] at htarget hmarker ⊢
  exact installedTargetState_accepts [] hmarker demo_marker.1 demo_marker.2.1 demo_marker.2.2
    htarget

/-- A target with one license file in place of two is accepted as the packaged bundle. -/
theorem accepted_other_bundle : ∃ files installed,
    validatePayload (demo demoMarker) (bundle twoLicenses []) (units "1.0.0") =
      .ok (files, demoHash) ∧
    installedTargetState (demo demoMarker) (some demoTarget) [] ⟨units "1.0.0", demoHash⟩ =
      .ok true ∧
    collectPayload (demo demoMarker) demoTarget = .ok installed ∧
    installed.map PayloadFile.entry ≠ files.map PayloadFile.entry := by
  obtain ⟨files, installed, hpackage, haccept, hcollect, hlength⟩ := demo_accepted
  refine ⟨files, installed, hpackage, haccept, hcollect, fun he => hlength ?_⟩
  simpa using congrArg List.length he

theorem accepted_iff_demo : ∃ files installed : List PayloadFile,
    collectPayload (demo demoMarker) demoTarget = .ok installed ∧
      (installed.map PayloadFile.entry = files.map PayloadFile.entry ↔
        nulCounts (installed.map PayloadFile.entry) = nulCounts (files.map PayloadFile.entry)) := by
  obtain ⟨files, _, hpackage, haccept, _⟩ := demo_accepted
  exact ⟨files, (accepted_iff (demo demoMarker) fun _ _ h => h).1 _ _ _ _ _ _ hpackage haccept⟩

end EspVision.PluginBundle
