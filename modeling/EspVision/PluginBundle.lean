import EspVision.HostJson
import EspVision.LenientJson
import EspVision.PlainObject
import Mathlib.Data.List.Sort

/-!
# The plugin bundle and its hash (`installer.mjs`)

Directories are trees. SHA-256, the parser of JSON documents and the order of `localeCompare` are
parameters.
-/
namespace EspVision.PluginBundle
open Host (Value)
open LenientJson (ascii)
open PlainObject (Text units)

abbrev Bytes := List UInt8

/-- The name of a directory entry, or a path of such names with slashes between them. -/
def FileName : Type := {b : Bytes // (0 : UInt8) ∉ b}
  deriving DecidableEq

def fileName (s : String) : FileName := ⟨(ascii s).filter (· ≠ 0), by simp⟩

/-- `${path}/${name}`. -/
def FileName.child (path name : FileName) : FileName :=
  ⟨path.1 ++ 0x2f :: name.1, fun h => by
    rcases List.mem_append.mp h with h | h
    · exact path.2 h
    · exact (List.mem_cons.mp h).elim (by decide) name.2⟩

/-- What stands at a path. A symbolic link leads to something, or to nothing. -/
inductive Node
  | file (mode : ℕ) (content : Bytes)
  | directory (children : List (FileName × Node))
  | symlink (target : Option Node)
  | other

inductive Code
  | invalidBundle | missingAsset | unsafeDirectory | foreignInstall | versionCollision
  /-- An error of the file system. -/
  | system
  deriving DecidableEq

/-- An `InstallerError`: its code and message. -/
structure Failure where
  code : Code
  message : Bytes
  deriving DecidableEq

def fail {α : Type} (message : Bytes) (code : Code) : Except Failure α := .error ⟨code, message⟩

/-- What the installer relies on. -/
structure Platform where
  /-- `JSON.parse` of a text in UTF-8. -/
  parseJson : Bytes → Option Value
  /-- `a.localeCompare(b) <= 0`. -/
  localeLe : FileName → FileName → Bool
  /-- The digest of SHA-256, in hexadecimal. -/
  sha256 : Bytes → Bytes

/-! ## Paths -/

def childOf (children : List (FileName × Node)) (name : FileName) : Option Node :=
  (children.find? fun c => c.1 = name).map Prod.snd

/-- A node without the links that lead to it, as many as there are. -/
def Node.follow : Node → Option Node
  | .symlink none => none
  | .symlink (some target) => target.follow
  | node => some node

/-- `lstat`: links are followed in all components but the last. -/
def Node.lstat (root : Node) : List FileName → Option Node
  | [] => some root
  | name :: rest =>
    match root.follow with
    | some (.directory children) =>
      match childOf children name with
      | some node => node.lstat rest
      | none => none
    | _ => none

/-- `readFile`. -/
def Node.readFile (root : Node) (path : List FileName) : Option Bytes :=
  match (root.lstat path).bind Node.follow with
  | some (.file _ content) => some content
  | _ => none

def joinPath : List FileName → FileName
  | [] => ⟨[], List.not_mem_nil⟩
  | [name] => name
  | name :: rest => name.child (joinPath rest)

/-! ## The payload -/

/-- `PAYLOAD_ENTRIES`. -/
def payloadEntries : List (List FileName) :=
  [[fileName ".agents", fileName "plugins", fileName "marketplace.json"],
    [fileName ".claude-plugin", fileName "marketplace.json"],
    [fileName ".claude-plugin", fileName "plugin.json"],
    [fileName ".mcp.json"], [fileName "assets"], [fileName "DEVICE_CORE_NOTICE.md"],
    [fileName "LICENSE"], [fileName "README.md"], [fileName "THIRD_PARTY_NOTICES.md"],
    [fileName "mcp.json"], [fileName "plugin.json"], [fileName "cli"], [fileName "skills"],
    [fileName "workbuddy"]]

/-- The files that `collectPayload` requires. -/
def requiredFiles : List FileName :=
  [fileName "assets/esp-vision-logo.png", fileName "cli/device-cli.mjs",
    fileName "cli/node_serial.py", fileName "cli/node_rom.py",
    fileName "skills/esp-vision-development/SKILL.md",
    fileName "skills/esp-vision-development/references/application-workflow.md",
    fileName "workbuddy/mcp.json", fileName "workbuddy/README.md"]

/-- A file of the payload, with what reading it gives. -/
structure PayloadFile where
  path : FileName
  mode : ℕ
  content : Bytes
  deriving DecidableEq

variable (P : Platform)

/-- Sorts by a key, and keeps the order of what compares as equal. -/
def sortBy {α : Type} (key : α → FileName) (items : List α) : List α :=
  items.insertionSort fun a b => P.localeLe (key a) (key b) = true

/-- The files one behind the other, or the first error. -/
def sequence : List (FileName × Except Failure (List PayloadFile)) →
    Except Failure (List PayloadFile)
  | [] => .ok []
  | e :: rest => do
    let files ← e.2
    let more ← sequence rest
    pure (files ++ more)

mutual

/-- `collectRegularFiles`, for what stands at the path. -/
def collectRegularFiles (path : FileName) : Node → Except Failure (List PayloadFile)
  | .symlink _ => fail (ascii "Package asset must not be a symlink: " ++ path.1) .invalidBundle
  | .file mode content =>
    if content = [] then fail (ascii "Package asset is empty: " ++ path.1) .invalidBundle
    else .ok [⟨path, mode, content⟩]
  | .other =>
    fail (ascii "Package asset has an unsupported file type: " ++ path.1) .invalidBundle
  | .directory children => sequence (sortBy P Prod.fst (collectChildren path children))

/-- The files of each child, under its name. -/
def collectChildren (path : FileName) : List (FileName × Node) →
    List (FileName × Except Failure (List PayloadFile))
  | [] => []
  | (name, node) :: rest =>
    (name, collectRegularFiles (path.child name) node) :: collectChildren path rest

end

/-- One entry of the payload. -/
def collectEntry (root : Node) (entry : List FileName) : Except Failure (List PayloadFile) :=
  match root.lstat entry with
  | none => fail (ascii "Required package asset is missing: " ++ (joinPath entry).1) .missingAsset
  | some node => collectRegularFiles P (joinPath entry) node

/-- `collectPayload`. -/
def collectPayload (root : Node) : Except Failure (List PayloadFile) := do
  let collected ← sequence (payloadEntries.map fun e => (joinPath e, collectEntry P root e))
  let files := sortBy P PayloadFile.path collected
  match requiredFiles.find? fun required => !(files.any fun file => file.path = required) with
  | some required =>
    fail (ascii "Required package asset is missing: " ++ required.1) .missingAsset
  | none =>
    if files.any fun file => (ascii "cli/licenses/").isPrefixOf file.path.1 then pure files
    else fail (ascii "The bundled CLI third-party license directory is empty.") .missingAsset

/-- The bytes that `calculateBundleHash` and `hashWorkbuddyArtifacts` feed to the hash. -/
def hashInput (files : List (FileName × Bytes)) : Bytes :=
  files.flatMap fun f => f.1.1 ++ 0 :: f.2 ++ [0]

def PayloadFile.entry (f : PayloadFile) : FileName × Bytes := (f.path, f.content)

/-- `calculateBundleHash`. -/
def calculateBundleHash (files : List PayloadFile) : Bytes :=
  P.sha256 (hashInput (files.map PayloadFile.entry))

/-- `hashWorkbuddyArtifacts`. -/
def hashWorkbuddyArtifacts (artifacts : List (FileName × Bytes)) : Bytes :=
  P.sha256 (hashInput (sortBy P Prod.fst artifacts))

/-! ## Manifests -/

/-- `value[key]`. -/
def property (value : Value) (key : String) : Value :=
  match value with
  | .object members => ((members.find? fun m => m.1 = units key).map Prod.snd).getD .undefined
  | _ => .undefined

def invalid {α : Type} (description : String) : Except Failure α :=
  fail (ascii "The packaged " ++ ascii description ++ ascii " is invalid.") .invalidBundle

/-- `expectObject`. -/
def expectObject (value : Value) (description : String) : Except Failure Value :=
  match value with
  | .object _ => .ok value
  | _ => invalid description

/-- `readJson`. -/
def readJson (root : Node) (path : List FileName) (description : String) : Except Failure Value :=
  match (root.readFile path).bind P.parseJson with
  | some value => .ok value
  | none =>
    fail (ascii "The packaged " ++ ascii description ++ ascii " is missing or invalid.")
      .invalidBundle

/-- `assertEqual`, with a text. -/
def assertEqual (actual : Value) (expected : Text) (description : String) : Except Failure Unit :=
  match actual with
  | .string text => if text = expected then .ok () else invalid description
  | _ => invalid description

/-- The only plugin of a catalog. -/
def onlyPlugin (catalog : Value) (what message : String) : Except Failure Value :=
  match property catalog "plugins" with
  | .array [plugin] => expectObject plugin what
  | _ => fail (ascii message) .invalidBundle

def pluginName : Text := units "esp-vision"
def packageName : Text := units "@esp-vision/plugin"

def validateCodexCatalog (catalog : Value) : Except Failure Unit := do
  let catalog ← expectObject catalog "Codex marketplace catalog"
  assertEqual (property catalog "name") pluginName "Codex marketplace name"
  let plugin ← onlyPlugin catalog "Codex marketplace plugin entry"
    "The packaged Codex marketplace catalog is invalid."
  assertEqual (property plugin "name") pluginName "Codex marketplace plugin name"
  let source ← expectObject (property plugin "source") "Codex marketplace source"
  assertEqual (property source "source") (units "local") "Codex marketplace source type"
  assertEqual (property source "path") (units "./") "Codex marketplace plugin path"

def validateClaudeCatalog (catalog : Value) : Except Failure Unit := do
  let catalog ← expectObject catalog "Claude marketplace catalog"
  assertEqual (property catalog "name") pluginName "Claude marketplace name"
  let plugin ← onlyPlugin catalog "Claude marketplace plugin entry"
    "The packaged Claude marketplace catalog is invalid."
  assertEqual (property plugin "name") pluginName "Claude marketplace plugin name"
  assertEqual (property plugin "source") (units "./") "Claude marketplace plugin path"

/-- A manifest with a name and the version of the package. -/
def validateManifest (manifest : Value) (object : String) (name : Text) (nameIs : String)
    (version : Text) (versionIs : String) : Except Failure Unit := do
  let manifest ← expectObject manifest object
  assertEqual (property manifest "name") name nameIs
  assertEqual (property manifest "version") version versionIs

/-- The configuration of a client names the Knowledge server and no other. -/
def validateServers (config : Value) (object servers alone knowledge transport transportIs url :
    String) : Except Failure Unit := do
  let config ← expectObject config object
  match property config "mcpServers" with
  | .object members =>
    if members.length ≠ 1 then fail (ascii alone) .invalidBundle
    else
      let entry ← expectObject (property (.object members) "esp-vision-knowledge") knowledge
      assertEqual (property entry "type") (units transport) transportIs
      assertEqual (property entry "url") (units "https://mcp.vision.espressif.com/mcp") url
  | _ => invalid servers

/-- The checks of `validatePayload` behind the files: the manifests and the configurations. -/
def validateManifests (root : Node) (version : Text) : Except Failure Unit := do
  match root.lstat [fileName "package.json"] with
  | none => fail (ascii "Required package asset is missing: package.json") .missingAsset
  | some (.file _ _) => pure ()
  | some _ => fail (ascii "The packaged npm manifest must be a regular file.") .invalidBundle
  validateManifest (← readJson P root [fileName "package.json"] "npm package manifest")
    "npm package manifest" packageName "npm package name" version "npm package version"
  validateManifest (← readJson P root [fileName "plugin.json"] "Codex plugin manifest")
    "Codex plugin manifest" pluginName "Codex plugin name" version "Codex plugin version"
  validateManifest (← readJson P root [fileName ".claude-plugin", fileName "plugin.json"]
      "Claude plugin manifest")
    "Claude plugin manifest" pluginName "Claude plugin name" version "Claude plugin version"
  validateCodexCatalog (← readJson P root
    [fileName ".agents", fileName "plugins", fileName "marketplace.json"]
    "Codex marketplace catalog")
  validateClaudeCatalog (← readJson P root [fileName ".claude-plugin", fileName "marketplace.json"]
    "Claude marketplace catalog")
  validateServers (← readJson P root [fileName "mcp.json"] "Codex MCP configuration")
    "Codex MCP configuration" "Codex MCP server list"
    "The packaged Codex MCP configuration must contain only official ESP-VISION Knowledge MCP."
    "Codex Knowledge MCP entry" "streamable-http" "Codex Knowledge MCP transport"
    "Codex Knowledge MCP URL"
  validateServers (← readJson P root [fileName ".mcp.json"] "Claude MCP configuration")
    "Claude MCP configuration" "Claude MCP server list"
    "The packaged Claude MCP configuration must contain only official ESP-VISION Knowledge MCP."
    "Claude Knowledge MCP entry" "http" "Claude Knowledge MCP transport" "Claude Knowledge MCP URL"
  validateServers (← readJson P root [fileName "workbuddy", fileName "mcp.json"]
      "WorkBuddy MCP configuration")
    "WorkBuddy MCP configuration" "WorkBuddy MCP server list"
    "The WorkBuddy MCP configuration must contain only official ESP-VISION Knowledge MCP."
    "WorkBuddy Knowledge MCP entry" "streamableHttp" "WorkBuddy Knowledge MCP transport"
    "WorkBuddy Knowledge MCP URL"

/-- `validatePayload`: the files and the hash. -/
def validatePayload (root : Node) (version : Text) : Except Failure (List PayloadFile × Bytes) := do
  let files ← collectPayload P root
  validateManifests P root version
  pure (files, calculateBundleHash P files)

/-! ## The target directory -/

/-- What the installer knows of its package. -/
structure PackageInfo where
  version : Text
  bundleHash : Bytes

/-- `INSTALL_MARKER`. -/
def installMarker : FileName := fileName ".esp-vision-install.json"

/-- A marker's value is a text. -/
def isText (value : Value) (text : Text) : Bool :=
  match value with
  | .string t => t = text
  | _ => false

/-- The marker in a directory; with the messages for one that is missing or invalid. -/
def readMarker (target : Node) (missing invalid : Bytes) : Except Failure Value :=
  match target.lstat [installMarker] with
  | none => fail missing .foreignInstall
  | some (.file _ _) =>
    match (target.readFile [installMarker]).bind P.parseJson with
    | none => fail invalid .foreignInstall
    | some marker => .ok marker
  | some _ => fail invalid .foreignInstall

/-- Refuses when the condition holds. -/
def refuseIf (c : Bool) (message : Bytes) (code : Code) : Except Failure Unit :=
  if c then fail message code else .ok ()

/-- `installedTargetState`, for what stands at the path `place`: whether the target exists. -/
def installedTargetState (target : Option Node) (place : Bytes) (expected : PackageInfo) :
    Except Failure Bool :=
  match target with
  | none => .ok false
  | some (.symlink _) =>
    fail (ascii "Refusing to replace a symlink at the plugin install path: " ++ place)
      .unsafeDirectory
  | some (.directory children) => do
    let marker ← readMarker P (.directory children)
      (ascii "Refusing to replace an unrecognized directory at the plugin install path: " ++ place)
      (ascii "Refusing to use an invalid installer marker at the plugin install path: " ++ place)
    refuseIf (!isText (property marker "name") packageName ||
        !isText (property marker "version") expected.version)
      (ascii "Refusing to replace a foreign installation at the plugin install path: " ++ place)
      .foreignInstall
    let installed ← validatePayload P (.directory children) expected.version
    refuseIf (!isText (property marker "bundleHash") (expected.bundleHash.map UInt8.toUInt16) ||
        installed.2 ≠ expected.bundleHash)
      (ascii "The existing ESP-VISION " ++ expected.version.map UInt16.toUInt8 ++
        ascii " install differs from this package; it was left unchanged.") .versionCollision
    pure true
  | some _ =>
    fail (ascii "Refusing to replace a foreign file at the plugin install path: " ++ place)
      .foreignInstall

end EspVision.PluginBundle
