import EspVision.HostJson
import EspVision.PlainObject

/-!
# The API knowledge pack (`pack.ts`)

The pack is data of the declared interfaces; its indexes are plain objects. The search library and
the lower-casing of strings are parameters.
-/
namespace EspVision.KnowledgePack
open PlainObject
open PlainObject.Object (ofEntries)

/-- `toLowerCase`: a full stop stays one, and nothing else becomes one. -/
structure Lowercasing where
  apply : Text → Text
  dot : ∀ t, 0x2e ∈ t → 0x2e ∈ apply t

structure Param where
  name : Text
  doc : Option Text
  deriving DecidableEq

structure ApiSymbol where
  kind : Text
  name : Text
  signatures : List Text
  params : Option (List Param) := none
  doc : Option Text := none
  targets : Option (List Text) := none
  aliasOf : Option Text := none

structure Module where
  name : Text
  source : Text
  targets : Option (List Text) := none
  symbols : List ApiSymbol
  mpVersion : Option Text := none

structure DocPage where
  id : Text
  kind : Text
  title : Text
  bodyMd : Option Text := none
  codeBlocks : Option (List Text) := none
  targets : Option (List Text) := none

structure Example where
  path : Text
  title : Text
  code : Text
  modules : Option (List Text) := none
  targets : Option (List Text) := none
  deriving DecidableEq

structure Capability where
  target : Text
  modules : List Text
  boards : List Text
  features : Option (List (Text × EspVision.Host.Value)) := none

/-- `SymbolRec`. -/
structure SymbolRec extends ApiSymbol where
  module : Text
  source : Text
  id : Text

structure Meta where
  version : Option Text := none
  canonicalUrlTemplate : Option Text := none

def Module.record (m : Module) (s : ApiSymbol) : SymbolRec :=
  { s with module := m.name, source := m.source, id := m.name ++ 0x2e :: s.name }

/-- The symbols in the order of the pack. -/
def recordsOf (modules : List Module) : List SymbolRec :=
  modules.flatMap fun m => m.symbols.map m.record

/-- The data of a pack: module names, symbol ids, document ids and targets are distinct. -/
structure PackData where
  info : Meta := {}
  modules : List Module := []
  capabilities : List Capability := []
  docs : List DocPage := []
  examples : List Example := []
  modules_nodup : (modules.map Module.name).Nodup
  records_nodup : ((recordsOf modules).map SymbolRec.id).Nodup
  docs_nodup : (docs.map DocPage.id).Nodup
  capabilities_nodup : (capabilities.map Capability.target).Nodup

def PackData.records (d : PackData) : List SymbolRec := recordsOf d.modules

/-- A text is truthy unless it is empty. -/
def truthy (t : Text) : Bool := !t.isEmpty

/-- The members of a module, and whether they are truthy. -/
def Module.field (m : Module) (k : Text) : Option Bool :=
  if k = units "name" then some (truthy m.name)
  else if k = units "source" then some (truthy m.source)
  else if k = units "targets" then m.targets.map fun _ => true
  else if k = units "symbols" then some true
  else if k = units "mpVersion" then m.mpVersion.map truthy
  else none

def DocPage.field (d : DocPage) (k : Text) : Option Bool :=
  if k = units "id" then some (truthy d.id)
  else if k = units "kind" then some (truthy d.kind)
  else if k = units "title" then some (truthy d.title)
  else if k = units "bodyMd" then d.bodyMd.map truthy
  else if k = units "codeBlocks" then d.codeBlocks.map fun _ => true
  else if k = units "targets" then d.targets.map fun _ => true
  else none

def Capability.field (c : Capability) (k : Text) : Option Bool :=
  if k = units "target" then some (truthy c.target)
  else if k = units "modules" then some true
  else if k = units "boards" then some true
  else if k = units "features" then c.features.map fun _ => true
  else none

/-- An entry that never becomes a prototype. -/
def noField {α : Type} (_ : α) (_ : Text) : Option Bool := none

inductive Thrown
  | typeError
  deriving DecidableEq

/-! ## Targets -/

/-- What `normalizeTarget` returns: a name, or an inherited member of the table of aliases, which
stands for `text` where it is used as a key. -/
inductive Target
  | name (key : Text)
  | member (text : Text)
  deriving DecidableEq

/-- `TARGET_ALIASES`. -/
def targetAliases : Object Text := ⟨[
  (units "esp32p4", units "esp32p4"), (units "esp32-p4", units "esp32p4"),
  (units "p4", units "esp32p4"),
  (units "esp32s3", units "esp32s3"), (units "esp32-s3", units "esp32s3"),
  (units "s3", units "esp32s3"),
  (units "esp32s31", units "esp32s31"), (units "esp32-s31", units "esp32s31"),
  (units "s31", units "esp32s31")], none⟩

/-- `String(member)` for an inherited member. -/
def memberText (k : Text) : Text :=
  if k = protoKey then units "[object Object]"
  else units "function " ++ (if k = units "constructor" then units "Object" else k) ++
    units "() { [native code] }"

def normalizeTarget (L : Lowercasing) : Option Text → Option Target
  | none => none
  | some [] => none
  | some target =>
    let key := (L.apply (trim target)).filter fun u => u != 0x5f && u != 0x20
    match targetAliases.get noField key with
    | .entry name => some (.name name)
    | .missing => some (.name key)
    | .foreign _ => some (.member (memberText key))

/-- `if (target)`, with the target. -/
def given : Option Target → Option Target
  | some (.name []) => none
  | target => target

/-- `(targets ?? []).includes(target)`. -/
def includesTarget (targets : Option (List Text)) : Target → Bool
  | .name key => (targets.getD []).contains key
  | .member _ => false

/-! ## The indexes -/

structure SearchDoc where
  ref : Text
  rtype : Text
  kind : Text
  source : Text
  title : Text
  name : Text
  text : Text
  symId : Option Text
  path : Option Text

/-- The refs that the search library finds, for the documents that were added. -/
abbrev MiniSearch := List SearchDoc → Text → List Text

/-- `Pack`. -/
structure Pack where
  data : PackData
  modules : Object Module
  capabilities : Object Capability
  docs : Object DocPage
  byId : Object SymbolRec
  byName : Object (List SymbolRec)
  mini : Text → List Text
  searchStore : Object SearchDoc

/-- `(byName[key] ??= []).push(rec)`. -/
def pushName (byName : Object (List SymbolRec)) (key : Text) (rec : SymbolRec) :
    Except Thrown (Object (List SymbolRec)) :=
  match byName.get noField key with
  | .entry recs => .ok (byName.set key (recs ++ [rec]))
  | .missing => .ok (byName.set key [rec])
  | .foreign _ => .error .typeError

/-- `s.name.split(".").pop().toLowerCase()`. -/
def bareName (L : Lowercasing) (name : Text) : Text := L.apply (lastPart 0x2e name)

/-- The stores into `byName` for one symbol. -/
def indexName (L : Lowercasing) (byName : Object (List SymbolRec)) (rec : SymbolRec) :
    Except Thrown (Object (List SymbolRec)) := do
  let byName ← pushName byName (L.apply rec.name) rec
  if bareName L rec.name ≠ L.apply rec.name then pushName byName (bareName L rec.name) rec
  else pure byName

def join (parts : List Text) : Text := [(0x20 : UInt16)].intercalate parts

/-- The documents of `buildSearch`. -/
def searchDocs (d : PackData) (docs : Object DocPage) : List SearchDoc :=
  (d.records.map fun s =>
    { ref := units "symbol:" ++ s.id, rtype := units "symbol", kind := s.kind, source := s.source,
      title := s.name, name := s.name,
      text := join [s.id, s.name, join s.signatures, s.doc.getD []], symId := some s.id,
      path := none }) ++
  (docs.values.map fun p =>
    { ref := units "doc:" ++ p.id, rtype := units "doc", kind := p.kind,
      source := units "esp-vision", title := p.title, name := p.title,
      text := p.title ++ 0x20 :: p.bodyMd.getD [], symId := none, path := none }) ++
  d.examples.map fun e =>
    { ref := units "example:" ++ e.path, rtype := units "example", kind := units "example",
      source := units "esp-vision", title := e.title, name := e.title,
      text := e.title ++ 0x20 :: join (e.modules.getD []) ++ 0x20 :: e.code, symId := none,
      path := some e.path }

/-- The constructor. -/
def Pack.load (L : Lowercasing) (mini : MiniSearch) (d : PackData) : Except Thrown Pack := do
  let byName ← d.records.foldlM (indexName L) {}
  let docs := ofEntries DocPage.id d.docs
  let documents := searchDocs d docs
  pure {
    data := d
    modules := ofEntries Module.name d.modules
    capabilities := ofEntries Capability.target d.capabilities
    docs := docs
    byId := ofEntries (fun r => L.apply r.id) d.records
    byName := byName
    mini := mini documents
    searchStore := ofEntries SearchDoc.ref documents }

/-! ## Search -/

structure SearchHit where
  ref : Text
  rtype : Text
  kind : Text
  source : Text
  title : Text
  symbol : Option SymbolRec

/-- A filter that is off when it is absent or empty. -/
def passes (filter : Option Text) (value : Text) : Bool :=
  match filter with
  | none => true
  | some [] => true
  | some wanted => value = wanted

/-- One result of the library, or nothing where it is skipped. -/
def Pack.hit (L : Lowercasing) (p : Pack) (target : Option Target) (kind source : Option Text)
    (ref : Text) : Option SearchHit :=
  match p.searchStore.get noField ref with
  | .entry doc =>
    if passes kind doc.rtype && passes source doc.source then
      let plain : SearchHit := ⟨ref, doc.rtype, doc.kind, doc.source, doc.title, none⟩
      match doc.symId with
      | some symId =>
        if doc.rtype = units "symbol" ∧ truthy symId then
          match p.byId.get noField (L.apply symId) with
          | .entry s =>
            if (given target).all (includesTarget s.targets) then
              some { plain with symbol := some s }
            else none
          | _ => some plain
        else some plain
      | none => some plain
    else none
  | _ => none

/-- `search`. -/
def Pack.search (L : Lowercasing) (p : Pack) (query : Text) (target kind source : Option Text)
    (limit : ℕ) : List SearchHit :=
  ((p.mini query).filterMap (p.hit L (normalizeTarget L target) kind source)).take (max limit 1)

/-! ## Lookups -/

/-- The replacement of a match by a text with `$` patterns. -/
def expand (before matched after : Text) : Text → Text
  | 0x24 :: 0x24 :: rest => 0x24 :: expand before matched after rest
  | 0x24 :: 0x26 :: rest => matched ++ expand before matched after rest
  | 0x24 :: 0x60 :: rest => before ++ expand before matched after rest
  | 0x24 :: 0x27 :: rest => after ++ expand before matched after rest
  | u :: rest => u :: expand before matched after rest
  | [] => []

/-- `t.replace(pattern, replacement)`, behind the units that were passed over. -/
def replaceFrom (pattern replacement before : Text) : Text → Text
  | [] => if pattern = [] then before ++ expand before pattern [] replacement else before
  | u :: rest =>
    if pattern.isPrefixOf (u :: rest) then
      let after := (u :: rest).drop pattern.length
      before ++ expand before pattern after replacement ++ after
    else replaceFrom pattern replacement (before ++ [u]) rest

def replace (pattern : String) (replacement t : Text) : Text :=
  replaceFrom (units pattern) replacement [] t

def Pack.canonical (p : Pack) (s : SymbolRec) : Option Text :=
  match p.data.info.canonicalUrlTemplate with
  | none => none
  | some tmpl =>
    if tmpl = [] ∨ s.source ≠ units "esp-vision" then none
    else some
      (replace "\x7banchor\x7d" (s.aliasOf.getD s.id)
      (replace "\x7bpath\x7d" (units "api-reference/" ++ s.module ++ units ".html")
      (replace "\x7btarget\x7d" ((s.targets.getD [units "generic"]).headD (units "undefined"))
      (replace "\x7bversion\x7d" (p.data.info.version.getD (units "latest"))
      (replace "\x7blang\x7d" (units "en") tmpl)))))

structure SymbolView where
  id : Text
  module : Text
  source : Text
  kind : Text
  name : Text
  signatures : List Text
  params : List Param
  doc : Text
  targets : List Text
  canonicalUrl : Option Text
  aliasOf : Option Text
  available : Option Bool

def Pack.symbolView (p : Pack) (target : Option Target) (s : SymbolRec) : SymbolView where
  id := s.id
  module := s.module
  source := s.source
  kind := s.kind
  name := s.name
  signatures := s.signatures
  params := s.params.getD []
  doc := s.doc.getD []
  targets := s.targets.getD []
  canonicalUrl := p.canonical s
  aliasOf := s.aliasOf.filter truthy
  available := (given target).map (includesTarget s.targets)

/-- A match: a symbol of an index, or a member that the index inherits. -/
inductive Candidate
  | symbol (s : SymbolRec)
  | member

inductive Match
  | symbol (view : SymbolView)
  | member

structure ModuleView where
  name : Text
  source : Text
  targets : List Text
  symbolCount : ℕ
  symbols : List (Text × Text × List Text)
  deriving DecidableEq

inductive ApiResult
  | module (view : ModuleView)
  | symbol (query : Text) (found : List Match)
  | notFound (query : Text) (suggestions : List Text)

/-- The symbols that are there for a target. -/
def symbolsFor (target : Option Target) (symbols : List ApiSymbol) : List ApiSymbol :=
  match given target with
  | none => symbols
  | some t => symbols.filter fun s => includesTarget s.targets t

def Module.view (m : Module) (target : Option Target) : ModuleView :=
  let syms := symbolsFor target m.symbols
  ⟨m.name, m.source, m.targets.getD [], syms.length,
    syms.map fun s => (s.kind, s.name, s.signatures)⟩

/-- `[...(byName[key] ?? [])]`; an inherited member is not iterable. -/
def Pack.named (p : Pack) (key : Text) : Except Thrown (List Candidate) :=
  match p.byName.get noField key with
  | .entry recs => .ok (recs.map .symbol)
  | .missing => .ok []
  | .foreign _ => .error .typeError

/-- The candidates of `getApi`, for a query in lower case. -/
def Pack.candidates (p : Pack) (ql : Text) : Except Thrown (List Candidate) := do
  match p.byId.get noField ql with
  | .entry hit => pure [.symbol hit]
  | .foreign true => pure [.member]
  | _ =>
    let found ← p.named ql
    if found.isEmpty && ql.contains 0x2e then p.named (lastPart 0x2e ql) else pure found

/-- `if (source)`; an inherited member has no `source`. -/
def fromSource (source : Option Text) : Candidate → Bool
  | .symbol s => passes source s.source
  | .member => match source with
    | none => true
    | some wanted => wanted.isEmpty

def Pack.matchView (p : Pack) (target : Option Target) : Candidate → Match
  | .symbol s => .symbol (p.symbolView target s)
  | .member => .member

/-- `getApi`. -/
def Pack.getApi (L : Lowercasing) (p : Pack) (query : Text) (target source : Option Text) :
    Except Thrown ApiResult := do
  let target := normalizeTarget L target
  let q := trim query
  let ql := L.apply q
  match p.modules.get Module.field q with
  | .entry m => pure (.module (m.view target))
  | .foreign true => throw .typeError    -- its `symbols` are undefined
  | _ =>
    let found ← p.candidates ql
    let found := found.filter (fromSource source)
    if found.isEmpty then
      pure (.notFound q ((p.search L q none none none 5).map SearchHit.ref))
    else pure (.symbol q (found.map (p.matchView target)))

inductive CapabilityResult
  | target (c : Capability)
  /-- The members of something that is no capability. -/
  | member
  | board (name : Text) (c : Capability)
  | notFound (query : Text) (knownTargets : List Text)

/-- The key of `capabilities[target]`. -/
def Target.key : Target → Text
  | .name key => key
  | .member text => text

/-- `getCapabilities`. -/
def Pack.getCapabilities (L : Lowercasing) (p : Pack) (name : Text) : CapabilityResult :=
  let direct : Lookup Capability := match given (normalizeTarget L (some name)) with
    | none => .missing
    | some t => p.capabilities.get Capability.field t.key
  match direct with
  | .entry c => .target c
  | .foreign true => .member
  | _ =>
    match p.capabilities.values.find? fun c => c.boards.contains name with
    | some c => .board name c
    | none => .notFound name p.capabilities.keys

structure SymbolLine where
  kind : Text
  name : Text
  signatures : List Text
  doc : Text
  deriving DecidableEq

def ApiSymbol.line (s : ApiSymbol) : SymbolLine :=
  ⟨s.kind, s.name, s.signatures, (s.doc.getD []).take 160⟩

inductive SymbolsResult
  | symbols (module source : Text) (lines : List SymbolLine)
  | notFound (module : Text) (knownModules : List Text)
  deriving DecidableEq

/-- `listSymbols`. -/
def Pack.listSymbols (L : Lowercasing) (p : Pack) (module : Text) (target : Option Text) :
    Except Thrown SymbolsResult :=
  match p.modules.get Module.field module with
  | .entry m =>
    .ok (.symbols module m.source
      ((symbolsFor (normalizeTarget L target) m.symbols).map ApiSymbol.line))
  | .foreign true => .error .typeError
  | _ => .ok (.notFound module p.modules.keys)

inductive ConceptResult
  | doc (page : DocPage)
  /-- A value that is no page. -/
  | member
  | notFound (query : Text) (suggestions : List Text)

/-- `getConcept`. -/
def Pack.getConcept (L : Lowercasing) (p : Pack) (topic : Text) : ConceptResult :=
  match p.docs.get DocPage.field topic with
  | .entry page => .doc page
  | .foreign true => .member
  | _ =>
    let fits := fun e : Text × DocPage =>
      (0x2f :: topic).isSuffixOf e.1 || L.apply e.2.title == L.apply topic
    match p.docs.entries.find? fits with
    | some e => .doc e.2
    | none =>
      .notFound topic ((p.search L topic none (some (units "doc")) none 5).map SearchHit.ref)

end EspVision.KnowledgePack
