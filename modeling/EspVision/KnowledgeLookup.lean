import EspVision.KnowledgePack

/-!
# Lookups in the knowledge pack

What the indexes hold after the constructor, and for which queries a lookup meets a member that the
index inherits instead of an entry.
-/
namespace EspVision.KnowledgePack
open PlainObject
open PlainObject.Object

section Indexes

variable {L : Lowercasing} {d : PackData} {byName : Object (List SymbolRec)}

/-! ## The index by name -/

/-- The keys under which a symbol is stored. -/
def keysOf (L : Lowercasing) (r : SymbolRec) : List Text :=
  if bareName L r.name ≠ L.apply r.name then [L.apply r.name, bareName L r.name]
  else [L.apply r.name]

/-- The symbols with a key. -/
def named (L : Lowercasing) (recs : List SymbolRec) (k : Text) : List SymbolRec :=
  recs.filter fun r => (keysOf L r).contains k

/-- No symbol has an inherited key. -/
def NamesFit (L : Lowercasing) (recs : List SymbolRec) : Prop :=
  ∀ r ∈ recs, ∀ k ∈ keysOf L r, k ∉ objectPrototype

/-- `none` for the empty list. -/
def nonempty (recs : List SymbolRec) : Option (List SymbolRec) :=
  if recs = [] then none else some recs

/-- The index holds these groups of symbols. -/
structure Groups (byName : Object (List SymbolRec)) (group : Text → List SymbolRec) : Prop where
  proto : byName.proto = none
  found : ∀ k, find byName.own k = nonempty (group k)

/-- A group with one more symbol. -/
def extend (group : Text → List SymbolRec) (k : Text) (r : SymbolRec) : Text → List SymbolRec :=
  fun k' => if k' = k then group k ++ [r] else group k'

theorem Groups.push {group : Text → List SymbolRec} (h : Groups byName group) {k : Text}
    (hk : k ∉ objectPrototype) (r : SymbolRec) :
    ∃ byName', pushName byName k r = .ok byName' ∧ Groups byName' (extend group k r) := by
  have hp : k ≠ protoKey := fun he => hk (he ▸ by decide)
  have hset : ∀ recs, recs = group k ++ [r] → Groups (byName.set k recs) (extend group k r) := by
    rintro recs rfl
    refine ⟨by rw [set_proto hp, h.proto], fun k' => ?_⟩
    rw [set_own hp, extend]
    by_cases hk' : k' = k
    · rw [hk', find_store_self, if_pos rfl, nonempty, if_neg (by simp)]
    · rw [find_store_ne (Ne.symm hk'), if_neg hk', h.found]
  unfold pushName Object.get
  rw [h.found, h.proto, nonempty]
  by_cases hnil : group k = []
  · rw [if_pos hnil]
    dsimp only
    rw [if_neg hk]
    exact ⟨_, rfl, hset _ (by rw [hnil, List.nil_append])⟩
  · rw [if_neg hnil]
    exact ⟨_, rfl, hset _ rfl⟩

theorem Groups.push_inherited {group : Text → List SymbolRec} (h : Groups byName group) {k : Text}
    (hk : k ∈ objectPrototype) (hnil : group k = []) (r : SymbolRec) :
    pushName byName k r = .error .typeError := by
  unfold pushName Object.get
  rw [h.found, h.proto, nonempty, if_pos hnil]
  dsimp only
  rw [if_pos hk]

/-- One symbol is stored under its keys. -/
theorem Groups.index {group : Text → List SymbolRec} (h : Groups byName group) {r : SymbolRec}
    (hr : ∀ k ∈ keysOf L r, k ∉ objectPrototype) :
    ∃ byName', indexName L byName r = .ok byName' ∧
      Groups byName' fun k => if (keysOf L r).contains k then group k ++ [r] else group k := by
  unfold keysOf at hr ⊢
  obtain ⟨first, hfirst, hgroups⟩ := h.push (hr (L.apply r.name) (by split_ifs <;> simp)) r
  unfold indexName
  rw [hfirst]
  by_cases hbare : bareName L r.name ≠ L.apply r.name
  · rw [if_pos hbare] at hr
    obtain ⟨second, hsecond, hgroups'⟩ := hgroups.push (hr (bareName L r.name) (by simp)) r
    refine ⟨second, ?_, hgroups'.proto, fun k => ?_⟩
    · show (if _ then _ else _) = _
      rw [if_pos hbare, hsecond]
    · rw [hgroups'.found, if_pos hbare, extend, extend, extend]
      by_cases hk : k = bareName L r.name
      · rw [if_pos hk, if_neg hbare, hk]
        simp
      · rw [if_neg hk]
        by_cases hk' : k = L.apply r.name
        · rw [if_pos hk', hk']
          simp
        · rw [if_neg hk']
          simp [hk, hk']
  · refine ⟨first, ?_, hgroups.proto, fun k => ?_⟩
    · show (if _ then _ else _) = _
      rw [if_neg hbare]
      rfl
    · rw [hgroups.found, if_neg hbare, extend]
      by_cases hk : k = L.apply r.name
      · rw [if_pos hk, hk]
        simp
      · rw [if_neg hk]
        simp [hk]

theorem Groups.index_inherited {group : Text → List SymbolRec} (h : Groups byName group)
    (hgroup : ∀ k ∈ objectPrototype, group k = []) {r : SymbolRec}
    (hr : ¬ ∀ k ∈ keysOf L r, k ∉ objectPrototype) :
    indexName L byName r = .error .typeError := by
  unfold indexName
  by_cases hname : L.apply r.name ∈ objectPrototype
  · rw [h.push_inherited hname (hgroup _ hname)]
    rfl
  · obtain ⟨first, hfirst, hgroups⟩ := h.push hname r
    unfold keysOf at hr
    rw [hfirst]
    by_cases hbare : bareName L r.name ≠ L.apply r.name
    · rw [if_pos hbare] at hr
      have hin : bareName L r.name ∈ objectPrototype := by
        by_contra hnot
        exact hr fun k hk => by
          rcases List.mem_cons.mp hk with rfl | hk
          · exact hname
          · exact (List.mem_singleton.mp hk) ▸ hnot
      show (if _ then _ else _) = _
      rw [if_pos hbare]
      refine hgroups.push_inherited hin ?_ r
      rw [extend, if_neg hbare, hgroup _ hin]
    · rw [if_neg hbare] at hr
      exact absurd (fun k hk => (List.mem_singleton.mp hk) ▸ hname) hr

theorem named_append (recs rest : List SymbolRec) (k : Text) :
    named L (recs ++ rest) k = named L recs k ++ named L rest k := List.filter_append _ _

theorem named_singleton (r : SymbolRec) (k : Text) :
    named L [r] k = if (keysOf L r).contains k then [r] else [] := by
  rw [named, List.filter_cons, List.filter_nil]

theorem named_inherited {recs : List SymbolRec} (h : NamesFit L recs) {k : Text}
    (hk : k ∈ objectPrototype) : named L recs k = [] :=
  List.filter_eq_nil_iff.mpr fun r hr hkey => h r hr k (by simpa using hkey) hk

/-- Behind the symbols so far, the rest is stored, or the constructor throws. -/
theorem index_run (rest : List SymbolRec) : ∀ (recs : List SymbolRec)
    (byName : Object (List SymbolRec)), NamesFit L recs → Groups byName (named L recs) →
    (NamesFit L rest → ∃ byName', rest.foldlM (indexName L) byName = .ok byName' ∧
      Groups byName' (named L (recs ++ rest))) ∧
    (¬ NamesFit L rest → rest.foldlM (indexName L) byName = .error .typeError) := by
  induction rest with
  | nil =>
    intro recs byName _ hgroups
    exact ⟨fun _ => ⟨byName, rfl, by rwa [List.append_nil]⟩, fun h => absurd (by simp [NamesFit]) h⟩
  | cons r rest ih =>
    intro recs byName hrecs hgroups
    by_cases hr : ∀ k ∈ keysOf L r, k ∉ objectPrototype
    · obtain ⟨first, hfirst, hfirstGroups⟩ := hgroups.index hr
      have hstep : Groups first (named L (recs ++ [r])) := by
        refine ⟨hfirstGroups.proto, fun k => ?_⟩
        rw [hfirstGroups.found, named_append, named_singleton]
        split_ifs
        · rfl
        · rw [List.append_nil]
      have hfit : NamesFit L (recs ++ [r]) := fun r' hr' => by
        rcases List.mem_append.mp hr' with h | h
        · exact hrecs r' h
        · exact (List.mem_singleton.mp h) ▸ hr
      have hrun := ih (recs ++ [r]) first hfit hstep
      rw [List.append_assoc, List.singleton_append] at hrun
      rw [List.foldlM_cons, hfirst]
      refine ⟨fun h => hrun.1 fun r' hr' => h r' (List.mem_cons_of_mem _ hr'), fun h => hrun.2 ?_⟩
      intro hrest
      refine h fun r' hr' => ?_
      rcases List.mem_cons.mp hr' with rfl | hr'
      · exact hr
      · exact hrest r' hr'
    · refine ⟨fun h => absurd (h r List.mem_cons_self) hr, fun _ => ?_⟩
      rw [List.foldlM_cons, hgroups.index_inherited (fun k hk => named_inherited hrecs hk) hr]
      rfl

/-! ## The index by id -/

/-- The last symbol whose id has this form in lower case. -/
def lastWith (L : Lowercasing) (d : PackData) (k : Text) : Option SymbolRec :=
  d.records.reverse.find? fun r => L.apply r.id == k

theorem dot_mem_id {r : SymbolRec} (h : r ∈ d.records) : 0x2e ∈ r.id := by
  obtain ⟨m, _, hm⟩ := List.mem_flatMap.mp h
  obtain ⟨s, _, rfl⟩ := List.mem_map.mp hm
  exact List.mem_append_right _ List.mem_cons_self

theorem inherited_no_dot {k : Text} (h : k ∈ objectPrototype) : (0x2e : UInt16) ∉ k := by
  have hall : ∀ k ∈ objectPrototype, (0x2e : UInt16) ∉ k := by decide
  exact hall k h

theorem lastWith_inherited {k : Text} (h : k ∈ objectPrototype) : lastWith L d k = none := by
  refine List.find?_eq_none.mpr fun r hr hkey => inherited_no_dot h ?_
  rw [← beq_iff_eq.mp hkey]
  exact L.dot _ (dot_mem_id (List.mem_reverse.mp hr))

theorem byId_get (k : Text) :
    (ofEntries (fun r => L.apply r.id) d.records).get noField k =
      match lastWith L d k with
      | some s => .entry s
      | none => if k ∈ objectPrototype then .foreign true else .missing := by
  have hproto : (ofEntries (fun r => L.apply r.id) d.records).proto = none := by
    rw [proto_ofEntries]
    exact lastWith_inherited (L := L) (d := d) (by decide)
  have hfind : find (ofEntries (fun r => L.apply r.id) d.records).own k = lastWith L d k := by
    by_cases hp : k = protoKey
    · rw [hp, find_ofEntries_protoKey, lastWith_inherited (by decide)]
    · exact find_ofEntries hp
  unfold Object.get
  rw [hfind, hproto]
  cases lastWith L d k <;> rfl

theorem byName_get (h : Groups byName (named L d.records)) (k : Text) :
    byName.get noField k =
      if named L d.records k = [] then (if k ∈ objectPrototype then .foreign true else .missing)
      else .entry (named L d.records k) := by
  unfold Object.get
  rw [h.found, h.proto, nonempty]
  split_ifs <;> rfl

/-! ## The pack -/

/-- What the constructor leaves. -/
structure Loaded (L : Lowercasing) (d : PackData) (p : Pack) : Prop where
  data : p.data = d
  modules : p.modules = ofEntries Module.name d.modules
  capabilities : p.capabilities = ofEntries Capability.target d.capabilities
  docs : p.docs = ofEntries DocPage.id d.docs
  byId : p.byId = ofEntries (fun r => L.apply r.id) d.records
  byName : Groups p.byName (named L d.records)

theorem load_cases (L : Lowercasing) (mini : MiniSearch) (d : PackData) :
    (NamesFit L d.records ∧ ∃ p, Pack.load L mini d = .ok p ∧ Loaded L d p) ∨
      (¬ NamesFit L d.records ∧ Pack.load L mini d = .error .typeError) := by
  have hempty : Groups ({} : Object (List SymbolRec)) (named L []) := ⟨rfl, fun _ => rfl⟩
  have hrun := index_run d.records [] {} (by simp [NamesFit]) hempty
  unfold Pack.load
  by_cases hfit : NamesFit L d.records
  · obtain ⟨byName, hok, hgroups⟩ := hrun.1 hfit
    rw [hok]
    exact Or.inl ⟨hfit, _, rfl, rfl, rfl, rfl, rfl, rfl, hgroups⟩
  · rw [hrun.2 hfit]
    exact Or.inr ⟨hfit, rfl⟩

end Indexes

section Lookups

variable {L : Lowercasing} {d : PackData} {p : Pack} {target source : Option Text}

/-! ## Candidates -/

theorem Loaded.named_eq (h : Loaded L d p) (k : Text) :
    p.named k = if named L d.records k ≠ [] then .ok ((named L d.records k).map .symbol)
      else if k ∈ objectPrototype then .error .typeError else .ok [] := by
  unfold Pack.named
  rw [byName_get h.byName]
  split_ifs <;> first | rfl | contradiction

/-- The candidates for a query in lower case. -/
theorem Loaded.candidates_eq (h : Loaded L d p) (ql : Text) :
    p.candidates ql =
      match lastWith L d ql with
      | some s => .ok [.symbol s]
      | none =>
        if ql ∈ objectPrototype then .ok [.member]
        else if named L d.records ql ≠ [] then .ok ((named L d.records ql).map .symbol)
        else if 0x2e ∈ ql then p.named (lastPart 0x2e ql)
        else .ok [] := by
  unfold Pack.candidates
  rw [h.byId, byId_get]
  cases lastWith L d ql with
  | some s => rfl
  | none =>
    by_cases hin : ql ∈ objectPrototype
    · simp only [if_pos hin]
      rfl
    · simp only [if_neg hin]
      rw [h.named_eq, if_neg hin]
      by_cases hnil : named L d.records ql = []
      · rw [if_neg (not_not.mpr hnil), if_neg (not_not.mpr hnil)]
        by_cases hdot : (0x2e : UInt16) ∈ ql
        · rw [if_pos hdot]
          show (if _ then _ else _) = _
          rw [if_pos (by simpa using hdot)]
        · rw [if_neg hdot]
          show (if _ then _ else _) = _
          rw [if_neg (by simpa using hdot)]
          rfl
      · rw [if_pos hnil, if_pos hnil]
        show (if _ then _ else _) = _
        rw [if_neg (by simp [hnil])]
        rfl

theorem mem_of_lastWith {k : Text} {s : SymbolRec} (h : lastWith L d k = some s) :
    s ∈ d.records :=
  List.mem_reverse.mp (List.mem_of_find?_eq_some h)

theorem mem_named {k : Text} {s : SymbolRec} :
    s ∈ named L d.records k ↔ s ∈ d.records ∧ k ∈ keysOf L s := by
  rw [named, List.mem_filter, List.contains_iff_mem]

/-- No candidate is found by the id or by the name. -/
theorem unknown_iff {ql : Text} : (lastWith L d ql = none ∧ named L d.records ql = []) ↔
    ¬ ∃ r ∈ d.records, L.apply r.id = ql ∨ ql ∈ keysOf L r := by
  constructor
  · rintro ⟨hid, hname⟩ ⟨r, hr, h | h⟩
    · have hall := List.find?_eq_none.mp hid r (List.mem_reverse.mpr hr)
      simp [h] at hall
    · exact List.not_mem_nil (hname ▸ mem_named.mpr ⟨hr, h⟩)
  · intro h
    refine ⟨List.find?_eq_none.mpr fun r hr hkey => h ⟨r, List.mem_reverse.mp hr, Or.inl ?_⟩,
      List.eq_nil_iff_forall_not_mem.mpr fun r hr => ?_⟩
    · exact beq_iff_eq.mp hkey
    · obtain ⟨hr, hkey⟩ := mem_named.mp hr
      exact h ⟨r, hr, Or.inr hkey⟩

/-- The query in lower case meets an inherited member behind its last full stop. -/
def PartInherited (L : Lowercasing) (d : PackData) (ql : Text) : Prop :=
  0x2e ∈ ql ∧ lastPart 0x2e ql ∈ objectPrototype ∧
    ¬ ∃ r ∈ d.records, L.apply r.id = ql ∨ ql ∈ keysOf L r

/-- What the candidates are: an error, an inherited member, or symbols of the pack. -/
theorem Loaded.candidates_cases (h : Loaded L d p) (hfit : NamesFit L d.records) (ql : Text) :
    (PartInherited L d ql ∧ p.candidates ql = .error .typeError) ∨
    (ql ∈ objectPrototype ∧ ¬ PartInherited L d ql ∧ p.candidates ql = .ok [.member]) ∨
    (ql ∉ objectPrototype ∧ ¬ PartInherited L d ql ∧
      ∃ recs ⊆ d.records, p.candidates ql = .ok (recs.map .symbol)) := by
  rw [h.candidates_eq]
  cases hlast : lastWith L d ql with
  | some s =>
    have hs := mem_of_lastWith hlast
    have hknown : ¬ PartInherited L d ql := fun hp => by
      rw [unknown_iff.mpr hp.2.2 |>.1] at hlast
      cases hlast
    have hin : ql ∉ objectPrototype := fun hin => by
      rw [lastWith_inherited hin] at hlast
      cases hlast
    exact Or.inr (Or.inr ⟨hin, hknown, [s], by simpa using hs, rfl⟩)
  | none =>
    dsimp only
    by_cases hin : ql ∈ objectPrototype
    · rw [if_pos hin]
      exact Or.inr (Or.inl ⟨hin, fun hp => inherited_no_dot hin hp.1, rfl⟩)
    · rw [if_neg hin]
      by_cases hnamed : named L d.records ql = []
      · rw [if_neg (not_not.mpr hnamed)]
        have hunknown := unknown_iff.mp ⟨hlast, hnamed⟩
        by_cases hdot : (0x2e : UInt16) ∈ ql
        · rw [if_pos hdot, h.named_eq]
          by_cases hpart : lastPart 0x2e ql ∈ objectPrototype
          · rw [named_inherited hfit hpart, if_neg (not_not.mpr rfl), if_pos hpart]
            exact Or.inl ⟨⟨hdot, hpart, hunknown⟩, rfl⟩
          · refine Or.inr (Or.inr ⟨hin, fun hp => hpart hp.2.1, ?_⟩)
            by_cases hnil : named L d.records (lastPart 0x2e ql) = []
            · rw [if_neg (not_not.mpr hnil), if_neg hpart]
              exact ⟨[], List.nil_subset _, rfl⟩
            · rw [if_pos hnil]
              exact ⟨_, fun r hr => (mem_named.mp hr).1, rfl⟩
        · rw [if_neg hdot]
          exact Or.inr (Or.inr ⟨hin, fun hp => hdot hp.1, [], List.nil_subset _, rfl⟩)
      · rw [if_pos hnamed]
        refine Or.inr (Or.inr ⟨hin, fun hp => ?_, _, fun r hr => (mem_named.mp hr).1, rfl⟩)
        exact hnamed (unknown_iff.mpr hp.2.2).2

/-! ## Answers -/

/-- The answer holds only entries of the pack. -/
def ApiFine (d : PackData) (p : Pack) (target : Option Target) : Except Thrown ApiResult → Prop
  | .error _ => False
  | .ok (.module view) => ∃ m ∈ d.modules, view = m.view target
  | .ok (.symbol _ found) => ∀ x ∈ found, ∃ s ∈ d.records, x = .symbol (p.symbolView target s)
  | .ok (.notFound _ _) => True

/-- A query whose lookups meet no inherited member, or meet one that the source filters out. -/
def ApiQuery (L : Lowercasing) (d : PackData) (query : Text) (source : Option Text) : Prop :=
  ¬ Inherits Module.field Module.name d.modules (trim query) ∧
    ((∃ m ∈ d.modules, m.name = trim query) ∨
      ¬ PartInherited L d (L.apply (trim query)) ∧
      (L.apply (trim query) ∈ objectPrototype → ∃ u rest, source = some (u :: rest)))

/-- `getApi` when the query is no key of the modules. -/
theorem getApi_unlisted {query : Text} (h : p.modules.get Module.field (trim query) = .missing ∨
      p.modules.get Module.field (trim query) = .foreign false) :
    p.getApi L query target source = (do
      let found ← p.candidates (L.apply (trim query))
      let found := found.filter (fromSource source)
      if found.isEmpty then
        pure (.notFound (trim query)
          ((p.search L (trim query) none none none 5).map SearchHit.ref))
      else pure (.symbol (trim query) (found.map (p.matchView (normalizeTarget L target))))) := by
  unfold Pack.getApi
  dsimp only
  rcases h with h | h <;> rw [h]

theorem Loaded.getApi_fine_iff (h : Loaded L d p) (hfit : NamesFit L d.records) (query : Text) :
    ApiFine d p (normalizeTarget L target) (p.getApi L query target source) ↔
      ApiQuery L d query source := by
  by_cases hm : ∃ m ∈ d.modules, m.name = trim query
  · obtain ⟨m, hm, hname⟩ := hm
    have hget : p.modules.get Module.field (trim query) = .entry m := by
      rw [h.modules, ← hname]
      exact get_ofEntries_of_mem d.modules_nodup hm
    have hans : p.getApi L query target source =
        .ok (.module (m.view (normalizeTarget L target))) := by
      unfold Pack.getApi
      dsimp only
      rw [hget]
      rfl
    rw [hans]
    exact ⟨fun _ => ⟨fun hin => hin.1 m hm hname, Or.inl ⟨m, hm, hname⟩⟩, fun _ => ⟨m, hm, rfl⟩⟩
  · have hnone : ∀ m ∈ d.modules, m.name ≠ trim query := fun m hm' hname => hm ⟨m, hm', hname⟩
    rcases get_ofEntries_of_not_mem Module.field d.modules_nodup hnone with
      ⟨hin, hget⟩ | ⟨hin, hget⟩
    · rw [← h.modules] at hget
      have hans : p.getApi L query target source = .error .typeError := by
        unfold Pack.getApi
        dsimp only
        rw [hget]
        rfl
      rw [hans]
      exact ⟨False.elim, fun hq => hq.1 hin⟩
    · rw [← h.modules] at hget
      rw [getApi_unlisted hget]
      rcases h.candidates_cases hfit (L.apply (trim query)) with
        ⟨hpart, hc⟩ | ⟨hql, hpart, hc⟩ | ⟨hql, hpart, recs, hrecs, hc⟩
      · rw [hc]
        refine ⟨False.elim, fun hq => ?_⟩
        rcases hq.2 with hq | hq
        · exact hm hq
        · exact hq.1 hpart
      · rw [hc]
        rcases source with _ | _ | ⟨u, rest⟩
        · refine ⟨fun hfine => ?_, fun hq => ?_⟩
          · obtain ⟨s, _, hs⟩ := hfine .member List.mem_cons_self
            cases hs
          · rcases hq.2 with hq | hq
            · exact absurd hq hm
            · obtain ⟨u, rest, hs⟩ := hq.2 hql
              cases hs
        · refine ⟨fun hfine => ?_, fun hq => ?_⟩
          · obtain ⟨s, _, hs⟩ := hfine .member List.mem_cons_self
            cases hs
          · rcases hq.2 with hq | hq
            · exact absurd hq hm
            · obtain ⟨u, rest, hs⟩ := hq.2 hql
              cases hs
        · exact ⟨fun _ => ⟨hin, Or.inr ⟨hpart, fun _ => ⟨u, rest, rfl⟩⟩⟩, fun _ => trivial⟩
      · rw [hc]
        refine ⟨fun _ => ⟨hin, Or.inr ⟨hpart, fun hin' => absurd hin' hql⟩⟩, fun _ => ?_⟩
        show ApiFine d p _ (if _ then _ else _)
        split_ifs
        · trivial
        · intro x hx
          obtain ⟨c, hc', rfl⟩ := List.mem_map.mp hx
          obtain ⟨s, hs, rfl⟩ := List.mem_map.mp (List.mem_filter.mp hc').1
          exact ⟨s, hrecs hs, rfl⟩

def SymbolsFine (d : PackData) (module : Text) (target : Option Target) :
    Except Thrown SymbolsResult → Prop
  | .error _ => False
  | .ok (.symbols name source lines) => ∃ m ∈ d.modules, m.name = module ∧ name = m.name ∧
      source = m.source ∧ lines = (symbolsFor target m.symbols).map ApiSymbol.line
  | .ok (.notFound _ _) => True

theorem Loaded.listSymbols_of_mem (h : Loaded L d p) {m : Module} (hm : m ∈ d.modules) :
    p.listSymbols L m.name target = .ok (.symbols m.name m.source
      ((symbolsFor (normalizeTarget L target) m.symbols).map ApiSymbol.line)) := by
  unfold Pack.listSymbols
  rw [h.modules, get_ofEntries_of_mem d.modules_nodup hm]

theorem Loaded.listSymbols_fine_iff (h : Loaded L d p) (module : Text) :
    SymbolsFine d module (normalizeTarget L target) (p.listSymbols L module target) ↔
      ¬ Inherits Module.field Module.name d.modules module := by
  by_cases hm : ∃ m ∈ d.modules, m.name = module
  · obtain ⟨m, hm, rfl⟩ := hm
    rw [h.listSymbols_of_mem hm]
    exact ⟨fun _ hin => hin.1 m hm rfl, fun _ => ⟨m, hm, rfl, rfl, rfl, rfl⟩⟩
  · have hnone : ∀ m ∈ d.modules, m.name ≠ module := fun m hm' hname => hm ⟨m, hm', hname⟩
    unfold Pack.listSymbols
    rw [h.modules]
    rcases get_ofEntries_of_not_mem Module.field d.modules_nodup hnone with
      ⟨hin, hget⟩ | ⟨hin, hget | hget⟩ <;> rw [hget]
    · exact ⟨False.elim, fun hnot => hnot hin⟩
    · exact ⟨fun _ => hin, fun _ => trivial⟩
    · exact ⟨fun _ => hin, fun _ => trivial⟩

def ConceptFine (d : PackData) : ConceptResult → Prop
  | .doc page => page ∈ d.docs
  | .member => False
  | .notFound _ _ => True

/-- A page that is found by the end of its id or by its title. -/
theorem Loaded.concept_fine (h : Loaded L d p) (topic : Text) :
    ConceptFine d (match p.docs.entries.find? fun e : Text × DocPage =>
        (0x2f :: topic).isSuffixOf e.1 || L.apply e.2.title == L.apply topic with
      | some e => .doc e.2
      | none => .notFound topic
        ((p.search L topic none (some (units "doc")) none 5).map SearchHit.ref)) := by
  split
  · rename_i e he
    have hmem := mem_entries.mp (List.mem_of_find?_eq_some he)
    rw [h.docs] at hmem
    exact (mem_ofEntries hmem).1
  · trivial

theorem Loaded.getConcept_fine_iff (h : Loaded L d p) (topic : Text) :
    ConceptFine d (p.getConcept L topic) ↔ ¬ Inherits DocPage.field DocPage.id d.docs topic := by
  unfold Pack.getConcept
  by_cases hm : ∃ page ∈ d.docs, page.id = topic
  · obtain ⟨page, hm, rfl⟩ := hm
    rw [h.docs, get_ofEntries_of_mem d.docs_nodup hm]
    exact ⟨fun _ hin => hin.1 page hm rfl, fun _ => hm⟩
  · have hnone : ∀ page ∈ d.docs, page.id ≠ topic := fun page hm' hid => hm ⟨page, hm', hid⟩
    rcases get_ofEntries_of_not_mem DocPage.field d.docs_nodup hnone with
      ⟨hin, hget⟩ | ⟨hin, hget⟩
    · rw [h.docs, hget]
      exact ⟨False.elim, fun hnot => hnot hin⟩
    · refine ⟨fun _ => hin, fun _ => ?_⟩
      rw [← h.docs] at hget
      rcases hget with hget | hget <;> rw [hget] <;> exact h.concept_fine topic

def CapabilityFine (d : PackData) : CapabilityResult → Prop
  | .target c => c ∈ d.capabilities
  | .member => False
  | .board _ c => c ∈ d.capabilities
  | .notFound _ _ => True

/-- The target that a name stands for is no inherited member. -/
def CapabilityQuery (L : Lowercasing) (d : PackData) (name : Text) : Prop :=
  ∀ t, given (normalizeTarget L (some name)) = some t →
    ¬ Inherits Capability.field Capability.target d.capabilities t.key

/-- A target that is found by one of its boards. -/
theorem Loaded.capability_fine (h : Loaded L d p) (name : Text) :
    CapabilityFine d (match p.capabilities.values.find? fun c => c.boards.contains name with
      | some c => .board name c
      | none => .notFound name p.capabilities.keys) := by
  split
  · rename_i c hc
    have hmem := List.mem_of_find?_eq_some hc
    rw [h.capabilities] at hmem
    exact mem_values_ofEntries hmem
  · trivial

theorem Loaded.getCapabilities_fine_iff (h : Loaded L d p) (name : Text) :
    CapabilityFine d (p.getCapabilities L name) ↔ CapabilityQuery L d name := by
  unfold Pack.getCapabilities CapabilityQuery
  cases hgiven : given (normalizeTarget L (some name)) with
  | none =>
    refine ⟨fun _ t ht => ?_, fun _ => h.capability_fine name⟩
    cases ht
  | some t =>
    dsimp only
    by_cases hm : ∃ c ∈ d.capabilities, c.target = t.key
    · obtain ⟨c, hm, htarget⟩ := hm
      rw [h.capabilities, ← htarget, get_ofEntries_of_mem d.capabilities_nodup hm]
      refine ⟨fun _ t' ht' hin => ?_, fun _ => hm⟩
      rw [← Option.some.inj ht'] at hin
      exact hin.1 c hm htarget
    · have hnone : ∀ c ∈ d.capabilities, c.target ≠ t.key := fun c hm' ht => hm ⟨c, hm', ht⟩
      rcases get_ofEntries_of_not_mem Capability.field d.capabilities_nodup hnone with
        ⟨hin, hget⟩ | ⟨hin, hget⟩
      · rw [h.capabilities, hget]
        exact ⟨False.elim, fun hnot => hnot t rfl hin⟩
      · refine ⟨fun _ t' ht' => Option.some.inj ht' ▸ hin, fun _ => ?_⟩
        rw [← h.capabilities] at hget
        rcases hget with hget | hget <;> rw [hget] <;> exact h.capability_fine name

/-! ## Symbols by their id -/

/-- The matches of an answer include the symbol. -/
def Finds (p : Pack) (s : SymbolRec) (r : Except Thrown ApiResult) : Prop :=
  ∃ q found, r = .ok (.symbol q found) ∧ .symbol (p.symbolView none s) ∈ found

/-- The symbol is the last one with its id in lower case, without white space around it; or there is
none, and it is one of those with the name. -/
def FoundById (L : Lowercasing) (d : PackData) (s : SymbolRec) : Prop :=
  (∀ m ∈ d.modules, m.name ≠ trim s.id) ∧
    (lastWith L d (L.apply (trim s.id)) = some s ∨
      lastWith L d (L.apply (trim s.id)) = none ∧
        (L.apply (trim s.id) ∈ keysOf L s ∨
          named L d.records (L.apply (trim s.id)) = [] ∧
            lastPart 0x2e (L.apply (trim s.id)) ∈ keysOf L s))

theorem mem_dropWhile {u : UInt16} {q : UInt16 → Bool} (hu : q u = false) {t : Text} (h : u ∈ t) :
    u ∈ t.dropWhile q := by
  induction t with
  | nil => cases h
  | cons v t ih =>
    rw [List.dropWhile_cons]
    split_ifs with hv
    · rcases List.mem_cons.mp h with rfl | h
      · rw [hu] at hv
        cases hv
      · exact ih h
    · exact h

theorem mem_trim {u : UInt16} (hu : isSpace u = false) {t : Text} (h : u ∈ t) : u ∈ trim t :=
  List.mem_reverse.mpr (mem_dropWhile hu (List.mem_reverse.mpr (mem_dropWhile hu h)))

theorem field_no_dot {m : Module} {k : Text} {b : Bool} (h : m.field k = some b) :
    (0x2e : UInt16) ∉ k := by
  have hnames : ∀ k ∈ [units "name", units "source", units "targets", units "symbols",
      units "mpVersion"], (0x2e : UInt16) ∉ k := by decide
  refine hnames k ?_
  unfold Module.field at h
  split_ifs at h with h1 h2 h3 h4 h5
  · simp [h1]
  · simp [h2]
  · simp [h3]
  · simp [h4]
  · simp [h5]

theorem not_inherits_dot {k : Text} (hdot : (0x2e : UInt16) ∈ k) :
    ¬ Inherits Module.field Module.name d.modules k := by
  rintro ⟨-, ⟨e, _, _, hf⟩ | ⟨hin, -⟩⟩
  · exact field_no_dot hf hdot
  · exact inherited_no_dot hin hdot

theorem symbolView_inj {target' : Option Target} {s s' : SymbolRec} (hs : s ∈ d.records)
    (hs' : s' ∈ d.records)
    (h : p.symbolView target' s = p.symbolView target' s') : s = s' :=
  List.inj_on_of_nodup_map d.records_nodup hs hs' (congrArg SymbolView.id h)

/-- The candidates without a filter. -/
theorem finds_iff {s : SymbolRec} (hs : s ∈ d.records) {recs : List SymbolRec}
    (hrecs : recs ⊆ d.records)
    (h : p.modules.get Module.field (trim s.id) = .missing ∨
      p.modules.get Module.field (trim s.id) = .foreign false)
    (hc : p.candidates (L.apply (trim s.id)) = .ok (recs.map .symbol)) :
    Finds p s (p.getApi L s.id none none) ↔ s ∈ recs := by
  have hfilter : (recs.map Candidate.symbol).filter (fromSource none) = recs.map .symbol :=
    List.filter_eq_self.mpr fun c hc' => by
      obtain ⟨s', _, rfl⟩ := List.mem_map.mp hc'
      rfl
  rw [getApi_unlisted h, hc]
  show Finds p s
    (if ((recs.map Candidate.symbol).filter (fromSource none)).isEmpty then _ else _) ↔ _
  rw [hfilter]
  split_ifs with hnil
  · refine ⟨?_, fun hmem => ?_⟩
    · rintro ⟨q, found, hans, -⟩
      cases hans
    · rw [List.isEmpty_iff, List.map_eq_nil_iff] at hnil
      exact absurd (hnil ▸ hmem) List.not_mem_nil
  · constructor
    · rintro ⟨q, found, hans, hmem⟩
      rw [← (ApiResult.symbol.inj (Except.ok.inj hans)).2] at hmem
      obtain ⟨c, hc', hview⟩ := List.mem_map.mp hmem
      obtain ⟨s', hs', rfl⟩ := List.mem_map.mp hc'
      exact symbolView_inj (hrecs hs') hs (Match.symbol.inj hview) ▸ hs'
    · intro hmem
      exact ⟨_, _, rfl, List.mem_map_of_mem (List.mem_map_of_mem hmem)⟩

theorem Loaded.finds_iff (h : Loaded L d p) {s : SymbolRec} (hs : s ∈ d.records) :
    Finds p s (p.getApi L s.id none none) ↔ FoundById L d s := by
  have hdot : (0x2e : UInt16) ∈ trim s.id := mem_trim (by decide) (dot_mem_id hs)
  have hdotl := L.dot _ hdot
  have hinl : L.apply (trim s.id) ∉ objectPrototype := fun hin => inherited_no_dot hin hdotl
  unfold FoundById
  by_cases hm : ∃ m ∈ d.modules, m.name = trim s.id
  · obtain ⟨m, hm, hname⟩ := hm
    have hans : p.getApi L s.id none none = .ok (.module (m.view none)) := by
      unfold Pack.getApi
      dsimp only
      rw [h.modules, ← hname, get_ofEntries_of_mem d.modules_nodup hm]
      rfl
    rw [hans]
    refine ⟨?_, fun hall => absurd hname (hall.1 m hm)⟩
    rintro ⟨q, found, hans', -⟩
    cases hans'
  · have hnone : ∀ m ∈ d.modules, m.name ≠ trim s.id := fun m hm' hname => hm ⟨m, hm', hname⟩
    have hget :=
      (get_ofEntries_of_not_mem Module.field d.modules_nodup hnone).resolve_left (fun hin => not_inherits_dot hdot hin.1)
    rw [← h.modules] at hget
    have hc := h.candidates_eq (L.apply (trim s.id))
    cases hlast : lastWith L d (L.apply (trim s.id)) with
    | some s' =>
      rw [hlast] at hc
      have hin : [s'] ⊆ d.records := by simpa using mem_of_lastWith hlast
      rw [KnowledgePack.finds_iff hs hin hget.2 hc]
      constructor
      · intro hmem
        exact ⟨hnone, Or.inl (congrArg some (List.mem_singleton.mp hmem).symm)⟩
      · rintro ⟨-, heq | ⟨heq, -⟩⟩
        · exact List.mem_singleton.mpr (Option.some.inj heq).symm
        · cases heq
    | none =>
      rw [hlast] at hc
      dsimp only at hc
      rw [if_neg hinl] at hc
      have hsplit : (∀ m ∈ d.modules, m.name ≠ trim s.id) ∧
          ((none : Option SymbolRec) = some s ∨ (none : Option SymbolRec) = none ∧
            (L.apply (trim s.id) ∈ keysOf L s ∨ named L d.records (L.apply (trim s.id)) = [] ∧
              lastPart 0x2e (L.apply (trim s.id)) ∈ keysOf L s)) ↔
          (L.apply (trim s.id) ∈ keysOf L s ∨ named L d.records (L.apply (trim s.id)) = [] ∧
            lastPart 0x2e (L.apply (trim s.id)) ∈ keysOf L s) :=
        ⟨fun hall => (hall.2.resolve_left nofun).2, fun hkey => ⟨hnone, Or.inr ⟨rfl, hkey⟩⟩⟩
      rw [hsplit]
      by_cases hnamed : named L d.records (L.apply (trim s.id)) = []
      · rw [if_neg (not_not.mpr hnamed), if_pos hdotl, h.named_eq] at hc
        have hnokey : L.apply (trim s.id) ∉ keysOf L s := fun hkey =>
          List.not_mem_nil (hnamed ▸ mem_named.mpr ⟨hs, hkey⟩)
        by_cases hpart : named L d.records (lastPart 0x2e (L.apply (trim s.id))) = []
        · have hnopart : lastPart 0x2e (L.apply (trim s.id)) ∉ keysOf L s := fun hkey =>
            List.not_mem_nil (hpart ▸ mem_named.mpr ⟨hs, hkey⟩)
          rw [if_neg (not_not.mpr hpart)] at hc
          refine ⟨fun hfinds => ?_, ?_⟩
          · split_ifs at hc with hin
            · obtain ⟨q, found, hans, -⟩ := hfinds
              rw [getApi_unlisted hget.2, hc] at hans
              cases hans
            · have hnil : ([] : List SymbolRec) ⊆ d.records := List.nil_subset _
              rw [KnowledgePack.finds_iff hs hnil hget.2 hc] at hfinds
              cases hfinds
          · rintro (hkey | hkey)
            · exact absurd hkey hnokey
            · exact absurd hkey.2 hnopart
        · rw [if_pos hpart] at hc
          rw [KnowledgePack.finds_iff hs (fun r hr => (mem_named.mp hr).1) hget.2 hc, mem_named]
          exact ⟨fun hmem => Or.inr ⟨hnamed, hmem.2⟩,
            fun hkey => ⟨hs, (hkey.resolve_left hnokey).2⟩⟩
      · rw [if_pos hnamed] at hc
        rw [KnowledgePack.finds_iff hs (fun r hr => (mem_named.mp hr).1) hget.2 hc, mem_named]
        exact ⟨fun hmem => Or.inl hmem.2,
          fun hkey => ⟨hs, hkey.resolve_right fun hnil => hnamed hnil.1⟩⟩

end Lookups

/-! ## The pack as a whole -/

/-- When a pack can be loaded, and for which queries its lookups give entries of the pack. -/
theorem lookups_iff (L : Lowercasing) (mini : MiniSearch) (d : PackData) :
    ((∃ p, Pack.load L mini d = .ok p) ↔ NamesFit L d.records) ∧
    ∀ p, Pack.load L mini d = .ok p →
      (∀ query target source,
        ApiFine d p (normalizeTarget L target) (p.getApi L query target source) ↔
          ApiQuery L d query source) ∧
      (∀ module target,
        SymbolsFine d module (normalizeTarget L target) (p.listSymbols L module target) ↔
          ¬ Inherits Module.field Module.name d.modules module) ∧
      (∀ topic, ConceptFine d (p.getConcept L topic) ↔
        ¬ Inherits DocPage.field DocPage.id d.docs topic) ∧
      (∀ name, CapabilityFine d (p.getCapabilities L name) ↔ CapabilityQuery L d name) ∧
      (∀ s ∈ d.records, Finds p s (p.getApi L s.id none none) ↔ FoundById L d s) ∧
      (∀ m ∈ d.modules, p.listSymbols L m.name none =
        .ok (.symbols m.name m.source (m.symbols.map ApiSymbol.line))) := by
  rcases load_cases L mini d with ⟨hfit, p, hload, h⟩ | ⟨hfit, hload⟩
  · refine ⟨⟨fun _ => hfit, fun _ => ⟨p, hload⟩⟩, fun p' hp' => ?_⟩
    obtain rfl : p = p' := Except.ok.inj (hload.symm.trans hp')
    exact ⟨fun query _ _ => h.getApi_fine_iff hfit query,
      fun module _ => h.listSymbols_fine_iff module,
      h.getConcept_fine_iff, h.getCapabilities_fine_iff, fun s hs => h.finds_iff hs,
      fun m hm => h.listSymbols_of_mem hm⟩
  · refine ⟨⟨fun ⟨p, hp⟩ => ?_, fun hfit' => absurd hfit' hfit⟩, fun p hp => ?_⟩
    · cases hload.symm.trans hp
    · cases hload.symm.trans hp

/-- Lower case of the ASCII letters. -/
def asciiLower : Lowercasing where
  apply t := t.map fun u => if 0x41 ≤ u ∧ u ≤ 0x5a then u + 0x20 else u
  dot _ h := List.mem_map.mpr ⟨0x2e, h, by decide⟩

/-- A pack with one module. -/
def sensorPack : PackData where
  modules := [{
    name := units "sensor"
    source := units "esp-vision"
    symbols := [{
      kind := units "function"
      name := units "snapshot"
      signatures := [units "snapshot()"] }] }]
  modules_nodup := List.nodup_singleton _
  records_nodup := List.nodup_singleton _
  docs_nodup := by decide
  capabilities_nodup := by decide

/-- `getApi("constructor")` throws. -/
theorem getApi_constructor : ∃ p, Pack.load asciiLower (fun _ _ => []) sensorPack = .ok p ∧
    p.getApi asciiLower (units "constructor") none none = .error .typeError :=
  ⟨_, rfl, rfl⟩

end EspVision.KnowledgePack
