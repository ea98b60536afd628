import EspVision.LenientJson
import Mathlib.Data.List.GetD

/-!
# Paths of the application launcher (`ev_launcher_state.c`)

The source of an application lies at `/apps/<slug>/revisions/<hash>/<slug>.py`, on the flash or
under `/sdcard`. The validator works with the C string functions; what it accepts are exactly
the paths that are put together in this way.
-/
namespace EspVision.EvLauncher
open LenientJson (ascii strstr strstr_spec strstr_eq_some FirstAt)

def slash : UInt8 := 0x2F
def dot : UInt8 := 0x2E
def dash : UInt8 := 0x2D
def underscore : UInt8 := 0x5F
def backslash : UInt8 := 0x5C

def isDigit (c : UInt8) : Bool := 0x30 ≤ c && c ≤ 0x39
def isLower (c : UInt8) : Bool := 0x61 ≤ c && c ≤ 0x7A
def isHex (c : UInt8) : Bool := isDigit c || (0x61 ≤ c && c ≤ 0x66)
def isSlugChar (c : UInt8) : Bool := isLower c || isDigit c || c == underscore

def operationIdLen : ℕ := 36
def sourceHashHexLen : ℕ := 64
def sourcePathMax : ℕ := 512

/-! ## The validators -/

/-- `ev_launcher_hex`. -/
def hex (value : List UInt8) (length : ℕ) : Bool := value.length == length && value.all isHex

/-- `ev_launcher_slug`: the first `length` bytes. -/
def slug (start : List UInt8) (length : ℕ) : Bool :=
  if length = 0 ∨ 48 < length then false
  else
    match start with
    | [] => false
    | c :: _ => isLower c && (start.take length).all isSlugChar

/-- `ev_launcher_operation_id`. -/
def operationId (value : List UInt8) : Bool :=
  value.length == operationIdLen &&
    (List.range operationIdLen).all (fun i =>
      if i = 8 ∨ i = 13 ∨ i = 18 ∨ i = 23 then value.getD i 0 == dash
      else isHex (value.getD i 0)) &&
    value.getD 14 0 == 0x34 &&
    (value.getD 19 0 == 0x38 || value.getD 19 0 == 0x39 || value.getD 19 0 == 0x61 ||
      value.getD 19 0 == 0x62)

def flashApps : List UInt8 := ascii "/apps/"
def sdcardApps : List UInt8 := ascii "/sdcard/apps/"
def revisionsWord : List UInt8 := ascii "/revisions/"
def pySuffix : List UInt8 := ascii ".py"

/-- The path behind the directory of the applications. -/
def appOf (path : List UInt8) : Option (List UInt8) :=
  if flashApps.isPrefixOf path then some (path.drop flashApps.length)
  else if sdcardApps.isPrefixOf path then some (path.drop sdcardApps.length)
  else none

/-- `ev_launcher_active_path`. -/
def activePath (path hash : List UInt8) : Bool :=
  if sourcePathMax < path.length ∨ !hex hash sourceHashHexLen ∨
      (strstr [dot, dot] path).isSome ∨ (strstr [slash, slash] path).isSome ∨
      backslash ∈ path then false
  else
    match appOf path with
    | none => false
    | some app =>
      match strstr revisionsWord app with
      | none => false
      | some revisions =>
        let slugLen := app.length - revisions.length
        if !slug app slugLen then false
        else
          let digest := revisions.drop revisionsWord.length
          if digest.length ≠ sourceHashHexLen + 1 + slugLen + 3 ∨
              digest.take sourceHashHexLen ≠ hash ∨
              digest.getD sourceHashHexLen 0 ≠ slash then false
          else
            let filename := digest.drop (sourceHashHexLen + 1)
            filename.take slugLen == app.take slugLen && filename.drop slugLen == pySuffix

/-- `ev_launcher_trial_paths`. -/
def trialPaths (operation runnerPath sourcePath sourceHash : List UInt8) : Bool :=
  if !operationId operation ∨ sourcePathMax < runnerPath.length ∨
      sourcePathMax < sourcePath.length ∨ !hex sourceHash sourceHashHexLen then false
  else
    let flashRoot := ascii "/.esp-vision/staging/" ++ operation ++ [slash]
    let sdRoot := ascii "/sdcard/.esp-vision/staging/" ++ operation ++ [slash]
    let root :=
      if flashRoot.isPrefixOf runnerPath then some flashRoot
      else if sdRoot.isPrefixOf runnerPath then some sdRoot
      else none
    match root with
    | none => false
    | some root =>
      if runnerPath.drop root.length ≠ ascii "runner.py" ∨ !root.isPrefixOf sourcePath then false
      else sourcePath.drop root.length == ascii "candidate.py"

/-! ## What a path is made of -/

/-- A name of an application: at most 48 letters, digits and underscores, a letter first. -/
def IsSlug (s : List UInt8) : Prop :=
  ∃ c rest, s = c :: rest ∧ isLower c = true ∧ rest.length < 48 ∧
    ∀ x ∈ rest, isSlugChar x = true

/-- A hash: 64 lower-case hexadecimal digits. -/
def IsHash (hash : List UInt8) : Prop := hash.length = 64 ∧ ∀ x ∈ hash, isHex x = true

/-- `<apps><slug>/revisions/<hash>/<slug>.py`. -/
def pathOf (apps s hash : List UInt8) : List UInt8 :=
  apps ++ (s ++ (revisionsWord ++ (hash ++ (slash :: (s ++ pySuffix)))))

theorem hex_iff {hash : List UInt8} : hex hash sourceHashHexLen = true ↔ IsHash hash := by
  simp [hex, IsHash, sourceHashHexLen]

lemma isSlugChar_of_isLower {c : UInt8} (h : isLower c = true) : isSlugChar c = true := by
  simp [isSlugChar, h]

/-- The bytes in front of the rest are a slug. -/
theorem slug_iff (s rest : List UInt8) : slug (s ++ rest) s.length = true ↔ IsSlug s := by
  unfold slug IsSlug
  cases s with
  | nil => simp
  | cons c s =>
    have htake : ((c :: s) ++ rest).take (c :: s).length = c :: s := List.take_left
    simp only [htake]
    by_cases hlen : (c :: s).length = 0 ∨ 48 < (c :: s).length
    · rw [if_pos hlen]
      simp only [List.length_cons] at hlen
      constructor
      · simp
      · rintro ⟨c', rest', heq, -, hlt, -⟩
        obtain ⟨rfl, rfl⟩ := List.cons_eq_cons.mp heq
        omega
    · rw [if_neg hlen]
      simp only [List.length_cons] at hlen
      simp only [List.cons_append, List.all_cons, Bool.and_eq_true, List.all_eq_true]
      constructor
      · rintro ⟨hc, -, hall⟩
        exact ⟨c, s, rfl, hc, by omega, hall⟩
      · rintro ⟨c', rest', heq, hc, -, hall⟩
        obtain ⟨rfl, rfl⟩ := List.cons_eq_cons.mp heq
        exact ⟨hc, isSlugChar_of_isLower hc, hall⟩

lemma IsSlug.chars {s : List UInt8} (h : IsSlug s) : ∀ x ∈ s, isSlugChar x = true := by
  obtain ⟨c, rest, rfl, hc, -, hall⟩ := h
  intro x hx
  rcases List.mem_cons.mp hx with rfl | hx
  · exact isSlugChar_of_isLower hc
  · exact hall x hx

lemma IsSlug.length_le {s : List UInt8} (h : IsSlug s) : s.length ≤ 48 := by
  obtain ⟨c, rest, rfl, -, hlen, -⟩ := h
  simp only [List.length_cons]
  omega

/-- What no name and no hash has in it. -/
lemma not_mem_of_chars {p : UInt8 → Bool} {s : List UInt8} (h : ∀ x ∈ s, p x = true) {c : UInt8}
    (hc : p c = false) : c ∉ s := by
  intro hmem
  rw [h c hmem] at hc
  cases hc

/-- The bytes `c` and `d` do not stand one behind the other. -/
def Apart (c d : UInt8) (a b : UInt8) : Prop := ¬(a = c ∧ b = d)

instance (c d : UInt8) : DecidableRel (Apart c d) := fun a b =>
  inferInstanceAs (Decidable (¬(a = c ∧ b = d)))

lemma strstr_pair_none {c d : UInt8} {s : List UInt8} (h : s.IsChain (Apart c d)) :
    strstr [c, d] s = none := by
  have hspec := strstr_spec [c, d] s
  cases hs : strstr [c, d] s with
  | none => rfl
  | some r =>
    rw [hs] at hspec
    obtain ⟨before, after, -, hfirst⟩ := hspec
    have hinfix : [c, d] <:+: s := ⟨before, after, by rw [hfirst.eq]; simp⟩
    have hpair := h.infix hinfix
    simp [Apart] at hpair

lemma isChain_of_not_mem {c d : UInt8} {s : List UInt8} (h : c ∉ s) : s.IsChain (Apart c d) := by
  refine List.Pairwise.isChain (List.pairwise_of_forall_mem_list fun a ha _ _ => ?_)
  rintro ⟨rfl, -⟩
  exact h ha

lemma isChain_front {c d : UInt8} {front back : List UInt8} (h : c ∉ front)
    (hback : back.IsChain (Apart c d)) : (front ++ back).IsChain (Apart c d) := by
  refine List.isChain_append.mpr ⟨isChain_of_not_mem h, hback, fun x hx y _ => ?_⟩
  rintro ⟨rfl, -⟩
  exact h (List.mem_of_mem_getLast? hx)

lemma isChain_join {c d : UInt8} {front back : List UInt8} (hfront : front.IsChain (Apart c d))
    (hback : back.IsChain (Apart c d)) (hhead : back.head? ≠ some d) :
    (front ++ back).IsChain (Apart c d) := by
  refine List.isChain_append.mpr ⟨hfront, hback, fun x _ y hy => ?_⟩
  rintro ⟨-, rfl⟩
  exact hhead hy

lemma not_mem_pathOf {apps s hash : List UInt8} (hs : IsSlug s) (hh : IsHash hash) {c : UInt8}
    (hslug : isSlugChar c = false) (hhex : isHex c = false) (happs : c ∉ apps)
    (hrest : c ∉ revisionsWord ++ (slash :: pySuffix)) : c ∉ pathOf apps s hash := by
  have h1 := not_mem_of_chars hs.chars hslug
  have h2 := not_mem_of_chars hh.2 hhex
  simp only [List.mem_append, List.mem_cons, not_or] at hrest
  simp only [pathOf, List.mem_append, List.mem_cons, not_or]
  exact ⟨happs, h1, hrest.1, h2, hrest.2.1, h1, hrest.2.2⟩

lemma no_dots {apps s hash : List UInt8} (hs : IsSlug s) (hh : IsHash hash) (ha : dot ∉ apps) :
    strstr [dot, dot] (pathOf apps s hash) = none := by
  have h1 : dot ∉ s := not_mem_of_chars hs.chars (by decide)
  have h2 : dot ∉ hash := not_mem_of_chars hh.2 (by decide)
  refine strstr_pair_none (isChain_front ha (isChain_front h1 (isChain_front (by decide +kernel)
    (isChain_front h2 ?_))))
  rw [← List.singleton_append]
  exact isChain_front (by decide) (isChain_front h1 (by decide +kernel))

lemma no_slashes {apps s hash : List UInt8} (hs : IsSlug s) (hh : IsHash hash)
    (ha : apps.IsChain (Apart slash slash)) :
    strstr [slash, slash] (pathOf apps s hash) = none := by
  have h1 : slash ∉ s := not_mem_of_chars hs.chars (by decide)
  have h2 : slash ∉ hash := not_mem_of_chars hh.2 (by decide)
  have hhead : ∀ {t rest : List UInt8}, slash ∉ t → t ≠ [] →
      (t ++ rest).head? ≠ some slash := by
    intro t rest hnot hne
    cases t with
    | nil => exact absurd rfl hne
    | cons x t =>
      intro heq
      exact hnot (by simpa using Or.inl (Option.some.inj heq).symm)
  have hsne : s ≠ [] := by
    obtain ⟨c, rest, rfl, -⟩ := hs
    simp
  have hhne : hash ≠ [] := by
    rintro rfl
    exact absurd hh.1 (by decide)
  refine strstr_pair_none (isChain_join ha (isChain_front h1 (isChain_join (by decide +kernel)
    (isChain_front h2 ?_) (hhead h2 hhne))) (hhead h1 hsne))
  rw [← List.singleton_append]
  exact isChain_join (by decide) (isChain_front h1 (by decide +kernel)) (hhead h1 hsne)

/-- The directories of the applications. -/
def IsApps (apps : List UInt8) : Prop := apps = flashApps ∨ apps = sdcardApps

lemma appOf_append {apps : List UInt8} (ha : IsApps apps) (rest : List UInt8) :
    appOf (apps ++ rest) = some rest := by
  rcases ha with rfl | rfl
  · have hp : flashApps.isPrefixOf (flashApps ++ rest) = true := by simp
    rw [appOf, if_pos hp, List.drop_left]
  · have hp : sdcardApps.isPrefixOf (sdcardApps ++ rest) = true := by simp
    have hn : ¬flashApps.isPrefixOf (sdcardApps ++ rest) = true := by
      intro h
      obtain ⟨t, ht⟩ := List.isPrefixOf_iff_prefix.mp h
      have htake := congrArg (List.take flashApps.length) ht
      rw [List.take_left, List.take_append_of_le_length (by decide)] at htake
      exact absurd htake (by decide +kernel)
    rw [appOf, if_neg hn, if_pos hp, List.drop_left]

lemma appOf_some {path app : List UInt8} (h : appOf path = some app) :
    ∃ apps, IsApps apps ∧ path = apps ++ app := by
  unfold appOf at h
  split_ifs at h with h1 h2
  · obtain ⟨t, rfl⟩ := List.isPrefixOf_iff_prefix.mp h1
    rw [List.drop_left] at h
    exact ⟨_, .inl rfl, by rw [Option.some.inj h]⟩
  · obtain ⟨t, rfl⟩ := List.isPrefixOf_iff_prefix.mp h2
    rw [List.drop_left] at h
    exact ⟨_, .inr rfl, by rw [Option.some.inj h]⟩

/-- The first `/revisions/` stands behind the name. -/
lemma strstr_revisions {s : List UInt8} (h : slash ∉ s) (rest : List UInt8) :
    strstr revisionsWord (s ++ (revisionsWord ++ rest)) = some (revisionsWord ++ rest) := by
  refine strstr_eq_some ⟨rfl, fun before' after' heq => ?_⟩
  by_contra hlt
  push Not at hlt
  have hat := congrArg (fun l : List UInt8 => l.getD before'.length 0) heq
  have hword : ∀ t : List UInt8, (before' ++ (revisionsWord ++ t)).getD before'.length 0 =
      slash := by
    intro t
    rw [List.getD_append_right _ _ _ _ le_rfl, Nat.sub_self]
    rfl
  rw [hword] at hat
  rw [List.getD_append _ _ _ _ hlt, List.getD_eq_getElem _ _ hlt] at hat
  exact h (hat ▸ List.getElem_mem hlt)

/-- The validator accepts exactly the paths that are put together in this way. -/
theorem activePath_iff (path hash : List UInt8) :
    activePath path hash = true ↔
      IsHash hash ∧ ∃ apps s, IsApps apps ∧ IsSlug s ∧ path = pathOf apps s hash := by
  constructor
  · intro h
    unfold activePath at h
    split_ifs at h with hbad
    simp only [not_or, Bool.not_eq_true', Bool.not_eq_false] at hbad
    refine ⟨hex_iff.mp hbad.2.1, ?_⟩
    cases happ : appOf path with
    | none => simp [happ] at h
    | some app =>
      simp only [happ] at h
      obtain ⟨apps, ha, rfl⟩ := appOf_some happ
      have hspec := strstr_spec revisionsWord app
      cases hrev : strstr revisionsWord app with
      | none => simp [hrev] at h
      | some revisions =>
        simp only [hrev] at h hspec
        obtain ⟨s, digest, rfl, hfirst⟩ := hspec
        obtain rfl := hfirst.eq
        have hlen : (s ++ (revisionsWord ++ digest)).length - (revisionsWord ++ digest).length =
            s.length := by simp
        rw [hlen, List.drop_left] at h
        split_ifs at h with hslug hdigest
        have hs : IsSlug s := (slug_iff s _).mp (by simpa using hslug)
        push Not at hdigest
        obtain ⟨hdlen, hdhash, hdslash⟩ := hdigest
        simp only [Bool.and_eq_true, beq_iff_eq, List.take_left] at h
        refine ⟨apps, s, ha, hs, ?_⟩
        have hcut : digest = hash ++ slash :: (s ++ pySuffix) := by
          rw [← List.take_append_drop sourceHashHexLen digest, hdhash]
          congr 1
          have hlt : sourceHashHexLen < digest.length := by
            rw [hdlen]
            omega
          rw [List.drop_eq_getElem_cons hlt, ← List.getD_eq_getElem _ 0 hlt, hdslash]
          congr 1
          rw [← List.take_append_drop s.length (digest.drop (sourceHashHexLen + 1)), h.1, h.2]
        rw [hcut]
        rfl
  · rintro ⟨hh, apps, s, ha, hs, rfl⟩
    have hslash : slash ∉ s := not_mem_of_chars hs.chars (by decide)
    have hlen : (pathOf apps s hash).length ≤ sourcePathMax := by
      have happs : apps.length ≤ 13 := by
        rcases ha with rfl | rfl <;> decide
      have hrev : revisionsWord.length = 11 := rfl
      have hpy : pySuffix.length = 3 := rfl
      have := hs.length_le
      have := hh.1
      simp only [pathOf, List.length_append, List.length_cons, sourcePathMax]
      omega
    have hdots : strstr [dot, dot] (pathOf apps s hash) = none :=
      no_dots hs hh (by rcases ha with rfl | rfl <;> decide +kernel)
    have hslashes : strstr [slash, slash] (pathOf apps s hash) = none :=
      no_slashes hs hh (by rcases ha with rfl | rfl <;> decide +kernel)
    have hback : backslash ∉ pathOf apps s hash :=
      not_mem_pathOf hs hh (by decide) (by decide)
        (by rcases ha with rfl | rfl <;> decide +kernel) (by decide +kernel)
    have hgood : ¬(sourcePathMax < (pathOf apps s hash).length ∨
        (!hex hash sourceHashHexLen) = true ∨
        (strstr [dot, dot] (pathOf apps s hash)).isSome = true ∨
        (strstr [slash, slash] (pathOf apps s hash)).isSome = true ∨
        backslash ∈ pathOf apps s hash) := by
      rw [hdots, hslashes, hex_iff.mpr hh]
      simp only [Bool.not_true, Option.isSome_none, Bool.false_eq_true, false_or, not_or]
      exact ⟨by omega, hback⟩
    set tail := hash ++ (slash :: (s ++ pySuffix)) with htail
    have happ : appOf (pathOf apps s hash) = some (s ++ (revisionsWord ++ tail)) :=
      appOf_append ha _
    have hslen : (s ++ (revisionsWord ++ tail)).length - (revisionsWord ++ tail).length =
        s.length := by simp
    have hslug : ¬(!slug (s ++ (revisionsWord ++ tail)) s.length) = true := by
      rw [(slug_iff s _).mpr hs]
      simp
    have htake : tail.take sourceHashHexLen = hash := List.take_left' hh.1
    have hslashAt : tail.getD sourceHashHexLen 0 = slash := by
      have h64 : sourceHashHexLen = hash.length := hh.1.symm
      rw [h64, htail, List.getD_append_right _ _ _ _ le_rfl, Nat.sub_self]
      rfl
    have hdrop : tail.drop (sourceHashHexLen + 1) = s ++ pySuffix := by
      have h64 : sourceHashHexLen + 1 = (hash ++ [slash]).length := by simp [hh.1, sourceHashHexLen]
      have hcut : tail = (hash ++ [slash]) ++ (s ++ pySuffix) := by simp [htail]
      rw [hcut, h64, List.drop_left]
    have hdigest : ¬(tail.length ≠ sourceHashHexLen + 1 + s.length + 3 ∨
        tail.take sourceHashHexLen ≠ hash ∨ tail.getD sourceHashHexLen 0 ≠ slash) := by
      rw [htake, hslashAt]
      have hpy : pySuffix.length = 3 := rfl
      have h64 := hh.1
      simp only [htail, List.length_append, List.length_cons, sourceHashHexLen, ne_eq,
        not_true_eq_false, or_false, not_not]
      omega
    unfold activePath
    rw [if_neg hgood]
    simp only [happ, strstr_revisions hslash tail, hslen, List.drop_left]
    rw [if_neg hslug, if_neg hdigest, hdrop]
    simp

end EspVision.EvLauncher
