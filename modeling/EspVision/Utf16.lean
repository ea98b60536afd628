import EspVision.HostJson

/-!
# Texts as code points

A text is the code units of its code points. Code points give a text that is read back as they are
unless a high surrogate stands right before a low one; the code points of a text never do.
-/
namespace EspVision.Host
open Json

/-- The code units of a code point. -/
def ofPoint (c : ℕ) : List UInt16 :=
  if c < 0x10000 then [UInt16.ofNat c]
  else [UInt16.ofNat (0xd800 + (c - 0x10000) / 0x400), UInt16.ofNat (0xdc00 + (c - 0x10000) % 0x400)]

def fromPoints (cs : List ℕ) : List UInt16 := cs.flatMap ofPoint

/-- `Array.from`: the code units of each code point. -/
def characters : List UInt16 → List (List UInt16)
  | [] => []
  | [u] => [[u]]
  | hi :: lo :: rest =>
    if isHigh hi && isLow lo then [hi, lo] :: characters rest
    else [hi] :: characters (lo :: rest)

/-- Two code points that would be read as one. -/
def Joins (c d : ℕ) : Prop := (0xd800 ≤ c ∧ c ≤ 0xdbff) ∧ 0xdc00 ≤ d ∧ d ≤ 0xdfff

/-- The code points of some text. -/
structure PointsOfText (cs : List ℕ) : Prop where
  le : ∀ c ∈ cs, c ≤ 0x10ffff
  apart : cs.IsChain fun c d => ¬Joins c d

/-! ## Code units -/

lemma isHigh_iff {u : UInt16} : isHigh u = true ↔ 0xd800 ≤ u.toNat ∧ u.toNat ≤ 0xdbff := by
  simp [isHigh, UInt16.le_iff_toNat_le]

lemma isLow_iff {u : UInt16} : isLow u = true ↔ 0xdc00 ≤ u.toNat ∧ u.toNat ≤ 0xdfff := by
  simp [isLow, UInt16.le_iff_toNat_le]

lemma toNat_ofNat_of_lt {n : ℕ} (h : n < 0x10000) : (UInt16.ofNat n).toNat = n := by
  rw [UInt16.toNat_ofNat']
  exact Nat.mod_eq_of_lt h

@[simp] lemma fromPoints_nil : fromPoints [] = [] := rfl

@[simp] lemma fromPoints_cons (c : ℕ) (cs : List ℕ) :
    fromPoints (c :: cs) = ofPoint c ++ fromPoints cs := rfl

@[simp] lemma fromPoints_append (cs ds : List ℕ) :
    fromPoints (cs ++ ds) = fromPoints cs ++ fromPoints ds := List.flatMap_append

lemma ofPoint_unit (u : UInt16) : ofPoint u.toNat = [u] := by
  rw [ofPoint, if_pos u.toNat_lt, UInt16.ofNat_toNat]

lemma ofPoint_ne_nil (c : ℕ) : ofPoint c ≠ [] := by
  unfold ofPoint
  split_ifs <;> exact List.cons_ne_nil _ _

@[simp] lemma fromPoints_eq_nil {cs : List ℕ} : fromPoints cs = [] ↔ cs = [] := by
  cases cs with
  | nil => simp
  | cons c cs => simp [ofPoint_ne_nil]

/-- A surrogate pair is the code units of the code point that it stands for. -/
lemma ofPoint_surrogatePair {hi lo : UInt16} (hhi : isHigh hi = true) (hlo : isLow lo = true) :
    ofPoint (surrogatePair hi.toNat lo.toNat) = [hi, lo] := by
  rw [isHigh_iff] at hhi
  rw [isLow_iff] at hlo
  have hoffset : surrogatePair hi.toNat lo.toNat - 0x10000 =
      (hi.toNat - 0xd800) * 0x400 + (lo.toNat - 0xdc00) := by
    unfold surrogatePair
    omega
  have hhigh : 0xd800 + ((hi.toNat - 0xd800) * 0x400 + (lo.toNat - 0xdc00)) / 0x400 = hi.toNat := by
    omega
  have hlow : 0xdc00 + ((hi.toNat - 0xd800) * 0x400 + (lo.toNat - 0xdc00)) % 0x400 = lo.toNat := by
    omega
  rw [ofPoint, if_neg (by unfold surrogatePair; omega), hoffset, hhigh, hlow, UInt16.ofNat_toNat,
    UInt16.ofNat_toNat]

/-! ## The code points of a text -/

lemma codePoints_pair {hi lo : UInt16} (hhi : isHigh hi = true) (hlo : isLow lo = true)
    (t : List UInt16) :
    codePoints (hi :: lo :: t) = surrogatePair hi.toNat lo.toNat :: codePoints t := by
  rw [codePoints, if_pos (by rw [hhi, hlo]; rfl)]

/-- A unit that does not begin a pair is a code point of its own. -/
lemma codePoints_single {u : UInt16} {t : List UInt16}
    (h : isHigh u = true → ∀ v ∈ t.head?, isLow v = false) :
    codePoints (u :: t) = u.toNat :: codePoints t := by
  cases t with
  | nil => rfl
  | cons v t =>
    have hpair : ¬(isHigh u && isLow v) = true := by
      intro hp
      rw [Bool.and_eq_true] at hp
      rw [h hp.1 v rfl] at hp
      cases hp.2
    rw [codePoints, if_neg hpair]

theorem fromPoints_codePoints (t : List UInt16) : fromPoints (codePoints t) = t := by
  induction t using codePoints.induct with
  | case1 => rfl
  | case2 u => simp [codePoints, ofPoint_unit]
  | case3 hi lo rest h ih =>
    obtain ⟨hhi, hlo⟩ := Bool.and_eq_true_iff.mp h
    rw [codePoints_pair hhi hlo, fromPoints_cons, ofPoint_surrogatePair hhi hlo, ih]
    rfl
  | case4 hi lo rest h ih =>
    rw [codePoints, if_neg h, fromPoints_cons, ofPoint_unit, ih]
    rfl

theorem characters_eq (t : List UInt16) : characters t = (codePoints t).map ofPoint := by
  induction t using codePoints.induct with
  | case1 => rfl
  | case2 u => simp [codePoints, characters, ofPoint_unit]
  | case3 hi lo rest h ih =>
    obtain ⟨hhi, hlo⟩ := Bool.and_eq_true_iff.mp h
    rw [codePoints_pair hhi hlo, List.map_cons, ofPoint_surrogatePair hhi hlo, characters, if_pos h,
      ih]
  | case4 hi lo rest h ih =>
    rw [codePoints, if_neg h, List.map_cons, ofPoint_unit, characters, if_neg h, ih]

/-- The first code point of a text is its first unit, or it begins with a pair. -/
lemma head_codePoints {v : UInt16} {t : List UInt16} {d : ℕ}
    (h : d ∈ (codePoints (v :: t)).head?) : d = v.toNat ∨ 0x10000 ≤ d := by
  cases t with
  | nil => exact Or.inl (by simpa [codePoints] using h.symm)
  | cons w t =>
    rw [codePoints] at h
    split_ifs at h with hp
    · have hd : surrogatePair v.toNat w.toNat = d := by simpa using h
      have hlarge : 0x10000 ≤ surrogatePair v.toNat w.toNat := by
        unfold surrogatePair
        omega
      exact Or.inr (hd ▸ hlarge)
    · exact Or.inl (by simpa using h.symm)

theorem pointsOfText_codePoints (t : List UInt16) : PointsOfText (codePoints t) := by
  induction t using codePoints.induct with
  | case1 => exact ⟨nofun, .nil⟩
  | case2 u =>
    refine ⟨fun c hc => ?_, .singleton _⟩
    obtain rfl := List.mem_singleton.mp hc
    have := u.toNat_lt
    omega
  | case3 hi lo rest h ih =>
    obtain ⟨hhi, hlo⟩ := Bool.and_eq_true_iff.mp h
    rw [codePoints_pair hhi hlo]
    rw [isHigh_iff] at hhi
    rw [isLow_iff] at hlo
    refine ⟨List.forall_mem_cons.mpr ⟨?_, ih.le⟩, List.isChain_cons.mpr ⟨fun d hd hj => ?_, ih.apart⟩⟩
    · unfold surrogatePair
      omega
    · have := hj.1.2
      unfold surrogatePair at this
      omega
  | case4 hi lo rest h ih =>
    rw [codePoints, if_neg h]
    have := hi.toNat_lt
    refine ⟨List.forall_mem_cons.mpr ⟨by omega, ih.le⟩,
      List.isChain_cons.mpr ⟨fun d hd hj => ?_, ih.apart⟩⟩
    rcases head_codePoints hd with rfl | hlong
    · exact h (by rw [isHigh_iff.mpr hj.1, isLow_iff.mpr hj.2]; rfl)
    · have := hj.2.2
      omega

/-! ## The text of code points -/

/-- The first unit of a code point is a low surrogate only if the code point is one. -/
lemma head_ofPoint {d : ℕ} (hd : d ≤ 0x10ffff) {t : List UInt16} {v : UInt16}
    (hv : v ∈ (ofPoint d ++ t).head?) (hlow : isLow v = true) : 0xdc00 ≤ d ∧ d ≤ 0xdfff := by
  rw [isLow_iff] at hlow
  unfold ofPoint at hv
  split_ifs at hv with h
  · obtain rfl : UInt16.ofNat d = v := by simpa using hv
    rwa [toNat_ofNat_of_lt h] at hlow
  · obtain rfl : UInt16.ofNat (0xd800 + (d - 0x10000) / 0x400) = v := by simpa using hv
    rw [toNat_ofNat_of_lt (by omega)] at hlow
    omega

theorem codePoints_fromPoints {cs : List ℕ} (h : PointsOfText cs) :
    codePoints (fromPoints cs) = cs := by
  induction cs with
  | nil => rfl
  | cons c cs ih =>
    obtain ⟨hle, hrest⟩ := List.forall_mem_cons.mp h.le
    obtain ⟨hjoin, hapart⟩ := List.isChain_cons.mp h.apart
    specialize ih ⟨hrest, hapart⟩
    rw [fromPoints_cons]
    by_cases hc : c < 0x10000
    · rw [ofPoint, if_pos hc, List.singleton_append, codePoints_single, toNat_ofNat_of_lt hc, ih]
      intro hhigh v hv
      rw [isHigh_iff, toNat_ofNat_of_lt hc] at hhigh
      by_contra hlow
      rw [Bool.not_eq_false] at hlow
      cases cs with
      | nil => cases hv
      | cons d cs =>
        exact hjoin d rfl ⟨hhigh, head_ofPoint (hrest d List.mem_cons_self) hv hlow⟩
    · have hhi : (UInt16.ofNat (0xd800 + (c - 0x10000) / 0x400)).toNat =
          0xd800 + (c - 0x10000) / 0x400 := toNat_ofNat_of_lt (by omega)
      have hlo : (UInt16.ofNat (0xdc00 + (c - 0x10000) % 0x400)).toNat =
          0xdc00 + (c - 0x10000) % 0x400 := toNat_ofNat_of_lt (by omega)
      have hpair : surrogatePair (0xd800 + (c - 0x10000) / 0x400)
          (0xdc00 + (c - 0x10000) % 0x400) = c := by
        unfold surrogatePair
        omega
      rw [ofPoint, if_neg hc, List.cons_append, List.singleton_append,
        codePoints_pair (isHigh_iff.mpr (by omega)) (isLow_iff.mpr (by omega)), ih, hhi, hlo, hpair]

/-- Where no code point is a surrogate, none are joined. -/
lemma pointsOfText_of_scalar {cs : List ℕ} (h : ∀ c ∈ cs, Scalar c) : PointsOfText cs := by
  refine ⟨fun c hc => (h c hc).1, ?_⟩
  induction cs with
  | nil => exact .nil
  | cons c cs ih =>
    obtain ⟨hc, hcs⟩ := List.forall_mem_cons.mp h
    refine List.isChain_cons.mpr ⟨fun d _ hj => hc.2 ⟨hj.1.1, ?_⟩, ih hcs⟩
    have := hj.1.2
    omega

lemma PointsOfText.append_left {cs ds : List ℕ} (h : PointsOfText (cs ++ ds)) : PointsOfText cs :=
  ⟨fun c hc => h.le c (List.mem_append_left _ hc), h.apart.left_of_append⟩

lemma PointsOfText.append_right {cs ds : List ℕ} (h : PointsOfText (cs ++ ds)) : PointsOfText ds :=
  ⟨fun c hc => h.le c (List.mem_append_right _ hc), h.apart.right_of_append⟩

end EspVision.Host
