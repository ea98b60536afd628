import EspVision.NetworkJsonCorrect

/-!
# Accepted requests: complete objects, and objects cut after a comma

`parse_network_json` accepts a text exactly when its members form a request and the text
is either a document or an object that stops after a comma. From this follows for which
texts it keeps the promise that only complete objects are accepted.
-/
namespace EspVision.NetworkService
open Json
open EvControlJson (Member boundTo valueOf fill Admissible Field MemberOk Admitted MemberText
  valueOf_eq_none admitted_iff objectText_split encode_ne_zero)

/-! ## The member loop -/

lemma membersText_count {u : List UInt8} {ms : List Member} (h : MembersText u ms) :
    ms.length ≤ u.length := by
  induction ms generalizing u with
  | nil => simp
  | cons m ms ih =>
    cases h with
    | one hk =>
      obtain ⟨k', rfl⟩ := stringText_head hk
      simp only [List.length_cons, List.length_append, List.length_nil]
      omega
    | cons hk _ _ _ _ _ hu =>
      have := ih hu
      simp only [List.length_append, List.length_cons]
      omega

/-- The loop over members that are there, up to what follows them. -/
theorem membersLoop_run {ms done : List Member} {u tail s' : List UInt8} {closed : Bool}
    (hu : MembersText u ms) (hadm : Admitted table done ms) (hnul : hasNulMembers ms = false)
    (htail : separator rbrace tail = .ok (closed, s')) {fuel : ℕ} (hf : ms.length ≤ fuel) :
    membersLoop fuel (Progress.decoded done) (u ++ tail) =
      if closed then .ok (Progress.decoded (done ++ ms), s')
      else membersLoop (fuel - ms.length) (Progress.decoded (done ++ ms)) s' := by
  have hstop : NotWs tail ∧ NumberEnd tail := by
    cases closed with
    | true => rw [separator_close htail]; exact ⟨notWs_cons.mpr (by decide), numberEnd_cons.mpr (by decide)⟩
    | false =>
      obtain ⟨a, -, rfl⟩ := separator_comma htail
      exact ⟨notWs_cons.mpr (by decide), numberEnd_cons.mpr (by decide)⟩
  have hcomma : ∀ s, NumberEnd (comma :: s) := fun s => numberEnd_cons.mpr (by decide)
  induction ms generalizing done u fuel with
  | nil => cases hu
  | cons m ms ih =>
    obtain ⟨fuel, rfl⟩ := Nat.exists_eq_add_one_of_ne_zero
      (by simp only [List.length_cons] at hf; omega : fuel ≠ 0)
    obtain ⟨hok, hrest⟩ := hadm
    obtain ⟨u', hq⟩ := membersText_head hu
    have hne : u ++ tail ≠ [] := by simp [hq]
    rw [membersLoop, if_neg hne]
    clear hq hne
    cases hu with
    | @one k a b t c key v hk ha hb ht hc =>
      have hm : MemberText k a b t (key, v) := ⟨hk, ha, hb, ht⟩
      simp only [hasNulMembers, Bool.or_false, Bool.or_eq_false_iff] at hnul
      have hsep : separator rbrace (whitespace (c ++ tail)) = .ok (closed, s') := by
        rw [whitespace_append hc hstop.1, htail]
      simp only [List.append_assoc, List.cons_append,
        parseMember_complete hm hok hnul.1 hnul.2 (numberEnd_ws hc hstop.2), Outcome.ok_bind,
        hsep, List.length_singleton, Nat.add_sub_cancel]
    | @cons k a b t c e w key v _ hk ha hb ht hc he hw =>
      have hm : MemberText k a b t (key, v) := ⟨hk, ha, hb, ht⟩
      simp only [hasNulMembers, Bool.or_eq_false_iff] at hnul
      obtain ⟨w', rfl⟩ := membersText_head hw
      have hnext : NotWs (quote :: (w' ++ tail)) := notWs_cons.mpr (by decide)
      have hlen : ms.length ≤ fuel := by simpa using hf
      have hloop := ih hw hrest hnul.2 hlen
      simp only [List.append_assoc, List.cons_append, List.nil_append] at hloop ⊢
      simp only [parseMember_complete hm hok hnul.1.1 hnul.1.2 (numberEnd_ws hc (hcomma _)),
        Outcome.ok_bind, separator_of_comma hc he (show comma ≠ rbrace by decide) hnext,
        Bool.false_eq_true, if_false, hloop, List.length_cons, Nat.add_sub_add_right]

/-- What the loop has read when it ends. -/
inductive LoopRead (done : List Member) (p : Progress) (s rest : List UInt8) : Prop
  | nothing (hs : s = []) (hr : rest = []) (hp : p = Progress.decoded done)
  | members (u : List UInt8) (ms : List Member) (tail : List UInt8) (hs : s = u ++ tail)
      (hu : MembersText u ms) (hadm : Admitted table done ms) (hnul : hasNulMembers ms = false)
      (hp : p = Progress.decoded (done ++ ms))
      (htail : tail = rbrace :: rest ∨ rest = [] ∧ ∃ c, Ws c ∧ tail = comma :: c)

theorem membersLoop_sound {fuel : ℕ} {done : List Member} {p : Progress} {s rest : List UInt8}
    (h : membersLoop fuel (Progress.decoded done) s = .ok (p, rest)) :
    LoopRead done p s rest := by
  induction fuel generalizing done s with
  | zero => simp [membersLoop] at h
  | succ fuel ih =>
    simp only [membersLoop] at h
    split_ifs at h with hs
    · obtain ⟨rfl, rfl⟩ : _ ∧ [] = rest := by simpa using h
      exact .nothing hs rfl rfl
    · obtain ⟨⟨p1, s1⟩, h1, h2⟩ := Outcome.bind_eq_ok.mp h
      obtain ⟨⟨closed, s2⟩, hsep, h3⟩ := Outcome.bind_eq_ok.mp h2
      clear h h2
      obtain ⟨k, a, b, t, m, rfl, ⟨hk, ha, hb, ht⟩, hok, hkn, hvn, rfl⟩ := parseMember_sound h1
      obtain ⟨c, hc, hs1, -⟩ := whitespace_split s1
      cases closed with
      | true =>
        obtain ⟨rfl, rfl⟩ : _ ∧ s2 = rest := by simpa using h3
        rw [separator_close hsep] at hs1
        refine .members _ [m] (rbrace :: s2) ?_ (.one hk ha hb ht hc) ⟨hok, trivial⟩ ?_ rfl (.inl rfl)
        · simp only [hs1, List.append_assoc, List.cons_append]
        · simp only [hasNulMembers, hkn, hvn, Bool.or_false]
      | false =>
        obtain ⟨e, he, hs2⟩ := separator_comma hsep
        rw [hs2] at hs1
        cases ih (by simpa using h3) with
        | nothing hnil hr hp =>
          subst hnil hr hp
          refine .members _ [m] (comma :: e) ?_ (.one hk ha hb ht hc) ⟨hok, trivial⟩ ?_ rfl
            (.inr ⟨rfl, e, he, rfl⟩)
          · simp only [hs1, List.append_assoc, List.cons_append, List.append_nil]
          · simp only [hasNulMembers, hkn, hvn, Bool.or_false]
        | members u ms tail hs3 hu hadm hnul hp htail =>
          subst hs3
          refine .members _ (m :: ms) tail ?_ (.cons hk ha hb ht hc he hu) ⟨hok, hadm⟩ ?_
            (by simpa using hp) htail
          · simp only [hs1, List.append_assoc, List.cons_append]
          · simp only [hasNulMembers, hkn, hvn, hnul, Bool.or_false]

theorem membersLoop_ne_fault {fuel : ℕ} {done : List Member} {s : List UInt8}
    (hf : s.length < fuel) : membersLoop fuel (Progress.decoded done) s ≠ .fault := by
  induction fuel generalizing done s with
  | zero => simp at hf
  | succ fuel ih =>
    simp only [membersLoop]
    split_ifs
    · simp
    · refine Outcome.bind_ne_fault (parseMember_ne_fault done s) ?_
      rintro ⟨p1, s1⟩ h1
      refine Outcome.bind_ne_fault (separator_ne_fault _ _) ?_
      rintro ⟨closed, s2⟩ hsep
      obtain ⟨k, a, b, t, m, rfl, -, -, -, -, rfl⟩ := parseMember_sound h1
      have hw1 := whitespace_length s1
      have hlt : s2.length < (whitespace s1).length := separator_length hsep
      simp only [List.length_append, List.length_cons] at hf
      cases closed with
      | true => simp
      | false => exact ih (show s2.length < fuel by omega)

/-! ## Requests -/

lemma initial_eq : initial = Progress.decoded [] := rfl

lemma valueOf_some {ms : List Member} {i : ℕ} {v : Value} (h : valueOf table ms i = some v) :
    ∃ m ∈ ms, boundTo table m.1 = some i ∧ m.2 = v := by
  unfold valueOf at h
  obtain ⟨m, hm, rfl⟩ := Option.map_eq_some_iff.mp h
  exact ⟨m, List.mem_of_find?_eq_some hm, by simpa using List.find?_some hm, rfl⟩

lemma required_action {ms : List Member} (h : (valueOf table ms 0).isSome = true) (i : ℕ)
    (f : Field) (hf : table[i]? = some f) (hr : f.required = true) :
    ∃ m ∈ ms, boundTo table m.1 = some i := by
  obtain ⟨v, hv⟩ := Option.isSome_iff_exists.mp h
  have hi : i = 0 := by
    match i, hf with
    | 0, _ => rfl
    | 1, hf | 2, hf | 3, hf | 4, hf =>
      simp only [table, List.getElem?_cons_succ, List.getElem?_cons_zero, Option.some.injEq] at hf
      subst hf
      simp at hr
    | n + 5, hf => simp [table] at hf
  subst hi
  obtain ⟨m, hm, hb, -⟩ := valueOf_some hv
  exact ⟨m, hm, hb⟩

lemma take_prefix {bytes z : List UInt8} (h : ∀ b ∈ bytes, b ≠ 0) :
    (bytes ++ 0 :: z).take 8 = networkPrefix ↔ networkPrefix <+: bytes := by
  have hlen : networkPrefix.length = 8 := rfl
  constructor
  · intro ht
    by_cases hl : 8 ≤ bytes.length
    · rw [List.take_append_of_le_length hl] at ht
      exact ht ▸ List.take_prefix 8 bytes
    · have hmem : (0 : UInt8) ∈ (bytes ++ 0 :: z).take 8 := by
        rw [List.take_append, List.mem_append]
        right
        obtain ⟨n, hn⟩ := Nat.exists_eq_add_one_of_ne_zero (by omega : 8 - bytes.length ≠ 0)
        rw [hn]
        simp
      rw [ht] at hmem
      exact absurd hmem (by decide)
  · rintro ⟨w, rfl⟩
    rw [List.append_assoc, ← hlen, List.take_left]

lemma action_prefix {ms : List Member} {s : List ℕ}
    (hm : ∀ m ∈ ms, ∀ i f, boundTo table m.1 = some i → table[i]? = some f → f.value.Admits m.2)
    (hs : ∀ m ∈ ms, ∀ str, m.2 = .string str → ∀ c ∈ str, Scalar c)
    (hv : valueOf table ms 0 = some (.string s)) :
    (Request.decoded ms).action.take 8 = networkPrefix ↔ networkPrefix <+: encode s := by
  obtain ⟨m, hmem, hb, hmv⟩ := valueOf_some hv
  have hadm := hm m hmem 0 _ hb rfl
  rw [hmv] at hadm
  obtain ⟨str, hstr, hn, hlen⟩ := admits_string (by decide) hadm
  obtain rfl : s = str := by simpa using hstr
  have hsc := hs m hmem s hmv
  simp only [Request.decoded, hv, textOf, fill, if_pos hlen]
  exact take_prefix (encode_ne_zero hsc hn)

/-- Member strings are scalar values. -/
lemma membersText_scalar {u : List UInt8} {ms : List Member} (h : MembersText u ms) :
    ∀ m ∈ ms, ∀ str, m.2 = .string str → ∀ c ∈ str, Scalar c := by
  have hone : ∀ {t : List UInt8} {v : Value}, ValueText t v → ∀ str, v = .string str →
      ∀ c ∈ str, Scalar c := by
    rintro t v ht str rfl
    exact stringText_scalar (stringText_of_value ht)
  induction ms generalizing u with
  | nil => simp
  | cons m ms ih =>
    cases h with
    | one hk ha hb ht hc => simpa using hone ht
    | cons hk ha hb ht hc he hw =>
      intro x hx
      rcases List.mem_cons.mp hx with rfl | hx
      · exact hone ht
      · exact ih hw x hx

/-- The check at the end of `parse_network_json`, in terms of the members. -/
lemma valid_iff {u : List UInt8} {ms : List Member} (hu : MembersText u ms)
    (hadm : Admitted table [] ms) (hnul : hasNulMembers ms = false) :
    ((Progress.decoded ms).hasAction = true ∧
        (Progress.decoded ms).request.action.take 8 = networkPrefix) ↔ Valid ms := by
  obtain ⟨h1, h2, h3, -⟩ := admitted_iff.mp hadm
  have hpre := fun s => action_prefix (s := s) h2 (membersText_scalar hu)
  constructor
  · rintro ⟨hact, htake⟩
    refine ⟨⟨h1, h2, h3, fun i f hf hr => required_action hact i f hf hr⟩, hnul, ?_⟩
    obtain ⟨v, hv⟩ := Option.isSome_iff_exists.mp hact
    obtain ⟨m, hmem, hb, hmv⟩ := valueOf_some hv
    have hadm' := h2 m hmem 0 _ hb rfl
    rw [hmv] at hadm'
    obtain ⟨str, rfl, -, -⟩ := admits_string (by decide) hadm'
    exact ⟨str, hv, (hpre str hv).mp htake⟩
  · rintro ⟨-, -, s, hv, hp⟩
    refine ⟨?_, (hpre s hv).mpr hp⟩
    simp [Progress.decoded, hv]

lemma Valid.admitted {ms : List Member} (h : Valid ms) : Admitted table [] ms :=
  admitted_iff.mpr ⟨h.admissible.unknown, h.admissible.known, h.admissible.once, by simp⟩

/-- The text is accepted in one of its two forms. -/
def Accepts (t : List UInt8) (ms : List Member) : Prop :=
  t.length ≤ requestMax ∧ (Document t ms ∨ OpenDocument t ms) ∧ Valid ms

theorem parse_sound {text : List UInt8} {r : Request} (h : parseNetworkJson text = .ok r) :
    ∃ ms, Accepts text ms ∧ r = Request.decoded ms := by
  unfold parseNetworkJson at h
  split_ifs at h with hsize
  rw [not_or, Nat.not_lt] at hsize
  obtain ⟨s, hopen, h⟩ := Outcome.bind_eq_ok.mp h
  simp only at h
  split_ifs at h with hempty
  obtain ⟨⟨p, rest⟩, hloop, h⟩ := Outcome.bind_eq_ok.mp h
  simp only at h
  split_ifs at h with hend
  obtain ⟨hend, hact, hpre⟩ := hend
  obtain rfl : p.request = r := by simpa using h
  obtain ⟨a, ha, htext, -⟩ := whitespace_split text
  rw [expect_eq_ok.mp hopen] at htext
  obtain ⟨b, hb, hs, -⟩ := whitespace_split s
  obtain ⟨c, hc, hrest, -⟩ := whitespace_split rest
  rw [hend, List.append_nil] at hrest
  rw [initial_eq] at hloop
  cases membersLoop_sound hloop with
  | nothing _ _ hp =>
    rw [hp] at hact
    simp [Progress.decoded, valueOf] at hact
  | members u ms tail hs' hu hadm hnul hp htail =>
    rw [List.nil_append] at hp
    subst hp
    refine ⟨ms, ⟨hsize.2, ?_, (valid_iff hu hadm hnul).mp ⟨hact, hpre⟩⟩, rfl⟩
    rw [hs'] at hs
    rcases htail with rfl | ⟨rfl, e, he, rfl⟩
    · left
      refine ⟨a, lbrace :: (b ++ (u ++ [rbrace])), rest, ?_, ha, hrest ▸ hc, .object hb hu⟩
      rw [htext, hs]
      simp
    · right
      exact ⟨a, b, u, e, by rw [htext, hs], ha, hb, hu, he⟩

/-- The checks after the member loop. -/
def conclude (p : Progress) (rest : List UInt8) : Outcome Request :=
  if whitespace rest = [] ∧ p.hasAction ∧ p.request.action.take 8 = networkPrefix then
    .ok p.request
  else .reject

/-- The parser on a text whose first members are known. -/
theorem parse_run {a b u tail s' : List UInt8} {ms : List Member} {closed : Bool}
    (ha : Ws a) (hb : Ws b) (hu : MembersText u ms) (hadm : Admitted table [] ms)
    (hnul : hasNulMembers ms = false) (htail : separator rbrace tail = .ok (closed, s'))
    (hsize : (a ++ lbrace :: (b ++ (u ++ tail))).length ≤ requestMax) :
    parseNetworkJson (a ++ lbrace :: (b ++ (u ++ tail))) =
      (if closed then .ok (Progress.decoded ms, s')
      else membersLoop ((u ++ tail).length + 1 - ms.length) (Progress.decoded ms) s') >>=
        fun r => conclude r.1 r.2 := by
  obtain ⟨u', hhead⟩ := membersText_head hu
  have hne : ¬(a ++ lbrace :: (b ++ (u ++ tail)) = [] ∨
      requestMax < (a ++ lbrace :: (b ++ (u ++ tail))).length) := by
    simpa using hsize
  have hbrace : NotWs (lbrace :: (b ++ (u ++ tail))) := notWs_cons.mpr (by decide)
  have hmem : NotWs (u ++ tail) := by
    rw [hhead]
    exact notWs_cons.mpr (by decide)
  have hopen : ¬(u ++ tail).head? = some rbrace := by
    rw [hhead]
    simp only [List.cons_append, List.head?_cons, Option.some.injEq]
    decide
  have hcount : ms.length ≤ (u ++ tail).length + 1 := by
    have := membersText_count hu
    simp only [List.length_append]
    omega
  have hloop := membersLoop_run hu hadm hnul htail hcount
  rw [List.nil_append] at hloop
  simp only [parseNetworkJson, if_neg hne, whitespace_append ha hbrace, expect_cons,
    Outcome.ok_bind, whitespace_append hb hmem, if_neg hopen, initial_eq, hloop]
  rfl

lemma conclude_valid {u rest : List UInt8} {ms : List Member} (hu : MembersText u ms)
    (hv : Valid ms) (hr : Ws rest) :
    conclude (Progress.decoded ms) rest = .ok (Request.decoded ms) := by
  have hend : whitespace rest = [] := by simpa using whitespace_append hr notWs_nil
  exact if_pos ⟨hend, (valid_iff hu hv.admitted hv.noNul).mpr hv⟩

lemma separator_open {c : List UInt8} (hc : Ws c) :
    separator rbrace (comma :: c) = .ok (false, []) := by
  have h : whitespace c = [] := by simpa using whitespace_append hc notWs_nil
  simp [separator, h, show comma ≠ rbrace by decide]

lemma separator_closed (rest : List UInt8) :
    separator rbrace (rbrace :: rest) = .ok (true, rest) := by
  simp [separator]

/-- A request is not empty. -/
lemma Valid.ne_nil {ms : List Member} (h : Valid ms) : ms ≠ [] := by
  rintro rfl
  obtain ⟨s, hs, -⟩ := h.action
  simp [valueOf] at hs

theorem parse_complete {text : List UInt8} {ms : List Member} (h : Accepts text ms) :
    parseNetworkJson text = .ok (Request.decoded ms) := by
  obtain ⟨hsize, hform, hv⟩ := h
  rcases hform with ⟨a, o, c, rfl, ha, hc, ho⟩ | ⟨a, b, u, c, rfl, ha, hb, hu, hc⟩
  · obtain ⟨b, u, rfl, hb, hu⟩ := objectText_split ho
    rcases hu with ⟨-, rfl⟩ | hu
    · exact absurd rfl hv.ne_nil
    · have htext : a ++ (lbrace :: (b ++ (u ++ [rbrace])) ++ c) =
          a ++ lbrace :: (b ++ (u ++ rbrace :: c)) := by simp
      rw [htext] at hsize ⊢
      rw [parse_run ha hb hu hv.admitted hv.noNul (separator_closed c) hsize]
      exact conclude_valid hu hv hc
  · rw [parse_run ha hb hu hv.admitted hv.noNul (separator_open hc) hsize]
    have hmore : (u ++ comma :: c).length + 1 - ms.length ≠ 0 := by
      have := membersText_count hu
      simp only [List.length_append, List.length_cons]
      omega
    obtain ⟨fuel, hfuel⟩ := Nat.exists_eq_add_one_of_ne_zero hmore
    simp only [hfuel, membersLoop, if_true, Bool.false_eq_true, if_false, Outcome.ok_bind]
    exact conclude_valid hu hv (by simp [Ws])

/-- No store leaves its buffer and the loops end. -/
theorem parse_ne_fault (text : List UInt8) : parseNetworkJson text ≠ .fault := by
  unfold parseNetworkJson
  split_ifs
  · simp
  · refine Outcome.bind_ne_fault (expect_ne_fault _ _) fun s _ => ?_
    simp only
    split_ifs
    · simp
    · refine Outcome.bind_ne_fault (initial_eq ▸ membersLoop_ne_fault (by omega)) ?_
      rintro ⟨p, rest⟩ -
      simp only
      split_ifs <;> simp

/-! ## Complete objects only -/

/-- The last byte that is not whitespace is determined. -/
lemma last_notWs {p q w z : List UInt8} {x y : UInt8} (h : p ++ x :: w = q ++ y :: z)
    (hw : Ws w) (hz : Ws z) (hx : isWs x = false) (hy : isWs y = false) : p = q ∧ x = y := by
  have hrev : ∀ {a b : List UInt8} {c : UInt8}, Ws b → isWs c = false →
      whitespace (a ++ c :: b).reverse = c :: a.reverse := by
    intro a b c hb hc
    have hb' : Ws b.reverse := fun x hx => hb x (List.mem_reverse.mp hx)
    rw [List.reverse_append, List.reverse_cons, List.append_assoc]
    exact whitespace_append hb' (notWs_cons.mpr hc)
  have heq := (hrev hw hx).symm.trans ((congrArg (fun t => whitespace t.reverse) h).trans (hrev hz hy))
  obtain ⟨rfl, hpq⟩ := List.cons.inj heq
  exact ⟨List.reverse_injective hpq, rfl⟩

lemma document_closed {t : List UInt8} {ms : List Member} (h : Document t ms) :
    ∃ pre w, t = pre ++ rbrace :: w ∧ Ws w := by
  obtain ⟨a, o, c, rfl, -, hc, ho⟩ := h
  obtain ⟨b, u, rfl, -, -⟩ := objectText_split ho
  exact ⟨a ++ lbrace :: (b ++ u), c, by simp, hc⟩

/-- An object that stops after a comma is not a document. -/
lemma openDocument_not_closed {t pre w : List UInt8} {ms : List Member}
    (h : OpenDocument t ms) (hw : Ws w) : t ≠ pre ++ rbrace :: w := by
  obtain ⟨a, b, u, c, rfl, -, -, -, hc⟩ := h
  intro ht
  have ht' : (a ++ lbrace :: (b ++ u)) ++ comma :: c = pre ++ rbrace :: w := by simpa using ht
  exact absurd (last_notWs ht' hc hw (by decide) (by decide)).2 (by decide)

/-- The text of the first members ends before a comma. -/
lemma membersText_prefix {t : List UInt8} {ms ms' : List Member} (hne : ms ≠ []) (hne' : ms' ≠ [])
    (h : MembersText t (ms ++ ms')) :
    ∃ u rest, t = u ++ comma :: rest ∧ MembersText u ms := by
  induction ms generalizing t with
  | nil => exact absurd rfl hne
  | cons m ms ih =>
    rw [List.cons_append] at h
    generalize hl : ms ++ ms' = l at h
    cases h with
    | one => simp_all
    | @cons k a b v c d w s x _ hk ha hb hv hc hd hw =>
      by_cases hms : ms = []
      · subst hms
        exact ⟨k ++ (a ++ colon :: (b ++ (v ++ c))), d ++ w, by simp, .one hk ha hb hv hc⟩
      · obtain ⟨u, rest, rfl, hu⟩ := ih hms (hl ▸ hw)
        exact ⟨k ++ (a ++ colon :: (b ++ (v ++ (c ++ comma :: (d ++ u))))), rest, by simp,
          .cons hk ha hb hv hc hd hu⟩

/-- Members that follow members. -/
lemma membersText_append {t t' d : List UInt8} {ms ms' : List Member} (h : MembersText t ms)
    (hd : Ws d) (h' : MembersText t' ms') :
    MembersText (t ++ comma :: (d ++ t')) (ms ++ ms') := by
  induction ms generalizing t with
  | nil => cases h
  | cons m ms ih =>
    cases h with
    | one hk ha hb hv hc => simpa using MembersText.cons hk ha hb hv hc hd h'
    | cons hk ha hb hv hc he hu => simpa using MembersText.cons hk ha hb hv hc he (ih hu)

/-- The promise for one text: an accepted text is a complete object whose members are the
ones stored, and nothing that is cut before its closing brace is accepted. -/
def CompleteOnly (t : List UInt8) : Prop :=
  ∀ r, parseNetworkJson t = .ok r →
    (∃ ms, Document t ms ∧ r = Request.decoded ms) ∧
      ∀ pre w, t = pre ++ rbrace :: w → Ws w → ∀ n, parseNetworkJson (pre.take n) = .reject

/-- The action is the last member. -/
def ActionLast (ms : List Member) : Prop :=
  ∃ init m, ms = init ++ [m] ∧ boundTo table m.1 = some 0

/-- The texts on which the promise is kept: no request stops after a comma, and a complete
one has its action last, so that no cut leaves a request behind. -/
def NoOpenRequest (t : List UInt8) : Prop :=
  t.length ≤ requestMax →
    ∀ ms, Valid ms → ¬OpenDocument t ms ∧ (Document t ms → ActionLast ms)

lemma Valid.action_mem {ms : List Member} (h : Valid ms) :
    ∃ m ∈ ms, boundTo table m.1 = some 0 := by
  obtain ⟨s, hs, -⟩ := h.action
  obtain ⟨m, hm, hb, -⟩ := valueOf_some hs
  exact ⟨m, hm, hb⟩

lemma hasNulMembers_append (ms ms' : List Member) :
    hasNulMembers (ms ++ ms') = (hasNulMembers ms || hasNulMembers ms') := by
  induction ms with
  | nil => rfl
  | cons m ms ih =>
    obtain ⟨key, v⟩ := m
    simp only [List.cons_append, hasNulMembers, ih, Bool.or_assoc]

lemma admitted_append {done ms ms' : List Member} :
    Admitted table done (ms ++ ms') ↔
      Admitted table done ms ∧ Admitted table (done ++ ms) ms' := by
  induction ms generalizing done with
  | nil => simp [Admitted]
  | cons m ms ih =>
    rw [List.cons_append, Admitted, Admitted, ih, List.append_assoc, List.singleton_append,
      and_assoc]

/-- The first members are a request by themselves when the action is among them. -/
lemma Valid.take {ms ms' : List Member} (h : Valid (ms ++ ms'))
    (hm : ∃ m ∈ ms, boundTo table m.1 = some 0) : Valid ms := by
  obtain ⟨hadm, hnul, s, hs, hp⟩ := h
  have hsome : (valueOf table ms 0).isSome = true := by
    rw [Option.isSome_iff_ne_none, ne_eq, valueOf_eq_none]
    push Not
    exact hm
  have hval : valueOf table (ms ++ ms') 0 = valueOf table ms 0 := by
    unfold valueOf at hsome ⊢
    rw [Option.isSome_map] at hsome
    rw [List.find?_append, Option.or_of_isSome hsome]
  rw [hasNulMembers_append, Bool.or_eq_false_iff] at hnul
  refine ⟨⟨fun m hm => hadm.unknown m (by simp [hm]), fun m hm => hadm.known m (by simp [hm]),
    (List.pairwise_append.mp hadm.once).1, ?_⟩, hnul.1, s, hval ▸ hs, hp⟩
  exact fun i f hf hr => required_action hsome i f hf hr

/-- A request whose action is not last can be cut after the action. -/
lemma cut_accepted {t : List UInt8} {ms : List Member} (hd : Document t ms) (hv : Valid ms)
    (hsize : t.length ≤ requestMax) (hlast : ¬ActionLast ms) :
    ∃ pre w n r, t = pre ++ rbrace :: w ∧ Ws w ∧ parseNetworkJson (pre.take n) = .ok r := by
  obtain ⟨m, hm, hb⟩ := hv.action_mem
  obtain ⟨init, post, rfl⟩ := List.append_of_mem hm
  have hpost : post ≠ [] := fun h => hlast ⟨init, m, by rw [h], hb⟩
  have hsplit : init ++ m :: post = (init ++ [m]) ++ post := by simp
  rw [hsplit] at hd hv
  have hcut : Valid (init ++ [m]) := hv.take ⟨m, by simp, hb⟩
  obtain ⟨a, o, c, rfl, ha, hc, ho⟩ := hd
  obtain ⟨b, u, rfl, hwb, hu⟩ := objectText_split ho
  rcases hu with ⟨-, h⟩ | hu
  · simp at h
  obtain ⟨u, rest, rfl, hfirst⟩ := membersText_prefix (by simp) hpost hu
  have hopen : Accepts (a ++ lbrace :: (b ++ (u ++ [comma]))) (init ++ [m]) := by
    refine ⟨?_, .inr ⟨a, b, u, [], rfl, ha, hwb, hfirst, by simp [Ws]⟩, hcut⟩
    simp only [List.length_append, List.length_cons, List.length_nil] at hsize ⊢
    omega
  refine ⟨a ++ lbrace :: (b ++ (u ++ comma :: rest)), c,
    (a ++ lbrace :: (b ++ (u ++ [comma]))).length, Request.decoded (init ++ [m]), by simp, hc, ?_⟩
  have htake : a ++ lbrace :: (b ++ (u ++ comma :: rest)) =
      (a ++ lbrace :: (b ++ (u ++ [comma]))) ++ rest := by simp
  rw [htake, List.take_left]
  exact parse_complete hopen

/-- An accepted text whose action is last has no accepted cut. -/
lemma cut_rejected {pre w x y : List UInt8} {r r' : Request} (hw : Ws w)
    (hxy : pre = x ++ y) (hfull : parseNetworkJson (pre ++ rbrace :: w) = .ok r)
    (hlast : ∀ ms, Valid ms → Document (pre ++ rbrace :: w) ms → ActionLast ms)
    (hcut : parseNetworkJson x = .ok r') : False := by
  subst hxy
  obtain ⟨ms, ⟨-, hform, hv⟩, -⟩ := parse_sound hcut
  rcases hform with ⟨a, o, c, rfl, ha, hc, ho⟩ | ⟨a, b, u, c, rfl, ha, hb, hu, hc⟩
  · -- a closed object: what follows it is whitespace, so the last brace is not in the cut
    obtain ⟨b, u, rfl, hb, hu⟩ := objectText_split ho
    rcases hu with ⟨-, rfl⟩ | hu
    · exact absurd rfl hv.ne_nil
    have htext : a ++ (lbrace :: (b ++ (u ++ [rbrace])) ++ c) ++ y ++ rbrace :: w =
        a ++ lbrace :: (b ++ (u ++ rbrace :: (c ++ y ++ rbrace :: w))) := by simp
    rw [htext] at hfull
    have hsize : (a ++ lbrace :: (b ++ (u ++ rbrace :: (c ++ y ++ rbrace :: w)))).length ≤
        requestMax := by
      obtain ⟨_, hacc, -⟩ := parse_sound hfull
      exact hacc.1
    rw [parse_run ha hb hu hv.admitted hv.noNul (separator_closed _) hsize] at hfull
    simp only [if_true, Outcome.ok_bind, conclude] at hfull
    split_ifs at hfull with hend
    obtain ⟨d, hd, hrest, -⟩ := whitespace_split (c ++ y ++ rbrace :: w)
    rw [hend.1, List.append_nil] at hrest
    have hmem : rbrace ∈ d := by
      rw [← hrest]
      simp
    exact absurd (hd _ hmem) (by decide)
  · -- cut after a comma: the other members follow it, and the action is among the first
    have htext : a ++ lbrace :: (b ++ (u ++ comma :: c)) ++ y ++ rbrace :: w =
        a ++ lbrace :: (b ++ (u ++ comma :: (c ++ y ++ rbrace :: w))) := by simp
    obtain ⟨full, hacc, -⟩ := parse_sound hfull
    have hclosed : Document (a ++ lbrace :: (b ++ (u ++ comma :: c)) ++ y ++ rbrace :: w) full :=
      hacc.2.1.resolve_right fun h => openDocument_not_closed h hw rfl
    have hsize := hacc.1
    rw [htext] at hfull hsize
    obtain ⟨e, he, hsplit, hnot⟩ := whitespace_split (c ++ y ++ rbrace :: w)
    have hsep : separator rbrace (comma :: (c ++ y ++ rbrace :: w)) =
        .ok (false, whitespace (c ++ y ++ rbrace :: w)) := by
      simp [separator, show comma ≠ rbrace by decide]
    rw [parse_run ha hb hu hv.admitted hv.noNul hsep hsize] at hfull
    simp only [Bool.false_eq_true, if_false] at hfull
    obtain ⟨⟨p, rest⟩, hloop, hconc⟩ := Outcome.bind_eq_ok.mp hfull
    simp only [conclude] at hconc
    split_ifs at hconc with hend
    obtain ⟨hend, hact, hpre⟩ := hend
    obtain ⟨d, hd, hrest, -⟩ := whitespace_split rest
    rw [hend, List.append_nil] at hrest
    have hbrace : rbrace ∈ c ++ y ++ rbrace :: w := by simp
    cases membersLoop_sound hloop with
    | nothing hnil =>
      rw [hnil, List.append_nil] at hsplit
      rw [hsplit] at hbrace
      exact absurd (he _ hbrace) (by decide)
    | members u2 ms2 tail hs hu2 hadm2 hnul2 hp htail =>
      subst hp
      rw [hs] at hsplit
      have hall := membersText_append hu he hu2
      have htext2 : a ++ lbrace :: (b ++ (u ++ comma :: (c ++ y ++ rbrace :: w))) =
          a ++ lbrace :: (b ++ ((u ++ comma :: (e ++ u2)) ++ tail)) := by
        rw [hsplit]
        simp
      rcases htail with rfl | ⟨-, f, hf, rfl⟩
      · have hdoc : Document (a ++ lbrace :: (b ++ (u ++ comma :: (c ++ y ++ rbrace :: w))))
            (ms ++ ms2) :=
          ⟨a, lbrace :: (b ++ ((u ++ comma :: (e ++ u2)) ++ [rbrace])), rest, by rw [htext2]; simp,
            ha, hrest ▸ hd, .object hb hall⟩
        have hadm : Admitted table [] (ms ++ ms2) := admitted_append.mpr ⟨hv.admitted, hadm2⟩
        have hnul : hasNulMembers (ms ++ ms2) = false := by
          rw [hasNulMembers_append, hv.noNul, hnul2]
          rfl
        have hvalid := (valid_iff hall hadm hnul).mp ⟨hact, hpre⟩
        obtain ⟨init, m, hlist, hm0⟩ := hlast _ hvalid (htext ▸ hdoc)
        have hm2 : m ∈ ms2 := by
          have hne : ms2 ≠ [] := by
            rintro rfl
            cases hu2
          have hlst := congrArg List.getLast? hlist
          rw [List.getLast?_append_of_ne_nil _ hne, List.getLast?_concat] at hlst
          exact List.mem_of_getLast? hlst
        obtain ⟨m', hm', hb'⟩ := hv.action_mem
        exact (admitted_iff.mp hadm2).2.2.2 m hm2 0 hm0 m' (by simpa using hm') hb'
      · exact @openDocument_not_closed _ (a ++ lbrace :: (b ++ (u ++ comma :: (c ++ y)))) w
          (ms ++ ms2) ⟨a, b, _, f, htext2, ha, hb, hall, hf⟩ hw (by simp)

/-- The parser keeps its promise exactly on the texts without an open request. -/
theorem parser_complete_only (t : List UInt8) : CompleteOnly t ↔ NoOpenRequest t := by
  constructor
  · intro h hsize ms hv
    refine ⟨fun hopen => ?_, fun hdoc => ?_⟩
    · obtain ⟨⟨ms', hdoc, -⟩, -⟩ := h _ (parse_complete ⟨hsize, .inr hopen, hv⟩)
      obtain ⟨pre, w, ht, hw⟩ := document_closed hdoc
      exact openDocument_not_closed hopen hw ht
    · by_contra hlast
      obtain ⟨pre, w, n, r, ht, hw, hcut⟩ := cut_accepted hdoc hv hsize hlast
      have hrej := (h _ (parse_complete ⟨hsize, .inl hdoc, hv⟩)).2 pre w ht hw n
      rw [hcut] at hrej
      cases hrej
  · intro h r hr
    obtain ⟨ms, ⟨hsize, hform, hv⟩, hdec⟩ := parse_sound hr
    refine ⟨⟨ms, hform.resolve_right (h hsize ms hv).1, hdec⟩, ?_⟩
    rintro pre w rfl hw n
    cases hcut : parseNetworkJson (pre.take n) with
    | reject => rfl
    | fault => exact absurd hcut (parse_ne_fault _)
    | ok r' =>
      exact (cut_rejected hw (List.take_append_drop n pre).symm hr
        (fun ms hv hd => (h hsize ms hv).2 hd) hcut).elim

/-- The text `{"action":"network.x",`. -/
def openText : List UInt8 :=
  [0x7b, 0x22, 0x61, 0x63, 0x74, 0x69, 0x6f, 0x6e, 0x22, 0x3a, 0x22, 0x6e, 0x65, 0x74, 0x77,
    0x6f, 0x72, 0x6b, 0x2e, 0x78, 0x22, 0x2c]

/-- An object that was never closed is accepted. -/
theorem open_object_accepted :
    (∃ r, parseNetworkJson openText = .ok r) ∧ (∀ ms, ¬Document openText ms) ∧
      ¬CompleteOnly openText := by
  have hdoc : ∀ ms, ¬Document openText ms := by
    intro ms h
    obtain ⟨pre, w, ht, -⟩ := document_closed h
    have hmem : rbrace ∈ openText := by simp [ht]
    exact absurd hmem (by decide)
  obtain ⟨r, hr⟩ : ∃ r, parseNetworkJson openText = .ok r := by
    cases h : parseNetworkJson openText with
    | ok r => exact ⟨r, rfl⟩
    | reject => exact absurd h (by decide)
    | fault => exact absurd h (parse_ne_fault _)
  refine ⟨⟨r, hr⟩, hdoc, fun h => ?_⟩
  obtain ⟨⟨ms, hd, -⟩, -⟩ := h r hr
  exact hdoc ms hd

end EspVision.NetworkService

