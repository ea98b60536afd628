import EspVision.ControlJson

/-!
# `ev_control_json_parse_object` accepts exactly its grammar

The state of the member loop after the members `done` is the table `decoded fields done`,
so one pass of the loop adds one member and the run lemmas are inductions over the
remaining members.
-/
namespace EspVision.EvControlJson
open Json

/-! ## Decoded strings -/

/-- The bytes of a string without its NUL code points. -/
def storedBytes (s : List ℕ) : List UInt8 := encode (s.filter (· ≠ 0))

lemma storedBytes_eq {s : List ℕ} (h : s.contains 0 = false) : storedBytes s = encode s := by
  have hf : s.filter (· ≠ 0) = s := by
    rw [List.filter_eq_self]
    intro c hc
    have : (0 : ℕ) ∉ s := by simpa using h
    simp only [ne_eq, decide_eq_true_eq]
    rintro rfl
    exact this hc
  rw [storedBytes, hf]

/-- The output after the bytes `bytes` and, with `nul`, a NUL code point. -/
structure Output.Holds (buffer : Option (List UInt8)) (capacity : ℕ) (bytes : List UInt8)
    (nul : Bool) (out : Output) : Prop where
  cap_eq : out.capacity = capacity
  length_eq : out.length = bytes.length
  nul_eq : out.hasNul = nul
  null : buffer = none → out.buffer = none ∧ out.overflow = false
  cells : ∀ cells, buffer = some cells → ∃ cells', out.buffer = some cells' ∧
    cells'.length = cells.length ∧
    out.overflow = decide (bytes ≠ [] ∧ capacity ≤ bytes.length) ∧
    (bytes = [] ∨ bytes.length < capacity → cells' = bytes ++ cells.drop bytes.length)

/-- A buffer has as many cells as its capacity says. -/
def Sized (buffer : Option (List UInt8)) (capacity : ℕ) : Prop :=
  ∀ cells, buffer = some cells → cells.length = capacity

variable {buffer : Option (List UInt8)} {capacity : ℕ}

lemma holds_init :
    Output.Holds buffer capacity [] false { buffer := buffer, capacity := capacity } where
  cap_eq := rfl
  length_eq := rfl
  nul_eq := rfl
  null h := ⟨h, rfl⟩
  cells cells h := ⟨cells, h, rfl, by simp, by simp⟩

lemma set_append_drop (bytes cells : List UInt8) (b : UInt8) (h : bytes.length < cells.length) :
    (bytes ++ cells.drop bytes.length).set bytes.length b =
      bytes ++ b :: cells.drop (bytes.length + 1) := by
  rw [List.set_append_right _ _ le_rfl, Nat.sub_self, List.drop_eq_getElem_cons h]
  rfl

lemma append_holds (hs : Sized buffer capacity) {bytes : List UInt8} {nul : Bool} {out : Output}
    (h : out.Holds buffer capacity bytes nul) (b : UInt8) :
    ∃ out', append b out = .ok out' ∧ out'.Holds buffer capacity (bytes ++ [b]) nul := by
  cases hb : buffer with
  | none =>
    obtain ⟨hbuf, hov⟩ := h.null hb
    refine ⟨{ out with length := out.length + 1 }, by simp [append, hbuf], ?_⟩
    exact ⟨h.cap_eq, by simp [h.length_eq], h.nul_eq, fun _ => ⟨hbuf, hov⟩, by simp⟩
  | some cells =>
    obtain ⟨cells', hbuf, hlen, hov, hcells⟩ := h.cells cells hb
    have hcap := hs cells hb
    by_cases hroom : bytes.length + 1 < capacity
    · have hlt : out.length < cells'.length := by rw [h.length_eq]; omega
      refine ⟨{ out with buffer := some (cells'.set out.length b), length := out.length + 1 }, ?_, ?_⟩
      · simp [append, hbuf, h.length_eq, h.cap_eq, hroom, Output.store, hlen, hcap,
          show bytes.length < capacity by omega]
      · refine ⟨h.cap_eq, by simp [h.length_eq], h.nul_eq, by simp, ?_⟩
        rintro _ ⟨⟩
        refine ⟨_, rfl, by simp [hlen], ?_, fun _ => ?_⟩
        · have h1 : out.overflow = false := by
            rw [hov, decide_eq_false_iff_not]
            rintro ⟨-, hle⟩
            omega
          simp [h1, hroom]
        · rw [hcells (.inr (by omega)), h.length_eq, set_append_drop _ _ _ (by omega)]
          simp
    · refine ⟨{ out with overflow := true, length := out.length + 1 }, ?_, ?_⟩
      · simp [append, hbuf, h.length_eq, h.cap_eq, hroom]
      · refine ⟨h.cap_eq, by simp [h.length_eq], h.nul_eq, by simp, ?_⟩
        rintro _ ⟨⟩
        refine ⟨cells', hbuf, hlen, by simp; omega, ?_⟩
        intro hcon
        simp at hcon
        omega

lemma bytes_holds (hs : Sized buffer capacity) (bs : List UInt8) {bytes : List UInt8} {nul : Bool}
    {out : Output} (h : out.Holds buffer capacity bytes nul) :
    ∃ out', sink.bytes bs out = .ok out' ∧ out'.Holds buffer capacity (bytes ++ bs) nul := by
  induction bs generalizing bytes out with
  | nil => exact ⟨out, rfl, by simpa using h⟩
  | cons b bs ih =>
    obtain ⟨out1, h1, hh1⟩ := append_holds hs h b
    obtain ⟨out2, h2, hh2⟩ := ih hh1
    refine ⟨out2, ?_, by simpa using hh2⟩
    simp only [Sink.bytes, sink] at h2 ⊢
    simp [h1, h2]

lemma feed_holds (hs : Sized buffer capacity) {s : List ℕ} (hsc : ∀ c ∈ s, Scalar c)
    {bytes : List UInt8} {nul : Bool} {out : Output} (h : out.Holds buffer capacity bytes nul) :
    ∃ out', sink.feed s out = .ok out' ∧
      out'.Holds buffer capacity (bytes ++ storedBytes s) (nul || s.contains 0) := by
  induction s generalizing bytes nul out with
  | nil => exact ⟨out, rfl, by simpa [storedBytes] using h⟩
  | cons c s ih =>
    have hsc' : ∀ x ∈ s, Scalar x := fun x hx => hsc x (by simp [hx])
    by_cases hc : c = 0
    · subst hc
      have h1 : ({ out with hasNul := true } : Output).Holds buffer capacity bytes true :=
        ⟨h.cap_eq, h.length_eq, rfl, h.null, h.cells⟩
      obtain ⟨out2, h2, hh2⟩ := ih hsc' h1
      refine ⟨out2, by simp [Sink.feed, Sink.codepoint, sink] at h2 ⊢; exact h2, ?_⟩
      simpa [storedBytes] using hh2
    · obtain ⟨out1, h1, hh1⟩ := bytes_holds hs (utf8 c) h
      obtain ⟨out2, h2, hh2⟩ := ih hsc' hh1
      refine ⟨out2, ?_, ?_⟩
      · simp only [Sink.feed, codepoint_scalar _ hc (hsc c (by simp)), h1, Outcome.ok_bind, h2]
      · have h0 : ((0 : ℕ) == c) = false := by simpa using fun h : 0 = c => hc h.symm
        have hstored : storedBytes (c :: s) = utf8 c ++ storedBytes s := by simp [storedBytes, hc]
        rw [hstored, List.contains_cons, h0, Bool.false_or, ← List.append_assoc]
        exact hh2

/-- What `ev_control_json_string` reports about a decoded string. -/
structure StringResult (buffer : Option (List UInt8)) (capacity : ℕ) (s : List ℕ)
    (out : Output) : Prop where
  length_eq : out.length = (storedBytes s).length
  nul_eq : out.hasNul = s.contains 0
  overflow_eq : out.overflow =
    (buffer.isSome && decide (storedBytes s ≠ [] ∧ capacity ≤ (storedBytes s).length))
  fits : out.overflow = false → out.buffer = buffer.map (fill capacity (storedBytes s))

lemma terminate_holds (hs : Sized buffer capacity) {s : List ℕ} {nul : Bool} {out : Output}
    (h : out.Holds buffer capacity (storedBytes s) nul) (hn : nul = s.contains 0) :
    ∃ out', terminate out = .ok out' ∧ StringResult buffer capacity s out' := by
  cases hb : buffer with
  | none =>
    obtain ⟨hbuf, hov⟩ := h.null hb
    exact ⟨out, by simp [terminate, hbuf], h.length_eq, by rw [h.nul_eq, hn], by simp [hov],
      fun _ => by simp [hbuf]⟩
  | some cells =>
    obtain ⟨cells', hbuf, hlen, hov, hcells⟩ := h.cells cells hb
    have hcap := hs cells hb
    by_cases hroom : (storedBytes s).length < capacity
    · have hlt : out.length < cells'.length := by rw [h.length_eq]; omega
      refine ⟨{ out with buffer := some (cells'.set out.length 0) }, ?_, h.length_eq,
        by rw [← hn]; exact h.nul_eq, by simpa using hov, fun _ => ?_⟩
      · simp only [terminate, hbuf, h.cap_eq, h.length_eq, if_pos hroom, Output.store]
        rw [if_pos (by rw [hlen, hcap]; exact hroom)]
      · rw [hcells (.inr hroom), h.length_eq, set_append_drop _ _ _ (by omega)]
        simp [fill, hroom]
    · refine ⟨out, ?_, h.length_eq, by rw [← hn]; exact h.nul_eq, by simpa using hov, fun hno => ?_⟩
      · simp [terminate, hbuf, h.cap_eq, h.length_eq, hroom]
      · rw [hov, decide_eq_false_iff_not] at hno
        have hnil : storedBytes s = [] := by
          by_contra hne
          exact hno ⟨hne, by omega⟩
        have hzero : capacity = 0 := by simpa [hnil] using hroom
        simp [hbuf, fill, hzero, hcells (.inl hnil), hnil]

/-- A string text is read, and the result describes it. -/
theorem string_complete (hs : Sized buffer capacity) {t : List UInt8} {s : List ℕ}
    (ht : StringText t s) (rest : List UInt8) :
    ∃ out, string (t ++ rest) buffer capacity = .ok (out, rest) ∧
      StringResult buffer capacity s out := by
  have hinit : Output.Holds buffer capacity [] false
      { buffer := buffer, capacity := capacity } := holds_init
  obtain ⟨out1, h1, hh1⟩ := feed_holds hs (stringText_scalar ht) hinit
  obtain ⟨out2, h2, hh2⟩ := terminate_holds hs (s := s) (by simpa using hh1) rfl
  refine ⟨out2, ?_, hh2⟩
  simp only [string, Json.string_complete sink ht, h1, Outcome.ok_bind, h2]

theorem string_sound (hs : Sized buffer capacity) {s rest : List UInt8} {out : Output}
    (h : string s buffer capacity = .ok (out, rest)) :
    ∃ t cps, s = t ++ rest ∧ StringText t cps ∧ StringResult buffer capacity cps out := by
  obtain ⟨⟨out1, r⟩, h1, h'⟩ := Outcome.bind_eq_ok.mp h
  obtain ⟨t, cps, rfl, ht, -⟩ := Json.string_sound sink h1
  obtain ⟨out2, h2, hres⟩ := string_complete hs ht r
  rw [h2, Outcome.ok.injEq, Prod.mk.injEq] at h
  obtain ⟨rfl, rfl⟩ := h
  exact ⟨t, cps, rfl, ht, hres⟩

lemma sink_safe (hs : Sized buffer capacity) :
    sink.Safe fun out => ∃ bytes nul, out.Holds buffer capacity bytes nul where
  byte b out h := by
    obtain ⟨bytes, nul, h⟩ := h
    obtain ⟨out', h1, hh⟩ := append_holds hs h b
    exact ⟨out', h1, _, _, hh⟩
  nul out h := by
    obtain ⟨bytes, nul, h⟩ := h
    refine ⟨by simp [sink], ?_⟩
    rintro _ ⟨⟩
    exact ⟨bytes, true, h.cap_eq, h.length_eq, rfl, h.null, h.cells⟩

theorem string_ne_fault (hs : Sized buffer capacity) (s : List UInt8) :
    string s buffer capacity ≠ .fault := by
  intro h
  cases h1 : Json.string sink s { buffer := buffer, capacity := capacity } with
  | ok r =>
    obtain ⟨out, rest⟩ := r
    obtain ⟨t, cps, rfl, ht, -⟩ := Json.string_sound sink h1
    obtain ⟨out2, h2, -⟩ := string_complete hs ht rest
    simp [h] at h2
  | reject => simp [string, h1] at h
  | fault => exact Json.string_ne_fault (sink_safe hs) s ⟨[], false, holds_init⟩ h1

/-! ## Numbers -/

/-- The value of digits read after the value `v`. -/
def natFrom (v : ℕ) (ds : List UInt8) : ℕ := ds.foldl (fun v b => v * 10 + (b.toNat - 0x30)) v

lemma natFrom_ge (v : ℕ) (ds : List UInt8) : v ≤ natFrom v ds := by
  induction ds generalizing v with
  | nil => exact le_rfl
  | cons b ds ih =>
    have h := ih (v * 10 + (b.toNat - 0x30))
    simp only [natFrom, List.foldl_cons] at h ⊢
    omega

lemma digit_le {b : UInt8} (h : isDigit b = true) : b.toNat - 0x30 ≤ 9 := by
  simp only [isDigit, Bool.and_eq_true, decide_eq_true_eq, UInt8.le_iff_toNat_le,
    UInt8.reduceToNat] at h
  omega

lemma numberLoop_sound {v v' : ℕ} {s rest : List UInt8} (hv : v < 2 ^ 32)
    (h : numberLoop v s = .ok (v', rest)) :
    ∃ ds, s = ds ++ rest ∧ Digits ds ∧ v' = natFrom v ds ∧ v' < 2 ^ 32 := by
  induction s generalizing v with
  | nil =>
    simp only [numberLoop, Outcome.ok.injEq, Prod.mk.injEq] at h
    obtain ⟨rfl, rfl⟩ := h
    exact ⟨[], rfl, by simp [Digits], rfl, hv⟩
  | cons b s ih =>
    simp only [numberLoop] at h
    split_ifs at h with hb hlim
    · have hdig := digit_le hb
      obtain ⟨ds, rfl, hds, rfl, hlt⟩ := ih (by omega) h
      refine ⟨b :: ds, rfl, ?_, rfl, hlt⟩
      intro x hx
      rcases List.mem_cons.mp hx with rfl | hx
      · exact hb
      · exact hds x hx
    · simp only [Outcome.ok.injEq, Prod.mk.injEq] at h
      obtain ⟨rfl, rfl⟩ := h
      exact ⟨[], rfl, by simp [Digits], rfl, hv⟩

lemma numberLoop_complete {v : ℕ} {ds rest : List UInt8} (hds : Digits ds)
    (hr : startsWithDigit rest = false) (hlt : natFrom v ds < 2 ^ 32) :
    numberLoop v (ds ++ rest) = .ok (natFrom v ds, rest) := by
  induction ds generalizing v with
  | nil =>
    cases rest with
    | nil => rfl
    | cons b rest =>
      have hb : isDigit b = false := hr
      simp [numberLoop, hb, natFrom]
  | cons b ds ih =>
    have hb : isDigit b = true := hds b (by simp)
    have hdig := digit_le hb
    have hge := natFrom_ge (v * 10 + (b.toNat - 0x30)) ds
    have hlim : ¬ (4294967295 - (b.toNat - 0x30)) / 10 < v := by
      simp only [natFrom, List.foldl_cons] at hlt hge
      omega
    simp only [List.cons_append, numberLoop, hb, if_true, if_neg hlim]
    exact ih (fun x hx => hds x (by simp [hx])) hlt

lemma numberText_digits {t : List UInt8} (h : NumberText t) (hd : Digits t) : IntPart t := by
  obtain ⟨sign, int, frac, exp, rfl, hs, hi, hf, he⟩ := h
  have hs' : sign = [] := by
    rcases hs with rfl | rfl
    · rfl
    · exact absurd (hd 0x2d (by simp)) (by decide)
  have hf' : frac = [] := by
    rcases hf with rfl | ⟨ds, rfl, -⟩
    · rfl
    · exact absurd (hd 0x2e (by simp)) (by decide)
  have he' : exp = [] := by
    rcases he with rfl | ⟨e, sign, ds, rfl, rfl | rfl, -⟩
    · rfl
    · exact absurd (hd 0x65 (by simp)) (by decide)
    · exact absurd (hd 0x45 (by simp)) (by decide)
  simpa [hs', hf', he'] using hi

theorem number_sound {s rest : List UInt8} {v : UInt32} (h : number s = .ok (v, rest)) :
    ∃ t, s = t ++ rest ∧ NumberText t ∧ Digits t ∧ natValue t < 2 ^ 32 ∧
      v = UInt32.ofNat (natValue t) := by
  have hint : ∀ {t}, IntPart t → NumberText t := fun {t} ht =>
    ⟨[], t, [], [], by simp, .inl rfl, ht, .inl rfl, .inl rfl⟩
  cases s with
  | nil => simp [number] at h
  | cons b s =>
    simp only [number] at h
    split_ifs at h with hb h0 hz
    · simp only [Outcome.ok.injEq, Prod.mk.injEq] at h
      obtain ⟨rfl, rfl⟩ := h
      refine ⟨[0x30], by simp [h0], hint (.inl rfl), ?_, by decide, rfl⟩
      intro x hx
      obtain rfl : x = 0x30 := by simpa using hx
      decide
    · obtain ⟨⟨w, r⟩, hl, h'⟩ := Outcome.bind_eq_ok.mp h
      simp only [Outcome.ok.injEq, Prod.mk.injEq] at h'
      obtain ⟨rfl, rfl⟩ := h'
      obtain ⟨ds, heq, hds, rfl, hlt⟩ := numberLoop_sound (by omega) hl
      simp only [Bool.not_eq_true, Bool.not_eq_false'] at hb
      cases ds with
      | nil =>
        obtain rfl : b :: s = r := by simpa using heq
        simp only [numberLoop, hb, if_true] at hl
        split_ifs at hl
        obtain ⟨ds, heq, -⟩ := numberLoop_sound (by have := digit_le hb; omega) hl
        have := congrArg List.length heq
        simp only [List.length_cons, List.length_append] at this
        omega
      | cons d ds =>
        obtain ⟨rfl, rfl⟩ : b = d ∧ s = ds ++ r := by simpa using heq
        refine ⟨b :: ds, rfl, hint (.inr ⟨b, ds, rfl, ?_, ?_, fun x hx => hds x (by simp [hx])⟩),
          hds, hlt, rfl⟩
        · simp only [isDigit, Bool.and_eq_true, decide_eq_true_eq, UInt8.le_iff_toNat_le,
            UInt8.reduceToNat] at hb
          rw [UInt8.le_iff_toNat_le]
          have hne : b.toNat ≠ 0x30 := fun h => h0 (UInt8.toNat_inj.mp h)
          show 49 ≤ b.toNat
          omega
        · simp only [isDigit, Bool.and_eq_true, decide_eq_true_eq] at hb
          exact hb.2

theorem number_complete {t rest : List UInt8} (ht : NumberText t) (hd : Digits t)
    (hlt : natValue t < 2 ^ 32) (hr : startsWithDigit rest = false) :
    number (t ++ rest) = .ok (UInt32.ofNat (natValue t), rest) := by
  rcases numberText_digits ht hd with rfl | ⟨d, ds, rfl, h1, h2, -⟩
  · simp only [List.cons_append, List.nil_append, number, hr]
    rfl
  · have h0 : d ≠ 0x30 := by
      rintro rfl
      exact absurd h1 (by decide)
    have hdd : isDigit d = true := hd d (by simp)
    have hl := numberLoop_complete hd hr hlt
    simp only [List.cons_append, number, hdd, Bool.not_true, Bool.false_eq_true, if_false, if_neg h0]
    rw [List.cons_append] at hl
    rw [hl]
    rfl

lemma numberLoop_ne_fault (v : ℕ) (s : List UInt8) : numberLoop v s ≠ .fault := by
  induction s generalizing v with
  | nil => simp [numberLoop]
  | cons b s ih =>
    simp only [numberLoop]
    split_ifs
    · simp
    · exact ih _
    · simp

theorem number_ne_fault (s : List UInt8) : number s ≠ .fault := by
  cases s with
  | nil => simp [number]
  | cons b s =>
    simp only [number]
    split_ifs
    · simp
    · simp
    · simp
    · exact Outcome.bind_ne_fault (numberLoop_ne_fault _ _) fun _ _ => by simp

/-! ## Keys -/

lemma encode_ne_zero {s : List ℕ} (hs : ∀ c ∈ s, Scalar c) (h0 : s.contains 0 = false) :
    ∀ b ∈ encode s, b ≠ 0 := by
  intro b hb
  obtain ⟨c, hc, hbc⟩ := List.mem_flatMap.mp hb
  refine utf8_ne_zero ?_ (hs c hc) b hbc
  rintro rfl
  simp [hc] at h0

lemma keyBuffer_sized : Sized (some keyBuffer) keyCapacity := by
  rintro _ ⟨⟩
  rfl

lemma cString_append {bytes cells : List UInt8} (h : ∀ b ∈ bytes, b ≠ 0) :
    cString (bytes ++ 0 :: cells) = .ok bytes := by
  have htake : (bytes ++ 0 :: cells).takeWhile (· ≠ 0) = bytes := by
    rw [List.takeWhile_append_of_pos (by simpa using h)]
    simp
  simp only [cString, List.contains_append, List.contains_cons, beq_self_eq_true, Bool.true_or,
    Bool.or_true, if_true, htake]

lemma findField_eq {key : Output} {text : List UInt8} (hl : key.length = text.length)
    (hc : cString (key.buffer.getD []) = .ok text) (fields : List Field) (i : ℕ) :
    findField key fields i =
      .ok ((fields.findIdx? fun f => f.name = text).map (· + i)) := by
  induction fields generalizing i with
  | nil => rfl
  | cons f fields ih =>
    have hrest : findField key fields (i + 1) =
        .ok (((fields.findIdx? fun f => f.name = text).map (· + 1)).map (· + i)) := by
      rw [ih (i + 1), Option.map_map]
      congr 2
      funext n
      simp only [Function.comp]
      omega
    by_cases hn : f.name = text
    · subst hn
      simp [findField, hl, hc, List.findIdx?_cons]
    · have hn' : text ≠ f.name := fun h => hn h.symm
      simp only [findField, hl, hc, Outcome.ok_bind, if_neg hn', hrest, ite_self,
        List.findIdx?_cons, decide_eq_true_eq, if_neg hn]

lemma boundTo_map_name {fields fields' : List Field}
    (h : fields'.map (·.name) = fields.map (·.name)) (key : List ℕ) :
    boundTo fields' key = boundTo fields key := by
  have hidx : ∀ l : List Field, (l.findIdx? fun f => f.name = encode key) =
      (l.map (·.name)).findIdx? (· = encode key) := by
    intro l
    rw [List.findIdx?_map]
    rfl
  simp only [boundTo, hidx, h]

/-- The lookup of a decoded key finds the field it is bound to. -/
theorem lookup_eq {key : List ℕ} (hk : ∀ c ∈ key, Scalar c) {out : Output}
    (h : StringResult (some keyBuffer) keyCapacity key out) (fields : List Field) :
    lookup fields out = .ok (boundTo fields key) := by
  rw [lookup, h.nul_eq]
  cases hnul : key.contains 0 with
  | true =>
    simp only [Bool.not_true, Bool.and_false, Bool.false_eq_true, if_false, boundTo, hnul,
      Bool.true_or, if_true]
  | false =>
    have hst := storedBytes_eq hnul
    have hov := h.overflow_eq
    rw [hst] at hov
    by_cases hlen : keyCapacity ≤ (encode key).length
    · have hne : encode key ≠ [] := by
        rintro he
        simp [he, keyCapacity] at hlen
      have hb : boundTo fields key = none := by simp only [boundTo, hlen, decide_true, Bool.or_true,
        if_true]
      simp [hov, hb, hlen, hne]
    · have hno : out.overflow = false := by simp [hov, hlen]
      have hbuf := h.fits hno
      rw [hst, Option.map_some, fill, if_pos (by omega)] at hbuf
      have hc : cString (out.buffer.getD []) = .ok (encode key) := by
        rw [hbuf]
        exact cString_append (encode_ne_zero hk hnul)
      have hl : out.length = (encode key).length := by rw [h.length_eq, hst]
      have hb : boundTo fields key = fields.findIdx? fun f => f.name = encode key := by
        rw [boundTo, hnul, Bool.false_or, if_neg (by simpa using hlen)]
      simp [hno, findField_eq hl hc, hb]

/-! ## One field -/

lemma cleared_admits {f : FieldValue} {v : Value} : f.cleared.Admits v ↔ f.Admits v := by
  cases f with
  | string buffer capacity length =>
    cases v <;> simp [FieldValue.cleared, FieldValue.Admits]
  | uint32 n => cases v <;> simp [FieldValue.cleared, FieldValue.Admits]
  | boolean b => cases v <;> simp [FieldValue.cleared, FieldValue.Admits]

lemma fill_fill {capacity : ℕ} {bytes : List UInt8} (h : bytes = [] ∨ bytes.length < capacity)
    (cells : List UInt8) : fill capacity bytes (fill capacity [] cells) = fill capacity bytes cells := by
  rcases Nat.eq_zero_or_pos capacity with rfl | hpos
  · simp [fill]
  · have hb : bytes.length < capacity := by
      rcases h with rfl | h
      · exact hpos
      · exact h
    simp [fill, hb, hpos]

lemma cleared_decoded {f : FieldValue} {v : Value} (h : f.Admits v) :
    f.cleared.decoded v = f.decoded v := by
  cases f with
  | string buffer capacity length =>
    cases v <;> simp only [FieldValue.Admits] at h
    simp only [FieldValue.cleared, FieldValue.decoded]
    cases buffer with
    | none => rfl
    | some cells =>
      simp only [reduceCtorEq, false_or] at h
      simp only [Option.map_some, fill_fill h.2]
  | uint32 n => cases v <;> simp only [FieldValue.Admits] at h; rfl
  | boolean b => cases v <;> simp only [FieldValue.Admits] at h; rfl

lemma fill_length {capacity : ℕ} {bytes cells : List UInt8} (h : cells.length = capacity) :
    (fill capacity bytes cells).length = capacity := by
  unfold fill
  split_ifs with hb
  · simp
    omega
  · exact h

lemma after_sized {f : Field} (h : f.value.WellSized) {buffer : Option (List UInt8)}
    {capacity length : ℕ} (hv : (f.after none).value = .string buffer capacity length) :
    Sized buffer capacity := by
  rintro cells rfl
  cases hf : f.value with
  | string b c l =>
    simp only [Field.after, hf, FieldValue.cleared, FieldValue.string.injEq] at hv
    obtain ⟨hb, rfl, -⟩ := hv
    cases b with
    | none => simp at hb
    | some cells0 =>
      simp only [Option.map_some, Option.some.injEq] at hb
      rw [hf] at h
      rw [← hb]
      exact fill_length h
  | uint32 n => simp [Field.after, hf, FieldValue.cleared] at hv
  | boolean b => simp [Field.after, hf, FieldValue.cleared] at hv

/-- A string result without overflow and NUL is an admitted value, stored as the reference says. -/
lemma stringResult_ok {cps : List ℕ} {out : Output} (length : ℕ)
    (h : StringResult buffer capacity cps out) :
    (out.overflow || out.hasNul) = false ↔
      (FieldValue.string buffer capacity length).Admits (.string cps) := by
  rw [h.nul_eq, h.overflow_eq, Bool.or_eq_false_iff]
  constructor
  · rintro ⟨hov, hn⟩
    rw [storedBytes_eq hn] at hov
    refine ⟨hn, ?_⟩
    cases buffer with
    | none => exact .inl rfl
    | some cells =>
      simp only [Option.isSome_some, Bool.true_and, decide_eq_false_iff_not, not_and,
        Nat.not_le] at hov
      by_cases he : encode cps = []
      · exact .inr (.inl he)
      · exact .inr (.inr (hov he))
  · rintro ⟨hn, hfit⟩
    rw [storedBytes_eq hn]
    refine ⟨?_, hn⟩
    rcases hfit with rfl | he | hlt
    · rfl
    · simp [he]
    · simp [Nat.not_le.mpr hlt]

lemma stringResult_value {cps : List ℕ} {out : Output} {length : ℕ}
    (h : StringResult buffer capacity cps out)
    (hok : (FieldValue.string buffer capacity length).Admits (.string cps)) :
    FieldValue.string out.buffer capacity out.length =
      (FieldValue.string buffer capacity length).decoded (.string cps) := by
  have hno := (Bool.or_eq_false_iff.mp ((stringResult_ok length h).mpr hok)).1
  rw [FieldValue.decoded, h.fits hno, h.length_eq, storedBytes_eq hok.1]

/-- A known field that is not present yet takes a value of its type. -/
theorem parseField_sound {f f' : Field} (hw : f.value.WellSized) {s rest : List UInt8}
    (h : parseField (f.after none) s = .ok (f', rest)) :
    ∃ t v, s = t ++ rest ∧ ValueText t v ∧ f.value.Admits v ∧ f' = f.after (some v) := by
  have hafter : ∀ {v}, f.value.cleared.Admits v →
      f.value.Admits v ∧ f.after (some v) =
        { f with present := true, value := f.value.cleared.decoded v } := fun {v} hv =>
    ⟨cleared_admits.mp hv, by rw [Field.after, cleared_decoded (cleared_admits.mp hv)]⟩
  have hnp : (f.after none).present = false := rfl
  have hval : (f.after none).value = f.value.cleared := rfl
  simp only [parseField, hnp, hval, Bool.false_eq_true, if_false] at h
  cases hc : f.value.cleared with
  | string b c l =>
    have hsz : Sized b c := after_sized hw (hval.trans hc)
    simp only [hc] at h
    obtain ⟨⟨out, r⟩, h1, h2⟩ := Outcome.bind_eq_ok.mp h
    clear h
    obtain ⟨t, cps, rfl, ht, hres⟩ := string_sound hsz h1
    simp only at h2
    split_ifs at h2 with hbad
    obtain ⟨rfl, rfl⟩ : _ ∧ r = rest := by simpa using h2
    have hok : (FieldValue.string b c l).Admits (.string cps) :=
      (stringResult_ok l hres).mp (by simpa using hbad)
    obtain ⟨hadm, heq⟩ := hafter (v := .string cps) (by rw [hc]; exact hok)
    refine ⟨t, _, rfl, .string ht, hadm, ?_⟩
    rw [heq, hc, ← stringResult_value hres hok]
    rfl
  | uint32 n =>
    simp only [hc] at h
    obtain ⟨⟨v, r⟩, h1, h2⟩ := Outcome.bind_eq_ok.mp h
    clear h
    obtain ⟨t, rfl, ht, hd, hlt, rfl⟩ := number_sound h1
    obtain ⟨rfl, rfl⟩ : _ ∧ r = rest := by simpa using h2
    obtain ⟨hadm, heq⟩ := hafter (v := .number t) (by rw [hc]; exact ⟨hd, hlt⟩)
    exact ⟨t, _, rfl, .number ht, hadm, by rw [heq, hc]; rfl⟩
  | boolean b =>
    simp only [hc] at h
    have hb : b = false := by
      cases hf : f.value <;> simp only [hf, FieldValue.cleared, reduceCtorEq,
        FieldValue.boolean.injEq] at hc
      exact hc.symm
    cases s with
    | nil => simp at h
    | cons c s =>
      simp only at h
      split_ifs at h with ht hf <;> obtain ⟨r, h1, h⟩ := Outcome.bind_eq_ok.mp h <;>
        rw [literal_eq_ok] at h1 <;> obtain ⟨rfl, rfl⟩ : _ ∧ r = rest := by simpa using h
      · obtain ⟨hadm, heq⟩ := hafter (v := .bool true) (by rw [hc]; trivial)
        exact ⟨_, _, h1, .bool true, hadm, by rw [heq, hc]; rfl⟩
      · obtain ⟨hadm, heq⟩ := hafter (v := .bool false) (by rw [hc]; trivial)
        exact ⟨_, _, h1, .bool false, hadm, by rw [heq, hc, hb]; rfl⟩

theorem parseField_complete {f : Field} (hw : f.value.WellSized) {t rest : List UInt8} {v : Value}
    (ht : ValueText t v) (hv : f.value.Admits v) (hr : NumberEnd rest) :
    parseField (f.after none) (t ++ rest) = .ok (f.after (some v), rest) := by
  have hv' := cleared_admits.mpr hv
  have heq : f.after (some v) =
      { f with present := true, value := f.value.cleared.decoded v } := by
    rw [Field.after, cleared_decoded hv]
  have hnp : (f.after none).present = false := rfl
  have hval : (f.after none).value = f.value.cleared := rfl
  simp only [parseField, hnp, hval, Bool.false_eq_true, if_false]
  cases hc : f.value.cleared with
  | string b c l =>
    have hsz : Sized b c := after_sized hw (hval.trans hc)
    rw [hc] at hv' heq
    cases ht <;> simp only [FieldValue.Admits] at hv'
    case string s hst =>
      obtain ⟨out, hout, hres⟩ := string_complete hsz hst rest
      have hok := (stringResult_ok l hres).mpr hv'
      simp only [hout, Outcome.ok_bind, hok, Bool.false_eq_true, if_false, heq,
        ← stringResult_value hres hv']
      rfl
  | uint32 n =>
    rw [hc] at hv' heq
    cases ht <;> simp only [FieldValue.Admits] at hv'
    case number hn =>
      simp only [number_complete hn hv'.1 hv'.2 hr.noDigit, Outcome.ok_bind, heq]
      rfl
  | boolean b =>
    have hb : b = false := by
      cases hf : f.value <;> simp only [hf, FieldValue.cleared, reduceCtorEq,
        FieldValue.boolean.injEq] at hc
      exact hc.symm
    rw [hc] at hv' heq
    cases ht <;> simp only [FieldValue.Admits] at hv'
    case bool x =>
      have hlit : literal (boolText x) (boolText x ++ rest) = .ok rest := literal_eq_ok.mpr rfl
      rw [heq]
      cases x <;> simp only [boolText, List.cons_append, List.nil_append] at hlit ⊢ <;>
        simp [hlit, hb, FieldValue.decoded, Field.after]

lemma parseField_present {f : Field} {v : Value} (s : List UInt8) :
    parseField (f.after (some v)) s = .reject := by
  simp [parseField, Field.after]

lemma parseField_ne_fault {f : Field} (hw : f.value.WellSized) (x : Option Value)
    (s : List UInt8) : parseField (f.after x) s ≠ .fault := by
  cases x with
  | some v => simp [parseField_present]
  | none =>
    have hnp : (f.after none).present = false := rfl
    simp only [parseField, hnp, Bool.false_eq_true, if_false]
    cases hc : (f.after none).value with
    | string b c l =>
      refine Outcome.bind_ne_fault (string_ne_fault (after_sized hw hc) s) ?_
      rintro ⟨out, r⟩ -
      simp only
      split_ifs <;> simp
    | uint32 n => exact Outcome.bind_ne_fault (number_ne_fault s) fun _ _ => by simp
    | boolean b =>
      cases s with
      | nil => simp
      | cons c s =>
        simp only
        split_ifs
        · exact Outcome.bind_ne_fault (literal_ne_fault _ _) fun _ _ => by simp
        · exact Outcome.bind_ne_fault (literal_ne_fault _ _) fun _ _ => by simp
        · simp

end EspVision.EvControlJson
