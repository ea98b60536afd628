import EspVision.HostParserFrames

/-!
# When every frame of a stream is delivered

The parser keeps up with a stream of admissible frames as long as the buffer is not cut. A cut
takes the start byte of a frame that is still due. Whatever is delivered afterwards lies apart
in the bytes that are left, and the due frames do not fit into less than their own bytes.
-/
namespace EspVision.Host

variable {M σ : Type*} {f : List UInt8 → Option M} {limits : Limits}

/-! ## One frame inside another -/

lemma sof_not_mem_header {header : List UInt8} {fields : ℕ × ℕ × ℕ}
    (h : headerFields (decodedHeader header) = some fields) : sof ∉ header := by
  obtain ⟨t, ht, hp⟩ := header_split h
  intro hmem
  rw [ht, List.mem_append] at hmem
  rcases hmem with hmem | hmem
  · exact (hp _ hmem).2 rfl
  · revert hmem
    decide

/-- A frame with the same lengths does not fit inside another one. -/
lemma wireFrame_inside {w w' : WireFrame f limits} {x y : List UInt8}
    (h : w.bytes = x ++ (w'.bytes ++ y))
    (hm : w'.metadataText.length = w.metadataText.length)
    (hp : w'.payload.length = w.payload.length) : x = [] ∧ y = [] := by
  have hlen := congrArg List.length h
  rw [List.length_append, List.length_append, w.length_bytes, w'.length_bytes] at hlen
  cases x with
  | nil =>
    have he : HeaderEnd.found (w.header.length + 1) = .found (w'.header.length + 1) := by
      rw [← w.findHeaderEnd [], ← w'.findHeaderEnd y, h, List.append_nil, List.nil_append]
    have hl : w.header.length + 1 = w'.header.length + 1 := HeaderEnd.found.inj he
    rw [List.length_nil] at hlen
    exact ⟨rfl, List.length_eq_zero_iff.mp (by omega)⟩
  | cons c x =>
    -- the start byte of the inner frame would have to lie behind the outer header
    exfalso
    have hin : sof ∈ w.header := by
      have htail : w.header ++ (w.metadataText ++ (w.payload ++ [eofGuard])) =
          x ++ (w'.bytes ++ y) := (List.cons.inj h).2
      have hx : x.length < w.header.length := by
        rw [List.length_cons] at hlen
        omega
      have hget := congrArg (fun l => l[x.length]?) htail
      simp only [List.getElem?_append_left hx, List.getElem?_append_right le_rfl,
        Nat.sub_self] at hget
      exact List.mem_of_getElem? (hget.trans rfl)
    exact sof_not_mem_header w.fields hin

/-- The beginning of a frame is kept. -/
lemma turn_partial {w : WireFrame f limits} {b z : List UInt8} (hb : b ≠ []) (hz : z ≠ [])
    (h : b ++ z = w.bytes) : turn f limits b = .incomplete b := by
  have hsof : toSof b = b := by
    cases b with
    | nil => exact absurd rfl hb
    | cons c rest =>
      obtain rfl : c = sof := (List.cons.inj h).1
      exact toSof_cons_sof rest
  cases hr : (turn f limits b).rest with
  | some r =>
    obtain ⟨r', happ, -⟩ := turn_append hr z
    rw [h, ← List.append_nil w.bytes, turn_wireFrame w []] at happ
    cases ht : turn f limits b with
    | frame d r₀ =>
      rw [ht] at happ
      obtain ⟨hd, -⟩ := Turn.frame.inj happ
      obtain ⟨w', hw', hw'b⟩ := exists_wireFrame ht
      rw [hsof] at hw'b
      have heq : w'.delivery = w.delivery := hw'.trans hd.symm
      rw [hw'b, List.append_assoc] at h
      obtain ⟨-, hnil⟩ := wireFrame_inside (x := []) h.symm
        (congrArg (fun d => d.metadataText.length) heq)
        (congrArg (fun d => d.payload.length) heq)
      exact absurd (List.append_eq_nil_iff.mp hnil).2 hz
    | _ =>
      rw [ht] at happ
      cases happ
  | none =>
    cases ht : turn f limits b with
    | incomplete b' =>
      obtain ⟨rfl, -⟩ := turn_incomplete ht
      rw [hsof]
    | noSof => exact absurd (hsof ▸ turn_noSof ht) hb
    | _ =>
      rw [ht] at hr
      cases hr

/-! ## Keeping up with a stream -/

/-- The bytes of frames sent one after the other. -/
def streamOf (ws : List (WireFrame f limits)) : List UInt8 := ws.flatMap (·.bytes)

@[simp] theorem streamOf_cons (w : WireFrame f limits) (ws : List (WireFrame f limits)) :
    streamOf (w :: ws) = w.bytes ++ streamOf ws := rfl

/-- The lengths of the frames. -/
def lengthsOf (ws : List (WireFrame f limits)) : List ℕ := ws.map (·.bytes.length)

/-- Leave out the frames that `k` bytes complete: the lengths of the others, and how many of the
bytes belong to the first of them. -/
def advance : List ℕ → ℕ → List ℕ × ℕ
  | [], k => ([], k)
  | l :: ls, k => if k < l then (l :: ls, k) else advance ls (k - l)

/-- Each chunk, with the part of a frame that waits for it, is at most as large as the buffer.
`k` bytes of the first of the frames have been received. -/
def ChunksFit : List ℕ → ℕ → List (ℤ × List UInt8) → Prop
  | _, _, [] => True
  | ls, k, c :: cs =>
    k + c.2.length ≤ maxBuffer ∧
      ChunksFit (advance ls (k + c.2.length)).1 (advance ls (k + c.2.length)).2 cs

/-- Hand over frames one after the other. -/
def Sink.offerAll (h : Handlers M σ) (s : Sink M σ) (ds : List (Delivery M)) : Sink M σ :=
  ds.foldl (Sink.offer h) s

@[simp] theorem Sink.offered_drop (s : Sink M σ) : s.drop.offered = s.offered := rfl

@[simp] theorem Sink.offered_offer (h : Handlers M σ) (s : Sink M σ) (d : Delivery M) :
    (s.offer h d).offered = s.offered ++ [d] := by
  simp only [Sink.offer]
  split_ifs <;> rfl

/-- The beginning `b` of the first of the frames `ws`, less than all of it. -/
def Begins (b : List UInt8) (ws : List (WireFrame f limits)) : Prop :=
  match ws with
  | [] => b = []
  | w :: _ => b.length < w.bytes.length

/-- The loop over the first bytes of a stream delivers the frames they complete. -/
theorem drainAll_stream {h : Handlers M σ} {ws : List (WireFrame h.parseMetadata limits)}
    {b y : List UInt8} (s : Sink M σ) (hb : b ++ y = streamOf ws) :
    ∃ done due b', ws = done ++ due ∧ b = streamOf done ++ b' ∧ Begins b' due ∧
      drainAll h limits s b = (s.offerAll h (done.map (·.delivery)), b') ∧
      advance (lengthsOf ws) b.length = (lengthsOf due, b'.length) := by
  induction ws generalizing b s with
  | nil =>
    obtain ⟨rfl, -⟩ := List.append_eq_nil_iff.mp hb
    exact ⟨[], [], [], rfl, rfl, rfl, rfl, rfl⟩
  | cons w ws ih =>
    rw [streamOf_cons] at hb
    by_cases hlen : b.length < w.bytes.length
    · have hadv : advance (lengthsOf (w :: ws)) b.length = (lengthsOf (w :: ws), b.length) :=
        if_pos hlen
      refine ⟨[], w :: ws, b, rfl, rfl, hlen, ?_, hadv⟩
      by_cases hnil : b = []
      · subst hnil
        rfl
      · obtain ⟨z, hz⟩ : ∃ z, b ++ z = w.bytes := by
          refine ⟨w.bytes.drop b.length, ?_⟩
          have htake := congrArg (List.take b.length) hb
          rw [List.take_left, List.take_append_of_le_length hlen.le] at htake
          rw [htake, List.length_take, min_eq_left hlen.le, List.take_append_drop]
        have hzne : z ≠ [] := by
          rintro rfl
          rw [List.append_nil] at hz
          rw [hz] at hlen
          omega
        rw [drainAll_eq, turn_partial hnil hzne hz]
        rfl
    · obtain ⟨b₂, rfl⟩ : ∃ b₂, b = w.bytes ++ b₂ := by
        refine ⟨b.drop w.bytes.length, ?_⟩
        have htake := congrArg (List.take w.bytes.length) hb
        rw [List.take_left, List.take_append_of_le_length (by omega)] at htake
        rw [← htake, List.length_take, min_eq_left (by omega), List.take_append_drop]
      rw [List.append_assoc] at hb
      obtain ⟨done, due, b', rfl, rfl, hbegin, hdrain, hadv⟩ :=
        ih (s.offer h w.delivery) (List.append_cancel_left hb)
      refine ⟨w :: done, due, b', rfl, ?_, hbegin, ?_, ?_⟩
      · rw [streamOf_cons, List.append_assoc]
      · rw [drainAll_eq, turn_wireFrame]
        exact hdrain
      · rw [← hadv]
        have hsub : (w.bytes ++ (streamOf done ++ b')).length - w.bytes.length =
            (streamOf done ++ b').length := by
          rw [List.length_append]
          omega
        simp only [lengthsOf, List.map_cons, advance, if_neg hlen, hsub]

/-! ## What is delivered lies apart in the stream -/

/-- The frames are found one after the other in `b`, and `b'` is left. -/
inductive Found (f : List UInt8 → Option M) (limits : Limits) :
    List (Delivery M) → List UInt8 → List UInt8 → Prop
  | nil {b b' : List UInt8} (h : b' <:+ b) : Found f limits [] b b'
  | cons {b r b' : List UInt8} {ds : List (Delivery M)} (w : WireFrame f limits)
      (h : w.bytes ++ r <:+ b) (hr : Found f limits ds r b') :
      Found f limits (w.delivery :: ds) b b'

lemma suffix_append_cases {b x y : List UInt8} (h : b <:+ x ++ y) :
    b <:+ y ∨ ∃ z, b = z ++ y ∧ z <:+ x := by
  obtain ⟨t, ht⟩ := h
  rcases List.append_eq_append_iff.mp ht with ⟨z, hx, hb⟩ | ⟨z, -, hy⟩
  · exact .inr ⟨z, hb, t, hx.symm⟩
  · exact .inl ⟨z, hy.symm⟩

lemma suffix_append_right {z x : List UInt8} (h : z <:+ x) (y : List UInt8) :
    z ++ y <:+ x ++ y := by
  obtain ⟨t, rfl⟩ := h
  exact ⟨t, by rw [List.append_assoc]⟩

lemma Found.of_suffix {ds : List (Delivery M)} {a b b' : List UInt8}
    (h : Found f limits ds b b') (hab : b <:+ a) : Found f limits ds a b' := by
  cases h with
  | nil hb => exact .nil (hb.trans hab)
  | cons w hw hr => exact .cons w (hw.trans hab) hr

lemma Found.append {ds ds' : List (Delivery M)} {b b' b'' x : List UInt8}
    (h : Found f limits ds b b') (h' : Found f limits ds' (b' ++ x) b'') :
    Found f limits (ds ++ ds') (b ++ x) b'' := by
  induction h with
  | nil hb => exact h'.of_suffix (suffix_append_right hb x)
  | cons w hw _ ih =>
    refine .cons w ?_ (ih h')
    rw [← List.append_assoc]
    exact suffix_append_right hw x

/-- No frame filter, or one that lets every frame pass. -/
def Handlers.Passing (h : Handlers M σ) : Prop :=
  ∀ s metadata payload, (h.filterFrame s metadata payload).2 = true

/-- The frames `ds` went to the handlers. -/
structure Delivered (h : Handlers M σ) (ds : List (Delivery M)) (s s' : Sink M σ) : Prop where
  offered : s'.offered = s.offered ++ ds
  dispatched : h.Passing → s'.dispatched = s.dispatched ++ ds

lemma Delivered.none (h : Handlers M σ) (s : Sink M σ) : Delivered h [] s s :=
  ⟨by rw [List.append_nil], fun _ => by rw [List.append_nil]⟩

lemma Delivered.dropped {h : Handlers M σ} {ds : List (Delivery M)} {s s' : Sink M σ}
    (hd : Delivered h ds s.drop s') : Delivered h ds s s' := ⟨hd.offered, hd.dispatched⟩

lemma Delivered.append {h : Handlers M σ} {ds ds' : List (Delivery M)} {s s' s'' : Sink M σ}
    (hd : Delivered h ds s s') (hd' : Delivered h ds' s' s'') :
    Delivered h (ds ++ ds') s s'' := by
  constructor
  · rw [hd'.offered, hd.offered, List.append_assoc]
  · intro hpass
    rw [hd'.dispatched hpass, hd.dispatched hpass, List.append_assoc]

lemma Delivered.offer (h : Handlers M σ) (s : Sink M σ) (d : Delivery M) :
    Delivered h [d] s (s.offer h d) := by
  constructor
  · exact Sink.offered_offer h s d
  · intro hpass
    simp only [Sink.offer, hpass s.state d.metadata d.payload, Bool.not_true,
      Bool.false_eq_true, if_false]
    split_ifs <;> rfl

lemma Delivered.offerAll (h : Handlers M σ) (s : Sink M σ) (ds : List (Delivery M)) :
    Delivered h ds s (s.offerAll h ds) := by
  induction ds generalizing s with
  | nil => exact .none h s
  | cons d ds ih => exact (Delivered.offer h s d).append (ih (s.offer h d))

lemma Delivered.cancel {h : Handlers M σ} {ds ds' : List (Delivery M)} {s s' s'' : Sink M σ}
    (hd : Delivered h ds s s') (hd' : Delivered h (ds ++ ds') s s'') :
    Delivered h ds' s' s'' := by
  constructor
  · rw [hd'.offered, hd.offered, List.append_assoc]
  · intro hpass
    rw [hd'.dispatched hpass, hd.dispatched hpass, List.append_assoc]

/-- What the loop delivers is found in the buffer. -/
lemma drainAll_found (h : Handlers M σ) (s : Sink M σ) (b : List UInt8) :
    ∃ ds, Delivered h ds s (drainAll h limits s b).1 ∧
      Found h.parseMetadata limits ds b (drainAll h limits s b).2 := by
  induction hn : (toSof b).length using Nat.strong_induction_on generalizing b s with
  | _ n ih =>
    subst hn
    rw [drainAll_eq s b]
    have go : ∀ (r : List UInt8) (s' : Sink M σ),
        (turn h.parseMetadata limits b).rest = some r →
        ∃ ds, Delivered h ds s' (drainAll h limits s' r).1 ∧
          Found h.parseMetadata limits ds b (drainAll h limits s' r).2 := by
      intro r s' hr
      obtain ⟨hlt, hsuf⟩ := turn_rest_lt hr
      obtain ⟨ds, hds, hfound⟩ := ih _ (lt_of_le_of_lt (toSof_length_le r) hlt) s' r rfl
      exact ⟨ds, hds, hfound.of_suffix (hsuf.trans (toSof_suffix b))⟩
    have drop : ∀ r, (turn h.parseMetadata limits b).rest = some r →
        ∃ ds, Delivered h ds s (drainAll h limits s.drop r).1 ∧
          Found h.parseMetadata limits ds b (drainAll h limits s.drop r).2 := by
      intro r hr
      obtain ⟨ds, hds, hfound⟩ := go r s.drop hr
      exact ⟨ds, hds.dropped, hfound⟩
    cases ht : turn h.parseMetadata limits b with
    | noSof => exact ⟨[], .none h s, .nil List.nil_suffix⟩
    | incomplete b' =>
      obtain ⟨rfl, -⟩ := turn_incomplete ht
      exact ⟨[], .none h s, .nil (toSof_suffix b)⟩
    | badHeader r => exact go r s (by rw [ht]; rfl)
    | badLength r => exact go r s (by rw [ht]; rfl)
    | noGuard r => exact drop r (by rw [ht]; rfl)
    | badMetadata r => exact drop r (by rw [ht]; rfl)
    | badCrc r => exact drop r (by rw [ht]; rfl)
    | frame d r =>
      have hlt := (turn_rest_lt (congrArg Turn.rest ht)).1
      obtain ⟨w, rfl, hw⟩ := exists_wireFrame ht
      obtain ⟨ds, hds, hfound⟩ :=
        ih _ (lt_of_le_of_lt (toSof_length_le r) hlt) (s.offer h w.delivery) r rfl
      exact ⟨w.delivery :: ds, (Delivered.offer h s w.delivery).append hds,
        .cons w (hw ▸ toSof_suffix b) hfound⟩

lemma trimmed_suffix (b : List UInt8) : trimmed b <:+ b := by
  unfold trimmed
  split_ifs
  · exact List.drop_suffix _ _
  · exact List.suffix_refl b

/-- The chunk is parsed as far as it was not cut away. -/
lemma feedBytes_trimmed (h : Handlers M σ) (p : Parser M σ) (now : ℤ) (bytes : List UInt8) :
    (p.feedBytes h now bytes).sink =
        (drainAll h p.limits p.sink (trimmed (p.buffer ++ bytes))).1 ∧
      (p.feedBytes h now bytes).buffer =
        (drainAll h p.limits p.sink (trimmed (p.buffer ++ bytes))).2 ∧
      (p.feedBytes h now bytes).limits = p.limits :=
  feedLoop_drain now p.partialFrame.isSome _ { p with
    rxBytes := p.rxBytes + bytes.length
    rxChunks := p.rxChunks + 1
    buffer := trimmed (p.buffer ++ bytes) }

/-- The bytes of a run, less those that are cut when its first chunk arrives. -/
def keptBytes (b : List UInt8) : List (ℤ × List UInt8) → List UInt8
  | [] => b
  | c :: cs => trimmed (b ++ c.2) ++ bytesOf cs

lemma keptBytes_suffix (b : List UInt8) (chunks : List (ℤ × List UInt8)) :
    keptBytes b chunks <:+ b ++ bytesOf chunks := by
  cases chunks with
  | nil => simp [keptBytes]
  | cons c cs =>
    rw [bytesOf_cons, ← List.append_assoc]
    exact suffix_append_right (trimmed_suffix _) _

/-- What a run of chunks delivers is found in the bytes it had. -/
lemma feedAll_found (h : Handlers M σ) (p : Parser M σ) (chunks : List (ℤ × List UInt8)) :
    ∃ ds b', Delivered h ds p.sink (p.feedAll h chunks).sink ∧
      Found h.parseMetadata p.limits ds (keptBytes p.buffer chunks) b' := by
  induction chunks generalizing p with
  | nil => exact ⟨[], p.buffer, .none h p.sink, .nil (List.suffix_refl _)⟩
  | cons c cs ih =>
    obtain ⟨hs, hb, hl⟩ := feedBytes_trimmed h p c.1 c.2
    obtain ⟨ds, hds, hfound⟩ : ∃ ds,
        Delivered h ds p.sink (drainAll h p.limits p.sink (trimmed (p.buffer ++ c.2))).1 ∧
          Found h.parseMetadata p.limits ds (trimmed (p.buffer ++ c.2))
            (drainAll h p.limits p.sink (trimmed (p.buffer ++ c.2))).2 := drainAll_found h _ _
    obtain ⟨ds', b', hds', hfound'⟩ := ih (p.feedBytes h c.1 c.2)
    have hrest := hfound'.of_suffix (keptBytes_suffix _ cs)
    rw [hb, hl] at hrest
    rw [hs] at hds'
    exact ⟨ds ++ ds', b', hds.append hds', hfound.append hrest⟩

/-- Frames are found in no less than all of their own bytes. -/
lemma Found.whole {ws : List (WireFrame f limits)} {b b' : List UInt8}
    (h : Found f limits (ws.map (·.delivery)) b b') (hb : b <:+ streamOf ws) :
    b = streamOf ws := by
  induction ws generalizing b with
  | nil => exact List.suffix_nil.mp hb
  | cons w ws ih =>
    rw [List.map_cons] at h
    generalize hds : w.delivery :: ws.map (·.delivery) = ds at h
    cases h with
    | nil => cases hds
    | @cons _ r _ ds w' hw hr =>
      obtain ⟨hd, hds⟩ := List.cons.inj hds
      subst hds
      obtain ⟨x, hx⟩ := hw.trans hb
      rw [streamOf_cons] at hx
      have inside : ∀ y, w.bytes = x ++ (w'.bytes ++ y) → x = [] ∧ y = [] := fun y hy =>
        wireFrame_inside hy (congrArg (fun d => d.metadataText.length) hd.symm)
          (congrArg (fun d => d.payload.length) hd.symm)
      -- either the rest reaches into `w`, or it is a rest of the other frames
      have hr_suffix : r <:+ w.bytes ++ streamOf ws :=
        (List.suffix_append _ _).trans ⟨x, hx⟩
      have hxnil : x = [] := by
        rcases suffix_append_cases hr_suffix with hrs | ⟨y, rfl, -⟩
        · have hr' := ih hr hrs
          rw [hr', ← List.append_assoc] at hx
          have hw' : w.bytes = x ++ (w'.bytes ++ []) := by
            rw [List.append_nil]
            exact (List.append_cancel_right hx).symm
          exact (inside [] hw').1
        · rw [← List.append_assoc w'.bytes, ← List.append_assoc] at hx
          exact (inside y (List.append_cancel_right hx).symm).1
      rw [hxnil, List.nil_append] at hx
      rw [streamOf_cons, ← hx]
      refine List.IsSuffix.eq_of_length_le ?_ ?_ |>.symm
      · exact hw
      · rw [hx]
        exact hb.length_le

/-! ## Every frame, exactly when nothing is cut -/

lemma begins_of_streamOf {ws : List (WireFrame f limits)} (h : Begins (streamOf ws) ws) :
    ws = [] := by
  cases ws with
  | nil => rfl
  | cons w ws =>
    have hlt : (streamOf (w :: ws)).length < w.bytes.length := h
    rw [streamOf_cons, List.length_append] at hlt
    omega

/-- The frames of a stream that are still due are delivered exactly when no chunk is cut. -/
theorem feedAll_delivered_iff {h : Handlers M σ} {chunks : List (ℤ × List UInt8)}
    {p : Parser M σ} (hl : p.limits = limits) {ws : List (WireFrame h.parseMetadata limits)}
    (hb : p.buffer ++ bytesOf chunks = streamOf ws) (hbegin : Begins p.buffer ws) :
    Delivered h (ws.map (·.delivery)) p.sink (p.feedAll h chunks).sink ↔
      ChunksFit (lengthsOf ws) p.buffer.length chunks := by
  induction chunks generalizing p ws with
  | nil =>
    rw [bytesOf_nil, List.append_nil] at hb
    obtain rfl : ws = [] := begins_of_streamOf (hb ▸ hbegin)
    exact iff_of_true (.none h p.sink) trivial
  | cons c cs ih =>
    rw [bytesOf_cons, ← List.append_assoc] at hb
    by_cases hfit : p.buffer.length + c.2.length ≤ maxBuffer
    · obtain ⟨hs, hbuf, hlim⟩ :=
        feedBytes_eq (h := h) p c.1 c.2 (by rw [List.length_append]; exact hfit)
      obtain ⟨done, due, b', rfl, hsplit, hbegin', hdrain, hadv⟩ := drainAll_stream p.sink hb
      rw [hl, hdrain] at hs hbuf
      dsimp only at hs hbuf
      have hb' : (p.feedBytes h c.1 c.2).buffer ++ bytesOf cs = streamOf due := by
        have hcat : streamOf (done ++ due) = streamOf done ++ streamOf due := by
          simp only [streamOf, List.flatMap_append]
        rw [hsplit, hcat, List.append_assoc] at hb
        rw [hbuf]
        exact List.append_cancel_left hb
      have hrec := ih (hlim.trans hl) hb' (hbuf ▸ hbegin')
      have hdone : Delivered h (done.map (·.delivery)) p.sink (p.feedBytes h c.1 c.2).sink := by
        rw [hs]
        exact .offerAll h p.sink _
      rw [ChunksFit, ← List.length_append, hadv]
      dsimp only
      rw [← hbuf, ← hrec, List.map_append]
      constructor
      · intro hd
        exact ⟨by rw [List.length_append]; exact hfit, hdone.cancel hd⟩
      · rintro ⟨-, hd⟩
        exact hdone.append hd
    · refine iff_of_false ?_ (fun hc => hfit hc.1)
      intro hd
      obtain ⟨ds, b', hds, hfound⟩ := feedAll_found h p (c :: cs)
      obtain rfl : ws.map (·.delivery) = ds :=
        List.append_cancel_left (hd.offered.symm.trans hds.offered)
      rw [hl] at hfound
      have hsuf : keptBytes p.buffer (c :: cs) <:+ streamOf ws := by
        rw [← hb, List.append_assoc, ← bytesOf_cons]
        exact keptBytes_suffix p.buffer (c :: cs)
      have hwhole := congrArg List.length (hfound.whole hsuf)
      -- the cut took at least one byte of the stream
      have hcut : maxBuffer < (p.buffer ++ c.2).length := by
        rw [List.length_append]
        omega
      rw [← hb, keptBytes, trimmed, if_pos hcut] at hwhole
      simp only [List.length_append, List.length_drop, maxBuffer] at hwhole hcut
      omega

/-- Handing a run's frames to the filter and, when that lets them pass, to `dispatch`. -/
lemma delivered_iff (h : Handlers M σ) (p : Parser M σ) (chunks : List (ℤ × List UInt8))
    (ds : List (Delivery M)) :
    ((p.feedAll h chunks).sink.offered = p.sink.offered ++ ds ↔
        Delivered h ds p.sink (p.feedAll h chunks).sink) ∧
      (h.Passing →
        ((p.feedAll h chunks).sink.dispatched = p.sink.dispatched ++ ds ↔
          Delivered h ds p.sink (p.feedAll h chunks).sink)) := by
  obtain ⟨ds', b', hds', -⟩ := feedAll_found h p chunks
  refine ⟨⟨fun ho => ?_, (·.offered)⟩, fun hpass => ⟨fun hd => ?_, (·.dispatched hpass)⟩⟩
  · obtain rfl : ds' = ds := List.append_cancel_left (hds'.offered.symm.trans ho)
    exact hds'
  · obtain rfl : ds' = ds := List.append_cancel_left ((hds'.dispatched hpass).symm.trans hd)
    exact hds'

lemma stream_delivered_iff {h : Handlers M σ} {p : Parser M σ} (hp : p.buffer = [])
    (ws : List (WireFrame h.parseMetadata p.limits)) {chunks : List (ℤ × List UInt8)}
    (hb : bytesOf chunks = streamOf ws) :
    Delivered h (ws.map (·.delivery)) p.sink (p.feedAll h chunks).sink ↔
      ChunksFit (lengthsOf ws) 0 chunks := by
  have hbegin : Begins p.buffer ws := by
    rw [hp]
    cases ws with
    | nil => rfl
    | cons w ws => exact Nat.zero_lt_succ _
  have hiff := feedAll_delivered_iff rfl (by rw [hp, hb, List.nil_append]) hbegin
  rwa [hp] at hiff

lemma plain_short {payloadLen : List UInt8} (h : payloadLen.length ≤ 8) :
    (headerStart ++ [0x32] ++ headerPayload ++ payloadLen ++ headerChecksum ++
      List.replicate 8 0x30 ++ lineEnd).length ≤ maxHeader + 1 := by
  simp only [headerStart, headerPayload, headerChecksum, lineEnd, maxHeader,
    List.length_append, List.length_cons, List.length_nil, List.length_replicate]
  omega

/-- A frame with the metadata `{}` and without a checksum; `payloadLen` are the digits. -/
def plainFrame (payloadLen payload : List UInt8)
    (hshort : payloadLen.length ≤ 8) (hmax : payload.length ≤ maxBuffer)
    (hf : headerFields (decodedHeader (headerStart ++ [0x32] ++ headerPayload ++ payloadLen ++
      headerChecksum ++ List.replicate 8 0x30 ++ lineEnd)) = some (2, payload.length, 0)) :
    WireFrame acceptAll.parseMetadata {} where
  header := headerStart ++ [0x32] ++ headerPayload ++ payloadLen ++ headerChecksum ++
    List.replicate 8 0x30 ++ lineEnd
  metadataText := [0x7b, 0x7d]
  payload := payload
  metadata := [0x7b, 0x7d]
  checksum := 0
  short := plain_short hshort
  fields := hf
  within := by
    rintro (h0 | h1 | h2)
    · exact absurd h0 (by decide)
    · exact absurd h1 (by decide)
    · exact absurd (lt_of_lt_of_le h2 hmax) (lt_irrefl _)
  parses := rfl
  intact := .inl rfl

/-- One byte of payload. -/
def smallFrame : WireFrame acceptAll.parseMetadata {} :=
  plainFrame [0x31] [0x41] (by decide) (by decide) (by decide)

/-- The longest payload that a header may announce. -/
def longestFrame : WireFrame acceptAll.parseMetadata {} :=
  plainFrame [0x31, 0x30, 0x34, 0x38, 0x35, 0x37, 0x36] (List.replicate maxBuffer 0) (by decide)
    (by rw [List.length_replicate]) (by rw [List.length_replicate]; decide)

/-- A frame that is larger than the buffer is lost. -/
lemma lost_of_large (w : WireFrame acceptAll.parseMetadata {})
    (hlarge : maxBuffer ≤ w.payload.length) :
    (Parser.feedAll acceptAll { sink := ⟨(), [], [], 0, 0, 0⟩ } [(0, w.bytes)]).sink.dispatched ≠
      [w.delivery] := by
  have hstream : bytesOf [((0 : ℤ), w.bytes)] = streamOf [w] := by simp [streamOf]
  intro hd
  have hfit : ChunksFit (lengthsOf [w]) 0 [((0 : ℤ), w.bytes)] :=
    (stream_delivered_iff (p := { sink := ⟨(), [], [], 0, 0, 0⟩ }) rfl [w] hstream).mp
      (((delivered_iff acceptAll _ _ [w.delivery]).2 fun _ _ _ => rfl).mp hd)
  have hlen := hfit.1
  rw [w.length_bytes] at hlen
  omega

end EspVision.Host
