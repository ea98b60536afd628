import EspVision.MuxFaithful

/-!
# Nothing follows a frame that was cut short on a TCP link

When the worker gives up a frame of which a TCP link has taken some bytes, it closes the link before
it visits the target again. A closed link is not written to: its slot has gone on to another
generation, which comes back only after as many changes as there are generations.
-/
namespace EspVision.MuxTx

open EvTransport EvMux EvSession Host TransitionSystem Ledger Outbox

/-! ## Generations of a slot -/

/-- How often the links can have changed. -/
def changes (h : List (Step × Reply)) : ℕ := h.countP fun l => l.1.changesLinks

/-- The slot of the link has gone on by `k` generations. -/
def Later (k : ℕ) (r : Registry) (c : LinkRef) : Prop :=
  (r.links c.transportId c.slot).generation = EvTransport.nextGeneration^[k] c.generation

/-- The slot has gone on by at most `n` generations, and if by none the link is current. -/
def Aged (n : ℕ) (r : Registry) (c : LinkRef) : Prop :=
  ∃ k ≤ n, Later k r c ∧ (k = 0 → r.linkIsCurrent c = true)

/-- The slot has gone on by some, but at most `n`, generations. -/
def Gone (n : ℕ) (r : Registry) (c : LinkRef) : Prop := ∃ k, 0 < k ∧ k ≤ n ∧ Later k r c

section

variable {n : ℕ} {r r' : Registry} {c : LinkRef}

theorem Aged.of_current (h : r.linkIsCurrent c = true) : Aged n r c :=
  ⟨0, Nat.zero_le n, ((r.linkIsCurrent_iff c).mp h).2.2.2, fun _ => h⟩

theorem Aged.gone (h : Aged n r c) (hc : r.linkIsCurrent c = false) : Gone n r c := by
  obtain ⟨k, hk, hlater, hcurrent⟩ := h
  refine ⟨k, Nat.pos_of_ne_zero fun hzero => ?_, hk, hlater⟩
  rw [hcurrent hzero] at hc
  cases hc

/-- A link whose slot has gone on is not current, unless the generations have gone round. -/
theorem Gone.not_current (h : Gone n r c) (hn : n < 2 ^ 32 - 1) : r.linkIsCurrent c = false := by
  obtain ⟨k, hpos, hk, hlater⟩ := h
  refine Bool.eq_false_iff.mpr fun hc => ?_
  have hgen := ((r.linkIsCurrent_iff c).mp hc).2.2.2
  exact iterate_nextGeneration_ne hpos (Nat.lt_of_le_of_lt hk hn) (hlater.symm.trans hgen)

theorem Later.advances {k : ℕ} (h : Later k r c) (hr : r.Advances r') :
    r'.links c.transportId c.slot = r.links c.transportId c.slot ∧ Later k r' c ∨
      Later (k + 1) r' c := by
  rcases hr.2 c.transportId c.slot with he | he
  · refine .inl ⟨he, ?_⟩
    unfold Later
    rw [he]
    exact h
  · refine .inr ?_
    unfold Later
    rw [he, h, Function.iterate_succ_apply']

theorem Aged.advances (h : Aged n r c) (hr : r.Advances r') : Aged (n + 1) r' c := by
  obtain ⟨k, hk, hlater, hcurrent⟩ := h
  rcases hlater.advances hr with ⟨he, hsame⟩ | hnext
  · refine ⟨k, Nat.le_succ_of_le hk, hsame, fun hzero => ?_⟩
    rw [← hcurrent hzero, Registry.linkIsCurrent, Registry.linkIsCurrent, he, hr.1]
  · exact ⟨k + 1, Nat.succ_le_succ hk, hnext, fun hzero => absurd hzero (Nat.succ_ne_zero k)⟩

theorem Gone.advances (h : Gone n r c) (hr : r.Advances r') : Gone (n + 1) r' c := by
  obtain ⟨k, hpos, hk, hlater⟩ := h
  rcases hlater.advances hr with ⟨-, hsame⟩ | hnext
  · exact ⟨k, hpos, Nat.le_succ_of_le hk, hsame⟩
  · exact ⟨k + 1, Nat.succ_pos k, Nat.succ_le_succ hk, hnext⟩

/-- A link that is closed is gone. -/
theorem Aged.closed (h : Aged n r c) : Gone (n + 1) (r.linkClose c) c :=
  (h.advances (r.linkClose_advances c)).gone (r.linkClose_not_current c)

theorem LinkChange.advances (r : Registry) (change : LinkChange) : r.Advances (change.apply r) := by
  cases change with
  | linkOpen id slot =>
    unfold LinkChange.apply
    dsimp only
    cases h : r.linkOpen id slot with
    | none => exact r.advances_refl
    | some p => exact Registry.linkOpen_advances h
  | linkClose link => exact r.linkClose_advances link
  | linkAdvance link => exact r.linkAdvanceGeneration_advances link

end

/-! ## Streams -/

/-- A link that was written to has aged by at most `n`; a TCP link on which a frame was cut short is
to be closed or gone; and only the last segment of a TCP link may be less than a frame. -/
structure Streams (n : ℕ) (s : Mux) : Prop where
  aged : ∀ c, s.segments c ≠ [] → Aged n s.registry c
  severed : ∀ c p r, c.transportId = .tcp → p ∈ s.segments c → (p.1, r) ∈ s.left → r ≠ espOk →
    (∃ t, targetIndex c = some t ∧ .close c ∈ s.pendingOf t) ∨ Gone n s.registry c
  whole : ∀ c, c.transportId = .tcp → ∀ p ∈ (s.segments c).dropLast,
    ∃ m, s.outbox.accepted[p.1]? = some m ∧ p.2 = m.bytes.length

/-- Nothing is sent, no link changes, no begun frame leaves, and what is to be closed is still to be
closed. -/
structure Calm (s s' : Mux) : Prop where
  segments : s'.segments = s.segments
  registry : s'.registry = s.registry
  accepted : s.accepted <+: s'.accepted
  left : ∀ q ∈ s'.left, q ∈ s.left ∨ ∀ c n, (q.1, n) ∉ s.segments c
  closes : ∀ t c, .close c ∈ s.pendingOf t → .close c ∈ s'.pendingOf t

section

variable {s s' s'' : Mux} {t : Target} {k : FrameSlot} {n : ℕ} {p : Pick} {f g : Frame}
  {look : WorkerLook}

theorem Calm.refl (s : Mux) : Calm s s :=
  ⟨rfl, rfl, List.prefix_rfl, fun _ hq => .inl hq, fun _ _ hc => hc⟩

theorem Calm.trans (h : Calm s s') (h' : Calm s' s'') : Calm s s'' := by
  refine ⟨h'.segments.trans h.segments, h'.registry.trans h.registry, h.accepted.trans h'.accepted,
    fun q hq => ?_, fun t c hc => h'.closes t c (h.closes t c hc)⟩
  rcases h'.left q hq with hq | hq
  · exact h.left q hq
  · rw [h.segments] at hq
    exact .inr hq

theorem outbox_accepted_of_prefix (h : s.accepted <+: s'.accepted) {i : ℕ}
    {m : Message LinkRef UInt8} (hm : s.outbox.accepted[i]? = some m) :
    s'.outbox.accepted[i]? = some m := by
  obtain ⟨b, hb⟩ := h
  have hlist : s'.outbox.accepted = s.outbox.accepted ++ b.map Submission.message := by
    show s'.accepted.map _ = s.accepted.map _ ++ _
    rw [← hb, List.map_append]
  rw [hlist, List.getElem?_append_left (List.getElem?_eq_some_iff.mp hm).1, hm]

theorem Streams.calm (hs : Streams n s) (h : Calm s s') : Streams n s' := by
  refine ⟨fun c hc => ?_, fun c p r htcp hp hleft hr => ?_, fun c htcp p hp => ?_⟩
  · rw [h.segments] at hc
    rw [h.registry]
    exact hs.aged c hc
  · rw [h.segments] at hp
    rw [h.registry]
    rcases h.left _ hleft with hold | hnot
    · refine (hs.severed c p r htcp hp hold hr).imp_left ?_
      rintro ⟨t, ht, hclose⟩
      exact ⟨t, ht, h.closes t c hclose⟩
    · exact absurd hp (hnot c p.2)
  · rw [h.segments] at hp
    obtain ⟨m, hm, hlen⟩ := hs.whole c htcp p hp
    exact ⟨m, outbox_accepted_of_prefix h.accepted hm, hlen⟩

/-! ### Calm steps -/

theorem Quiet.calm (h : Quiet s s') : Calm s s' := by
  obtain ⟨hmemory, hpool, hregistry, hwire, hsegments, haccepted, hleft, hdue, hcompleted⟩ := h.rest
  refine ⟨hsegments, hregistry, by rw [haccepted], fun q hq => .inl (hleft ▸ hq), fun t c hc => ?_⟩
  rw [h.pending]
  exact hc

/-- A frame of which nothing was sent leaves. -/
theorem not_begun {x : Site} (hs : Faithful s) (hx : s.frameAt x = some f) (hzero : f.txOffset = 0)
    (c : LinkRef) (n : ℕ) : (f.id, n) ∉ s.segments c := hs.sound.not_begun (live_some hx) hzero

theorem fill_calm (h : s.fill t = some s') : Calm s s' := by
  obtain ⟨k, payload, f, hf⟩ := fill_fills h
  refine ⟨hf.trace.segments, hf.registry, ⟨_, hf.accepted.symm⟩, fun q hq => .inl (hf.left ▸ hq),
    fun t c hc => ?_⟩
  rw [hf.pending]
  exact hc

theorem release_calm (hs : Faithful s) {r : SpecialRef} {result : EspErr}
    (hused : (s.special r).used = true) (hzero : (s.special r).frame.txOffset = 0) :
    Calm s (s.releaseSpecial r result) := by
  have haside := s.releaseSpecial_aside r result
  refine ⟨haside.wire.segments, haside.wire.registry,
    (releaseSpecial_accepted s r result).symm ▸ List.prefix_rfl, fun q hq => ?_, fun t c hc => ?_⟩
  · rw [releaseSpecial_left hused] at hq
    rcases List.mem_append.mp hq with hq | hq
    · exact .inl hq
    · rw [List.mem_singleton.mp hq]
      exact .inr (not_begun (x := .inr r) hs (if_pos hused) hzero)
  · rw [pendingOf_release]
    exact hc

theorem PoolMove.calm (hs : Faithful s) (h : PoolMove s s') : Calm s s' := by
  cases h with
  | order n => exact ⟨rfl, rfl, List.prefix_rfl, fun q hq => .inl hq, fun _ _ hc => hc⟩
  | replace r hused hzero hkind => exact release_calm hs hused hzero
  | cancel r hused hzero =>
    have hcalm : Calm s (s.releaseSpecial r espErrInvalidState) := release_calm hs hused hzero
    exact ⟨hcalm.segments, hcalm.registry, hcalm.accepted, hcalm.left, hcalm.closes⟩
  | refill q slot payload hr hframes hmarks hunread =>
    exact ⟨rfl, rfl, List.prefix_rfl, fun q hq => .inl hq, fun _ _ hc => hc⟩
  | put r sp payload hfree hp =>
    exact ⟨rfl, rfl, List.prefix_append _ _, fun q hq => .inl hq, fun _ _ hc => hc⟩

theorem PoolMoves.calm (hs : Faithful s) (h : PoolMoves s s') : Calm s s' := by
  induction h with
  | refl => exact .refl s
  | tail hmoves hmove ih => exact ih.trans (hmove.calm (hs.poolMoves hmoves).faithful)

theorem scan_calm (hs : Faithful s) (h : s.scan t = some s') : Calm s s' := by
  rcases scan_cases hs.orderly h with hquiet | ⟨k, i, which, hdrop⟩
  · exact hquiet.calm
  · have hpending := hdrop.pending
    obtain rfl := hdrop.result
    refine ⟨rfl, rfl, List.prefix_rfl, fun q hq => ?_, fun t c hc => by rwa [hpending]⟩
    rcases List.mem_append.mp hq with hq | hq
    · exact .inl hq
    · rw [List.mem_singleton.mp hq]
      exact .inr (not_begun hs hdrop.site hdrop.unstarted)

theorem setPick_calm : Calm s (s.setPick t p g) := by
  cases p with
  | normal k =>
    refine ⟨rfl, rfl, List.prefix_rfl, fun q hq => .inl hq, fun u c hc => ?_⟩
    rw [pendingOf_setPick]
    exact hc
  | special r => exact ⟨rfl, rfl, List.prefix_rfl, fun q hq => .inl hq, fun _ _ hc => hc⟩

/-- The worker has something less to do. -/
theorem pendingOf_popped {rest : List Aftermath} (hqueues : s'.queues = s.queues)
    (hafter : s'.after = Function.update s.after t rest) :
    s'.pendingOf = Function.update s.pendingOf t ((s.holder t).aftermath ++ rest) :=
  pendingOf_update (q := s.queues t) (by rw [hqueues, Function.update_eq_self]) hafter

/-- What is to be closed is still to be closed when something else was done. -/
theorem popped_closes {a : Aftermath} {rest : List Aftermath} (s' : Mux)
    (ha : s.after t = a :: rest) (hqueues : s'.queues = s.queues) (hafter : s'.after = Function.update s.after t rest)
    {u : Target} {c : LinkRef} (hc : .close c ∈ s.pendingOf u) :
    .close c ∈ s'.pendingOf u ∨ u = t ∧ a = .close c := by
  rw [pendingOf_popped hqueues hafter]
  by_cases hu : u = t
  · subst hu
    rw [Function.update_self]
    rw [Mux.pendingOf, ha] at hc
    rcases List.mem_append.mp hc with hc | hc
    · exact .inl (List.mem_append.mpr (.inl hc))
    · rcases List.mem_cons.mp hc with hc | hc
      · exact .inr ⟨rfl, hc.symm⟩
      · exact .inl (List.mem_append.mpr (.inr hc))
  · rw [Function.update_of_ne hu]
    exact .inl hc

/-- What follows a visit, other than the end of a link. -/
theorem popped_calm {a : Aftermath} {rest : List Aftermath} (ha : s.after t = a :: rest)
    (hclose : ∀ c, a ≠ .close c) (completed : List Completion) :
    Calm s { s.setAfter t rest with completed := completed } := by
  refine ⟨rfl, rfl, List.prefix_rfl, fun q hq => .inl hq, fun u c hc => ?_⟩
  have hkept := popped_closes { s.setAfter t rest with completed := completed } ha rfl rfl hc
  exact hkept.resolve_right fun h => hclose c h.2

theorem afterwards_calm (h : s.afterwards t = some s') : Calm s s' := by
  unfold Mux.afterwards at h
  split at h
  · rename_i ha
    obtain rfl := Option.some.inj h
    exact popped_calm ha (fun c hc => by cases hc) _
  · rename_i ha
    obtain rfl := Option.some.inj h
    exact popped_calm ha (fun c hc => by cases hc) _
  · cases h

theorem runDue_calm {i : ℕ} (h : s.runDue i = some s') : Calm s s' := by
  unfold Mux.runDue at h
  split_ifs at h
  obtain rfl := Option.some.inj h
  exact ⟨rfl, rfl, List.prefix_rfl, fun q hq => .inl hq, fun _ _ hc => hc⟩

/-! ### Steps that change a link -/

theorem Streams.advanced {registry : Registry} (hs : Streams n s) (hr : s.registry.Advances registry) :
    Streams (n + 1) { s with registry := registry } :=
  ⟨fun c hc => (hs.aged c hc).advances hr,
    fun c p r htcp hp hleft hne => (hs.severed c p r htcp hp hleft hne).imp_right fun h =>
      h.advances hr, hs.whole⟩

theorem Streams.closed (hs : Streams n s) (h : s.closeLink t = some s') : Streams (n + 1) s' := by
  unfold Mux.closeLink at h
  split at h
  · rename_i link rest ha
    obtain rfl := Option.some.inj h
    have hr := s.registry.linkClose_advances link
    refine ⟨fun c hc => (hs.aged c hc).advances hr, fun c p r htcp hp hleft hne => ?_, hs.whole⟩
    rcases hs.severed c p r htcp hp hleft hne with ⟨u, hu, hclose⟩ | hgone
    · rcases popped_closes { s.setAfter t rest with registry := s.registry.linkClose link } ha rfl rfl
        hclose with hclose | ⟨-, he⟩
      · exact .inl ⟨u, hu, hclose⟩
      · obtain rfl := Aftermath.close.inj he
        exact .inr (hs.aged link (List.ne_nil_of_mem hp)).closed
    · exact .inr (hgone.advances hr)
  · cases h

/-! ### Visits -/

/-- What a visit that gives up a frame leaves alone, and who has left. -/
theorem dropFrame_rest (result : EspErr) (after : List Aftermath) (hp : s.CanPick t p) :
    (s.dropFrame t p result after).segments = s.segments ∧
      (s.dropFrame t p result after).registry = s.registry ∧
      (s.dropFrame t p result after).accepted = s.accepted ∧
      (s.dropFrame t p result after).left = s.left ++ [((s.pickFrame t p).id, result)] ∧
      (s.dropFrame t p result after).wire = s.wire := by
  cases p with
  | normal k => exact ⟨rfl, rfl, rfl, rfl, rfl⟩
  | special r =>
    have haside := s.releaseSpecial_aside r result
    exact ⟨haside.wire.segments, haside.wire.registry, releaseSpecial_accepted s r result,
      releaseSpecial_left (specialFor_used hp), haside.wire.wire⟩

/-- A segment of a frame that is still in the multiplexer. -/
theorem segment_live {c : LinkRef} {q : ℕ × ℕ} {x : Site} (hf : Faithful s) (hx : s.frameAt x = some f)
    (hq : q ∈ s.segments c) (hid : q.1 = f.id) : f.link = c ∧ f.txOffset ≠ 0 := by
  obtain ⟨m, hm⟩ := hf.sound.segment c q hq
  obtain ⟨m', hm'⟩ := hf.sound.known x f.item (live_some hx)
  have hsame : m = m' := Option.some.inj (hm.message.symm.trans (hid ▸ hm'.message))
  refine ⟨?_, fun hzero => ?_⟩
  · rw [← hm.chan, hsame]
    exact hm'.chan.symm
  · have hnot := not_begun hf hx hzero c q.2
    rw [← hid] at hnot
    exact hnot hq

/-- A TCP link is to be closed when a frame of which it has taken some bytes is given up. -/
theorem Streams.dropped {result : EspErr} {after : List Aftermath} (hs : Streams n s)
    (hf : Faithful s) (hfree : s.holder t = .free) (hafter : s.after t = []) (hp : s.CanPick t p)
    (hup : GivenUp (s.pickFrame t p) result after) : Streams n (s.dropFrame t p result after) := by
  have hnil : s.pendingOf t = [] := by rw [Mux.pendingOf, hfree, hafter]; rfl
  have hpending := pendingOf_dropFrame (p := p) result after hfree hafter
  obtain ⟨hsegments, hregistry, haccepted, hleft, -⟩ := dropFrame_rest result after hp
  refine ⟨fun c hc => ?_, fun c q r htcp hq hmem hne => ?_, fun c htcp q hq => ?_⟩
  · rw [hsegments] at hc
    rw [hregistry]
    exact hs.aged c hc
  · rw [hsegments] at hq
    rw [hregistry, hpending]
    rw [hleft] at hmem
    rcases List.mem_append.mp hmem with hmem | hmem
    · refine (hs.severed c q r htcp hq hmem hne).imp_left ?_
      rintro ⟨u, hu, hclose⟩
      refine ⟨u, hu, ?_⟩
      have hut : u ≠ t := by
        rintro rfl
        rw [hnil] at hclose
        cases hclose
      rwa [Function.update_of_ne hut]
    · have hid : q.1 = (s.pickFrame t p).id := congrArg Prod.fst (List.mem_singleton.mp hmem)
      obtain ⟨rfl, hbegun⟩ := segment_live hf (frameAt_pick hfree hp) hq hid
      refine .inl ⟨t, pick_target hf hfree hp, ?_⟩
      rw [Function.update_self]
      exact hup.close hbegun htcp
  · rw [hsegments] at hq
    obtain ⟨m, hm, hlen⟩ := hs.whole c htcp q hq
    exact ⟨m, outbox_accepted_of_prefix (by rw [haccepted]) hm, hlen⟩

/-- The segments of other messages on the channel of a frame that may be sent are whole. -/
theorem whole_before {q : ℕ × ℕ} (hs : Streams n s) (hn : n < 2 ^ 32 - 1) (hf : Faithful s)
    (hfree : s.holder t = .free) (hafter : s.after t = []) (hp : s.chooseFrame t look = some p)
    (hcurrent : s.registry.linkIsCurrent (s.pickFrame t p).link = true)
    (htcp : (s.pickFrame t p).link.transportId = .tcp)
    (hq : q ∈ s.segments (s.pickFrame t p).link) (hid : q.1 ≠ (s.pickFrame t p).id) :
    ∃ m, s.outbox.accepted[q.1]? = some m ∧ q.2 = m.bytes.length := by
  obtain ⟨m, hm⟩ := hf.sound.segment _ q hq
  refine ⟨m, hm.message, ?_⟩
  have htarget := pick_target hf hfree (Mux.chooseFrame_canPick hp).1
  rcases hm.fate with ⟨y, j, hy, hj, hsent⟩ | ⟨r, hr, hok⟩
  · -- another frame under way for the target
    obtain ⟨m', hm'⟩ := hf.sound.known y j hy
    obtain rfl : m = m' := Option.some.inj (hm.message.symm.trans (hj ▸ hm'.message))
    have hchan : j.chan = (s.pickFrame t p).link := hm'.chan.symm.trans hm.chan
    have hbegun : j.sent ≠ 0 := by
      rw [hsent]
      exact hm.pos.ne'
    obtain rfl := chosen_alone hf hfree hp y j hy (congrArg targetIndex hchan) hbegun
    have hitem := Option.some.inj (hy.symm.trans
      (live_some (frameAt_pick hfree (Mux.chooseFrame_canPick hp).1)))
    rw [hitem] at hj
    exact absurd hj.symm hid
  · by_contra hne
    rcases hs.severed _ q r htcp hq hr fun h => hne (hok.mp h) with ⟨u, hu, hclose⟩ | hgone
    · obtain rfl := Option.some.inj (htarget.symm.trans hu)
      rw [Mux.pendingOf, hfree, hafter] at hclose
      cases hclose
    · rw [hgone.not_current hn] at hcurrent
      cases hcurrent

/-- What a visit that sends does to the streams. -/
structure Sends (s s' : Mux) (t : Target) (g : Frame) (data : List UInt8) : Prop where
  segments : s'.segments = Function.update s.segments g.link
    (extend (s.segments g.link) g.item data.length)
  wire : s'.wire = Function.update s.wire g.link (s.wire g.link ++ data)
  registry : s'.registry = s.registry
  accepted : s'.accepted = s.accepted
  left : ∀ q ∈ s'.left, q ∈ s.left ∨ q.2 = espOk
  pending : ∀ u, u ≠ t → s'.pendingOf u = s.pendingOf u

theorem transmit_sends {source : ℕ → List UInt8} {k : ℕ} (progressMs : UInt32)
    (hfree : s.holder t = .free) (hafter : s.after t = []) (hp : s.CanPick t p)
    (hg : (s.pickFrame t p).Progressed g) (hle : k ≤ (g.offered source).length) :
    Sends s (s.transmit t p g source k progressMs) t g ((g.offered source).take k) := by
  have htakes := taken_takes s t p progressMs hle
  rw [transmit_eq]
  split_ifs
  · have htaken : (s.taken t p g source k progressMs).CanPick t p := canPick_taken hp hg
    obtain ⟨hsegments, hregistry, haccepted, hleft, hwire⟩ := dropFrame_rest espOk
      (Drop.after ⟨espOk, false, false, false⟩ g) htaken
    refine ⟨hsegments.trans htakes.segments, hwire.trans htakes.wire, hregistry.trans htakes.registry,
      haccepted.trans htakes.accepted, fun q hq => ?_, fun u hu => ?_⟩
    · rw [hleft, htakes.left] at hq
      exact (List.mem_append.mp hq).imp_right fun h => by rw [List.mem_singleton.mp h]
    · rw [pendingOf_dropFrame _ _ (holder_taken.trans hfree) (by rw [after_taken, hafter]),
        Function.update_of_ne hu, htakes.pending]
  · exact ⟨htakes.segments, htakes.wire, htakes.registry, htakes.accepted,
      fun q hq => .inl (htakes.left ▸ hq), fun u _ => by rw [htakes.pending]⟩

theorem Streams.sent {data : List UInt8} (hs : Streams n s) (hn : n < 2 ^ 32 - 1) (hf : Faithful s)
    (hfree : s.holder t = .free) (hafter : s.after t = []) (hp : s.chooseFrame t look = some p)
    (hcurrent : s.registry.linkIsCurrent (s.pickFrame t p).link = true)
    (hitem : g.item = (s.pickFrame t p).item) (h : Sends s s' t g data) : Streams n s' := by
  have hcan := (Mux.chooseFrame_canPick hp).1
  have hx := live_some (frameAt_pick hfree hcan)
  have hlink : g.link = (s.pickFrame t p).link := congrArg Item.chan hitem
  have hid : g.id = (s.pickFrame t p).id := congrArg Item.id hitem
  obtain ⟨payload, m, hship, -⟩ := pick_shipment hf hfree hcan
  obtain ⟨pre, hpre⟩ := hf.sound.before hx hship.message
  have hnew : ∀ c, s'.segments c = if c = (s.pickFrame t p).link then
      pre ++ [((s.pickFrame t p).id, (s.pickFrame t p).txOffset + data.length)]
      else s.segments c := by
    intro c
    rw [h.segments, hlink, hitem]
    by_cases hc : c = (s.pickFrame t p).link
    · rw [if_pos hc, hc, Function.update_self]
      exact hpre.extend data.length
    · rw [if_neg hc, Function.update_of_ne hc]
  have hold : ∀ q ∈ pre, q ∈ s.segments (s.pickFrame t p).link ∧ q.1 ≠ (s.pickFrame t p).id :=
    fun q hq => (hpre.mem q).mp hq
  refine ⟨fun c hc => ?_, fun c q r htcp hq hmem hne => ?_, fun c htcp q hq => ?_⟩
  · rw [h.registry]
    by_cases he : c = (s.pickFrame t p).link
    · rw [he]
      exact .of_current hcurrent
    · rw [hnew, if_neg he] at hc
      exact hs.aged c hc
  · have hmem := (h.left _ hmem).resolve_right hne
    by_cases he : c = (s.pickFrame t p).link
    · subst he
      exfalso
      rw [hnew, if_pos rfl] at hq
      rcases List.mem_append.mp hq with hq | hq
      · obtain ⟨hq, hother⟩ := hold q hq
        obtain ⟨m', hm', hlen⟩ := whole_before hs hn hf hfree hafter hp hcurrent htcp hq hother
        obtain ⟨m'', hm''⟩ := hf.sound.segment _ q hq
        obtain rfl : m' = m'' := Option.some.inj (hm'.symm.trans hm''.message)
        rcases hm''.fate with ⟨y, j, hy, hj, -⟩ | ⟨r', hr', hok⟩
        · exact hf.sound.live_not_left hy (hj ▸ hmem)
        · rw [hf.sound.left_inj hmem hr'] at hne
          exact hne (hok.mpr hlen)
      · rw [List.mem_singleton.mp hq] at hmem
        exact hf.sound.live_not_left hx hmem
    · rw [hnew, if_neg he] at hq
      rw [h.registry]
      refine (hs.severed c q r htcp hq hmem hne).imp_left ?_
      rintro ⟨u, hu, hclose⟩
      have hut : u ≠ t := by
        rintro rfl
        rw [Mux.pendingOf, hfree, hafter] at hclose
        cases hclose
      exact ⟨u, hu, by rwa [h.pending u hut]⟩
  · rw [hnew] at hq
    split_ifs at hq with he
    · subst he
      rw [List.dropLast_concat] at hq
      obtain ⟨hq, hother⟩ := hold q hq
      obtain ⟨m', hm', hlen⟩ := whole_before hs hn hf hfree hafter hp hcurrent htcp hq hother
      exact ⟨m', outbox_accepted_of_prefix (by rw [h.accepted]) hm', hlen⟩
    · obtain ⟨m', hm', hlen⟩ := hs.whole c htcp q hq
      exact ⟨m', outbox_accepted_of_prefix (by rw [h.accepted]) hm', hlen⟩

theorem Streams.visit (hs : Streams n s) (hn : n < 2 ^ 32 - 1) (hf : Faithful s)
    (hanswer : s.LinkAnswered t look) (h : s.processTarget t look = some s') : Streams n s' := by
  obtain ⟨hafter, hfree, hvisit⟩ := Mux.processTarget_visit h
  cases hvisit with
  | idle => exact hs
  | dropped p result after hp hup => exact hs.dropped hf hfree hafter hp hup
  | kept p g hp hk => exact hs.calm setPick_calm
  | sent p g k progressMs hp hg hpos hle =>
    have hprogress := hg.progressed
    have hitem : g.item = (s.pickFrame t p).item :=
      Item.ext hprogress.id hprogress.link hg.begun.2.2
    exact hs.sent hn hf hfree hafter hp ((hanswer p hp).symm.trans hg.current) hitem
      (transmit_sends progressMs hfree hafter (Mux.chooseFrame_canPick hp).1 hprogress hle)

/-! ### Runs -/

theorem Streams.next {l : Step} {r : Reply} (hs : Streams n s) (hn : n < 2 ^ 32 - 1)
    (hf : Faithful s) (hpromised : s.Promised l) (h : s.next l = some (s', r)) :
    Streams (n + l.changesLinks.toNat) s' := by
  cases next_happens hf.orderly hf.pool h with
  | quiet l hquiet hl =>
    rw [hl]
    exact hs.calm hquiet.calm
  | fill t hfill => exact hs.calm (fill_calm hfill)
  | scan t hscan => exact hs.calm (scan_calm hf hscan)
  | pool l hmoves hl =>
    rw [hl]
    exact hs.calm (hmoves.calm hf)
  | visit t look hvisit => exact hs.visit hn hf hpromised hvisit
  | afterwards t hdone => exact hs.calm (afterwards_calm hdone)
  | closeLink t hclosed => exact hs.closed hclosed
  | complete i hran => exact hs.calm (runDue_calm hran)
  | link change hchanged =>
    subst hchanged
    exact hs.advanced (LinkChange.advances s.registry change)

theorem streams_init (registry : Registry) : Streams 0 { registry := registry } :=
  ⟨fun _ hc => absurd rfl hc, fun _ _ _ _ hp => absurd hp List.not_mem_nil,
    fun _ _ _ hp => absurd hp List.not_mem_nil⟩

/-- The streams of every state reached before the generations of a slot can have gone round. -/
theorem streams_of_reaches {h : List (Step × Reply)} (hr : Reaches mux h s)
    (hn : changes h < 2 ^ 32 - 1) : Streams (changes h) s := by
  revert hn
  refine hr.invariant (I := fun h s => changes h < 2 ^ 32 - 1 → Streams (changes h) s) ?_ ?_
  · rintro s ⟨registry, rfl⟩ -
    exact streams_init registry
  · rintro h s ⟨l, r⟩ s' hr ih ⟨hpromised, hnext⟩ hn
    have hlast : changes (h ++ [(l, r)]) = changes h + l.changesLinks.toNat := by
      unfold changes
      rw [List.countP_append, List.countP_singleton, Bool.toNat, Bool.cond_eq_ite]
    rw [hlast] at hn ⊢
    have hn' : changes h < 2 ^ 32 - 1 := Nat.lt_of_le_of_lt (Nat.le_add_right _ _) hn
    exact (ih hn').next hn' (faithful_of_reaches hr) hpromised hnext

/-! ## Links that have ended -/

/-- What a visit does to the links: nothing, or it sends something to one that is current. -/
theorem visit_sends (h : s.processTarget t look = some s') :
    s'.registry = s.registry ∧ s'.accepted = s.accepted ∧ (s'.segments = s.segments ∨ ∃ p g k, s.chooseFrame t look = some p ∧
      Writable (s.pickFrame t p) (s.pickPayload t p) look g ∧
      Sends s s' t g ((g.offered (s.pickPayload t p)).take k)) := by
  obtain ⟨hafter, hfree, hvisit⟩ := Mux.processTarget_visit h
  cases hvisit with
  | idle => exact ⟨rfl, rfl, .inl rfl⟩
  | dropped p result after hp hup =>
    obtain ⟨hsegments, hregistry, haccepted, -⟩ := dropFrame_rest (s := s) result after hp
    exact ⟨hregistry, haccepted, .inl hsegments⟩
  | kept p g hp hk => cases p <;> exact ⟨rfl, rfl, .inl rfl⟩
  | sent p g k progressMs hp hg hpos hle =>
    have hsends := transmit_sends progressMs hfree hafter (Mux.chooseFrame_canPick hp).1
      hg.progressed hle
    exact ⟨hsends.registry, hsends.accepted, .inr ⟨p, g, k, hp, hg, hsends⟩⟩

/-- What a step does to the links: it may change which are current, or it is a visit. -/
structure LinkStep (s s' : Mux) (l : Step) : Prop where
  registry : if l.changesLinks then s.registry.Advances s'.registry else s'.registry = s.registry
  sent : s'.segments = s.segments ∨
    ∃ t look, l = .processTarget t look ∧ s.processTarget t look = some s'

theorem Calm.linkStep {l : Step} (h : Calm s s') (hl : l.changesLinks = false) : LinkStep s s' l :=
  ⟨by rw [hl]; exact h.registry, .inl h.segments⟩

theorem next_linkStep {l : Step} {r : Reply} (hf : Faithful s) (h : s.next l = some (s', r)) :
    LinkStep s s' l := by
  cases next_happens hf.orderly hf.pool h with
  | quiet l hquiet hl => exact hquiet.calm.linkStep hl
  | fill t hfill => exact (fill_calm hfill).linkStep rfl
  | scan t hscan => exact (scan_calm hf hscan).linkStep rfl
  | pool l hmoves hl => exact (hmoves.calm hf).linkStep hl
  | visit t look hvisit => exact ⟨(visit_sends hvisit).1, .inr ⟨t, look, rfl, hvisit⟩⟩
  | afterwards t hdone => exact (afterwards_calm hdone).linkStep rfl
  | closeLink t hclosed =>
    unfold Mux.closeLink at hclosed
    split at hclosed
    · obtain rfl := Option.some.inj hclosed
      exact ⟨s.registry.linkClose_advances _, .inl rfl⟩
    · cases hclosed
  | complete i hran => exact (runDue_calm hran).linkStep rfl
  | link change hchanged =>
    subst hchanged
    exact ⟨LinkChange.advances s.registry change, .inl rfl⟩

/-- Only a current link is sent anything. -/
theorem LinkStep.current {l : Step} {c : LinkRef} (h : LinkStep s s' l) (hpromised : s.Promised l)
    (hne : s'.segments c ≠ s.segments c) : s.registry.linkIsCurrent c = true := by
  rcases h.sent with hsame | ⟨t, look, rfl, hvisit⟩
  · exact absurd (congrFun hsame c) hne
  · rcases (visit_sends hvisit).2.2 with hsame | ⟨p, g, k, hp, hg, hsends⟩
    · exact absurd (congrFun hsame c) hne
    · have hc : c = g.link := by
        by_contra hc
        rw [hsends.segments, Function.update_of_ne hc] at hne
        exact hne rfl
      rw [hc, hg.progressed.link, ← hpromised p hp, hg.current]

theorem LinkStep.aged {l : Step} {c : LinkRef} (h : LinkStep s s' l) (ha : Aged n s.registry c) :
    Aged (n + l.changesLinks.toNat) s'.registry c := by
  have hr := h.registry
  split_ifs at hr with hl
  · rw [hl]
    exact ha.advances hr
  · rw [hr, Bool.not_eq_true _ |>.mp hl]
    exact ha

theorem LinkStep.gone {l : Step} {c : LinkRef} (h : LinkStep s s' l) (hg : Gone n s.registry c) :
    Gone (n + l.changesLinks.toNat) s'.registry c := by
  have hr := h.registry
  split_ifs at hr with hl
  · rw [hl]
    exact hg.advances hr
  · rw [hr, Bool.not_eq_true _ |>.mp hl]
    exact hg

theorem changes_cons (l : Step × Reply) (h : List (Step × Reply)) :
    changes (l :: h) = l.1.changesLinks.toNat + changes h := by
  unfold changes
  rw [List.countP_cons, Nat.add_comm, Bool.toNat, Bool.cond_eq_ite]

theorem Aged.path {h : List (Step × Reply)} {c : LinkRef} (hp : Path mux s h s') (hf : Faithful s)
    (ha : Aged n s.registry c) : Aged (n + changes h) s'.registry c := by
  induction hp generalizing n with
  | nil s => exact ha
  | cons hstep _ ih =>
    rw [changes_cons, ← Nat.add_assoc]
    exact ih (hf.next hstep.2).faithful ((next_linkStep hf hstep.2).aged ha)

theorem Gone.silent {h : List (Step × Reply)} {c : LinkRef} (hp : Path mux s h s') (hf : Faithful s)
    (hg : Gone n s.registry c) (hn : n + changes h < 2 ^ 32 - 1) : s'.segments c = s.segments c := by
  induction hp generalizing n with
  | nil s => rfl
  | cons hstep _ ih =>
    rw [changes_cons, ← Nat.add_assoc] at hn
    have hlink := next_linkStep hf hstep.2
    refine (ih (hf.next hstep.2).faithful (hlink.gone hg) hn).trans ?_
    by_contra hne
    have hcurrent := hlink.current hstep.1 hne
    rw [hg.not_current (by omega)] at hcurrent
    cases hcurrent

/-- The first TCP link takes 29 bytes of a frame, and then nothing. -/
def tcpSevered : List (Step × Reply) :=
  submission { link := tcpLink 0, txClass := .control } firstTcp ++
    [visit firstTcp 29, (.processTarget firstTcp { io := { status := .error } }, none)]

/-- What follows: the frame leaves its queue, and the link is closed. -/
def tcpClosed : List (Step × Reply) :=
  [(.release firstTcp, none), (.unreserve firstTcp, none), (.clear firstTcp, none),
    (.afterwards firstTcp, none), (.closeLink firstTcp, none)]

/-- The slot is opened again, and its next link takes something. -/
def tcpAgain : List (Step × Reply) :=
  [(.link (.linkOpen .tcp 0), none)] ++
    submission { link := ⟨.tcp, 0, 3⟩, txClass := .control } firstTcp ++ [visit firstTcp 29]

/-- A TCP link that has taken some bytes of a frame, but not all before the frame was given up, takes
no byte of another frame, and no other byte at all. -/
theorem severed_silent {h h' : List (Step × Reply)} {c : LinkRef} {q : ℕ × ℕ} {r : EspErr}
    (hr : Reaches mux h s) (hp : Path mux s h' s') (hn : changes (h ++ h') < 2 ^ 32 - 1)
    (htcp : c.transportId = .tcp) (hq : q ∈ s.segments c) (hleft : (q.1, r) ∈ s.left)
    (hne : r ≠ espOk) : s'.wire c = s.wire c := by
  have hf := faithful_of_reaches hr
  obtain ⟨hf', hacts⟩ := hf.path hp
  obtain ⟨pre, post, hsplit⟩ := List.append_of_mem hq
  obtain ⟨post', hsplit'⟩ := Acts.past (t := s'.outbox) hacts hf.sound hleft hsplit
  have hn₁ : changes h < 2 ^ 32 - 1 := by
    refine Nat.lt_of_le_of_lt ?_ hn
    unfold changes
    rw [List.countP_append]
    exact Nat.le_add_right _ _
  -- a segment that is not the last one is a whole frame, and this one is not
  have hlast : ∀ {u : Mux} {n : ℕ} {l : List (ℕ × ℕ)}, Faithful u → Streams n u →
      (q.1, r) ∈ u.left → u.segments c = pre ++ q :: l → l = [] := by
    intro u n l hu hstreams hleft hl
    by_contra hnil
    have hmem : q ∈ (u.segments c).dropLast := by
      rw [hl, List.dropLast_append_of_ne_nil (List.cons_ne_nil q l),
        List.dropLast_cons_of_ne_nil hnil]
      exact List.mem_append.mpr (.inr (List.mem_cons_self ..))
    obtain ⟨m, hm, hlen⟩ := hstreams.whole c htcp q hmem
    obtain ⟨m', hm'⟩ := hu.sound.segment c q (List.mem_of_mem_dropLast hmem)
    obtain rfl : m = m' := Option.some.inj (hm.symm.trans hm'.message)
    rcases hm'.fate with ⟨y, j, hy, hj, -⟩ | ⟨r', hr', hok⟩
    · exact hu.sound.live_not_left hy (hj ▸ hleft)
    · rw [hu.sound.left_inj hleft hr'] at hne
      exact hne (hok.mpr hlen)
  have hpost := hlast hf (streams_of_reaches hr hn₁) hleft hsplit
  have hpost' := hlast hf' (streams_of_reaches (hr.append hp) hn)
    ((Acts.left hacts).subset hleft) hsplit'
  rw [hpost] at hsplit
  rw [hpost'] at hsplit'
  exact Acts.pieces hacts hf.sound (hsplit'.trans hsplit.symm)

theorem severed_silent_tcpSevered :
    ((ranTo tcpSevered).behind (tcpClosed ++ tcpAgain)).wire (tcpLink 0) =
      (ranTo tcpSevered).wire (tcpLink 0) :=
  severed_silent (q := (0, 29)) (r := espFail) (ranTo_reaches (by decide +kernel))
    (Mux.CanFollow.path (by decide +kernel)) (by decide) rfl (by decide +kernel)
    (by decide +kernel) (by decide)

end

end EspVision.MuxTx
