import EspVision.MuxBuffers

/-!
# What happens under the mutex of the special frames

Every operation on the pool is a sequence of small moves: an unstarted frame is replaced or
cancelled, a buffer that no frame reads is refilled, or a frame is put where none was.
-/
namespace EspVision.MuxTx

open EvTransport EvMux EvSession Host ByteMedium

/-- One move; a refill may also say which preview is pending. -/
inductive PoolMove (s : Mux) : Mux → Prop
  | order (n : UInt32) : PoolMove s { s with enqueueOrder := n }
  | replace (r : SpecialRef) (used : (s.special r).used = true)
      (unstarted : (s.special r).frame.txOffset = 0) (kind : r.kind ≠ .large) :
      PoolMove s (s.releaseSpecial r espErrInvalidState)
  | cancel (r : SpecialRef) (used : (s.special r).used = true)
      (unstarted : (s.special r).frame.txOffset = 0) :
      PoolMove s { s.releaseSpecial r espErrInvalidState with
        due := s.due ++ [(s.special r).frame.completionOf espErrInvalidState] }
  | refill (p : Pool) (slot : BufferSlot) (payload : List UInt8)
      (refilled : Refilled s.pool.storage p.storage slot payload)
      (frames : p.frames = s.pool.frames) (marks : p.partialFrame = s.pool.partialFrame)
      (unread : ∀ r, (s.special r).used = true →
        (s.special r).payload ≠ (s.pool.owned slot).buffer) : PoolMove s { s with pool := p }
  | put (r : SpecialRef) (sp : Special) (payload : List UInt8) (free : (s.special r).used = false)
      (puts : Puts s r sp payload) : PoolMove s (s.putSpecial r sp payload)

abbrev PoolMoves : Mux → Mux → Prop := Relation.ReflTransGen PoolMove

variable {s s' : Mux} {r : SpecialRef} {payload metadata : List UInt8}

theorem PoolOk.move (hs : PoolOk s) (h : PoolMove s s') : PoolOk s' := by
  cases h with
  | order n =>
    refine ⟨hs.storage, fun r hused => ?_⟩
    obtain ⟨payload, h⟩ := hs.stored r hused
    exact ⟨payload, h.congr rfl rfl List.prefix_rfl⟩
  | replace r hused hzero hkind => exact hs.release r _
  | cancel r hused hzero =>
    obtain ⟨hstorage, hstored⟩ := hs.release r espErrInvalidState
    refine ⟨hstorage, fun r' hused => ?_⟩
    obtain ⟨payload, h⟩ := hstored r' hused
    exact ⟨payload, h.congr rfl rfl List.prefix_rfl⟩
  | refill p slot payload hr hframes hmarks hunread =>
    have hspecial : ∀ r, ({ s with pool := p } : Mux).special r = s.special r := fun r =>
      congrFun hframes r
    refine ⟨hr.ok, fun r hused => ?_⟩
    rw [hspecial] at hused
    obtain ⟨data, h⟩ := hs.stored r hused
    exact ⟨data, h.refilled hr (hspecial r) List.prefix_rfl (hunread r hused)⟩
  | put r sp payload hfree hp => exact hs.put hp

theorem PoolOk.moves (hs : PoolOk s) (h : PoolMoves s s') : PoolOk s' := by
  induction h with
  | refl => exact hs
  | tail _ hmove ih => exact ih.move hmove

/-! ## A change of the heap and a release commute -/

/-- The pool with another heap. -/
def Mux.onHeap (s : Mux) (heap : Ptr → Option Buffer) (next : Ptr) : Mux :=
  { s with pool := { s.pool with heap := heap, nextPtr := next } }

theorem releaseSpecial_onHeap (s : Mux) (r : SpecialRef) (result : EspErr)
    (heap : Ptr → Option Buffer) (next : Ptr) :
    (s.onHeap heap next).releaseSpecial r result = (s.releaseSpecial r result).onHeap heap next := by
  by_cases hused : (!(s.special r).used) = true
  · have hunused : (!((s.onHeap heap next).special r).used) = true := hused
    rw [Mux.releaseSpecial, if_pos hunused, Mux.releaseSpecial, if_pos hused]
  · have hnot : ¬ (!((s.onHeap heap next).special r).used) = true := hused
    have hpool : (s.onHeap heap next).releasedPool r =
        { s.releasedPool r with heap := heap, nextPtr := next } := by
      unfold Mux.releasedPool
      dsimp only
      by_cases hkind : (s.special r).kind = .preview
      · have hkind' : ((s.onHeap heap next).special r).kind = .preview := hkind
        rw [if_pos hkind, if_pos hkind']
        rfl
      · have hkind' : ¬ ((s.onHeap heap next).special r).kind = .preview := hkind
        rw [if_neg hkind, if_neg hkind']
        rfl
    rw [Mux.releaseSpecial, if_neg hnot, Mux.releaseSpecial, if_neg hused, hpool]
    rfl

/-- A buffer is prepared on the heap, and nothing else of the pool changes. -/
theorem prepareBuffer_heap {p p' : Pool} {b c : Owned} {n : ℕ} {malloc : Bool}
    (h : p.prepareBuffer b n malloc = some (c, p')) :
    p' = { p with heap := p'.heap, nextPtr := p'.nextPtr } := by
  unfold Pool.prepareBuffer at h
  split_ifs at h
  all_goals
    obtain ⟨-, rfl⟩ := Prod.mk.inj (Option.some.inj h)
    rfl

theorem commitBuffer_rest (p : Pool) (b c : Owned) :
    p.commitBuffer b c = { p with heap := (p.commitBuffer b c).heap } := by
  unfold Pool.commitBuffer
  split
  · rfl
  · split_ifs <;> rfl

theorem store_rest (p : Pool) (b : Owned) (payload : List UInt8) :
    p.store b payload = { p with heap := (p.store b payload).heap } := by
  unfold Pool.store
  split <;> rfl

/-! ## Refilling a buffer -/

theorem commitBuffer_congr {p q : Pool} {b c : Owned} (h : p.heap = q.heap) :
    (p.commitBuffer b c).heap = (q.commitBuffer b c).heap := by
  unfold Pool.commitBuffer
  split
  · exact h
  · split_ifs
    · exact h
    · rw [h]

/-- A pool whose buffer for the payload was prepared and committed, but not yet written. -/
structure Prepares (s : Mux) (slot : BufferSlot) (b : Owned) (n : ℕ) (q : Pool) : Prop where
  heap : ∃ (p p' : Pool) (malloc : Bool), p.storage = s.pool.storage ∧
    p.prepareBuffer (p.owned slot) n malloc = some (b, p') ∧
    q.heap = (p'.commitBuffer (p.owned slot) b).heap ∧ q.nextPtr = p'.nextPtr
  owned : q.owned = Function.update s.pool.owned slot b
  frames : q.frames = s.pool.frames
  marks : q.partialFrame = s.pool.partialFrame

/-- What is so after the payload is written. -/
structure Filled (s : Mux) (slot : BufferSlot) (b : Owned) (payload : List UInt8) (q : Pool) :
    Prop where
  move : PoolMove s { s with pool := q }
  frames : q.frames = s.pool.frames
  owned : q.owned slot = b
  holds : HoldsPayload q.storage b.buffer payload

theorem Prepares.filled {slot : BufferSlot} {b : Owned} {q : Pool} (payload : List UInt8)
    (hs : StorageOk s.pool.storage)
    (h : Prepares s slot b payload.length q)
    (hunread : ∀ r, (s.special r).used = true →
      (s.special r).payload ≠ (s.pool.owned slot).buffer) :
    Filled s slot b payload (q.store b payload) := by
  obtain ⟨p, p', malloc, hp, hprepare, hheap, hnext⟩ := h.heap
  have howned : p.owned = s.pool.owned := congrArg Storage.owned hp
  have hr := refilled (q := q) (hp ▸ hs) hprepare hheap hnext (howned ▸ h.owned)
  rw [hp] at hr
  have hrest := store_rest q b payload
  have hframes : (q.store b payload).frames = s.pool.frames := by rw [hrest, ← h.frames]
  have hmarks : (q.store b payload).partialFrame = s.pool.partialFrame := by rw [hrest, ← h.marks]
  have hown : (q.store b payload).owned slot = b := by
    rw [store_owned, h.owned, Function.update_self]
  have hholds := hr.holds
  rw [show (q.store b payload).storage.owned slot = b from hown] at hholds
  exact ⟨.refill _ slot payload hr hframes hmarks hunread, hframes, hown, hholds⟩

theorem owned_preview {p q : Pool} {i : Fin ownerPreviewFrames} {b : Owned}
    (hlarge : q.largeBuffer = p.largeBuffer) (hobserver : q.observerBuffers = p.observerBuffers)
    (hpreview : q.previewBuffers = Function.update p.previewBuffers i b) :
    q.owned = Function.update p.owned (.preview i) b := by
  funext slot
  cases slot with
  | large => simpa [Pool.owned] using hlarge
  | observer o => simpa [Pool.owned] using congrFun hobserver o
  | preview j =>
    have hj := congrFun hpreview j
    by_cases he : j = i
    · subst he
      simpa [Pool.owned] using hj
    · simpa [Pool.owned, he] using hj

theorem owned_observer {p q : Pool} {i : Fin observerBuffers} {b : Owned}
    (hlarge : q.largeBuffer = p.largeBuffer) (hpreview : q.previewBuffers = p.previewBuffers)
    (hobserver : q.observerBuffers = Function.update p.observerBuffers i b) :
    q.owned = Function.update p.owned (.observer i) b := by
  funext slot
  cases slot with
  | large => simpa [Pool.owned] using hlarge
  | preview o => simpa [Pool.owned] using congrFun hpreview o
  | observer j =>
    have hj := congrFun hobserver j
    by_cases he : j = i
    · subst he
      simpa [Pool.owned] using hj
    · simpa [Pool.owned, he] using hj

/-! ## Submitting -/

theorem submitLarge_moves {f : Frame} {malloc : Bool} (hs : PoolOk s) (hf : Carries f payload)
    (hzero : f.txOffset = 0) : PoolMoves s (s.submitLarge f payload malloc).1 := by
  unfold Mux.submitLarge
  split_ifs with hused
  · exact .refl
  · split
    · exact .refl
    · rename_i b p hb
      have hunused : (s.special .large).used = false := by simpa using hused
      have hp := prepareBuffer_heap hb
      have hc := commitBuffer_rest p s.pool.largeBuffer b
      have hprepares : Prepares s .large b payload.length
          { p.commitBuffer s.pool.largeBuffer b with largeBuffer := b } := by
        refine ⟨⟨s.pool, p, malloc, rfl, hb, rfl, by rw [hc]⟩, ?_, by rw [hc, hp], by rw [hc, hp]⟩
        rw [hc, hp]
        funext slot
        cases slot <;> rfl
      have hfilled := hprepares.filled payload hs.storage fun r hr =>
        hs.other_buffer hr fun slot hu => by
          rintro rfl
          rw [show r = .large from hu, hunused] at hr
          cases hr
      refine (Relation.ReflTransGen.single hfilled.move).tail (.put .large _ payload ?_
        ⟨rfl, rfl, fun i hi => SpecialRef.noConfusion hi, hf, hzero, hfilled.holds, .large, rfl,
          congrArg Owned.buffer hfilled.owned⟩)
      exact (congrArg Special.used (congrFun hfilled.frames .large)).trans hunused

theorem ownerFrame_inj {i j : Fin ownerPreviewFrames} (h : Mux.ownerFrame i = Mux.ownerFrame j) :
    i = j :=
  Fin.castLE_inj.mp (SpecialRef.preview.inj h)

theorem ownerFrame_kind (i : Fin ownerPreviewFrames) : (Mux.ownerFrame i).kind = .preview :=
  if_pos i.isLt

/-- The frame of a preview that is replaced. -/
theorem replace_moves {r : SpecialRef} (hkind : r.kind ≠ .large)
    (hzero : ¬ ((s.special r).used = true ∧ (s.special r).frame.txOffset ≠ 0)) :
    PoolMoves s (s.releaseSpecial r espErrInvalidState) := by
  by_cases hused : (s.special r).used = true
  · exact .single (.replace r hused (by_contra fun hne => hzero ⟨hused, hne⟩) hkind)
  · rw [Mux.releaseSpecial, if_pos (by simpa using hused)]

theorem releaseSpecial_unused (r : SpecialRef) (result : EspErr) :
    ((s.releaseSpecial r result).special r).used = false := by
  rw [releaseSpecial_special]
  split_ifs with hused
  · rfl
  · exact Bool.eq_false_iff.mpr fun h => hused ⟨h, rfl⟩

theorem submitPreview_moves {f : Frame} {malloc : Bool} (hs : PoolOk s) (hf : Carries f payload)
    (hzero : f.txOffset = 0) : PoolMoves s (s.submitPreview f payload malloc).1 := by
  unfold Mux.submitPreview
  split
  · exact .refl
  · rename_i i hi
    dsimp only
    split_ifs with hstarted
    · exact .refl
    · split
      · exact .refl
      · rename_i b p hb
        have hp := prepareBuffer_heap hb
        have hpool : ({ s with pool := p } : Mux) = s.onHeap p.heap p.nextPtr :=
          congrArg (fun q => ({ s with pool := q } : Mux)) hp
        rw [hpool, releaseSpecial_onHeap]
        have hreplace := replace_moves (ownerFrame_kind i ▸ by decide) hstarted
        set u := s.releaseSpecial (Mux.ownerFrame i) espErrInvalidState with hu
        have hus : PoolOk u := hs.moves hreplace
        have hunused : (u.special (Mux.ownerFrame i)).used = false := releaseSpecial_unused _ _
        have hstorage : u.pool.storage = s.pool.storage := releaseSpecial_storage _ _ _
        have howned : u.pool.owned = s.pool.owned := congrArg Storage.owned hstorage
        have hc := commitBuffer_rest (u.onHeap p.heap p.nextPtr).pool (s.pool.previewBuffers i) b
        have hprepares : Prepares u (.preview i) b payload.length
            { (u.onHeap p.heap p.nextPtr).pool.commitBuffer (s.pool.previewBuffers i) b with
              previewBuffers :=
                Function.update (u.onHeap p.heap p.nextPtr).pool.previewBuffers i b
              previewPending := some i } := by
          refine ⟨⟨s.pool, p, malloc, hstorage.symm, hb, commitBuffer_congr rfl, by rw [hc]; rfl⟩,
            ?_, by rw [hc]; rfl, by rw [hc]; rfl⟩
          rw [hc]
          exact owned_preview rfl rfl rfl
        have hfilled := hprepares.filled payload hus.storage fun r hr =>
          hus.other_buffer hr fun slot hu' => by
            rintro rfl
            rw [show r = Mux.ownerFrame i from hu', hunused] at hr
            cases hr
        refine (hreplace.tail hfilled.move).tail (.put (Mux.ownerFrame i) _ payload ?_
          ⟨rfl, (ownerFrame_kind i).symm, fun j hj => congrArg Fin.val (ownerFrame_inj hj), hf, hzero,
            hfilled.holds, .preview i, rfl, congrArg Owned.buffer hfilled.owned⟩)
        exact (congrArg Special.used (congrFun hfilled.frames _)).trans hunused

/-- What is set when a special frame is submitted does not concern what it carries. -/
theorem Carries.special {f : Frame} (h : Carries f payload) (timeout priority : ℕ) :
    Carries { f with used := true, frameTimeoutMs := timeout, priority := priority } payload :=
  ⟨h.payloadLen, h.totalLen, h.header, h.summed, h.started, h.within, h.short⟩

theorem submitSpecial_moves {o : SubmitOptions} {isLarge : Bool} {ticket : Ticket}
    {look : PrepareLook} {mutexTaken malloc : Bool} (hs : PoolOk s) :
    PoolMoves s (s.submitSpecial o metadata payload isLarge ticket look mutexTaken malloc).1 := by
  unfold Mux.submitSpecial
  dsimp only
  split
  · exact .refl
  rename_i hshort
  iterate 4
    split
    · exact .refl
  split
  · exact .single (.order _)
  · rename_i f order hf
    have hprepared := prepareFrame_some hf
    have hcarries := (hprepared.carries (Nat.le_of_not_lt hshort)).special
      (frameTimeout o.link look.baudrate (encodedLength metadata.length payload.length))
    have horder : PoolMove s { s with enqueueOrder := order } := .order order
    have hos : PoolOk { s with enqueueOrder := order } := hs.move horder
    split
    · exact .single horder
    · split
      · exact .head horder (submitLarge_moves hos (hcarries _) hprepared.txOffset)
      · exact .head horder (submitPreview_moves hos (hcarries _) hprepared.txOffset)

/-! ## Observers -/

theorem mem_observerFrames {r : SpecialRef} :
    r ∈ observerFrames ↔ ∃ i : Fin previewFrames, ownerPreviewFrames ≤ i.val ∧ r = .preview i := by
  simp [observerFrames, eq_comm]

theorem observer_kind {r : SpecialRef} (h : r ∈ observerFrames) : r.kind = .observer := by
  obtain ⟨i, hi, rfl⟩ := mem_observerFrames.mp h
  exact if_neg (Nat.not_lt_of_le hi)

/-- Release the frame if it is not started. -/
def Mux.replaceOne (s : Mux) (r : SpecialRef) : Mux :=
  if s.unstarted r then s.releaseSpecial r espErrInvalidState else s

/-- Release the frames of the list that are not started. -/
def Mux.replaceAll (s : Mux) (l : List SpecialRef) : Mux := l.foldl Mux.replaceOne s

theorem replaceOne_moves {r : SpecialRef} (hkind : r.kind ≠ .large) :
    PoolMoves s (s.replaceOne r) := by
  unfold Mux.replaceOne
  split_ifs with hu
  · simp only [Mux.unstarted, Bool.and_eq_true, beq_iff_eq] at hu
    exact .single (.replace r hu.1 hu.2 hkind)
  · exact .refl

theorem replaceAll_moves (l : List SpecialRef) (hl : ∀ r ∈ l, r.kind ≠ .large) (s : Mux) :
    PoolMoves s (s.replaceAll l) := by
  induction l generalizing s with
  | nil => exact .refl
  | cons r l ih =>
    exact (replaceOne_moves (hl r List.mem_cons_self)).trans
      (ih (fun r hr => hl r (List.mem_cons_of_mem _ hr)) _)

theorem replaceOne_used {x : SpecialRef} (h : ((s.replaceOne x).special r).used = true) :
    (s.replaceOne x).special r = s.special r ∧ (r = x → s.unstarted r = false) := by
  unfold Mux.replaceOne at h ⊢
  split_ifs at h ⊢ with hx
  · obtain ⟨-, hne, hsame⟩ := releaseSpecial_used h
    exact ⟨hsame, fun he => absurd he hne⟩
  · refine ⟨rfl, ?_⟩
    rintro rfl
    simpa using hx

/-- What is in use afterwards was in use, and of the list only what was started. -/
theorem replaceAll_used (l : List SpecialRef) {s : Mux} {r : SpecialRef}
    (h : ((s.replaceAll l).special r).used = true) :
    (s.special r).used = true ∧ (s.replaceAll l).special r = s.special r ∧
      (r ∈ l → s.unstarted r = false) := by
  induction l generalizing s with
  | nil => exact ⟨h, rfl, fun hr => by cases hr⟩
  | cons x l ih =>
    obtain ⟨hused, hsame, hnot⟩ := ih h
    obtain ⟨hframe, hx⟩ := replaceOne_used hused
    refine ⟨hframe ▸ hused, hsame.trans hframe, fun hr => ?_⟩
    rcases List.mem_cons.mp hr with hr | hr
    · exact hx hr
    · have hunstarted : (s.replaceOne x).unstarted r = s.unstarted r := by
        unfold Mux.unstarted
        rw [hframe]
      exact hunstarted ▸ hnot hr

theorem replaceAll_storage (l : List SpecialRef) (s : Mux) :
    (s.replaceAll l).pool.storage = s.pool.storage := by
  induction l generalizing s with
  | nil => rfl
  | cons r l ih =>
    refine (ih _).trans ?_
    unfold Mux.replaceOne
    split_ifs
    · exact releaseSpecial_storage s r _
    · rfl

theorem replaceAll_onHeap (l : List SpecialRef) (s : Mux) (heap : Ptr → Option Buffer) (next : Ptr) :
    (s.onHeap heap next).replaceAll l = (s.replaceAll l).onHeap heap next := by
  induction l generalizing s with
  | nil => rfl
  | cons r l ih =>
    have hone : (s.onHeap heap next).replaceOne r = (s.replaceOne r).onHeap heap next := by
      unfold Mux.replaceOne
      by_cases hu : s.unstarted r = true
      · rw [if_pos hu, if_pos (show (s.onHeap heap next).unstarted r = true from hu),
          releaseSpecial_onHeap]
      · rw [if_neg hu, if_neg (show ¬ (s.onHeap heap next).unstarted r = true from hu)]
    exact (congrArg (Mux.replaceAll · l) hone).trans (ih _)

/-- The frame of an observer, with the checksum that was computed for all of them. -/
theorem Prepared.observer {o : SubmitOptions} {f : Frame} {number : Ticket}
    (h : Prepared o metadata payload.length number f) (hshort : payload.length ≤ largePayloadMax)
    (kept : Bool) (start progress : UInt32) (timeout : ℕ) {g : Frame} (hg : g = { f with
      used := true, previewObserver := true, attempted := kept, startMs := start
      lastProgressMs := progress, frameTimeoutMs := timeout }) :
    Carries (match buildHeader g (payloadChecksum payload) with
      | none => { g with headerReady := false }
      | some g => { g with headerReady := true }) payload ∧
    (match buildHeader g (payloadChecksum payload) with
      | none => { g with headerReady := false }
      | some g => { g with headerReady := true }).txOffset = 0 := by
  have hzero : g.txOffset = 0 := by rw [hg]; exact h.txOffset
  have hlen : g.payloadLen = payload.length := by rw [hg]; exact h.payloadLen
  have hmeta : g.metadata = metadata := by rw [hg]; exact h.metadata
  have htotal : g.totalLen = encodedLength metadata.length payload.length := by
    rw [hg]
    exact h.totalLen
  have hheader : g.header = headerText metadata.length payload.length 0 := by rw [hg]; exact h.header
  have hsummed : Summed payload g.payloadCrcPos g.payloadCrcState := by
    rw [hg]
    show Summed payload f.payloadCrcPos f.payloadCrcState
    rw [h.crcPos, h.crcState]
    exact ⟨Nat.zero_le _, rfl⟩
  have hwithin : g.txOffset < g.totalLen := by
    rw [hzero, htotal]
    exact encodedLength_pos _ _
  have hboth : Short g.metadata payload := ⟨hmeta ▸ h.metadataLen, hshort⟩
  unfold buildHeader
  dsimp only
  split_ifs
  · refine ⟨⟨hlen, by rw [hmeta]; exact htotal, ?_, fun _ => hsummed, fun hne => absurd hzero hne,
      hwithin, hboth⟩, hzero⟩
    rw [hmeta]
    exact hheader
  · refine ⟨⟨hlen, by rw [hmeta]; exact htotal, ?_, fun hf => Bool.noConfusion hf,
      fun hne => absurd hzero hne, hwithin, hboth⟩, hzero⟩
    rw [hlen]
    rfl

theorem publishTo_moves {b : Owned} {i : Fin observerBuffers} (metadata : List UInt8)
    (waiting : ℕ → Waiting) (slot : ℕ) (look : ObserverLook) (howned : s.pool.owned (.observer i) = b)
    (hholds : HoldsPayload s.pool.storage b.buffer payload)
    (hshort : payload.length ≤ largePayloadMax) :
    PoolMoves s (Mux.publishTo b metadata payload waiting s slot look) ∧
      (Mux.publishTo b metadata payload waiting s slot look).pool.storage = s.pool.storage := by
  unfold Mux.publishTo
  split
  · exact ⟨.refl, rfl⟩
  · split
    · exact ⟨.refl, rfl⟩
    · rename_i r hr
      split
      · exact ⟨.single (.order _), rfl⟩
      · rename_i f order hf
        have hmem := List.mem_of_find?_eq_some hr
        have hfree : (s.special r).used = false := by simpa using List.find?_some hr
        obtain ⟨hcarries, hzero⟩ := (prepareFrame_some hf).observer hshort _ _ _ _ rfl
        refine ⟨(Relation.ReflTransGen.single (.order order)).tail (.put r _ payload hfree
          ⟨rfl, (observer_kind hmem).symm, ?_, hcarries, hzero, hholds, .observer i, hmem,
            congrArg Owned.buffer howned⟩), rfl⟩
        rintro j rfl
        exact absurd ((observer_kind hmem).symm.trans (ownerFrame_kind j)) (by decide)

theorem publishAll_moves {b : Owned} {i : Fin observerBuffers} {waiting : ℕ → Waiting}
    {looks : Fin tcpLinks → ObserverLook} (l : List (Fin tcpLinks))
    (howned : s.pool.owned (.observer i) = b) (hholds : HoldsPayload s.pool.storage b.buffer payload)
    (hshort : payload.length ≤ largePayloadMax) : PoolMoves s (l.foldl (fun t slot =>
      Mux.publishTo b metadata payload waiting t slot.val (looks slot)) s) := by
  induction l generalizing s with
  | nil => exact .refl
  | cons slot l ih =>
    obtain ⟨hmoves, hstorage⟩ := publishTo_moves metadata waiting slot.val (looks slot) howned
      hholds hshort
    refine hmoves.trans (ih ?_ (hstorage ▸ hholds))
    exact (congrFun (congrArg Storage.owned hstorage) (.observer i)).trans howned

theorem publishObservers_moves {looks : Fin tcpLinks → ObserverLook} {malloc : Bool}
    (hs : PoolOk s) : PoolMoves s (s.publishObservers metadata payload looks malloc).1 := by
  unfold Mux.publishObservers
  split_ifs with hlong
  · exact .refl
  · have hshort : payload.length ≤ largePayloadMax := Nat.le_of_not_lt fun h => hlong (.inl h)
    split
    · exact .refl
    · rename_i i hi
      dsimp only
      split
      · exact .refl
      · rename_i b p hb
        have hp := prepareBuffer_heap hb
        have hpool : ({ s with pool := p } : Mux) = s.onHeap p.heap p.nextPtr :=
          congrArg (fun q => ({ s with pool := q } : Mux)) hp
        have hfold : observerFrames.foldl (fun s r =>
            if s.unstarted r then s.releaseSpecial r espErrInvalidState else s)
              { s with pool := p } = (s.replaceAll observerFrames).onHeap p.heap p.nextPtr :=
          (congrArg (Mux.replaceAll · observerFrames) hpool).trans (replaceAll_onHeap ..)
        rw [hfold]
        have hreplace := replaceAll_moves observerFrames
          (fun r hr => observer_kind hr ▸ by decide) s
        have hstorage := replaceAll_storage observerFrames s
        have hused := fun r => replaceAll_used (r := r) observerFrames (s := s)
        set u := s.replaceAll observerFrames
        have hus : PoolOk u := hs.moves hreplace
        have howned : u.pool.owned = s.pool.owned := congrArg Storage.owned hstorage
        have hc := commitBuffer_rest (u.onHeap p.heap p.nextPtr).pool (s.pool.observerBuffers i) b
        have hprepares : Prepares u (.observer i) b payload.length
            { (u.onHeap p.heap p.nextPtr).pool.commitBuffer (s.pool.observerBuffers i) b with
              observerBuffers :=
                Function.update (u.onHeap p.heap p.nextPtr).pool.observerBuffers i b } := by
          refine ⟨⟨s.pool, p, malloc, hstorage.symm, hb, commitBuffer_congr rfl, by rw [hc]; rfl⟩,
            ?_, by rw [hc]; rfl, by rw [hc]; rfl⟩
          rw [hc]
          exact owned_observer rfl rfl rfl
        have hfilled := hprepares.filled payload hus.storage fun r hr => by
          obtain ⟨hrs, hsame, hstarted⟩ := hused r hr
          by_cases hmem : r ∈ observerFrames
          · have hbusy := List.find?_some hi
            have hnot := hstarted hmem
            simp only [Mux.observerBusy, Bool.not_eq_true', List.any_eq_false] at hbusy
            have hone := hbusy r hmem
            simp only [Mux.unstarted, hrs, Bool.true_and, beq_eq_false_iff_ne] at hnot
            rw [howned, hsame]
            simpa [hrs, hnot, Pool.owned] using hone
          · exact hus.other_buffer hr fun slot hu => by
              rintro rfl
              exact hmem hu
        exact (hreplace.tail hfilled.move).trans
          (publishAll_moves _ hfilled.owned hfilled.holds hshort)

/-! ## Cancellation -/

theorem cancelSpecial_moves (s : Mux) (which : Cancel) : PoolMoves s (s.cancelSpecial which) := by
  unfold Mux.cancelSpecial
  generalize SpecialRef.all = l
  induction l generalizing s with
  | nil => exact .refl
  | cons r l ih =>
    refine Relation.ReflTransGen.trans ?_ (ih _)
    dsimp only
    split_ifs with hu
    · simp only [Mux.unstarted, Bool.and_eq_true, beq_iff_eq] at hu
      exact .single (.cancel r hu.1.1 hu.1.2)
    · exact .refl

end EspVision.MuxTx
