import EspVision.MuxBytes

/-!
# The buffers of large frames, previews and observers

Every buffer of the heap that is in use belongs to one variable. A variable gets a larger buffer, or
keeps the one that it has, and the payload is written to it; what the other buffers hold stays, and
so does what a frame reads from them.
-/
namespace EspVision.MuxTx

open EvTransport EvMux EvSession Host ByteMedium

/-! ## Who owns which buffer -/

/-- The variables that own a buffer. -/
inductive BufferSlot
  | large
  | preview (i : Fin ownerPreviewFrames)
  | observer (b : Fin observerBuffers)
  deriving DecidableEq

/-- The heap and the variables that point into it. -/
structure Storage where
  heap : Ptr → Option Buffer
  nextPtr : Ptr
  owned : BufferSlot → Owned

def Pool.owned (p : Pool) : BufferSlot → Owned
  | .large => p.largeBuffer
  | .preview i => p.previewBuffers i
  | .observer b => p.observerBuffers b

def Pool.storage (p : Pool) : Storage := ⟨p.heap, p.nextPtr, p.owned⟩

/-- Every owned buffer is on the heap, and no buffer has two owners. -/
structure StorageOk (a : Storage) : Prop where
  fresh : ∀ ptr, a.nextPtr ≤ ptr → a.heap ptr = none
  backed : ∀ slot ptr, (a.owned slot).buffer = some ptr →
    ∃ b, a.heap ptr = some b ∧ b.capacity = (a.owned slot).capacity
  apart : ∀ slot slot' ptr, (a.owned slot).buffer = some ptr →
    (a.owned slot').buffer = some ptr → slot = slot'

/-- The buffer is large enough for the payload, and holds it. -/
structure HoldsPayload (a : Storage) (ptr : Option Ptr) (payload : List UInt8) : Prop where
  buffer : ∃ p b, ptr = some p ∧ a.heap p = some b ∧ payload.length ≤ b.capacity ∧
    window b.cells 0 payload.length = payload

/-- The payload was written to the buffer of the variable, and other buffers are as before. -/
structure Refilled (a a' : Storage) (slot : BufferSlot) (payload : List UInt8) : Prop where
  ok : StorageOk a'
  others : ∀ slot', slot' ≠ slot → a'.owned slot' = a.owned slot'
  kept : ∀ ptr b, a.heap ptr = some b → (a.owned slot).buffer ≠ some ptr → a'.heap ptr = some b
  holds : HoldsPayload a' (a'.owned slot).buffer payload

section

variable {a a' : Storage} {slot : BufferSlot} {payload data : List UInt8} {ptr : Option Ptr}

/-- A payload in another buffer stays. -/
theorem HoldsPayload.refilled (h : HoldsPayload a ptr data) (hr : Refilled a a' slot payload)
    (hne : ptr ≠ (a.owned slot).buffer) : HoldsPayload a' ptr data := by
  obtain ⟨p, b, rfl, hb, hlen, hdata⟩ := h.buffer
  exact ⟨p, b, rfl, hr.kept p b hb (Ne.symm hne), hlen, hdata⟩

theorem grow_ge {n fuel needed : ℕ} (hn : n ≤ largePayloadMax) (hlow : specialBufferMin ≤ needed)
    (hmax : needed ≤ largePayloadMax) (hfuel : largePayloadMax ≤ needed * 2 ^ fuel) :
    n ≤ grow n fuel needed := by
  induction fuel generalizing needed with
  | zero =>
    rw [pow_zero, mul_one] at hfuel
    exact hn.trans hfuel
  | succ fuel ih =>
    unfold grow
    split_ifs with hlt hhalf
    · refine ih ?_ le_rfl ?_
      · simp [specialBufferMin, largePayloadMax]
      · exact Nat.le_mul_of_pos_right _ (Nat.two_pow_pos fuel)
    · refine ih (by omega) (by omega) ?_
      rw [Nat.mul_assoc, ← pow_succ']
      exact hfuel
    · omega

/-- A new buffer is large enough. -/
theorem le_grow {n : ℕ} (hn : n ≤ largePayloadMax) : n ≤ grow n 8 specialBufferMin :=
  grow_ge hn le_rfl (by decide) (by decide)

theorem window_put (payload : List UInt8) (cells : ℕ → UInt8) :
    window (put 0 payload cells) 0 payload.length = payload := by
  refine List.ext_getElem? fun i => ?_
  by_cases hi : i < payload.length
  · rw [window_getElem? hi, put_inside (by omega) (by omega)]
    simp [hi]
  · rw [List.getElem?_eq_none (by simpa using hi), List.getElem?_eq_none (by omega)]

/-- What a refill does to the heap: the buffer of the variable is the one that it had, or a new one. -/
structure Refills (a a' : Storage) (slot : BufferSlot) (payload : List UInt8) (k : Ptr)
    (x : Buffer) : Prop where
  cell : a'.heap k = some x
  large : payload.length ≤ x.capacity
  cells : window x.cells 0 payload.length = payload
  owner : (a'.owned slot).buffer = some k ∧ (a'.owned slot).capacity = x.capacity
  others : ∀ slot', slot' ≠ slot → a'.owned slot' = a.owned slot'
  heap : ∀ ptr, ptr ≠ k → (a.owned slot).buffer ≠ some ptr → a'.heap ptr = a.heap ptr
  was : (a.owned slot).buffer = some k ∨ a.heap k = none
  next : a.nextPtr ≤ a'.nextPtr ∧ k < a'.nextPtr

theorem Refills.refilled {k : Ptr} {x : Buffer} (h : Refills a a' slot payload k x)
    (ha : StorageOk a) : Refilled a a' slot payload := by
  have hother : ∀ slot' ptr, slot' ≠ slot → (a.owned slot').buffer = some ptr →
      ptr ≠ k ∧ (a.owned slot).buffer ≠ some ptr := by
    intro slot' ptr hne hptr
    have hold : (a.owned slot).buffer ≠ some ptr := fun hs => hne (ha.apart slot' slot ptr hptr hs)
    refine ⟨?_, hold⟩
    rintro rfl
    rcases h.was with hw | hw
    · exact hold hw
    · obtain ⟨y, hy, -⟩ := ha.backed slot' ptr hptr
      rw [hw] at hy
      cases hy
  refine ⟨⟨?_, ?_, ?_⟩, h.others, ?_, ⟨k, x, h.owner.1, h.cell, h.large, h.cells⟩⟩
  · intro ptr hptr
    have hnone := ha.fresh ptr (h.next.1.trans hptr)
    have hk : ptr ≠ k := fun he => absurd h.next.2 (Nat.not_lt_of_le (he ▸ hptr))
    rw [h.heap ptr hk fun hs => ?_, hnone]
    obtain ⟨y, hy, -⟩ := ha.backed slot ptr hs
    rw [hnone] at hy
    cases hy
  · intro slot' ptr hptr
    by_cases hs : slot' = slot
    · subst hs
      obtain rfl := Option.some.inj (h.owner.1.symm.trans hptr)
      exact ⟨x, h.cell, h.owner.2.symm⟩
    · rw [h.others slot' hs] at hptr ⊢
      obtain ⟨hk, hold⟩ := hother slot' ptr hs hptr
      rw [h.heap ptr hk hold]
      exact ha.backed slot' ptr hptr
  · intro slot₁ slot₂ ptr h₁ h₂
    by_cases hs₁ : slot₁ = slot <;> by_cases hs₂ : slot₂ = slot
    · exact hs₁.trans hs₂.symm
    · rw [h.others slot₂ hs₂] at h₂
      rw [hs₁] at h₁
      exact absurd (Option.some.inj (h₁.symm.trans h.owner.1)) (hother slot₂ ptr hs₂ h₂).1
    · rw [h.others slot₁ hs₁] at h₁
      rw [hs₂] at h₂
      exact absurd (Option.some.inj (h₂.symm.trans h.owner.1)) (hother slot₁ ptr hs₁ h₁).1
    · rw [h.others slot₁ hs₁] at h₁
      rw [h.others slot₂ hs₂] at h₂
      exact ha.apart slot₁ slot₂ ptr h₁ h₂
  · intro ptr y hy hne
    rw [h.heap ptr ?_ hne]
    · exact hy
    · rintro rfl
      rcases h.was with hw | hw
      · exact hne hw
      · rw [hw] at hy
        cases hy

/-- `memcpy` to a buffer that is on the heap. -/
theorem store_heap (payload : List UInt8) {p : Pool} {b : Owned} {k : Ptr} {x : Buffer} (hb : b.buffer = some k)
    (hx : p.heap k = some x) : (p.store b payload).heap =
      Function.update p.heap k (some { x with cells := put 0 payload x.cells }) := by
  simp [Pool.store, hb, hx]

theorem store_owned (p : Pool) (b : Owned) (payload : List UInt8) :
    (p.store b payload).owned = p.owned := by
  funext slot
  unfold Pool.store
  split <;> cases slot <;> rfl

theorem store_nextPtr (p : Pool) (b : Owned) (payload : List UInt8) :
    (p.store b payload).nextPtr = p.nextPtr := by
  unfold Pool.store
  split <;> rfl

theorem commitBuffer_same (p : Pool) (b : Owned) : p.commitBuffer b b = p := by
  unfold Pool.commitBuffer
  split
  · rfl
  · rw [if_pos rfl]

theorem commitBuffer_heap {p : Pool} {old b : Owned} {ptr : Ptr} (h : old.buffer ≠ some ptr) :
    (p.commitBuffer old b).heap ptr = p.heap ptr := by
  unfold Pool.commitBuffer
  split
  · rfl
  · rename_i k hk
    split_ifs
    · rfl
    · refine Function.update_of_ne (fun he => h ?_) _ _
      rw [hk, he]

/-- Preparing, committing and writing a buffer. -/
theorem refilled {p p' q : Pool} {b : Owned} {malloc : Bool} (ha : StorageOk p.storage)
    (h : p.prepareBuffer (p.owned slot) payload.length malloc = some (b, p'))
    (hheap : q.heap = (p'.commitBuffer (p.owned slot) b).heap) (hnext : q.nextPtr = p'.nextPtr)
    (howned : q.owned = Function.update p.owned slot b) :
    Refilled p.storage (q.store b payload).storage slot payload := by
  have hownedAt : (q.store b payload).storage.owned slot = b :=
    (congrFun (store_owned q b payload) slot).trans
      ((congrFun howned slot).trans (Function.update_self ..))
  have hothers : ∀ slot', slot' ≠ slot →
      (q.store b payload).storage.owned slot' = p.storage.owned slot' := fun slot' hne =>
    (congrFun (store_owned q b payload) slot').trans
      ((congrFun howned slot').trans (Function.update_of_ne hne _ _))
  have hnext' : (q.store b payload).storage.nextPtr = p'.nextPtr :=
    (store_nextPtr q b payload).trans hnext
  unfold Pool.prepareBuffer at h
  split_ifs at h with hmax hreuse
  · -- the buffer that there is
    obtain ⟨rfl, rfl⟩ := Prod.mk.inj (Option.some.inj h)
    obtain ⟨k, hk⟩ := Option.isSome_iff_exists.mp hreuse.1
    obtain ⟨x, hx, hcap⟩ := ha.backed slot k hk
    rw [commitBuffer_same] at hheap
    have hxq : q.heap k = some x := (congrFun hheap k).trans hx
    have hstore : (q.store (p.owned slot) payload).storage.heap = Function.update q.heap k
        (some { x with cells := put 0 payload x.cells }) := store_heap _ hk hxq
    refine Refills.refilled (k := k) (x := { x with cells := put 0 payload x.cells })
      ⟨?_, hreuse.2.trans_eq hcap.symm, window_put _ _, ?_, hothers, ?_, .inl hk, ?_⟩ ha
    · rw [hstore, Function.update_self]
    · rw [hownedAt]
      exact ⟨hk, hcap.symm⟩
    · intro ptr hne _
      rw [hstore, Function.update_of_ne hne, hheap]
      rfl
    · rw [hnext']
      refine ⟨le_rfl, Nat.lt_of_not_le fun hle => ?_⟩
      rw [ha.fresh k hle] at hx
      cases hx
  · -- a new buffer
    obtain ⟨rfl, rfl⟩ := Prod.mk.inj (Option.some.inj h)
    have hfresh : p.heap p.nextPtr = none := ha.fresh p.nextPtr le_rfl
    have hnot : (p.owned slot).buffer ≠ some p.nextPtr := by
      intro hs
      obtain ⟨y, hy, -⟩ := ha.backed slot p.nextPtr hs
      rw [show p.storage.heap p.nextPtr = none from hfresh] at hy
      cases hy
    have hxq : q.heap p.nextPtr =
        some ⟨grow payload.length 8 specialBufferMin, fun _ => 0⟩ := by
      rw [hheap, commitBuffer_heap hnot]
      exact Function.update_self ..
    have hstore := store_heap (b := ⟨some p.nextPtr, grow payload.length 8 specialBufferMin⟩)
      payload rfl hxq
    refine Refills.refilled (k := p.nextPtr) ⟨(congrFun hstore _).trans (Function.update_self ..),
      le_grow (Nat.le_of_not_lt hmax), window_put _ _, ?_, hothers, ?_, .inr hfresh, ?_⟩ ha
    · rw [hownedAt]
      exact ⟨rfl, rfl⟩
    · intro ptr hne hold
      have hold : (p.owned slot).buffer ≠ some ptr := hold
      refine (congrFun hstore ptr).trans ((Function.update_of_ne hne _ _).trans ?_)
      rw [hheap, commitBuffer_heap hold]
      exact Function.update_of_ne hne _ _
    · rw [hnext']
      exact ⟨Nat.le_succ _, Nat.lt_succ_self _⟩

end

/-! ## What the frames read -/

/-- The frames that read from the buffer of a variable. -/
def SpecialRef.Uses (r : SpecialRef) : BufferSlot → Prop
  | .large => r = .large
  | .preview i => r = Mux.ownerFrame i
  | .observer _ => r ∈ observerFrames

/-- The kind of a used frame. -/
def SpecialRef.kind : SpecialRef → SpecialKind
  | .large => .large
  | .preview i => if i.val < ownerPreviewFrames then .preview else .observer

/-- A frame that carries an accepted payload and reads it from a buffer of its own kind. -/
structure Stored (s : Mux) (r : SpecialRef) (payload : List UInt8) : Prop where
  kind : (s.special r).kind = r.kind
  index : ∀ i, r = Mux.ownerFrame i → (s.special r).poolIndex = i.val
  carries : Carries (s.special r).frame payload
  accepted : s.accepted[(s.special r).frame.id]? =
    some ((s.special r).frame.submission payload r.kind)
  holds : HoldsPayload s.pool.storage (s.special r).payload payload
  slot : ∃ slot, r.Uses slot ∧ (s.pool.owned slot).buffer = (s.special r).payload

/-- Every used frame of the pool has its payload in a buffer that is allocated for it. -/
structure PoolOk (s : Mux) : Prop where
  storage : StorageOk s.pool.storage
  stored : ∀ r, (s.special r).used = true → ∃ payload, Stored s r payload

section

variable {s s' : Mux} {r : SpecialRef} {payload : List UInt8} {slot : BufferSlot}

/-- What was accepted stays accepted. -/
theorem accepted_of_append {a b : List Submission} {n : ℕ} {sub : Submission}
    (h : a[n]? = some sub) : (a ++ b)[n]? = some sub := by
  rw [List.getElem?_append_left (List.getElem?_eq_some_iff.mp h).1, h]

theorem Stored.congr (h : Stored s r payload) (hframe : s'.special r = s.special r)
    (hstorage : s'.pool.storage = s.pool.storage) (haccepted : s.accepted <+: s'.accepted) :
    Stored s' r payload := by
  obtain ⟨b, hb⟩ := haccepted
  have howned : s'.pool.owned = s.pool.owned := congrArg Storage.owned hstorage
  exact ⟨hframe ▸ h.kind, hframe ▸ h.index, hframe ▸ h.carries,
    by rw [hframe, ← hb]; exact accepted_of_append h.accepted,
    by rw [hframe, hstorage]; exact h.holds, by rw [hframe, howned]; exact h.slot⟩

/-- What the frames serve is the payload. -/
theorem Stored.serves (h : Stored s r payload) : Serves (s.specialPayload r) payload := by
  obtain ⟨p, b, hp, hb, -, hdata⟩ := h.holds.buffer
  have hsource : ∀ i, s.specialPayload r i = payload.drop i := by
    intro i
    have hread : s.specialPayload r i = window b.cells i (payload.length - i) := by
      have hp : (s.pool.frames r).payload = some p := hp
      have hb : s.pool.heap p = some b := hb
      simp only [Mux.specialPayload, hp, Option.bind_some, hb]
      rw [show (s.pool.frames r).frame.payloadLen = payload.length from h.carries.payloadLen]
    rw [hread]
    by_cases hi : i ≤ payload.length
    · have hpart := window_part (m := b.cells) (a := 0) (b := i) (k := payload.length - i)
        (n := payload.length) (by omega)
      rw [hdata, Nat.zero_add, List.take_of_length_le (by simp)] at hpart
      exact hpart.symm
    · rw [Nat.sub_eq_zero_of_le (by omega), List.drop_of_length_le (by omega)]
      rfl
  intro i hi
  rw [hsource]
  exact ⟨drop_ne_nil hi, List.prefix_rfl⟩

/-- A payload in another buffer stays what the frame reads. -/
theorem Stored.refilled {t : Mux} {data : List UInt8} (h : Stored s r data)
    (hr : Refilled s.pool.storage t.pool.storage slot payload) (hframe : t.special r = s.special r)
    (haccepted : s.accepted <+: t.accepted)
    (hne : (s.special r).payload ≠ (s.pool.owned slot).buffer) : Stored t r data := by
  obtain ⟨b, hb⟩ := haccepted
  obtain ⟨slot', huses, howner⟩ := h.slot
  have hslot : slot' ≠ slot := by
    rintro rfl
    exact hne howner.symm
  exact ⟨hframe ▸ h.kind, hframe ▸ h.index, hframe ▸ h.carries,
    by rw [hframe, ← hb]; exact accepted_of_append h.accepted,
    by rw [hframe]; exact h.holds.refilled hr hne,
    slot', huses, by
      rw [hframe, ← howner]
      exact congrArg Owned.buffer (hr.others slot' hslot)⟩

/-- Frames that use different variables read different buffers. -/
theorem PoolOk.other_buffer (hs : PoolOk s) (hused : (s.special r).used = true)
    (hr : ∀ slot', r.Uses slot' → slot' ≠ slot) :
    (s.special r).payload ≠ (s.pool.owned slot).buffer := by
  obtain ⟨data, h⟩ := hs.stored r hused
  obtain ⟨slot', huses, howner⟩ := h.slot
  obtain ⟨p, b, hp, -⟩ := h.holds.buffer
  intro he
  rw [hp] at howner he
  exact hr slot' huses (hs.storage.apart slot' slot p howner he.symm)

@[simp] theorem special_setFrame (p : Pool) (r' : SpecialRef) (f : Special) :
    (p.setFrame r' f).frames r = if r = r' then f else p.frames r := by
  unfold Pool.setFrame
  dsimp only
  by_cases h : r = r'
  · subst h
    rw [Function.update_self, if_pos rfl]
  · rw [Function.update_of_ne h, if_neg h]

/-! ### Releasing -/

theorem releasedPool_frames (s : Mux) (r' : SpecialRef) :
    (s.releasedPool r').frames r =
      if r = r' then { s.special r with used := false, frame := .zeroed } else s.special r := by
  have hset : (s.releasedPool r').frames =
      (s.pool.setFrame r' { s.special r' with used := false, frame := .zeroed }).frames := by
    unfold Mux.releasedPool
    dsimp only
    split_ifs <;> rfl
  rw [hset, special_setFrame]
  split_ifs with hr
  · rw [hr]
  · rfl

theorem releasedPool_storage (s : Mux) (r : SpecialRef) :
    (s.releasedPool r).storage = s.pool.storage := by
  unfold Mux.releasedPool
  dsimp only
  split_ifs <;> rfl

theorem releaseSpecial_special (s : Mux) (r' : SpecialRef) (result : EspErr) :
    (s.releaseSpecial r' result).special r =
      if (s.special r').used = true ∧ r = r' then
        { s.special r with used := false, frame := .zeroed } else s.special r := by
  unfold Mux.releaseSpecial
  split_ifs with hunused hr hr
  · simp [hr.1] at hunused
  · rfl
  · exact (releasedPool_frames s r').trans (if_pos hr.2)
  · refine (releasedPool_frames s r').trans (if_neg fun he => hr ⟨?_, he⟩)
    simpa using hunused

/-- What a release leaves in use was in use. -/
theorem releaseSpecial_used {r' : SpecialRef} {result : EspErr}
    (h : ((s.releaseSpecial r' result).special r).used = true) :
    (s.special r).used = true ∧ r ≠ r' ∧ (s.releaseSpecial r' result).special r = s.special r := by
  rw [releaseSpecial_special] at h ⊢
  split_ifs at h ⊢ with hr
  refine ⟨h, ?_, rfl⟩
  rintro rfl
  exact hr ⟨h, rfl⟩

theorem releaseSpecial_storage (s : Mux) (r : SpecialRef) (result : EspErr) :
    (s.releaseSpecial r result).pool.storage = s.pool.storage := by
  unfold Mux.releaseSpecial
  split_ifs
  · rfl
  · exact releasedPool_storage s r

theorem releaseSpecial_accepted (s : Mux) (r : SpecialRef) (result : EspErr) :
    (s.releaseSpecial r result).accepted = s.accepted := by
  unfold Mux.releaseSpecial
  split_ifs <;> rfl

theorem PoolOk.release (hs : PoolOk s) (r : SpecialRef) (result : EspErr) :
    PoolOk (s.releaseSpecial r result) where
  storage := by
    rw [releaseSpecial_storage]
    exact hs.storage
  stored r' hused := by
    obtain ⟨hold, -, hframe⟩ := releaseSpecial_used hused
    obtain ⟨payload, h⟩ := hs.stored r' hold
    exact ⟨payload, h.congr hframe (releaseSpecial_storage s r result)
      (by rw [releaseSpecial_accepted])⟩

/-! ### Accepting -/

/-- What is to be known of a special frame that is put into the pool. -/
structure Puts (s : Mux) (r : SpecialRef) (sp : Special) (payload : List UInt8) : Prop where
  used : sp.used = true
  kind : sp.kind = r.kind
  index : ∀ i, r = Mux.ownerFrame i → sp.poolIndex = i.val
  carries : Carries sp.frame payload
  txOffset : sp.frame.txOffset = 0
  holds : HoldsPayload s.pool.storage sp.payload payload
  slot : ∃ slot, r.Uses slot ∧ (s.pool.owned slot).buffer = sp.payload

theorem Carries.numbered {f : Frame} (h : Carries f payload) (n : ℕ) :
    Carries { f with id := n } payload :=
  ⟨h.payloadLen, h.totalLen, h.header, h.summed, h.started, h.within, h.short⟩

theorem putSpecial_special (s : Mux) (r' : SpecialRef) (sp : Special) (payload : List UInt8) :
    (s.putSpecial r' sp payload).special r =
      if r = r' then { sp with frame := { sp.frame with id := s.accepted.length } }
      else s.special r := special_setFrame _ _ _

theorem PoolOk.put {sp : Special} (hs : PoolOk s) (h : Puts s r sp payload) :
    PoolOk (s.putSpecial r sp payload) where
  storage := hs.storage
  stored r' hused := by
    have hframe := putSpecial_special (r := r') s r sp payload
    by_cases hr : r' = r
    · subst hr
      rw [if_pos rfl] at hframe
      have hcarries := h.carries.numbered s.accepted.length
      refine ⟨payload, ?_, ?_, ?_, ?_, ?_, ?_⟩
      all_goals rw [hframe]
      · exact h.kind
      · exact h.index
      · exact hcarries
      · refine List.getElem?_concat_length.trans (congrArg some ?_)
        rw [h.kind]
        rfl
      · exact h.holds
      · exact h.slot
    · rw [if_neg hr] at hframe
      rw [hframe] at hused
      obtain ⟨data, hd⟩ := hs.stored r' hused
      exact ⟨data, hd.congr hframe rfl (List.prefix_append _ _)⟩

end

end EspVision.MuxTx
