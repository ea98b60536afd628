import EspVision.MuxStream

/-!
# The numbers of frames

A frame gets its number while its task holds the queue, so the frames of a target are numbered in the
order in which they are accepted.
-/
namespace EspVision.MuxTx

open EvTransport EvMux EvSession Host TransitionSystem Outbox

/-! ## Numbers and times -/

/-- How many numbers a step may give to frames. -/
def Step.numbers : Step → ℕ
  | .enqueue .. | .submitSpecial .. => 1
  | .publishObservers .. => tcpLinks
  | _ => 0

def numbers (h : List (Step × Reply)) : ℕ := (h.map fun l => l.1.numbers).sum

/-- The time that a task gives to the frame that it queues, or that the worker compares with. -/
def Step.clock : Step → Option UInt32
  | .enqueue _ _ _ _ look => some look.nowMs
  | .processTarget _ look => some look.chooseMs
  | _ => none

def readings (h : List (Step × Reply)) : List UInt32 := h.filterMap fun l => l.1.clock

/-- The clock has not gone round. -/
def Forward (h : List (Step × Reply)) : Prop := (readings h).Pairwise (· ≤ ·)

instance (h : List (Step × Reply)) : Decidable (Forward h) :=
  inferInstanceAs (Decidable ((readings h).Pairwise _))

/-- Submissions of one class for the queue of one link, of which a pause of the UART concerns both
or none. -/
structure Alike (a b : Submission) : Prop where
  left : a.kind = .none
  right : b.kind = .none
  link : a.link = b.link
  priority : a.priority = b.priority
  uartBaudControl : a.uartBaudControl = b.uartBaudControl

section

variable {s s' : Mux} {h : List (Step × Reply)} {t : Target} {k : FrameSlot} {look : WorkerLook}
  {p : Pick} {f g : Frame}

/-! ### The number that is given next -/

theorem prepareFrame_order (o : SubmitOptions) (metadata : List UInt8) (payloadLen : ℕ)
    (ticket : Ticket) (look : PrepareLook) (order : UInt32) :
    (prepareFrame o metadata payloadLen ticket look order).2 = order ∨
      (prepareFrame o metadata payloadLen ticket look order).2 = order + 1 := by
  unfold prepareFrame
  split
  · exact .inl rfl
  · split_ifs
    · exact .inl rfl
    · exact .inr rfl

/-- A frame that is prepared has the next number and the time. -/
theorem prepareFrame_numbered {o : SubmitOptions} {metadata : List UInt8} {payloadLen : ℕ}
    {ticket : Ticket} {look : PrepareLook} {order order' : UInt32}
    (h : prepareFrame o metadata payloadLen ticket look order = (some f, order')) :
    order' = order + 1 ∧ f.enqueueOrder = order + 1 ∧ f.enqueueMs = look.nowMs := by
  unfold prepareFrame at h
  split at h
  · cases (Prod.mk.inj h).1
  · split_ifs at h
    · cases (Prod.mk.inj h).1
    · simp only [buildHeader, Prod.mk.injEq] at h
      obtain ⟨hf, rfl⟩ := h
      split_ifs at hf
      obtain rfl := Option.some.inj hf
      exact ⟨rfl, rfl, rfl⟩

/-- At most `n` numbers were given since the number `m` was. -/
structure Counted (m m' : UInt32) (n : ℕ) : Prop where
  le : m ≤ m'
  count : m'.toNat ≤ m.toNat + n

theorem Counted.refl (m : UInt32) (n : ℕ) : Counted m m n :=
  ⟨UInt32.le_refl _, Nat.le_add_right _ _⟩

theorem toNat_succ {m : UInt32} (h : m.toNat + 1 < 2 ^ 32) : (m + 1).toNat = m.toNat + 1 := by
  rw [UInt32.toNat_add]
  exact Nat.mod_eq_of_lt h

theorem Counted.of_succ {m m' : UInt32} {n : ℕ} (hn : m.toNat + (n + 1) < 2 ^ 32)
    (h : m' = m ∨ m' = m + 1) : Counted m m' (n + 1) := by
  rcases h with rfl | rfl
  · exact .refl _ _
  · have hnat := toNat_succ (m := m) (by omega)
    exact ⟨by rw [UInt32.le_iff_toNat_le, hnat]; omega, by rw [hnat]; omega⟩

theorem Counted.mono {m m' : UInt32} {n n' : ℕ} (h : Counted m m' n) (hle : n ≤ n') :
    Counted m m' n' := ⟨h.le, h.count.trans (Nat.add_le_add_left hle _)⟩

theorem Counted.trans {m m' m'' : UInt32} {n n' : ℕ} (h : Counted m m' n) (h' : Counted m' m'' n') :
    Counted m m'' (n + n') :=
  ⟨UInt32.le_trans h.le h'.le, by have := h.count; have := h'.count; omega⟩

theorem enqueue_order (s : Mux) (o : SubmitOptions) (metadata payload : List UInt8)
    (ticket : Ticket) (look : PrepareLook) :
    (s.enqueue o metadata payload ticket look).1.enqueueOrder = s.enqueueOrder ∨
      (s.enqueue o metadata payload ticket look).1.enqueueOrder = s.enqueueOrder + 1 := by
  have horder := prepareFrame_order o metadata payload.length ticket look s.enqueueOrder
  unfold Mux.enqueue
  split
  · exact .inl rfl
  · split_ifs
    · exact .inl rfl
    · split
      · exact .inl rfl
      · split <;> rename_i hf <;> rw [hf] at horder <;> exact horder

theorem releaseSpecial_order (s : Mux) (r : SpecialRef) (result : EspErr) :
    (s.releaseSpecial r result).enqueueOrder = s.enqueueOrder := by
  unfold Mux.releaseSpecial
  split_ifs <;> rfl

theorem submitSpecial_order (s : Mux) (o : SubmitOptions) (metadata payload : List UInt8)
    (isLarge : Bool) (ticket : Ticket) (look : PrepareLook) (mutexTaken malloc : Bool) :
    (s.submitSpecial o metadata payload isLarge ticket look mutexTaken malloc).1.enqueueOrder =
        s.enqueueOrder ∨
      (s.submitSpecial o metadata payload isLarge ticket look mutexTaken malloc).1.enqueueOrder =
        s.enqueueOrder + 1 := by
  have horder := prepareFrame_order o metadata payload.length ticket look s.enqueueOrder
  unfold Mux.submitSpecial
  dsimp only
  iterate 5
    split
    · exact .inl rfl
  split <;> rename_i hf <;> rw [hf] at horder
  · exact horder
  · split_ifs
    · exact horder
    · unfold Mux.submitLarge
      split_ifs
      · exact horder
      · split <;> exact horder
    · unfold Mux.submitPreview
      split
      · exact horder
      · dsimp only
        split_ifs
        · exact horder
        · split
          · exact horder
          · simpa only [Mux.putSpecial, releaseSpecial_order] using horder

theorem publishTo_order (b : Owned) (metadata payload : List UInt8) (waiting : ℕ → Waiting)
    (s : Mux) (slot : ℕ) (look : ObserverLook) :
    (Mux.publishTo b metadata payload waiting s slot look).enqueueOrder = s.enqueueOrder ∨
      (Mux.publishTo b metadata payload waiting s slot look).enqueueOrder = s.enqueueOrder + 1 := by
  unfold Mux.publishTo
  split
  · exact .inl rfl
  · split
    · exact .inl rfl
    · rename_i link _ _ _ _
      have horder := prepareFrame_order { link := link, txClass := .preview } metadata
        payload.length 0 look.prepare s.enqueueOrder
      split <;> rename_i hf <;> rw [hf] at horder <;> exact horder

theorem publishAll_counted {b : Owned} {metadata payload : List UInt8} {waiting : ℕ → Waiting}
    {looks : Fin tcpLinks → ObserverLook} (l : List (Fin tcpLinks)) (s : Mux) {m : UInt32}
    (hm : s.enqueueOrder = m) (hn : m.toNat + l.length < 2 ^ 32) :
    Counted m (l.foldl (fun t slot =>
      Mux.publishTo b metadata payload waiting t slot.val (looks slot)) s).enqueueOrder l.length := by
  subst hm
  induction l generalizing s with
  | nil => exact .refl _ _
  | cons slot l ih =>
    rw [List.length_cons] at hn
    have hfirst : Counted s.enqueueOrder _ 1 := .of_succ (n := 0) (by omega)
      (publishTo_order b metadata payload waiting s slot.val (looks slot))
    have hcount := hfirst.count
    have hrest := hfirst.trans (ih _ (by omega))
    rwa [Nat.add_comm] at hrest

theorem foldl_order {α : Type} (step : Mux → α → Mux)
    (hstep : ∀ s a, (step s a).enqueueOrder = s.enqueueOrder) (l : List α) (s : Mux) :
    (l.foldl step s).enqueueOrder = s.enqueueOrder := by
  induction l generalizing s with
  | nil => rfl
  | cons a l ih => exact (ih _).trans (hstep s a)

theorem publishObservers_counted {metadata payload : List UInt8}
    {looks : Fin tcpLinks → ObserverLook} {malloc : Bool}
    (hn : s.enqueueOrder.toNat + tcpLinks < 2 ^ 32) :
    Counted s.enqueueOrder (s.publishObservers metadata payload looks malloc).1.enqueueOrder
      tcpLinks := by
  unfold Mux.publishObservers
  split_ifs
  · exact .refl _ _
  · split
    · exact .refl _ _
    · dsimp only
      split
      · exact .refl _ _
      · rename_i b p _
        have hreleased := foldl_order
            (fun s r => if s.unstarted r then s.releaseSpecial r espErrInvalidState else s)
            (fun s r => by
              split_ifs
              · exact releaseSpecial_order s r _
              · rfl) observerFrames { s with pool := p }
        have hlength : (List.finRange tcpLinks).length = tcpLinks := List.length_finRange
        refine (publishAll_counted _ _ (by exact hreleased) ?_).mono hlength.le
        rw [hlength]
        exact hn

theorem cancelSpecial_order (s : Mux) (which : Cancel) :
    (s.cancelSpecial which).enqueueOrder = s.enqueueOrder := by
  refine foldl_order _ (fun s r => ?_) _ s
  dsimp only
  split_ifs
  · exact releaseSpecial_order s r _
  · rfl

theorem dropFrame_order {result : EspErr} {after : List Aftermath} :
    (s.dropFrame t p result after).enqueueOrder = s.enqueueOrder := by
  cases p with
  | normal k => rfl
  | special r => exact releaseSpecial_order s r result

theorem setPick_order : (s.setPick t p g).enqueueOrder = s.enqueueOrder := by
  cases p <;> rfl

theorem processTarget_order (h : s.processTarget t look = some s') :
    s'.enqueueOrder = s.enqueueOrder := by
  obtain ⟨-, -, hvisit⟩ := Mux.processTarget_visit h
  cases hvisit with
  | idle => rfl
  | dropped p result after hp hup => exact dropFrame_order
  | kept p g hp hk => exact setPick_order
  | sent p g n progressMs hp hg hpos hle =>
    rw [transmit_eq]
    have htaken : (s.taken t p g (s.pickPayload t p) n progressMs).enqueueOrder =
        s.enqueueOrder := by
      unfold Mux.taken
      exact setPick_order
    split_ifs
    · exact dropFrame_order.trans htaken
    · exact htaken

/-! ### Steps that queue nothing -/

/-- No number is given, and nothing is accepted. -/
structure SameSubmissions (s s' : Mux) : Prop where
  order : s'.enqueueOrder = s.enqueueOrder
  accepted : s'.accepted = s.accepted

theorem scan_same (h : s.scan t = some s') : SameSubmissions s s' := by
  unfold Mux.scan at h
  split at h
  · dsimp only at h
    split_ifs at h <;> obtain rfl := Option.some.inj h <;> exact ⟨rfl, rfl⟩
  · cases h

theorem afterwards_same (h : s.afterwards t = some s') : SameSubmissions s s' := by
  unfold Mux.afterwards at h
  split at h
  · obtain rfl := Option.some.inj h
    exact ⟨rfl, rfl⟩
  · obtain rfl := Option.some.inj h
    exact ⟨rfl, rfl⟩
  · cases h

theorem closeLink_same (h : s.closeLink t = some s') : SameSubmissions s s' := by
  unfold Mux.closeLink at h
  split at h
  · obtain rfl := Option.some.inj h
    exact ⟨rfl, rfl⟩
  · cases h

theorem runDue_same {i : ℕ} (h : s.runDue i = some s') : SameSubmissions s s' := by
  unfold Mux.runDue at h
  split_ifs at h
  obtain rfl := Option.some.inj h
  exact ⟨rfl, rfl⟩

/-- The steps that queue nothing give no number. -/
theorem next_order {l : Step} {r : Reply} (h : s.next l = some (s', r)) (hl : l.numbers = 0) :
    s'.enqueueOrder = s.enqueueOrder := by
  cases l with
  | enqueue => cases hl
  | submitSpecial => cases hl
  | publishObservers => cases hl
  | reserve t =>
    simp only [Mux.next, Mux.reserve] at h
    split at h
    · split_ifs at h
      · split at h <;> obtain ⟨rfl, -⟩ := Prod.mk.inj (Option.some.inj h) <;> rfl
      · obtain ⟨rfl, -⟩ := Prod.mk.inj (Option.some.inj h)
        rfl
    · cases h
  | allocate t =>
    have h := map_pair h
    unfold Mux.allocate at h
    split at h
    · split at h <;> obtain rfl := Option.some.inj h <;> rfl
    · cases h
  | refuse t =>
    obtain ⟨u, hu, he⟩ := Option.map_eq_some_iff.mp h
    obtain ⟨rfl, -⟩ := Prod.mk.inj he
    unfold Mux.refuse at hu
    split at hu
    · obtain rfl := Option.some.inj hu
      rfl
    · cases hu
  | fill t =>
    have h := map_pair h
    unfold Mux.fill at h
    split at h
    · obtain rfl := Option.some.inj h
      rfl
    · cases h
  | release t =>
    have h := map_pair h
    unfold Mux.release at h
    split at h
    · obtain rfl := Option.some.inj h
      rfl
    · cases h
  | unreserve t =>
    have h := map_pair h
    unfold Mux.unreserve at h
    split at h
    · obtain rfl := Option.some.inj h
      rfl
    · cases h
  | clear t =>
    have h := map_pair h
    unfold Mux.clear at h
    split at h
    · dsimp only at h
      split at h <;> obtain rfl := Option.some.inj h <;> rfl
    · cases h
  | cancel t which =>
    have h := map_pair h
    unfold Mux.cancel at h
    split_ifs at h
    obtain rfl := Option.some.inj h
    rfl
  | scan t => exact (scan_same (map_pair h)).order
  | cancelSpecial which =>
    obtain ⟨rfl, -⟩ := Prod.mk.inj (Option.some.inj h)
    exact cancelSpecial_order s which
  | processTarget t look => exact processTarget_order (map_pair h)
  | afterwards t => exact (afterwards_same (map_pair h)).order
  | closeLink t => exact (closeLink_same (map_pair h)).order
  | complete i => exact (runDue_same (map_pair h)).order
  | link change =>
    obtain ⟨rfl, -⟩ := Prod.mk.inj (Option.some.inj h)
    rfl

theorem next_counted {l : Step} {r : Reply} (h : s.next l = some (s', r))
    (hn : s.enqueueOrder.toNat + l.numbers < 2 ^ 32) :
    Counted s.enqueueOrder s'.enqueueOrder l.numbers := by
  cases l with
  | enqueue o metadata payload ticket look =>
    have horder := enqueue_order s o metadata payload ticket look
    rw [Option.some.inj h] at horder
    exact .of_succ hn horder
  | submitSpecial o metadata payload isLarge ticket look mutexTaken malloc =>
    have horder := submitSpecial_order s o metadata payload isLarge ticket look mutexTaken malloc
    rw [Option.some.inj h] at horder
    exact .of_succ hn horder
  | publishObservers metadata payload looks malloc =>
    have hcounted : Counted s.enqueueOrder
        (s.publishObservers metadata payload looks malloc).1.enqueueOrder tcpLinks :=
      publishObservers_counted hn
    rwa [Option.some.inj h] at hcounted
  | _ =>
    rw [next_order h rfl]
    exact .refl _ _

/-! ### Frames that are about to be accepted -/

/-- A frame with the number and the time of another. -/
structure Frame.SameOrder (f g : Frame) : Prop where
  order : g.enqueueOrder = f.enqueueOrder
  clock : g.enqueueMs = f.enqueueMs

/-- What the holders are about to accept they were about to accept before. -/
def Reoffers (s s' : Mux) : Prop :=
  ∀ t k payload, (s'.holder t).submits = some (k, payload) →
    (s.holder t).submits = some (k, payload) ∧ (s.frame t k).SameOrder (s'.frame t k)

theorem work_self {h : Holder} (hq : s'.queues = Function.update s.queues t { s.queues t with
    frames := Function.update (s.queues t).frames k f, holder := h }) :
    s'.holder t = h ∧ s'.frame t k = f := by
  rw [Mux.holder, Mux.frame, hq, Function.update_self]
  exact ⟨rfl, Function.update_self ..⟩

theorem work_other {q : Queue} {u : Target} (hq : s'.queues = Function.update s.queues t q)
    (hu : u ≠ t) : s'.holder u = s.holder u ∧ s'.frame u = s.frame u := by
  unfold Mux.holder Mux.frame
  exact ⟨by rw [hq, Function.update_of_ne hu], by rw [hq, Function.update_of_ne hu]⟩

theorem Reoffers.of_queues (h : s'.queues = s.queues) : Reoffers s s' := by
  intro t k payload hk
  rw [Mux.holder, h] at hk
  rw [Mux.frame, Mux.frame, h]
  exact ⟨hk, rfl, rfl⟩

theorem Reoffers.of_queue {q : Queue} (hq : s'.queues = Function.update s.queues t q)
    (h : ∀ k payload, q.holder.submits = some (k, payload) →
      (s.holder t).submits = some (k, payload) ∧ (s.frame t k).SameOrder (q.frames k)) :
    Reoffers s s' := by
  intro u k payload hk
  rw [Mux.holder, hq] at hk
  rw [Mux.frame, Mux.frame, hq]
  by_cases hu : u = t
  · subst hu
    rw [Function.update_self] at hk ⊢
    exact h k payload hk
  · rw [Function.update_of_ne hu] at hk ⊢
    exact ⟨hk, rfl, rfl⟩

theorem Reoffers.of_none {q : Queue} (hq : s'.queues = Function.update s.queues t q)
    (h : q.holder.submits = none) : Reoffers s s' :=
  .of_queue hq fun k payload hk => by
    rw [h] at hk
    cases hk

theorem reserve_reoffers {r : Option EspErr} (h : s.reserve t = some (s', r)) : Reoffers s s' := by
  unfold Mux.reserve at h
  split at h
  · rename_i k payload timeout hh
    split_ifs at h
    · split at h
      · obtain ⟨rfl, -⟩ := Prod.mk.inj (Option.some.inj h)
        exact .of_none Mux.work_queues rfl
      · rename_i quota f hf
        obtain ⟨rfl, -⟩ := tcpReserve_some hf
        obtain ⟨rfl, -⟩ := Prod.mk.inj (Option.some.inj h)
        refine .of_queue Mux.work_queues fun j p hj => ?_
        cases hj
        refine ⟨by rw [hh]; rfl, ?_⟩
        show Frame.SameOrder _ (Function.update (s.queues t).frames k _ k)
        rw [Function.update_self]
        exact ⟨rfl, rfl⟩
    · obtain ⟨rfl, -⟩ := Prod.mk.inj (Option.some.inj h)
      refine .of_queue Mux.setHolder_queues fun j p hj => ?_
      cases hj
      exact ⟨by rw [hh]; rfl, rfl, rfl⟩
  · cases h

theorem allocate_reoffers (h : s.allocate t = some s') : Reoffers s s' := by
  unfold Mux.allocate at h
  split at h
  · rename_i k payload timeout hh
    split at h
    · obtain rfl := Option.some.inj h
      exact .of_none Mux.setHolder_queues rfl
    · rename_i m f hf
      obtain ⟨blocks, rfl, -⟩ := allocateBlocks_some hf
      obtain rfl := Option.some.inj h
      refine .of_queue Mux.work_queues fun j p hj => ?_
      cases hj
      refine ⟨by rw [hh]; rfl, ?_⟩
      show Frame.SameOrder _ (Function.update (s.queues t).frames k _ k)
      rw [Function.update_self]
      exact ⟨rfl, rfl⟩
  · cases h

theorem visited_reoffers (h : Mux.Visited s t s') : Reoffers s s' := by
  cases h with
  | aside h => exact .of_queues h.queues
  | frame k f h hfree hused hp hnext hqueues harenas hquota =>
    refine .of_none hqueues ?_
    rcases hnext with rfl | ⟨next, rfl⟩ <;> rfl

/-- A frame that was prepared just now has the next number and the time of the step. -/
structure Fresh (s s' : Mux) (l : Step) (f : Frame) : Prop where
  order : f.enqueueOrder = s.enqueueOrder + 1
  last : s'.enqueueOrder = s.enqueueOrder + 1
  clock : l.clock = some f.enqueueMs
  accepted : s'.accepted = s.accepted

theorem next_offers {l : Step} {r : Reply} {payload : List UInt8} (h : s.next l = some (s', r))
    (hk : (s'.holder t).submits = some (k, payload)) :
    (s.holder t).submits = some (k, payload) ∧ (s.frame t k).SameOrder (s'.frame t k) ∨
      Fresh s s' l (s'.frame t k) := by
  cases l with
  | enqueue o metadata given ticket look =>
    have h := Option.some.inj h
    unfold Mux.enqueue at h
    split at h
    · obtain ⟨rfl, -⟩ := Prod.mk.inj h
      exact .inl ⟨hk, rfl, rfl⟩
    · rename_i u timeout hu
      split_ifs at h with hfree
      · obtain ⟨rfl, -⟩ := Prod.mk.inj h
        exact .inl ⟨hk, rfl, rfl⟩
      · split at h
        · obtain ⟨rfl, -⟩ := Prod.mk.inj h
          exact .inl ⟨hk, rfl, rfl⟩
        · rename_i j hj
          split at h
          · obtain ⟨rfl, -⟩ := Prod.mk.inj h
            refine .inl (Reoffers.of_queue (q := { s.queues u with
              frames := Function.update (s.queues u).frames j .zeroed }) rfl (fun k p hk => ?_) t k
              payload hk)
            rw [show (s.queues u).holder = .free from not_not.mp hfree] at hk
            cases hk
          · rename_i f order hf
            obtain ⟨rfl, horder, hclock⟩ := prepareFrame_numbered hf
            obtain ⟨hs', -⟩ := Prod.mk.inj h
            have hq : s'.queues = Function.update s.queues u { s.queues u with
                frames := Function.update (s.queues u).frames j f
                holder := .reserving j given timeout } := by
              rw [← hs']
              exact Mux.work_queues
            by_cases ht : t = u
            · subst ht
              obtain ⟨hholder, hframe⟩ := work_self hq
              rw [hholder] at hk
              cases hk
              rw [hframe]
              exact .inr ⟨horder, by rw [← hs'], congrArg some hclock.symm, by rw [← hs']; rfl⟩
            · obtain ⟨hholder, hframe⟩ := work_other hq ht
              rw [hholder] at hk
              rw [hframe]
              exact .inl ⟨hk, rfl, rfl⟩
  | reserve u => exact .inl (reserve_reoffers h t k payload hk)
  | allocate u => exact .inl (allocate_reoffers (map_pair h) t k payload hk)
  | refuse u =>
    obtain ⟨⟨s₁, e⟩, hu, he⟩ := Option.map_eq_some_iff.mp h
    obtain ⟨rfl, -⟩ := Prod.mk.inj he
    unfold Mux.refuse at hu
    split at hu
    · obtain ⟨rfl, -⟩ := Prod.mk.inj (Option.some.inj hu)
      exact .inl (Reoffers.of_none Mux.work_queues rfl t k payload hk)
    · cases hu
  | fill u =>
    have h := map_pair h
    unfold Mux.fill at h
    split at h
    · obtain rfl := Option.some.inj h
      exact .inl (Reoffers.of_none (t := u) rfl rfl t k payload hk)
    · cases h
  | release u =>
    have h := map_pair h
    unfold Mux.release at h
    split at h
    · obtain rfl := Option.some.inj h
      exact .inl (Reoffers.of_none Mux.setHolder_queues rfl t k payload hk)
    · cases h
  | unreserve u =>
    have h := map_pair h
    unfold Mux.unreserve at h
    split at h
    · obtain rfl := Option.some.inj h
      exact .inl (Reoffers.of_none Mux.work_queues rfl t k payload hk)
    · cases h
  | clear u =>
    have h := map_pair h
    unfold Mux.clear at h
    split at h
    · dsimp only at h
      split at h <;> obtain rfl := Option.some.inj h <;>
        exact .inl (Reoffers.of_none (t := u) rfl rfl t k payload hk)
    · cases h
  | cancel u which =>
    have h := map_pair h
    unfold Mux.cancel at h
    split_ifs at h
    obtain rfl := Option.some.inj h
    exact .inl (Reoffers.of_none Mux.setHolder_queues rfl t k payload hk)
  | scan u =>
    have h := map_pair h
    unfold Mux.scan at h
    split at h
    · dsimp only at h
      split_ifs at h <;> obtain rfl := Option.some.inj h <;>
        exact .inl (Reoffers.of_none (t := u) Mux.setHolder_queues rfl t k payload hk)
    · cases h
  | submitSpecial o metadata given isLarge ticket look mutexTaken malloc =>
    have haside := s.submitSpecial_aside o metadata given isLarge ticket look mutexTaken malloc
    rw [Option.some.inj h] at haside
    exact .inl (Reoffers.of_queues haside.queues.queues t k payload hk)
  | publishObservers metadata given looks malloc =>
    have haside := s.publishObservers_aside metadata given looks malloc
    rw [Option.some.inj h] at haside
    exact .inl (Reoffers.of_queues haside.queues.queues t k payload hk)
  | cancelSpecial which =>
    obtain ⟨rfl, -⟩ := Prod.mk.inj (Option.some.inj h)
    exact .inl (Reoffers.of_queues (s.cancelSpecial_aside which).queues.queues t k payload hk)
  | processTarget u look =>
    exact .inl (visited_reoffers (Mux.processTarget_visited (map_pair h)).2.2 t k payload hk)
  | afterwards u =>
    have h := map_pair h
    unfold Mux.afterwards at h
    split at h
    · obtain rfl := Option.some.inj h
      exact .inl ⟨hk, rfl, rfl⟩
    · obtain rfl := Option.some.inj h
      exact .inl ⟨hk, rfl, rfl⟩
    · cases h
  | closeLink u =>
    have h := map_pair h
    unfold Mux.closeLink at h
    split at h
    · obtain rfl := Option.some.inj h
      exact .inl ⟨hk, rfl, rfl⟩
    · cases h
  | complete i =>
    have h := map_pair h
    unfold Mux.runDue at h
    split_ifs at h
    obtain rfl := Option.some.inj h
    exact .inl ⟨hk, rfl, rfl⟩
  | link change =>
    obtain ⟨rfl, -⟩ := Prod.mk.inj (Option.some.inj h)
    exact .inl ⟨hk, rfl, rfl⟩

/-! ### What a step accepts -/

/-- What a holder is about to accept. -/
def Offering (s : Mux) (t : Target) (sub : Submission) : Prop :=
  ∃ k payload, (s.holder t).submits = some (k, payload) ∧
    sub = (s.frame t k).submission payload .none

theorem Offers.target {sub : Submission} (hs : Offers s) (h : Offering s t sub) :
    targetIndex sub.link = some t := by
  obtain ⟨k, payload, hk, rfl⟩ := h
  exact (hs t k payload hk).target

theorem SpecialRef.kind_ne (r : SpecialRef) : r.kind ≠ .none := by
  cases r with
  | large => decide
  | preview i =>
    simp only [SpecialRef.kind]
    split_ifs <;> decide

theorem getElem?_snoc {l : List Submission} {x sub : Submission} {n : ℕ}
    (h : (l ++ [x])[n]? = some sub) : l[n]? = some sub ∨ n = l.length ∧ sub = x := by
  rcases Nat.lt_trichotomy n l.length with hlt | rfl | hgt
  · rw [List.getElem?_append_left hlt] at h
    exact .inl h
  · rw [List.getElem?_concat_length] at h
    exact .inr ⟨rfl, (Option.some.inj h).symm⟩
  · have hlen := (List.getElem?_eq_some_iff.mp h).1
    rw [List.length_append, List.length_singleton] at hlen
    omega

/-- The pool takes special frames only. -/
theorem PoolMove.plain {n : ℕ} {sub : Submission} (h : PoolMove s s')
    (hn : s'.accepted[n]? = some sub) (hkind : sub.kind = .none) : s.accepted[n]? = some sub := by
  cases h with
  | order n => exact hn
  | replace r hused hzero hr =>
    rw [(releaseSpecial_rest s r _).2.1] at hn
    exact hn
  | cancel r hused hzero =>
    have hsame := (releaseSpecial_rest s r espErrInvalidState).2.1
    exact hsame ▸ hn
  | refill p slot payload hr hframes hmarks hunread => exact hn
  | put r sp payload hfree hp =>
    rcases getElem?_snoc hn with hold | ⟨-, rfl⟩
    · exact hold
    · exact absurd (hp.kind.symm.trans hkind) r.kind_ne

theorem PoolMoves.plain {n : ℕ} {sub : Submission} (h : PoolMoves s s')
    (hn : s'.accepted[n]? = some sub) (hkind : sub.kind = .none) : s.accepted[n]? = some sub := by
  induction h with
  | refl => exact hn
  | tail _ hmove ih => exact ih (hmove.plain hn hkind)

/-- A submission that a step accepts for a queue is the one that the holder was about to make. -/
structure Taken (s s' : Mux) (n : ℕ) (sub : Submission) (t : Target) : Prop where
  last : n = s.accepted.length
  offered : Offering s t sub
  target : targetIndex sub.link = some t
  done : ∀ sub', ¬ Offering s' t sub'

theorem fill_taken {n : ℕ} {sub : Submission} (ho : Offers s) (h : s.fill t = some s')
    (hn : s'.accepted[n]? = some sub) : s.accepted[n]? = some sub ∨ Taken s s' n sub t := by
  obtain ⟨k, payload, f, hf⟩ := fill_fills h
  rw [hf.accepted] at hn
  rcases getElem?_snoc hn with hold | ⟨rfl, rfl⟩
  · exact .inl hold
  · have hoffer : Offering s t (f.submission payload .none) :=
      ⟨k, payload, hf.submits, by rw [hf.form]; rfl⟩
    refine .inr ⟨rfl, hoffer, ho.target hoffer, ?_⟩
    rintro sub' ⟨j, data, hj, -⟩
    rw [hf.holder] at hj
    cases hj

theorem next_taken {l : Step} {r : Reply} {n : ℕ} {sub : Submission} (hf : Faithful s)
    (h : s.next l = some (s', r)) (hn : s'.accepted[n]? = some sub) (hkind : sub.kind = .none) :
    s.accepted[n]? = some sub ∨ ∃ t, Taken s s' n sub t := by
  cases next_happens hf.orderly hf.pool h with
  | quiet l hquiet hl => exact .inl (hquiet.rest.accepted ▸ hn)
  | fill t hfill => exact (fill_taken hf.offers hfill hn).imp_right fun ht => ⟨t, ht⟩
  | scan t hscan => exact .inl ((scan_same hscan).accepted ▸ hn)
  | pool l hmoves hl => exact .inl (hmoves.plain hn hkind)
  | visit t look hvisit => exact .inl ((visit_sends hvisit).2.1 ▸ hn)
  | afterwards t hdone => exact .inl ((afterwards_same hdone).accepted ▸ hn)
  | closeLink t hclosed => exact .inl ((closeLink_same hclosed).accepted ▸ hn)
  | complete i hran => exact .inl ((runDue_same hran).accepted ▸ hn)
  | link change hchanged =>
    subst hchanged
    exact .inl hn

/-! ### The numbers follow the order in which frames are accepted -/

/-- The number of the submission was given, and its time was read. -/
structure Stamped (h : List (Step × Reply)) (s : Mux) (sub : Submission) : Prop where
  order : sub.enqueueOrder ≤ s.enqueueOrder
  clock : sub.enqueueMs ∈ readings h

structure InNumbers (h : List (Step × Reply)) (s : Mux) : Prop where
  count : s.enqueueOrder.toNat ≤ numbers h
  accepted : ∀ (n : ℕ) sub, s.accepted[n]? = some sub → sub.kind = .none → Stamped h s sub
  offered : ∀ t sub, Offering s t sub → Stamped h s sub
  next : ∀ t sub (n : ℕ) a, Offering s t sub → s.accepted[n]? = some a → a.kind = .none →
    targetIndex a.link = some t → a.enqueueOrder < sub.enqueueOrder
  increasing : ∀ (i j : ℕ) a b, i < j → s.accepted[i]? = some a → s.accepted[j]? = some b →
    Alike a b → a.enqueueOrder < b.enqueueOrder

theorem numbers_snoc (h : List (Step × Reply)) (l : Step) (r : Reply) :
    numbers (h ++ [(l, r)]) = numbers h + l.numbers := by simp [numbers]

theorem readings_snoc (h : List (Step × Reply)) (l : Step) (r : Reply) :
    readings (h ++ [(l, r)]) = readings h ++ l.clock.toList := by
  unfold readings
  rw [List.filterMap_append]
  cases hl : l.clock <;> simp [hl]

theorem mem_readings_of_mem {now : UInt32} {l : Step} {r : Reply} (h' : now ∈ readings h) :
    now ∈ readings (h ++ [(l, r)]) := by
  rw [readings_snoc]
  exact List.mem_append_left _ h'

theorem mem_readings_last {now : UInt32} {l : Step} {r : Reply} (hl : l.clock = some now) :
    now ∈ readings (h ++ [(l, r)]) := by
  rw [readings_snoc, hl]
  exact List.mem_append_right _ (List.mem_singleton.mpr rfl)

theorem lt_next {m n : UInt32} (hm : m ≤ n) (hn : n ≤ n + 1) : m < n + 1 := by
  rw [UInt32.le_iff_toNat_le] at hm hn
  rw [UInt32.lt_iff_toNat_lt]
  rw [UInt32.toNat_add] at hn ⊢
  have hlt := UInt32.toNat_lt n
  have hone : (1 : UInt32).toNat = 1 := rfl
  omega

/-- A frame that a holder is about to accept was numbered behind all of its queue. -/
theorem InNumbers.offers {l : Step} {r : Reply} {sub : Submission} (hi : InNumbers h s)
    (hnext : s.next l = some (s', r)) (hle : s.enqueueOrder ≤ s'.enqueueOrder)
    (ho : Offering s' t sub) : Stamped (h ++ [(l, r)]) s' sub ∧
      ∀ (n : ℕ) a, s.accepted[n]? = some a → a.kind = .none → targetIndex a.link = some t →
        a.enqueueOrder < sub.enqueueOrder := by
  obtain ⟨k, payload, hk, rfl⟩ := ho
  rcases next_offers hnext hk with ⟨hold, horder, hclock⟩ | hfresh
  · have hoffer : Offering s t ((s.frame t k).submission payload .none) := ⟨k, payload, hold, rfl⟩
    obtain ⟨hstamp, hread⟩ := hi.offered t _ hoffer
    refine ⟨⟨?_, ?_⟩, fun n a ha hkind htarget => ?_⟩
    · show (s'.frame t k).enqueueOrder ≤ s'.enqueueOrder
      rw [horder]
      exact UInt32.le_trans hstamp hle
    · show (s'.frame t k).enqueueMs ∈ _
      rw [hclock]
      exact mem_readings_of_mem hread
    · show a.enqueueOrder < (s'.frame t k).enqueueOrder
      rw [horder]
      exact hi.next t _ n a hoffer ha hkind htarget
  · refine ⟨⟨?_, mem_readings_last hfresh.clock⟩, fun n a ha hkind htarget => ?_⟩
    · exact UInt32.le_of_eq (hfresh.order.trans hfresh.last.symm)
    · show a.enqueueOrder < (s'.frame t k).enqueueOrder
      rw [hfresh.order]
      exact lt_next (hi.accepted n a ha hkind).order (hfresh.last ▸ hle)

theorem InNumbers.step {l : Step} {r : Reply} (hi : InNumbers h s) (hf : Faithful s)
    (hnext : s.next l = some (s', r)) (hn : numbers (h ++ [(l, r)]) < 2 ^ 32) :
    InNumbers (h ++ [(l, r)]) s' := by
  rw [numbers_snoc] at hn
  have hcount := hi.count
  have hcounted := next_counted hnext (by omega)
  have hkeep : ∀ sub, Stamped h s sub → Stamped (h ++ [(l, r)]) s' sub := fun sub hsub =>
    ⟨UInt32.le_trans hsub.order hcounted.le, mem_readings_of_mem hsub.clock⟩
  refine ⟨?_, fun n sub hsub hkind => ?_,
    fun t sub ho => (hi.offers hnext hcounted.le ho).1, fun t sub n a ho ha hkind htarget => ?_,
    fun i j a b hij ha hb halike => ?_⟩
  · rw [numbers_snoc]
    exact hcounted.count.trans (Nat.add_le_add_right hcount _)
  · rcases next_taken hf hnext hsub hkind with hold | ⟨t, htaken⟩
    · exact hkeep sub (hi.accepted n sub hold hkind)
    · exact hkeep sub (hi.offered t sub htaken.offered)
  · rcases next_taken hf hnext ha hkind with hold | ⟨u, htaken⟩
    · exact (hi.offers hnext hcounted.le ho).2 n a hold hkind htarget
    · obtain rfl : u = t := Option.some.inj (htaken.target.symm.trans htarget)
      exact absurd ho (htaken.done sub)
  · rcases next_taken hf hnext ha halike.left with hold | ⟨t, htaken⟩ <;>
      rcases next_taken hf hnext hb halike.right with hold' | ⟨u, htaken'⟩
    · exact hi.increasing i j a b hij hold hold' halike
    · exact hi.next u b i a htaken'.offered hold halike.left (halike.link ▸ htaken'.target)
    · have hlt := (List.getElem?_eq_some_iff.mp hold').1
      have hlast := htaken.last
      omega
    · have hlast := htaken.last
      have hlast' := htaken'.last
      omega

theorem inNumbers_init (registry : Registry) : InNumbers [] { registry := registry } where
  count := Nat.zero_le _
  accepted n sub hn := by cases hn
  offered t sub ho := by
    obtain ⟨k, payload, hk, -⟩ := ho
    cases hk
  next t sub n a ho ha := by cases ha
  increasing i j a b hij ha := by cases ha

end

end EspVision.MuxTx
