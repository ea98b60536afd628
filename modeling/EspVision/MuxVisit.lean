import EspVision.MuxEntries

/-!
# What the pool and the worker leave alone

What is done under `s_special_mutex` does not touch the queues. A visit of the worker touches at most
one frame of the queue that it visits: it keeps the frame, with its progress, or begins to release it.
-/
namespace EspVision.MuxTx

open EvTransport EvMux EvSession Host TransitionSystem

/-! ## Progress of a frame -/

/-- A frame that the worker has worked on: nothing else changes. -/
def Frame.Progressed (f g : Frame) : Prop :=
  g = { f with
    header := g.header
    headerReady := g.headerReady
    payloadCrcState := g.payloadCrcState
    payloadCrcPos := g.payloadCrcPos
    frameTimeoutMs := g.frameTimeoutMs
    attempted := g.attempted
    startMs := g.startMs
    lastProgressMs := g.lastProgressMs
    txOffset := g.txOffset }

namespace Frame.Progressed

variable {f g h : Frame}

theorem refl (f : Frame) : f.Progressed f := rfl

theorem trans (hg : f.Progressed g) (hh : g.Progressed h) : f.Progressed h := by
  unfold Frame.Progressed at *
  cases f
  cases g
  cases h
  simp_all

variable (hg : f.Progressed g)
include hg

theorem used : g.used = f.used := by rw [hg]
theorem blocks : g.blocks = f.blocks := by rw [hg]
theorem totalLen : g.totalLen = f.totalLen := by rw [hg]
theorem payloadLen : g.payloadLen = f.payloadLen := by rw [hg]
theorem metadata : g.metadata = f.metadata := by rw [hg]
theorem priority : g.priority = f.priority := by rw [hg]
theorem link : g.link = f.link := by rw [hg]
theorem sessionId : g.sessionId = f.sessionId := by rw [hg]
theorem id : g.id = f.id := by rw [hg]
theorem isLow : g.isLow = f.isLow := by rw [Frame.isLow, hg.priority]; rfl
theorem isDiscovery : g.isDiscovery = f.isDiscovery := by rw [Frame.isDiscovery, hg.sessionId]; rfl
theorem quota : g.tcpQuotaReserved = f.tcpQuotaReserved := by rw [hg]
theorem discovery : g.tcpDiscoveryReservation = f.tcpDiscoveryReservation := by rw [hg]
theorem low : g.tcpLowReservation = f.tcpLowReservation := by rw [hg]
theorem submission (payload : List UInt8) (kind : SpecialKind) :
    g.submission payload kind = f.submission payload kind := by rw [hg]; rfl

end Frame.Progressed

theorem crcStep_progressed (f : Frame) (payload : ℕ → List UInt8) :
    f.Progressed (f.crcStep payload) := by
  unfold Frame.crcStep buildHeader
  dsimp only
  split_ifs <;> rfl

@[simp] theorem crcStep_txOffset (f : Frame) (payload : ℕ → List UInt8) :
    (f.crcStep payload).txOffset = f.txOffset := by
  unfold Frame.crcStep buildHeader
  dsimp only
  split_ifs <;> rfl

theorem verdict_keep {f g : Frame} {payload : ℕ → List UInt8} {look : WorkerLook}
    (h : verdict f payload look = .keep g) : g = f ∨ g = f.crcStep payload := by
  unfold verdict at h
  split_ifs at h
  split at h
  · cases h
  · cases h
    exact .inl rfl
  · dsimp only at h
    split_ifs at h
    all_goals cases h
    exact .inr rfl

/-- A frame that may be written, as the worker leaves it before the write. -/
structure Writable (f : Frame) (payload : ℕ → List UInt8) (look : WorkerLook) (g : Frame) :
    Prop where
  timely : ¬ (f.expired look.nowMs = true ∧ f.txOffset = 0)
  current : look.linkIsCurrent = true
  allowed : frameAuthorized f look = .allowed
  ready : (f.crcStep payload).headerReady = true
  form : ∃ timeout start progress, g = { f.crcStep payload with
    frameTimeoutMs := timeout, attempted := true, startMs := start, lastProgressMs := progress }

theorem verdict_write {f g : Frame} {payload : ℕ → List UInt8} {look : WorkerLook}
    (h : verdict f payload look = .write g) : Writable f payload look g := by
  unfold verdict at h
  split_ifs at h with htimely hcurrent
  have hcurrent : look.linkIsCurrent = true := by simpa using hcurrent
  split at h
  · cases h
  · cases h
  · rename_i hallowed
    dsimp only at h
    split_ifs at h with hready hrecheck hzero hlate hattempted
    all_goals cases h
    all_goals
      refine ⟨htimely, hcurrent, hallowed, by simpa using hready, ?_⟩
    · exact absurd (hrecheck.1.symm.trans hattempted) (by decide)
    · exact ⟨_, _, _, rfl⟩
    · rename_i hattempted
      refine ⟨(f.crcStep payload).frameTimeoutMs, (f.crcStep payload).startMs,
        (f.crcStep payload).lastProgressMs, ?_⟩
      rw [← hattempted]
    · exact ⟨_, _, _, rfl⟩

theorem Writable.progressed {f g : Frame} {payload : ℕ → List UInt8} {look : WorkerLook}
    (h : Writable f payload look g) : f.Progressed g := by
  obtain ⟨timeout, start, progress, rfl⟩ := h.form
  exact (crcStep_progressed f payload).trans rfl

/-! ## Frames that stay and frames that are given up -/

/-- The completions that are still to be run. -/
def Aftermath.completion : Aftermath → Option Completion
  | .complete c => some c
  | _ => none

/-- A frame is given up: its completion follows, and the end of a TCP link on which it was begun. -/
structure GivenUp (f : Frame) (result : EspErr) (after : List Aftermath) : Prop where
  failed : result ≠ espOk
  complete : after.filterMap Aftermath.completion = [f.completionOf result]
  close : f.txOffset ≠ 0 → f.link.transportId = .tcp → .close f.link ∈ after

/-- A frame stays: it is as it was, its checksum has gone on, or it waits for the link. -/
def Kept (f : Frame) (payload : ℕ → List UInt8) (look : WorkerLook) (g : Frame) : Prop :=
  g = f ∨ g = f.crcStep payload ∨ Writable f payload look g

theorem Kept.progressed {f g : Frame} {payload : ℕ → List UInt8} {look : WorkerLook}
    (h : Kept f payload look g) :
    f.Progressed g := by
  rcases h with rfl | rfl | h
  · exact .refl _
  · exact crcStep_progressed _ _
  · exact h.progressed

theorem espErrTimeout_ne : espErrTimeout ≠ espOk := by decide
theorem espErrInvalidState_ne : espErrInvalidState ≠ espOk := by decide
theorem espErrInvalidSize_ne : espErrInvalidSize ≠ espOk := by decide

theorem after_completion (d : Drop) (f : Frame) :
    (d.after f).filterMap Aftermath.completion = [f.completionOf d.result] := by
  unfold Drop.after
  split_ifs <;> simp [Aftermath.completion]

theorem after_close {d : Drop} {f : Frame} (hresult : d.result ≠ espOk)
    (hbegun : if d.stale then d.failedPartial = true else d.closeTcp || d.failedPartial)
    (htcp : f.link.transportId = .tcp) : .close f.link ∈ d.after f := by
  unfold Drop.after
  refine List.mem_cons_of_mem _ ?_
  cases hstale : d.stale with
  | true =>
    rw [hstale, if_pos rfl] at hbegun
    simp [hbegun, htcp]
  | false =>
    rw [hstale] at hbegun
    have hbegun : (d.closeTcp || d.failedPartial) = true := by simpa using hbegun
    simp [hresult, hbegun, htcp]

/-- The worker gives a frame up for a reason, and a begun frame together with its TCP link. -/
theorem verdict_drop {f : Frame} {payload : ℕ → List UInt8} {look : WorkerLook} {d : Drop}
    (h : verdict f payload look = .drop d) : GivenUp f d.result (d.after f) := by
  have hbegun : d.result ≠ espOk ∧ (f.txOffset ≠ 0 → f.link.transportId = .tcp →
      if d.stale then d.failedPartial = true else d.closeTcp || d.failedPartial) := by
    unfold verdict at h
    split_ifs at h with hexpired hcurrent
    · cases h
      exact ⟨espErrTimeout_ne, fun hne => absurd hexpired.2 hne⟩
    · cases h
      exact ⟨espErrInvalidState_ne, fun hne _ => by simpa using hne⟩
    · split at h
      · cases h
        exact ⟨espErrInvalidState_ne, fun hne _ => by simpa using hne⟩
      · cases h
      · dsimp only at h
        have hlink := (crcStep_progressed f payload).link
        split_ifs at h with hready hrecheck hzero hlate hattempted hzero hlate
        all_goals cases h
        · refine ⟨espErrInvalidSize_ne, fun _ htcp => ?_⟩
          rw [hlink, htcp] at hrecheck
          cases hrecheck.2
        · exact ⟨espErrTimeout_ne, fun _ htcp => by simp [hlink, htcp]⟩
        · exact absurd hzero.1 hrecheck
        · exact ⟨espErrTimeout_ne, fun _ htcp => by simp [hlink, htcp]⟩
  exact ⟨hbegun.1, after_completion d f, fun hne htcp => after_close hbegun.1 (hbegun.2 hne htcp) htcp⟩

theorem completionOf_progressed {f g : Frame} (h : f.Progressed g) (result : EspErr) :
    g.completionOf result = f.completionOf result := by
  rw [h]
  rfl

/-! ## The pool -/

/-- The queues and what they account for are as before. -/
structure SameQueues (s s' : Mux) : Prop where
  queues : s'.queues = s.queues
  arenas : s'.arenas = s.arenas
  quota : s'.quota = s.quota

/-- Nothing was written, and the worker has as much to do as before. -/
structure SameWire (s s' : Mux) : Prop where
  after : s'.after = s.after
  registry : s'.registry = s.registry
  wire : s'.wire = s.wire
  segments : s'.segments = s.segments

/-- A step that concerns the special frames only. -/
structure Aside (s s' : Mux) : Prop where
  queues : SameQueues s s'
  wire : SameWire s s'

section

variable {s s' s'' : Mux}

theorem SameQueues.refl (s : Mux) : SameQueues s s := ⟨rfl, rfl, rfl⟩

theorem SameQueues.trans (h : SameQueues s s') (h' : SameQueues s' s'') : SameQueues s s'' :=
  ⟨h'.queues.trans h.queues, h'.arenas.trans h.arenas, h'.quota.trans h.quota⟩

theorem Aside.refl (s : Mux) : Aside s s := ⟨.refl s, rfl, rfl, rfl, rfl⟩

theorem Aside.trans (h : Aside s s') (h' : Aside s' s'') : Aside s s'' :=
  ⟨h.queues.trans h'.queues, h'.wire.after.trans h.wire.after,
    h'.wire.registry.trans h.wire.registry, h'.wire.wire.trans h.wire.wire,
    h'.wire.segments.trans h.wire.segments⟩

theorem Aside.foldl {α : Type} {step : Mux → α → Mux} (hstep : ∀ s a, Aside s (step s a))
    (l : List α) (s : Mux) : Aside s (l.foldl step s) := by
  induction l generalizing s with
  | nil => exact .refl s
  | cons a l ih => exact (hstep s a).trans (ih _)

namespace Mux

variable (s : Mux)

theorem releaseSpecial_aside (r : SpecialRef) (result : EspErr) :
    Aside s (s.releaseSpecial r result) := by
  unfold releaseSpecial
  split_ifs
  · exact .refl s
  · exact ⟨⟨rfl, rfl, rfl⟩, rfl, rfl, rfl, rfl⟩

theorem putSpecial_aside (r : SpecialRef) (sp : Special) (payload : List UInt8) :
    Aside s (s.putSpecial r sp payload) := ⟨⟨rfl, rfl, rfl⟩, rfl, rfl, rfl, rfl⟩

/-- Only the pool or the number of the next frame is set. -/
theorem pool_aside (p : Pool) : Aside s { s with pool := p } := ⟨⟨rfl, rfl, rfl⟩, rfl, rfl, rfl, rfl⟩

theorem order_aside (order : UInt32) : Aside s { s with enqueueOrder := order } :=
  ⟨⟨rfl, rfl, rfl⟩, rfl, rfl, rfl, rfl⟩

theorem submitLarge_aside (f : Frame) (payload : List UInt8) (malloc : Bool) :
    Aside s (s.submitLarge f payload malloc).1 := by
  unfold submitLarge
  split_ifs
  · exact .refl s
  · split
    · exact .refl s
    · exact (s.pool_aside _).trans (putSpecial_aside _ _ _ _)

theorem submitPreview_aside (f : Frame) (payload : List UInt8) (malloc : Bool) :
    Aside s (s.submitPreview f payload malloc).1 := by
  unfold submitPreview
  split
  · exact .refl s
  · dsimp only
    split_ifs
    · exact .refl s
    · split
      · exact .refl s
      · exact (((s.pool_aside _).trans (releaseSpecial_aside _ _ _)).trans
          (pool_aside _ _)).trans (putSpecial_aside _ _ _ _)

theorem submitSpecial_aside (o : SubmitOptions) (metadata payload : List UInt8) (isLarge : Bool)
    (ticket : Ticket) (look : PrepareLook) (mutexTaken malloc : Bool) :
    Aside s (s.submitSpecial o metadata payload isLarge ticket look mutexTaken malloc).1 := by
  unfold submitSpecial
  dsimp only
  iterate 5
    split
    · exact .refl s
  split
  · exact s.order_aside _
  · split
    · exact s.order_aside _
    · split
      · exact (s.order_aside _).trans (submitLarge_aside _ _ _ _)
      · exact (s.order_aside _).trans (submitPreview_aside _ _ _ _)

theorem publishTo_aside (b : Owned) (metadata payload : List UInt8) (waiting : ℕ → Waiting)
    (slot : ℕ) (look : ObserverLook) :
    Aside s (publishTo b metadata payload waiting s slot look) := by
  unfold publishTo
  split
  · exact .refl s
  · split
    · exact .refl s
    · split
      · exact s.order_aside _
      · exact (s.order_aside _).trans (putSpecial_aside _ _ _ _)

theorem publishObservers_aside (metadata payload : List UInt8)
    (looks : Fin tcpLinks → ObserverLook) (malloc : Bool) :
    Aside s (s.publishObservers metadata payload looks malloc).1 := by
  unfold publishObservers
  split_ifs
  · exact .refl s
  · split
    · exact .refl s
    · dsimp only
      split
      · exact .refl s
      · rename_i b p _
        have hreleased : Aside s (observerFrames.foldl (fun s r =>
            if s.unstarted r then s.releaseSpecial r espErrInvalidState else s)
              { s with pool := p }) :=
          (s.pool_aside p).trans (Aside.foldl (fun s r => by
            split_ifs
            · exact s.releaseSpecial_aside r _
            · exact .refl s) _ _)
        exact (hreleased.trans (pool_aside _ _)).trans
          (Aside.foldl (fun t slot => publishTo_aside t b metadata payload _ _ _) _ _)

theorem cancelSpecial_aside (which : Cancel) : Aside s (s.cancelSpecial which) := by
  refine Aside.foldl (fun s r => ?_) _ s
  dsimp only
  split_ifs
  · exact (s.releaseSpecial_aside r _).trans ⟨⟨rfl, rfl, rfl⟩, rfl, rfl, rfl, rfl⟩
  · exact .refl s

end Mux

/-! ## The worker -/

namespace Mux

variable {s : Mux} {t : Target} {look : WorkerLook} {p : Pick}

/-- A frame that the worker may pick: it is used, and a special one is for the target. -/
def CanPick (s : Mux) (t : Target) : Pick → Prop
  | .normal k => (s.frame t k).used = true
  | .special r => s.specialFor t r = true

theorem startedFrame_some (h : s.startedFrame t look.specialLocked = some p) :
    s.CanPick t p ∧ (s.pickFrame t p).txOffset ≠ 0 ∧
      (∀ r, p = .special r → look.specialLocked = true) := by
  unfold startedFrame at h
  split at h
  · rename_i k hk
    obtain rfl := Option.some.inj h
    have hk := List.find?_some hk
    simp only [Bool.and_eq_true, bne_iff_ne] at hk
    exact ⟨hk.1, hk.2, fun r hr => by cases hr⟩
  · split_ifs at h with hl
    obtain ⟨r, hr, rfl⟩ := Option.map_eq_some_iff.mp h
    have hr := List.find?_some hr
    simp only [Bool.and_eq_true, bne_iff_ne] at hr
    exact ⟨hr.1, hr.2, fun _ _ => hl⟩

theorem mem_candidates (h : p ∈ s.candidates t look) :
    s.CanPick t p ∧ (s.pickFrame t p).uartPaused look.pausedAtChoice = false ∧
      (s.pickFrame t p).expired look.chooseMs = false ∧
      (∀ r, p = .special r → look.specialLocked = true) := by
  unfold candidates at h
  rcases List.mem_append.mp h with h | h
  · obtain ⟨k, hk, rfl⟩ := List.mem_map.mp h
    have hk := (List.mem_filter.mp hk).2
    simp only [Bool.and_eq_true, Bool.not_eq_true'] at hk
    exact ⟨hk.1, hk.2.1, hk.2.2, fun r hr => by cases hr⟩
  · split_ifs at h with hl
    · obtain ⟨r, hr, rfl⟩ := List.mem_map.mp h
      have hr := (List.mem_filter.mp hr).2
      simp only [Bool.and_eq_true, Bool.not_eq_true'] at hr
      exact ⟨hr.1, hr.2.1, hr.2.2, fun _ _ => hl⟩
    · cases h

/-- The best of some candidates is one of them. -/
theorem best_mem (l : List Pick) (b : Best) {p : Pick}
    (h : (l.foldl (fun (b : Best) p => b.offer p (s.pickFrame t p)) b).pick = some p) :
    p ∈ l ∨ b.pick = some p := by
  induction l generalizing b with
  | nil => exact .inr h
  | cons q l ih =>
    rcases ih _ h with hmem | hb
    · exact .inl (List.mem_cons_of_mem _ hmem)
    · unfold Best.offer at hb
      dsimp only at hb
      split_ifs at hb
      · exact .inl (List.mem_cons.mpr (.inl (Option.some.inj hb).symm))
      · exact .inr hb

/-- What is chosen is the started frame, or where there is none one of the candidates. -/
theorem chooseFrame_some (h : s.chooseFrame t look = some p) :
    (look.specialLocked = true ∨ s.pool.partialFrame t = none) ∧
      (s.startedFrame t look.specialLocked = some p ∨
        s.startedFrame t look.specialLocked = none ∧ p ∈ s.candidates t look) := by
  unfold chooseFrame at h
  split_ifs at h with hmark
  refine ⟨?_, ?_⟩
  · cases hl : look.specialLocked with
    | true => exact .inl rfl
    | false =>
      rw [hl] at hmark
      exact .inr (Option.not_isSome_iff_eq_none.mp (by simpa using hmark))
  · split at h
    · rename_i q hq
      exact .inl (hq.trans h)
    · rename_i hq
      refine .inr ⟨hq, ?_⟩
      rcases best_mem _ _ h with hmem | hb
      · exact hmem
      · cases hb

theorem chooseFrame_canPick (h : s.chooseFrame t look = some p) :
    s.CanPick t p ∧ (∀ r, p = .special r → look.specialLocked = true) := by
  rcases (chooseFrame_some h).2 with hstarted | ⟨-, hmem⟩
  · obtain ⟨hp, -, hl⟩ := startedFrame_some hstarted
    exact ⟨hp, hl⟩
  · obtain ⟨hp, -, -, hl⟩ := mem_candidates hmem
    exact ⟨hp, hl⟩

theorem expiredFrame_some (h : s.expiredFrame t look = some p) :
    s.CanPick t p ∧ (s.pickFrame t p).txOffset = 0 := by
  unfold expiredFrame at h
  split at h
  · rename_i k hk
    obtain rfl := Option.some.inj h
    have hk := List.find?_some hk
    simp only [Bool.and_eq_true, beq_iff_eq] at hk
    exact ⟨hk.1.1, hk.1.2⟩
  · split_ifs at h
    obtain ⟨r, hr, rfl⟩ := Option.map_eq_some_iff.mp h
    have hr := List.find?_some hr
    simp only [Bool.and_eq_true, beq_iff_eq] at hr
    exact ⟨hr.1.1, hr.1.2⟩

/-- What a visit of the worker to the target does to its queue. -/
inductive Visited (s : Mux) (t : Target) (s' : Mux) : Prop
  | aside (h : SameQueues s s')
  | frame (k : FrameSlot) (f : Frame) (h : Holder) (free : s.holder t = .free)
      (used : (s.frame t k).used = true) (progressed : (s.frame t k).Progressed f)
      (next : h = .free ∨ ∃ next, h = .releasing k next)
      (queues : s'.queues = Function.update s.queues t { s.queues t with
        frames := Function.update (s.queues t).frames k f, holder := h })
      (arenas : s'.arenas = s.arenas) (quota : s'.quota = s.quota)

theorem setPick_visited {f : Frame} (hfree : s.holder t = .free) (hp : s.CanPick t p)
    (hf : (s.pickFrame t p).Progressed f) : Visited s t (s.setPick t p f) := by
  cases p with
  | normal k =>
    refine .frame k f .free hfree hp hf (.inl rfl) ?_ rfl rfl
    rw [← hfree]
    rfl
  | special r => exact .aside ⟨rfl, rfl, rfl⟩

theorem dropFrame_visited {result : EspErr} {after : List Aftermath} (hfree : s.holder t = .free)
    (hp : s.CanPick t p) : Visited s t (s.dropFrame t p result after) := by
  cases p with
  | normal k =>
    exact .frame k (s.frame t k) (.releasing k (.worker after)) hfree hp (.refl _)
      (.inr ⟨_, rfl⟩) holder_queues rfl rfl
  | special r =>
    obtain ⟨hq, ha, hquota⟩ := (s.releaseSpecial_aside r result).queues
    exact .aside ⟨hq, ha, hquota⟩

theorem transmit_visited {f : Frame} {payload : ℕ → List UInt8} {n : ℕ} {progressMs : UInt32}
    (hfree : s.holder t = .free) (hp : s.CanPick t p) (hf : (s.pickFrame t p).Progressed f) :
    Visited s t (s.transmit t p f payload n progressMs) := by
  unfold transmit
  dsimp only
  cases p with
  | normal k =>
    have hsent : (s.frame t k).Progressed
        { f with txOffset := f.txOffset + n, lastProgressMs := progressMs } := hf.trans rfl
    split_ifs
    · exact .frame k _ (.releasing k (.worker (Drop.after { result := espOk } f))) hfree hp hsent
        (.inr ⟨_, rfl⟩) work_queues rfl rfl
    · refine .frame k _ .free hfree hp hsent (.inl rfl) ?_ rfl rfl
      rw [← hfree]
      rfl
  | special r =>
    split_ifs
    · exact .aside ⟨(releaseSpecial_aside _ r _).queues.queues,
        (releaseSpecial_aside _ r _).queues.arenas, (releaseSpecial_aside _ r _).queues.quota⟩
    · exact .aside ⟨rfl, rfl, rfl⟩

/-! ### The ways in which a visit ends -/

/-- What a visit of the worker does. -/
inductive Visit (s : Mux) (t : Target) (look : WorkerLook) : Mux → Prop
  | idle : Visit s t look s
  | dropped (p : Pick) (result : EspErr) (after : List Aftermath) (pick : s.CanPick t p)
      (givenUp : GivenUp (s.pickFrame t p) result after) :
      Visit s t look (s.dropFrame t p result after)
  | kept (p : Pick) (g : Frame) (pick : s.CanPick t p)
      (kept : Kept (s.pickFrame t p) (s.pickPayload t p) look g) :
      Visit s t look (s.setPick t p g)
  | sent (p : Pick) (g : Frame) (n : ℕ) (progressMs : UInt32)
      (chosen : s.chooseFrame t look = some p)
      (writable : Writable (s.pickFrame t p) (s.pickPayload t p) look g) (pos : 0 < n)
      (le : n ≤ (g.offered (s.pickPayload t p)).length) :
      Visit s t look (s.transmit t p g (s.pickPayload t p) n progressMs)

theorem writeFrame_visit {g : Frame} (hp : s.chooseFrame t look = some p)
    (hg : Writable (s.pickFrame t p) (s.pickPayload t p) look g) :
    Visit s t look (s.writeFrame t p g look) := by
  have hcan := (chooseFrame_canPick hp).1
  unfold writeFrame
  dsimp only
  have hprogress := hg.progressed
  split
  · rename_i hn
    exact .sent p g look.io.transferred look.progressMs hp hg hn.2.1 hn.2.2
  · split
    · exact .kept p g hcan (.inr (.inr hg))
    · set d : Drop := ⟨if look.io.error ≠ espOk then look.io.error else espFail, false,
        g.txOffset != 0, g.link.transportId == .tcp⟩ with hd
      have hresult : d.result ≠ espOk := by
        rw [hd]
        dsimp only
        split_ifs with he
        · exact he
        · decide
      refine .dropped p d.result (d.after g) hcan ⟨hresult, ?_, fun _ htcp => ?_⟩
      · rw [after_completion, completionOf_progressed hprogress]
      · rw [← hprogress.link] at htcp ⊢
        exact after_close hresult (by simp [hd, htcp]) htcp

theorem processTarget_visit {s' : Mux} (h : s.processTarget t look = some s') :
    s.after t = [] ∧ s.holder t = .free ∧ Visit s t look s' := by
  unfold processTarget at h
  split_ifs at h with hbusy
  have hafter : s.after t = [] := by
    by_contra hne
    exact hbusy (.inl hne)
  have hfree : s.holder t = .free := by
    by_contra hne
    exact hbusy (.inr hne)
  refine ⟨hafter, hfree, ?_⟩
  split at h
  · split at h
    · obtain rfl := Option.some.inj h
      exact .idle
    · rename_i p hp
      obtain ⟨hcan, hzero⟩ := expiredFrame_some hp
      obtain rfl := Option.some.inj h
      exact .dropped p _ _ hcan ⟨by decide, rfl, fun hne => absurd hzero hne⟩
  · rename_i p hp
    have hcan := (chooseFrame_canPick hp).1
    split at h
    · rename_i d hd
      obtain rfl := Option.some.inj h
      exact .dropped p d.result _ hcan (verdict_drop hd)
    · rename_i f hf
      obtain rfl := Option.some.inj h
      exact .kept p f hcan ((verdict_keep hf).imp_right .inl)
    · rename_i f hf
      obtain rfl := Option.some.inj h
      exact writeFrame_visit hp (verdict_write hf)

theorem processTarget_visited {s' : Mux} (h : s.processTarget t look = some s') :
    s.after t = [] ∧ s.holder t = .free ∧ Visited s t s' := by
  obtain ⟨hafter, hfree, hvisit⟩ := processTarget_visit h
  refine ⟨hafter, hfree, ?_⟩
  cases hvisit with
  | idle => exact .aside (.refl s)
  | dropped p result after hcan hup => exact dropFrame_visited hfree hcan
  | kept p g hcan hkept => exact setPick_visited hfree hcan hkept.progressed
  | sent p g n progressMs hp hg hpos hle =>
    exact transmit_visited hfree (chooseFrame_canPick hp).1 hg.progressed

end Mux

end

end EspVision.MuxTx
