import EspVision.ReplStage

/-!
# Where the REPL output goes

Whatever the calls, the cancellations and the answers of the queue: every byte that a write has
staged is, in the order of the writes, in a stage that was handed over or given up whole or in the
one that is being filled, and the owner of that stage is the one the byte was written for.
-/
namespace EspVision.ReplStage

open EvTransport EvMux EvSession EvControl TransitionSystem
open MuxTx (espOk)
open MetadataBind (CString)

/-! ## Pieces -/

theorem copyLen_le (rest : List UInt8) (available : ℕ) :
    copyLen rest available ≤ rest.length ∧ copyLen rest available ≤ available := by
  unfold copyLen
  dsimp only
  cases h : (rest.take (min rest.length available)).idxOf? newline with
  | none => exact ⟨min_le_left _ _, min_le_right _ _⟩
  | some i =>
    obtain ⟨hi, -⟩ := List.idxOf?_eq_some_iff.mp h
    rw [List.length_take] at hi
    dsimp only
    omega

/-- A piece has a line end at its end or nowhere. -/
theorem take_copyLen (rest : List UInt8) (available : ℕ) :
    (∃ l, newline ∉ l ∧ rest.take (copyLen rest available) = l ++ [newline]) ∨
      newline ∉ rest.take (copyLen rest available) := by
  unfold copyLen
  dsimp only
  cases h : (rest.take (min rest.length available)).idxOf? newline with
  | none => exact .inr (List.idxOf?_eq_none_iff.mp h)
  | some i =>
    obtain ⟨hi, hat, hbefore⟩ := List.idxOf?_eq_some_iff.mp h
    rw [List.length_take] at hi
    have hlt : i < rest.length := by omega
    rw [List.getElem_take] at hat
    refine .inl ⟨rest.take i, fun hmem => ?_, ?_⟩
    · obtain ⟨j, hj, hget⟩ := List.mem_iff_getElem.mp hmem
      rw [List.getElem_take] at hget
      rw [List.length_take] at hj
      have hne := hbefore j (by omega)
      rw [List.getElem_take] at hne
      simp [hget] at hne
    · rw [List.take_succ_eq_append_getElem hlt, hat]

/-! ## Stages -/

/-- The stage has room and no line end. -/
structure Stage.Open (stage : Stage) : Prop where
  room : stage.payload.length < replStageBytes
  plain : newline ∉ stage.payload

/-- The stage is one line or a part of one. -/
structure Stage.Line (stage : Stage) : Prop where
  fits : stage.payload.length ≤ replStageBytes
  inside : newline ∉ stage.payload.dropLast

theorem Stage.Open.line {stage : Stage} (h : stage.Open) : stage.Line :=
  ⟨h.room.le, fun hmem => h.plain (List.dropLast_subset _ hmem)⟩

theorem Stage.open_of_empty {stage : Stage} (h : stage.payload = []) : stage.Open :=
  ⟨by rw [h]; decide, by simp [h]⟩

/-- A piece appended to a stage with room gives a line, and one that is not handed over yet has
room. -/
theorem Stage.Open.append {stage : Stage} (h : stage.Open) {stage' : Stage} {rest : List UInt8}
    (hp : stage'.payload = stage.payload ++
      rest.take (copyLen rest (replStageBytes - stage.payload.length))) :
    stage'.Line ∧ (shouldFlush stage'.payload = false → stage'.Open) := by
  have hroom := h.room
  have hle := (copyLen_le rest (replStageBytes - stage.payload.length)).2
  have hfits : stage'.payload.length ≤ replStageBytes := by
    rw [hp, List.length_append, List.length_take]
    omega
  rcases take_copyLen rest (replStageBytes - stage.payload.length) with ⟨l, hl, htake⟩ | hplain
  · have hline : stage'.payload = (stage.payload ++ l) ++ [newline] := by
      rw [hp, htake, List.append_assoc]
    refine ⟨⟨hfits, ?_⟩, fun hflush => ?_⟩
    · rw [hline, List.dropLast_concat]
      exact fun hmem => (List.mem_append.mp hmem).elim h.plain hl
    · simp [shouldFlush, hline] at hflush
  · have hnone : newline ∉ stage'.payload := by
      rw [hp]
      exact fun hmem => (List.mem_append.mp hmem).elim h.plain hplain
    refine ⟨⟨hfits, fun hmem => hnone (List.dropLast_subset _ hmem)⟩, fun hflush => ⟨?_, hnone⟩⟩
    simp only [shouldFlush, Bool.or_eq_false_iff, beq_eq_false_iff_ne] at hflush
    exact lt_of_le_of_ne hfits hflush.1

/-! ## The bytes -/

/-- The staged bytes, each with its owner. -/
def Stage.bytes (stage : Stage) : List (Context × UInt8) := stage.payload.map (stage.owner, ·)

/-- The bytes that the call has staged. -/
def Writing.bytes (w : Writing) : List (Context × UInt8) :=
  (w.payload.take w.offset).map (w.target.owner, ·)

/-- The call that is under way. -/
def Holder.call : Holder → Option Writing
  | .free => none
  | .writing w => some w
  | .entering _ w => w
  | .flushing _ w => w

/-- A call waits until the stage is handed over. -/
def Holder.waits : Holder → Bool
  | .entering _ w => w.isSome
  | .flushing _ w => w.isSome
  | _ => false

/-- What all calls have staged. -/
def State.written (s : State) : List (Context × UInt8) :=
  s.returned.flatMap (·.writing.bytes) ++ s.holder.call.toList.flatMap Writing.bytes

/-- What the stages have held. -/
def State.passed (s : State) : List (Context × UInt8) :=
  s.gone.flatMap (·.stage.bytes) ++ s.stage.bytes

/-- What is queued is current. -/
def Gone.Current (g : Gone) : Prop :=
  ∀ look epoch, g.fate = .queued look epoch → stageIsCurrent g.stage epoch look = true

structure Inv (s : State) : Prop where
  fresh : s.stage.used = false → s.stage.payload = []
  line : s.stage.Line
  opened : s.holder.waits = false → s.stage.Open
  gone : ∀ g ∈ s.gone, g.stage.Line
  current : ∀ g ∈ s.gone, g.Current
  bounded : ∀ w ∈ s.holder.call, w.offset ≤ w.payload.length
  whole : ∀ r ∈ s.returned, r.result = espOk → r.writing.offset = r.writing.payload.length
  kept : s.written = s.passed

variable {s s' : State} {w : Writing}

/-- The holder goes on, for the same call. -/
theorem Inv.hold (h : Inv s) (holder : Holder) (hcall : holder.call = s.holder.call)
    (hopen : holder.waits = false → s.stage.Open) : Inv { s with holder := holder } where
  fresh := h.fresh
  line := h.line
  opened := hopen
  gone := h.gone
  current := h.current
  bounded := fun w hw => h.bounded w (hcall ▸ hw)
  whole := h.whole
  kept := by
    have hkept := h.kept
    simp only [State.written, State.passed] at hkept ⊢
    rw [hcall, hkept]

/-- The stage keeps its bytes and their owner. -/
theorem Inv.restage (h : Inv s) {stage : Stage} (hpayload : stage.payload = s.stage.payload)
    (hbytes : stage.bytes = s.stage.bytes) (hused : stage.used = s.stage.used) :
    Inv { s with stage := stage } where
  fresh := fun hu => hpayload.trans (h.fresh (hused ▸ hu))
  line := ⟨by rw [hpayload]; exact h.line.fits, by rw [hpayload]; exact h.line.inside⟩
  opened := fun hw =>
    ⟨by rw [hpayload]; exact (h.opened hw).room, by rw [hpayload]; exact (h.opened hw).plain⟩
  gone := h.gone
  current := h.current
  bounded := h.bounded
  whole := h.whole
  kept := by
    have hkept := h.kept
    simp only [State.written, State.passed] at hkept ⊢
    rw [hkept, hbytes]

/-- An empty stage is replaced by another. -/
theorem Inv.renew (h : Inv s) {stage : Stage} (hold : s.stage.payload = [])
    (hnew : stage.payload = []) : Inv { s with stage := stage } where
  fresh := fun _ => hnew
  line := (Stage.open_of_empty hnew).line
  opened := fun _ => Stage.open_of_empty hnew
  gone := h.gone
  current := h.current
  bounded := h.bounded
  whole := h.whole
  kept := by
    have hkept := h.kept
    simp only [State.written, State.passed, Stage.bytes, hold, hnew, List.map_nil] at hkept ⊢
    exact hkept

/-- The stage is gone, and its bytes stay in their place. -/
theorem Inv.discard (h : Inv s) {fate : Fate} (hcurrent : Gone.Current ⟨s.stage, fate⟩) :
    Inv (s.discard fate) where
  fresh := fun _ => rfl
  line := (Stage.open_of_empty rfl).line
  opened := fun _ => Stage.open_of_empty rfl
  gone := fun g hg => by
    rcases List.mem_append.mp hg with hg | hg
    · exact h.gone g hg
    · rw [List.mem_singleton.mp hg]
      exact h.line
  current := fun g hg => by
    rcases List.mem_append.mp hg with hg | hg
    · exact h.current g hg
    · rw [List.mem_singleton.mp hg]
      exact hcurrent
  bounded := h.bounded
  whole := h.whole
  kept := by
    have hkept := h.kept
    simp only [State.written, State.passed] at hkept ⊢
    simp [State.discard, hkept, Stage.bytes]

/-- The call returns, and what it has staged stays in its place. -/
theorem Inv.finish (h : Inv s) (hcall : s.holder.call = some w) (hopen : s.stage.Open)
    {result : EspErr} (hwhole : result = espOk → w.offset = w.payload.length) :
    Inv (s.finish w result) where
  fresh := h.fresh
  line := h.line
  opened := fun _ => hopen
  gone := h.gone
  current := h.current
  bounded := fun w hw => by simp [State.finish, Holder.call] at hw
  whole := fun r hr hok => by
    rcases List.mem_append.mp hr with hr | hr
    · exact h.whole r hr hok
    · rw [List.mem_singleton.mp hr] at hok ⊢
      exact hwhole hok
  kept := by
    have hkept := h.kept
    simp only [State.written, State.passed, hcall] at hkept ⊢
    simpa [State.finish, Holder.call] using hkept

/-- The flush is over. -/
theorem Inv.flushed (h : Inv s) {w : Option Writing} (hcall : s.holder.call = w)
    (hopen : s.stage.Open) (result : EspErr) : Inv (s.flushed w result) := by
  cases w with
  | none => exact h.hold .free hcall.symm fun _ => hopen
  | some w =>
    unfold State.flushed
    dsimp only
    split_ifs with hok
    · exact h.hold (.writing w) hcall.symm fun _ => hopen
    · exact h.finish hcall hopen fun h => absurd h hok

/-! ## Steps -/

theorem statusErr_ne {status : MetadataBind.Status} (h : status ≠ .ok) :
    statusErr status ≠ espOk := by
  cases status with
  | ok => exact absurd rfl h
  | invalidArg | invalidSize | invalidState => decide

theorem stageBegin_ok {target : StreamTarget} {metadata : CString} {nowMs : UInt32} {stage : Stage}
    (h : stageBegin target metadata nowMs = .ok (.ok stage)) :
    stage.used = true ∧ stage.payload = [] := by
  unfold stageBegin at h
  obtain ⟨bind, -, h⟩ := Json.Outcome.bind_eq_ok.mp h
  split_ifs at h with hstatus
  · simp at h
  · split at h
    · injection h with h
      injection h with h
      subst h
      exact ⟨rfl, rfl⟩
    · simp at h

theorem stageBegin_error {target : StreamTarget} {metadata : CString} {nowMs : UInt32} {e : EspErr}
    (h : stageBegin target metadata nowMs = .ok (.error e)) : e ≠ espOk := by
  unfold stageBegin at h
  obtain ⟨bind, -, h⟩ := Json.Outcome.bind_eq_ok.mp h
  split_ifs at h with hstatus
  · injection h with h
    injection h with h
    subst h
    exact statusErr_ne hstatus
  · split at h <;> simp at h

/-- A turn of the loop appends to what is staged, or begins a stage that nothing is in. -/
def State.Appendable (s : State) (stage : Stage) : Prop :=
  stage = s.stage ∨ s.stage.used = false ∧ stage.payload = []

theorem stageFor_ok {nowMs : UInt32} {stage : Stage}
    (hstage : s.stageFor w nowMs = .ok (.ok stage)) : s.Appendable stage ∧ stage.used = true := by
  unfold State.stageFor at hstage
  split_ifs at hstage with hused
  · injection hstage with hstage
    injection hstage with hstage
    subst hstage
    exact ⟨.inl rfl, hused⟩
  · obtain ⟨hnew, hempty⟩ := stageBegin_ok hstage
    exact ⟨.inr ⟨Bool.eq_false_iff.mpr hused, hempty⟩, hnew⟩

theorem stageFor_error {nowMs : UInt32} {e : EspErr}
    (hstage : s.stageFor w nowMs = .ok (.error e)) : s.stage.used = false ∧ e ≠ espOk := by
  unfold State.stageFor at hstage
  split_ifs at hstage with hused
  · simp at hstage
  · exact ⟨Bool.eq_false_iff.mpr hused, stageBegin_error hstage⟩

theorem targetMatches_owner {stage : Stage} {target : StreamTarget} {metadata : CString}
    (h : targetMatches stage target metadata = true) : stage.owner = target.owner := by
  simp only [targetMatches, Bool.and_eq_true, beq_iff_eq] at h
  obtain ⟨⟨⟨⟨⟨hlink, hepoch⟩, hgeneration⟩, htransition⟩, hsession⟩, -⟩ := h
  simp only [Stage.owner, StreamTarget.owner, hlink, hepoch, hgeneration, htransition, hsession]

/-- What a step does that cancels nothing. -/
inductive Move (s : State) : State → Prop
  | same : Move s s
  | start {w : Writing} {holder : Holder} (hholder : s.holder = .free) (hw : w.offset = 0)
      (hcall : holder.call = some w) : Move s { s with holder := holder }
  | restart {w : Writing} (hholder : s.holder = .free) (hw : w.offset = 0) :
      Move s { s.discard .stale with holder := .writing w }
  | hold {holder : Holder} (hcall : holder.call = s.holder.call)
      (hwaits : holder.waits = s.holder.waits) (hnot : ∀ w, holder ≠ .writing w) :
      Move s { s with holder := holder }
  | abandon {w : Writing} {stage : Stage} {e : EspErr} (hholder : s.holder = .writing w)
      (hstage : s.Appendable stage) (he : e ≠ espOk) : Move s ({ s with stage := stage }.finish w e)
  | append {w : Writing} {stage : Stage} {nowMs : UInt32} (hholder : s.holder = .writing w)
      (hmore : w.offset < w.payload.length) (hstage : s.Appendable stage)
      (hused : stage.used = true) (howner : stage.owner = w.target.owner) :
      Move s (s.append w stage nowMs)
  | finish {w : Writing} (hholder : s.holder = .writing w) (hend : ¬ w.offset < w.payload.length) :
      Move s (s.finish w espOk)
  | unused {w : Option Writing} {e : EspErr} (hcall : s.holder.call = w)
      (hused : s.stage.used = false) : Move s (s.flushed w e)
  | dispose {w : Option Writing} {fate : Fate} {e : EspErr} (hcall : s.holder.call = w)
      (hfate : ∀ look epoch, fate = .queued look epoch →
        epoch = s.cancelledEpoch ∧ stageIsCurrent s.stage epoch look = true) :
      Move s ((s.discard fate).flushed w e)
  | keep {stage : Stage} {e : EspErr} (hcall : s.holder.call = none)
      (hwaits : s.holder.waits = false) (hpayload : stage.payload = s.stage.payload)
      (howner : stage.owner = s.stage.owner) (hused : stage.used = s.stage.used) :
      Move s ({ s with stage := stage }.flushed none e)

theorem write_move {target : StreamTarget} {metadata : CString} {payload : List UInt8}
    {look : WriteLook} {r : Reply} (hwrite : s.write target metadata payload look = some (s', r)) :
    Move s s' := by
  unfold State.write at hwrite
  split at hwrite
  · obtain ⟨rfl, -⟩ := Prod.mk.inj (Option.some.inj hwrite)
    exact .same
  · rename_i hholder
    obtain ⟨rfl, -⟩ := Prod.mk.inj (Option.some.inj hwrite)
    unfold State.start
    split_ifs
    · exact .restart hholder rfl
    · exact .start hholder rfl rfl
    · exact .start hholder rfl rfl
  · simp at hwrite

theorem workerFlush_move (nowMs : UInt32) : Move s (s.workerFlush nowMs) := by
  unfold State.workerFlush
  split
  · rename_i hholder
    split_ifs
    · exact .hold (by rw [hholder]; rfl) (by rw [hholder]; rfl) fun _ => Holder.noConfusion
    · exact .same
  · exact .same

theorem turn_move {beginMs nowMs : UInt32} {r : Reply} (hholder : s.holder = .writing w)
    (hturn : s.turn w beginMs nowMs = some (s', r)) : Move s s' := by
  unfold State.turn at hturn
  split_ifs at hturn with hmore
  · split at hturn
    · rename_i e hbegin
      obtain ⟨rfl, -⟩ := Prod.mk.inj (Option.some.inj hturn)
      obtain ⟨hused, herror⟩ := stageFor_error hbegin
      exact .abandon hholder (.inr ⟨hused, rfl⟩) herror
    · rename_i stage hbegin
      obtain ⟨hstage, hused⟩ := stageFor_ok hbegin
      split_ifs at hturn with hmatch
      · obtain ⟨rfl, -⟩ := Prod.mk.inj (Option.some.inj hturn)
        exact .abandon hholder hstage (by decide)
      · obtain ⟨rfl, -⟩ := Prod.mk.inj (Option.some.inj hturn)
        have howner := targetMatches_owner ((Bool.not_eq_false _).mp hmatch)
        exact .append hholder hmore hstage hused howner
    · simp at hturn
  · obtain ⟨rfl, -⟩ := Prod.mk.inj (Option.some.inj hturn)
    exact .finish hholder hmore

theorem enter_move {startedMs : UInt32} {w : Option Writing}
    (hholder : s.holder = .entering startedMs w) (look : Look) :
    Move s (s.enter startedMs w look).1 := by
  have hcall : s.holder.call = w := by rw [hholder]; rfl
  unfold State.enter
  split_ifs with hused hcurrent
  · exact .unused hcall (by simpa using hused)
  · exact .dispose hcall fun _ _ => Fate.noConfusion
  all_goals exact .hold hcall.symm (by rw [hholder]; rfl) fun _ => Holder.noConfusion

theorem round_move {startedMs : UInt32} {w : Option Writing}
    (hholder : s.holder = .flushing startedMs w) (look : Look) (nowMs : UInt32) (result : EspErr)
    (laterMs : UInt32) : Move s (s.round startedMs w look nowMs result laterMs).1 := by
  have hcall : s.holder.call = w := by rw [hholder]; rfl
  have hover (fate : Fate) (e : EspErr) (hfate : ∀ look epoch, fate ≠ .queued look epoch) :
      Move s ((s.discard fate).flushed w e) :=
    .dispose hcall fun look epoch hf => absurd hf (hfate look epoch)
  have hkeep (hw : w.isNone) (stage : Stage) (e : EspErr)
      (hpayload : stage.payload = s.stage.payload) (howner : stage.owner = s.stage.owner)
      (hused : stage.used = s.stage.used) :
      Move s ({ s with stage := stage }.flushed w e) := by
    obtain rfl := Option.isNone_iff_eq_none.mp hw
    exact .keep hcall (by rw [hholder]; rfl) hpayload howner hused
  unfold State.round
  split_ifs with hcurrent hused hlate hok hrefused hworker hretry hrejected hend
  · exact hover _ _ fun _ _ => Fate.noConfusion
  · exact .unused hcall (Bool.eq_false_iff.mpr hused)
  · exact hover _ _ fun _ _ => Fate.noConfusion
  · refine .dispose hcall fun look' epoch hf => ?_
    obtain ⟨rfl, rfl⟩ := Fate.queued.inj hf
    exact ⟨rfl, by simpa using hcurrent⟩
  · exact hover _ _ fun _ _ => Fate.noConfusion
  · exact hkeep hworker _ _ rfl rfl rfl
  · exact hover _ _ fun _ _ => Fate.noConfusion
  · exact hkeep hworker _ _ rfl rfl rfl
  · exact hover _ _ fun _ _ => Fate.noConfusion
  · exact .same

/-- Every step is a cancellation or a move. -/
theorem next_cases {l : Step} {r : Reply} (hnext : s.next l = some (s', r)) :
    (∃ vmEpoch, l = .cancelVmEpoch vmEpoch ∧ s' = s.cancelVmEpoch vmEpoch) ∨ Move s s' := by
  cases l with
  | cancelVmEpoch vmEpoch =>
    obtain ⟨rfl, -⟩ := Prod.mk.inj (Option.some.inj hnext)
    exact .inl ⟨vmEpoch, rfl, rfl⟩
  | write target metadata payload look => exact .inr (write_move hnext)
  | workerFlush nowMs =>
    obtain ⟨rfl, -⟩ := Prod.mk.inj (Option.some.inj hnext)
    exact .inr (workerFlush_move nowMs)
  | turn beginMs nowMs =>
    simp only [State.next] at hnext
    split at hnext
    · rename_i w hholder
      exact .inr (turn_move hholder hnext)
    · simp at hnext
  | enter look =>
    simp only [State.next] at hnext
    split at hnext
    · rename_i startedMs w hholder
      obtain rfl : (s.enter startedMs w look).1 = s' := congrArg Prod.fst (Option.some.inj hnext)
      exact .inr (enter_move hholder look)
    · simp at hnext
  | round look nowMs result laterMs =>
    simp only [State.next] at hnext
    split at hnext
    · rename_i startedMs w hholder
      obtain rfl : (s.round startedMs w look nowMs result laterMs).1 = s' :=
        congrArg Prod.fst (Option.some.inj hnext)
      exact .inr (round_move hholder look nowMs result laterMs)
    · simp at hnext

/-! ## What every step keeps -/

theorem Inv.staged (h : Inv s) {stage : Stage} (hstage : s.Appendable stage) :
    Inv { s with stage := stage } := by
  rcases hstage with rfl | ⟨hused, hempty⟩
  · exact h
  · exact h.renew (h.fresh hused) hempty

/-- The appended bytes are the next ones of the call, and they get its owner. -/
theorem Inv.append {stage : Stage} {nowMs : UInt32} (h : Inv { s with stage := stage })
    (hholder : s.holder = .writing w) (hused : stage.used = true)
    (howner : stage.owner = w.target.owner) : Inv (s.append w stage nowMs) := by
  have hwriting : ({ s with stage := stage } : State).holder = .writing w := hholder
  have hopen : stage.Open := h.opened (by rw [hwriting]; rfl)
  have hpayload : (s.append w stage nowMs).stage.payload = stage.payload ++
      (w.payload.drop w.offset).take
        (copyLen (w.payload.drop w.offset) (replStageBytes - stage.payload.length)) := rfl
  obtain ⟨hline, hplain⟩ := hopen.append hpayload
  have hcall : (s.append w stage nowMs).holder.call = some { w with
      offset := w.offset + copyLen (w.payload.drop w.offset)
        (replStageBytes - stage.payload.length) } := by
    simp only [State.append]
    split <;> rfl
  have hbounded := h.bounded w (by rw [hwriting]; rfl)
  have hpiece := (copyLen_le (w.payload.drop w.offset)
    (replStageBytes - stage.payload.length)).1
  rw [List.length_drop] at hpiece
  refine ⟨fun hu => ?_, hline, fun hw => hplain ?_, h.gone, h.current, fun w' hw' => ?_,
    h.whole, ?_⟩
  · exact absurd (hused.symm.trans hu) (by decide)
  · simp only [State.append] at hw ⊢
    split_ifs at hw with hflush
    · simp [Holder.waits] at hw
    · exact Bool.eq_false_iff.mpr hflush
  · rw [hcall] at hw'
    obtain rfl := Option.some.inj hw'
    dsimp only
    omega
  · have hkept := h.kept
    simp only [State.written, State.passed, hholder, Holder.call, Option.toList_some,
      List.flatMap_cons, List.flatMap_nil, List.append_nil] at hkept
    simp only [State.written, State.passed, hcall, Option.toList_some, List.flatMap_cons,
      List.flatMap_nil, List.append_nil]
    have hstaged : (s.append w stage nowMs).stage.bytes = stage.bytes ++
        ((w.payload.drop w.offset).take (copyLen (w.payload.drop w.offset)
          (replStageBytes - stage.payload.length))).map (stage.owner, ·) := by
      simp [Stage.bytes, State.append, Stage.owner]
    rw [hstaged, Writing.bytes, List.take_add, List.map_append, howner]
    rw [Writing.bytes] at hkept
    exact (List.append_assoc _ _ _).symm.trans ((congrArg (· ++ _) hkept).trans
      (List.append_assoc _ _ _))

/-- A call that has the mutex has staged nothing yet. -/
theorem Inv.begin (h : Inv s) (hholder : s.holder = .free) (hw : w.offset = 0) {holder : Holder}
    (hcall : holder.call = some w) : Inv { s with holder := holder } where
  fresh := h.fresh
  line := h.line
  opened := fun _ => h.opened (by rw [hholder]; rfl)
  gone := h.gone
  current := h.current
  bounded := fun w' hw' => by
    obtain rfl := Option.some.inj (hcall.symm.trans hw')
    rw [hw]
    exact Nat.zero_le _
  whole := h.whole
  kept := by
    have hkept := h.kept
    simp only [State.written, State.passed, hholder, hcall] at hkept ⊢
    simpa [Holder.call, Writing.bytes, hw] using hkept

theorem inv_move (h : Inv s) (hmove : Move s s') : Inv s' := by
  cases hmove with
  | same => exact h
  | start hholder hw hcall => exact h.begin hholder hw hcall
  | restart hholder hw =>
    have hdiscard : Inv (s.discard .stale) := h.discard fun _ _ => Fate.noConfusion
    exact hdiscard.begin hholder hw rfl
  | hold hcall hwaits _ => exact h.hold _ hcall fun hw => h.opened (hwaits ▸ hw)
  | @abandon w stage e hholder hstage he =>
    have hcall : s.holder.call = some w := by rw [hholder]; rfl
    have hopen := (h.staged hstage).opened (by dsimp only; rw [hholder]; rfl)
    exact (h.staged hstage).finish hcall hopen fun hok => absurd hok he
  | append hholder _ hstage hused howner => exact (h.staged hstage).append hholder hused howner
  | @finish w hholder hend =>
    have hcall : s.holder.call = some w := by rw [hholder]; rfl
    have hbounded := h.bounded w hcall
    exact h.finish hcall (h.opened (by rw [hholder]; rfl)) fun _ => by omega
  | unused hcall hused => exact h.flushed hcall (Stage.open_of_empty (h.fresh hused)) _
  | dispose hcall hfate =>
    have hdiscard := h.discard fun look epoch hf => (hfate look epoch hf).2
    exact hdiscard.flushed hcall (Stage.open_of_empty rfl) _
  | @keep stage e hcall hwaits hpayload howner hused =>
    have hkept : Inv { s with stage := stage } :=
      h.restage hpayload (by simp only [Stage.bytes, hpayload, howner]) hused
    exact hkept.flushed hcall (hkept.opened hwaits) _

theorem cancelVmEpoch_cases (s : State) (vmEpoch : UInt32) :
    vmEpoch = 0 ∧ s.cancelVmEpoch vmEpoch = s ∨
      s.cancelVmEpoch vmEpoch = { s with cancelledEpoch := vmEpoch } ∨
      s.cancelVmEpoch vmEpoch = { s with cancelledEpoch := vmEpoch }.discard .stale := by
  unfold State.cancelVmEpoch
  split_ifs with hzero
  · exact .inl ⟨hzero, rfl⟩
  · dsimp only
    split
    · split_ifs
      · exact .inr (.inr rfl)
      · exact .inr (.inl rfl)
    · exact .inr (.inl rfl)

theorem inv_cancelVmEpoch (h : Inv s) (vmEpoch : UInt32) : Inv (s.cancelVmEpoch vmEpoch) := by
  have hepoch : Inv { s with cancelledEpoch := vmEpoch } :=
    ⟨h.fresh, h.line, h.opened, h.gone, h.current, h.bounded, h.whole, h.kept⟩
  rcases cancelVmEpoch_cases s vmEpoch with ⟨-, hs⟩ | hs | hs
  · rw [hs]
    exact h
  · rw [hs]
    exact hepoch
  · rw [hs]
    exact hepoch.discard fun _ _ => Fate.noConfusion

theorem inv_next (h : Inv s) {l : Step} {r : Reply} (hnext : s.next l = some (s', r)) : Inv s' := by
  rcases next_cases hnext with ⟨vmEpoch, rfl, rfl⟩ | hmove
  · exact inv_cancelVmEpoch h vmEpoch
  · exact inv_move h hmove

theorem inv_init : Inv {} where
  fresh := fun _ => rfl
  line := (Stage.open_of_empty rfl).line
  opened := fun _ => Stage.open_of_empty rfl
  gone := by simp
  current := by simp
  bounded := by simp [Holder.call]
  whole := by simp
  kept := rfl

theorem inv_of_reaches {h : List (Step × Reply)} (hr : Reaches replOutput h s) : Inv s := by
  refine hr.stateInvariant (I := Inv) (fun s hs => ?_) fun s l t hi hstep => inv_next hi hstep
  obtain rfl : s = {} := hs
  exact inv_init

/-! ## Runs -/

/-- Nothing is lost, doubled or given to another owner between the writes and the stages, every
stage is a line or a part of one, and a write that succeeds has staged all of its bytes. -/
theorem output_conserved {h : List (Step × Reply)} (hr : Reaches replOutput h s) :
    s.written = s.passed ∧ s.stage.Line ∧ (∀ g ∈ s.gone, g.stage.Line) ∧
      ∀ r ∈ s.returned, r.result = espOk →
        r.writing.bytes = r.writing.payload.map (r.writing.target.owner, ·) := by
  have hi := inv_of_reaches hr
  refine ⟨hi.kept, hi.line, hi.gone, fun r hr' hok => ?_⟩
  rw [Writing.bytes, hi.whole r hr' hok, List.take_length]

theorem stageIsCurrent_epoch {stage : Stage} {epoch : UInt32} {look : Look}
    (h : stageIsCurrent stage epoch look = true) (hepoch : epoch ≠ 0) : stage.vmEpoch ≠ epoch := by
  unfold stageIsCurrent at h
  split_ifs at h with hlink hsession hcancelled
  · exact fun heq => hepoch (heq.symm.trans (by simpa using h))
  all_goals exact fun heq => hcancelled ⟨heq ▸ hepoch, heq.symm⟩

/-- A step cancels nothing, and what it queues it queues under the last cancellation. -/
structure Grows (s s' : State) : Prop where
  epoch : s'.cancelledEpoch = s.cancelledEpoch
  gone : ∃ more, s'.gone = s.gone ++ more ∧
    ∀ g ∈ more, ∀ look epoch, g.fate = .queued look epoch → epoch = s.cancelledEpoch

theorem Grows.same (hepoch : s'.cancelledEpoch = s.cancelledEpoch) (hgone : s'.gone = s.gone) :
    Grows s s' :=
  ⟨hepoch, [], by simp [hgone], by simp⟩

theorem Grows.one {g : Gone} (hepoch : s'.cancelledEpoch = s.cancelledEpoch)
    (hgone : s'.gone = s.gone ++ [g])
    (hfate : ∀ look epoch, g.fate = .queued look epoch → epoch = s.cancelledEpoch) : Grows s s' :=
  ⟨hepoch, [g], hgone, fun g' hg' => by rw [List.mem_singleton.mp hg']; exact hfate⟩

theorem Grows.trans {t : State} (h : Grows s s') (h' : Grows s' t) : Grows s t := by
  obtain ⟨more, hmore, hold⟩ := h.gone
  obtain ⟨rest, hrest, hnew⟩ := h'.gone
  refine ⟨h'.epoch.trans h.epoch, more ++ rest, by rw [hrest, hmore, List.append_assoc], ?_⟩
  intro g hg look epoch hf
  rcases List.mem_append.mp hg with hg | hg
  · exact hold g hg look epoch hf
  · exact (hnew g hg look epoch hf).trans h.epoch

@[simp] theorem flushed_gone (w : Option Writing) (e : EspErr) : (s.flushed w e).gone = s.gone := by
  unfold State.flushed
  split
  · rfl
  · split_ifs <;> rfl

@[simp] theorem flushed_cancelledEpoch (w : Option Writing) (e : EspErr) :
    (s.flushed w e).cancelledEpoch = s.cancelledEpoch := by
  unfold State.flushed
  split
  · rfl
  · split_ifs <;> rfl

@[simp] theorem flushed_stage (w : Option Writing) (e : EspErr) :
    (s.flushed w e).stage = s.stage := by
  unfold State.flushed
  split
  · rfl
  · split_ifs <;> rfl

theorem grows_move (hmove : Move s s') : Grows s s' := by
  cases hmove with
  | restart => exact .one rfl rfl fun _ _ => Fate.noConfusion
  | dispose _ hfate =>
    exact .one (flushed_cancelledEpoch _ _) (flushed_gone _ _)
      fun look epoch hf => (hfate look epoch hf).1
  | unused => exact .same (flushed_cancelledEpoch _ _) (flushed_gone _ _)
  | same | start | hold | abandon | append | finish | keep => exact .same rfl rfl

theorem grows_path {h : List (Step × Reply)} (hp : Path replOutput s h s')
    (hh : ∀ l ∈ h, ∀ epoch, l.1 ≠ .cancelVmEpoch epoch) : Grows s s' := by
  induction hp with
  | nil s => exact .same rfl rfl
  | cons hstep _ ih =>
    have hrest := ih fun l hl => hh l (List.mem_cons_of_mem _ hl)
    rcases next_cases hstep with ⟨vmEpoch, hl, -⟩ | hmove
    · exact absurd hl (hh _ List.mem_cons_self vmEpoch)
    · exact (grows_move hmove).trans hrest

/-- What the call has staged ends with a line end. -/
def Writing.EndsLine (w : Writing) : Prop := (w.payload.take w.offset).getLast? = some newline

/-- A call that goes on after a line end finds the stage empty. -/
def Ended (s : State) : Prop := ∀ w, s.holder = .writing w → w.EndsLine → s.stage.payload = []

theorem ended_of_empty (h : s.stage.payload = []) : Ended s := fun _ _ _ => h

theorem ended_of_holder (h : ∀ w, s.holder ≠ .writing w) : Ended s := fun w hw => absurd hw (h w)

theorem copyLen_pos {rest : List UInt8} {available : ℕ} (hrest : 0 < rest.length)
    (h : 0 < available) : 0 < copyLen rest available := by
  unfold copyLen
  dsimp only
  split
  · exact Nat.succ_pos _
  · exact lt_min hrest h

theorem ended_append {stage : Stage} {nowMs : UInt32} (hopen : stage.Open)
    (hmore : w.offset < w.payload.length) : Ended (s.append w stage nowMs) := by
  intro w' hw' hends
  simp only [State.append] at hw'
  split_ifs at hw' with hflush
  obtain rfl := Holder.writing.inj hw'
  have hroom : 0 < replStageBytes - stage.payload.length := Nat.sub_pos_of_lt hopen.room
  have hrest : 0 < (w.payload.drop w.offset).length := by
    rw [List.length_drop]
    omega
  have hpos := copyLen_pos hrest hroom
  have hne : (w.payload.drop w.offset).take
      (copyLen (w.payload.drop w.offset) (replStageBytes - stage.payload.length)) ≠ [] := by
    refine List.ne_nil_of_length_pos ?_
    rw [List.length_take]
    exact lt_min hpos hrest
  rw [Writing.EndsLine, List.take_add, List.getLast?_append_of_ne_nil _ hne] at hends
  exact absurd (by simp [shouldFlush, List.getLast?_append_of_ne_nil _ hne, hends]) hflush

theorem ended_move (hi : Inv s) (he : Ended s) (hmove : Move s s') : Ended s' := by
  cases hmove with
  | same => exact he
  | @start _ holder _ hw hcall =>
    intro w' hw' hends
    obtain rfl : holder = .writing w' := hw'
    obtain rfl := Option.some.inj hcall
    simp [Writing.EndsLine, hw] at hends
  | restart => exact ended_of_empty rfl
  | hold _ _ hnot => exact ended_of_holder hnot
  | abandon => exact ended_of_holder fun _ => Holder.noConfusion
  | append hholder hmore hstage _ _ =>
    exact ended_append ((hi.staged hstage).opened (by dsimp only; rw [hholder]; rfl)) hmore
  | finish => exact ended_of_holder fun _ => Holder.noConfusion
  | unused _ hused => exact ended_of_empty (by rw [flushed_stage]; exact hi.fresh hused)
  | dispose => exact ended_of_empty (by rw [flushed_stage]; rfl)
  | keep => exact ended_of_holder fun _ => Holder.noConfusion

theorem ended_next (hi : Inv s) (he : Ended s) {l : Step} {r : Reply}
    (hnext : s.next l = some (s', r)) : Ended s' := by
  rcases next_cases hnext with ⟨vmEpoch, rfl, rfl⟩ | hmove
  · rcases cancelVmEpoch_cases s vmEpoch with ⟨-, hs⟩ | hs | hs
    · rw [hs]
      exact he
    · rw [hs]
      exact he
    · rw [hs]
      exact ended_of_empty rfl
  · exact ended_move hi he hmove

/-- When a write whose payload ends a line is about to succeed, nothing is left in the stage: all
that was ever written has been handed over or given up. -/
theorem line_not_kept {h : List (Step × Reply)} (hr : Reaches replOutput h s)
    (hholder : s.holder = .writing w) (hend : w.offset = w.payload.length)
    (hline : w.payload.getLast? = some newline) :
    s.written = s.gone.flatMap (·.stage.bytes) := by
  have hboth : Inv s ∧ Ended s := by
    refine hr.stateInvariant (I := fun s => Inv s ∧ Ended s) (fun s hs => ?_)
      fun s l t hi hstep => ⟨inv_next hi.1 hstep, ended_next hi.1 hi.2 hstep⟩
    obtain rfl : s = {} := hs
    exact ⟨inv_init, ended_of_empty rfl⟩
  have hempty := hboth.2 w hholder (by rw [Writing.EndsLine, hend, List.take_length]; exact hline)
  rw [hboth.1.kept, State.passed, Stage.bytes, hempty]
  exact List.append_nil _

/-! ### A small run -/

def State.follow (s : State) (l : Step × Reply) : Option State :=
  (s.next l.1).bind fun p => if p.2 = l.2 then some p.1 else none

theorem State.follow_step (s : State) (l : Step × Reply) (t : State) (h : s.follow l = some t) :
    replOutput.step s l t := by
  obtain ⟨p, hp, h⟩ := Option.bind_eq_some_iff.mp h
  split_ifs at h with hl
  obtain rfl := Option.some.inj h
  exact hp.trans (by rw [← hl])

/-- The state behind the steps. -/
def State.behind (s : State) (h : List (Step × Reply)) : State := (h.foldlM State.follow s).getD s

theorem State.behind_path {h : List (Step × Reply)} (hc : (h.foldlM State.follow s).isSome = true) :
    Path replOutput s h (s.behind h) := by
  obtain ⟨t, ht⟩ := Option.isSome_iff_exists.mp hc
  rw [State.behind, ht]
  exact .of_foldlM State.follow_step ht

def ranTo (h : List (Step × Reply)) : State := State.behind {} h

theorem ranTo_reaches {h : List (Step × Reply)} (hc : (h.foldlM State.follow {}).isSome = true) :
    Reaches replOutput h (ranTo h) := by
  have hinit : replOutput.init {} := rfl
  exact (Reaches.init hinit).append (State.behind_path hc)

theorem zero_digits : ∀ b ∈ List.replicate 32 (0x30 : UInt8), b ≠ 0 := by
  intro b hb
  rw [List.eq_of_mem_replicate hb]
  simp

/-- The session id is 32 zeros. -/
def exampleId : CString := ⟨List.replicate 32 0x30, zero_digits⟩

/-- `{"channel":"r","type":"e","seq":0}`. -/
def exampleText : List UInt8 :=
  [0x7b, 0x22] ++ channelKey ++ [0x22, 0x3a, 0x22, 0x72, 0x22, 0x2c, 0x22] ++ typeKey ++
    [0x22, 0x3a, 0x22, 0x65, 0x22, 0x2c, 0x22] ++ seqKey ++ [0x22, 0x3a, 0x30, 0x7d]

theorem exampleText_noNul : ∀ b ∈ exampleText, b ≠ 0 := by
  have hall : (exampleText.all fun b => b != 0) = true := by decide +kernel
  intro b hb
  simpa using List.all_eq_true.mp hall b hb

def exampleMetadata : CString := ⟨exampleText, exampleText_noNul⟩

def exampleTarget : StreamTarget where
  link := MuxTx.usbLink
  options := ⟨some exampleId, 5⟩
  origin := ⟨MuxTx.usbLink, exampleId.bytes, 5, 3, 2⟩

/-- The session belongs to the target. -/
def exampleSnapshot : Snapshot where
  phase := .owned
  hasOwner := true
  ownerLink := MuxTx.usbLink
  sessionId := exampleId.bytes
  clientNonce := []
  leaseRemainingMs := 0
  vmEpoch := 5
  inputGeneration := 3
  transitionId := 2
  handshakeComplete := true
  vmReady := true
  userRoute := .usb
  debugRoute := .usb
  userRouteSlot := 0
  debugRouteSlot := 0

def exampleLook : Look := ⟨true, some exampleSnapshot⟩

/-- A line and the start of the next one; the line is queued at the second try. -/
def lineAndRest : List (Step × Reply) :=
  [(.write exampleTarget exampleMetadata [0x61, newline, 0x62]
      { origin := some exampleSnapshot }, {}), (.turn 1 1, {}), (.enter exampleLook, {}),
    (.round exampleLook 2 MuxTx.espErrTimeout 2, {}), (.round exampleLook 3 espOk 3, {}),
    (.turn 4 4, {}), (.turn 5 5, { result := some espOk })]

theorem output_conserved_lineAndRest :
    (ranTo lineAndRest).passed.map Prod.snd = [0x61, newline, 0x62] ∧
      (ranTo lineAndRest).written = (ranTo lineAndRest).passed :=
  ⟨by decide +kernel, (output_conserved (ranTo_reaches (by decide +kernel))).1⟩

/-- The line that is queued. -/
def firstLine : Gone := ⟨(ranTo (lineAndRest.take 3)).stage, .queued exampleLook 0⟩

/-- One line is written and queued. -/
def wholeLine : List (Step × Reply) :=
  [(.write exampleTarget exampleMetadata [0x61, newline] { origin := some exampleSnapshot }, {}),
    (.turn 1 1, {}), (.enter exampleLook, {}), (.round exampleLook 2 espOk 2, {})]

theorem line_not_kept_wholeLine :
    (ranTo wholeLine).gone.map (·.stage.payload) = [[0x61, newline]] ∧
      (ranTo wholeLine).written = (ranTo wholeLine).gone.flatMap (·.stage.bytes) :=
  ⟨by decide +kernel, line_not_kept (h := wholeLine) (ranTo_reaches (by decide +kernel))
    (w := ⟨exampleTarget, exampleMetadata, [0x61, newline], 2, 0⟩) (by decide +kernel) rfl rfl⟩

/-- The epoch is cancelled while a line is staged, and the next write for it is staged too. -/
def writtenAgain : List (Step × Reply) :=
  [(.write exampleTarget exampleMetadata [newline] { origin := some exampleSnapshot }, {}),
    (.turn 6 6, {}), (.enter exampleLook, { result := some espErrInvalidState })]

end EspVision.ReplStage
