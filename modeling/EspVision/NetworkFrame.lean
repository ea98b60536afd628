import EspVision.NetworkWorker

/-!
# What connecting leaves alone (`network_service.c`)

The functions of the worker that talk to the driver never touch the operation slot, the record, or
what the storage holds.
-/
namespace EspVision.NetworkService

open TaskProgram

/-- The operation slot, the gate of Python, the record in memory and in the storage, and what is
recorded of them. -/
structure Core where
  hasOperation : Bool
  activeRequest : NetworkRequest
  operation : Operation
  hasLastOperation : Bool
  lastRequest : NetworkRequest
  lastOperation : Operation
  replyReleased : Bool
  replyDeadline : ℕ
  pythonMutationActive : Bool
  started : Bool
  persisted : Record
  stored : Stored
  log : List Entry
  before : Record × Stored
  verdict : Verdict

def Service.core (s : Service) : Core where
  hasOperation := s.hasOperation
  activeRequest := s.activeRequest
  operation := s.operation
  hasLastOperation := s.hasLastOperation
  lastRequest := s.lastRequest
  lastOperation := s.lastOperation
  replyReleased := s.replyReleased
  replyDeadline := s.replyDeadline
  pythonMutationActive := s.pythonMutationActive
  started := s.started
  persisted := s.persisted
  stored := s.stored
  log := s.trace.log
  before := s.trace.before
  verdict := s.trace.verdict

/-- The core stays as it is. -/
def Framed (s t : Service) : Prop := t.core = s.core

lemma handleEvent_core (s : Service) (p : Posted) : (s.handleEvent p).core = s.core := by
  obtain ⟨event, association⟩ := p
  unfold Service.handleEvent
  cases event with
  | staDisconnected reason jitter =>
    dsimp only
    split_ifs <;> rfl
  | _ => rfl

lemma handleEvent_clock (s : Service) (p : Posted) : (s.handleEvent p).clock = s.clock := by
  obtain ⟨event, association⟩ := p
  unfold Service.handleEvent
  cases event with
  | staDisconnected reason jitter =>
    dsimp only
    split_ifs <;> rfl
  | _ => rfl

lemma python_clock {s t : Service} {call : PythonCall} (h : s.python call = some t) :
    t.clock = s.clock := by
  unfold Service.python at h
  cases call with
  | setConnectRequested requested =>
    dsimp only at h
    split_ifs at h <;> obtain rfl := Option.some.inj h <;> rfl
  | setStaActive active =>
    dsimp only at h
    split_ifs at h <;> obtain rfl := Option.some.inj h <;> rfl
  | mutationBegin =>
    dsimp only at h
    split_ifs at h <;> obtain rfl := Option.some.inj h <;> rfl
  | _ =>
    dsimp only at h
    split_ifs at h
    obtain rfl := Option.some.inj h
    rfl

/-- The profile stays as well, and a failed driver call is not forgotten. -/
structure Modest (s t : Service) : Prop where
  framed : Framed s t
  profile : t.profile = s.profile
  driverOk : t.trace.driverOk = true → s.trace.driverOk = true

lemma Modest.refl (s : Service) : Modest s s := ⟨rfl, rfl, id⟩

lemma framed_of_modest {α : Type} {p : Task α} (hp : Every Modest p) : Every Framed p :=
  hp.mono fun _ _ h => h.framed

lemma driverFailed_modest (s : Service) : Modest s s.driverFailed :=
  ⟨rfl, rfl, fun h => (by cases h)⟩

lemma driverCall_modest {tolerated : List Err} {f : Service → Service} {trying : Bool}
    (hf : ∀ s, Modest s (f s)) : Every Modest (driverCall tolerated f trying) := by
  refine .atomic fun o s => ?_
  split_ifs
  · exact hf s
  · exact .refl s
  · exact driverFailed_modest s

lemma wifiGetMode_modest : Every Modest wifiGetMode := by
  refine .atomic fun o s => ?_
  split_ifs
  · exact .refl s
  · exact .refl s
  · exact driverFailed_modest s

lemma wifiSetMode_modest (m : Mode) : Every Modest (wifiSetMode m) := driverCall_modest .refl

lemma wifiConnect_modest (trying : Bool) : Every Modest (wifiConnect trying) :=
  driverCall_modest fun _ => ⟨rfl, rfl, id⟩

lemma ensureStaMode_modest : Every Modest ensureStaMode := by
  refine .bind wifiGetMode_modest fun ⟨err, mode⟩ => ?_
  dsimp only
  split_ifs
  · exact .pure _
  · exact .bind (.pure _) fun set => .onlyIf (driverCall_modest .refl)
  · exact .bind (wifiSetMode_modest _) fun set => .onlyIf (driverCall_modest .refl)

lemma look_modest (s : Service) (interrupt : Bool) : Modest s (s.look interrupt).2 := by
  unfold Service.look
  split_ifs
  all_goals exact ⟨rfl, rfl, id⟩

lemma early_modest (s : Service) (deadline : ℕ) : Modest s (s.early deadline).2 := by
  unfold Service.early
  split_ifs
  all_goals exact ⟨rfl, rfl, id⟩

lemma waitForIp_modest (timeoutMs : ℕ) (interrupt trying : Bool) :
    Every Modest (waitForIp timeoutMs interrupt trying) := by
  refine .bind (.atomic fun o s => .refl s) fun deadline => .repeatUntil (.bind (.atomic fun o s =>
    early_modest s deadline) fun early => ?_)
  split_ifs
  · exact .atomic fun o s => look_modest s interrupt
  · exact .pure _

lemma scheduleRetry_modest : Every Modest scheduleRetry := by
  refine .atomic fun o s => ?_
  dsimp only
  split_ifs
  all_goals exact ⟨rfl, rfl, id⟩

lemma disconnectSta_modest : Every Modest disconnectSta :=
  .bind (.update fun _ => ⟨rfl, rfl, id⟩) fun _ => driverCall_modest .refl

/-- What `connect_record` does once the driver has the profile. -/
lemma connect_modest (r : Record) (timeoutMs : ℕ) (interrupt trying : Bool) : Every Modest (do
    update { driving := true } fun s => s.publishAttempt r trying
    let connecting ← wifiConnect trying
    if !connecting then do
      update {} fun s => { s with connectInProgress := false }
      pure .driverError
    else do
      let connected ← waitForIp timeoutMs interrupt trying
      if connected then pure .none
      else atomic { trying := trying } fun _ s => (s.classifyConnectFailure, s) : Task Error) := by
  refine .bind (.update fun s => ⟨rfl, rfl, id⟩) fun _ =>
    .bind (wifiConnect_modest _) fun connecting => ?_
  split_ifs
  · exact .bind (.update fun s => ⟨rfl, rfl, id⟩) fun _ => .pure _
  refine .bind (waitForIp_modest _ _ _) fun connected => ?_
  split_ifs
  · exact .pure _
  · exact .atomic fun o s => .refl s

/-! ## The core -/

lemma wifiGetConfig_framed : Every Framed wifiGetConfig := by
  refine .atomic fun o s => ?_
  split_ifs <;> rfl

lemma wifiSetConfig_framed (p : Profile) : Every Framed (wifiSetConfig p) := by
  refine .atomic fun o s => ?_
  split_ifs <;> rfl

lemma connectRecord_framed (r : Record) (timeoutMs : ℕ) (interrupt trying : Bool) :
    Every Framed (connectRecord r timeoutMs interrupt trying) := by
  refine .bind (framed_of_modest ensureStaMode_modest) fun ready => ?_
  split_ifs
  · exact .pure _
  refine .bind (wifiSetConfig_framed _) fun set => ?_
  split_ifs
  · exact .pure _
  · exact framed_of_modest (connect_modest r timeoutMs interrupt trying)

lemma tryReconnect_framed : Every Framed tryReconnect := by
  refine .bind (.atomic fun o s => ?_) fun attempt => ?_
  · split_ifs <;> rfl
  split_ifs
  · exact .pure _
  refine .bind (framed_of_modest ensureStaMode_modest) fun ready =>
    .bind (.onlyIf (.bind (.update fun s => rfl) fun _ =>
      framed_of_modest (wifiConnect_modest _))) fun connecting => ?_
  split_ifs
  · exact framed_of_modest scheduleRetry_modest
  refine .bind (.atomic fun o s => rfl) fun connected => ?_
  split_ifs
  · exact .pure _
  · exact framed_of_modest scheduleRetry_modest

lemma clearStaCredentials_framed : Every Framed clearStaCredentials :=
  .bind (framed_of_modest ensureStaMode_modest) fun _ => .onlyIf (wifiSetConfig_framed _)

lemma stopStaInterface_framed : Every Framed stopStaInterface := by
  refine .bind (framed_of_modest wifiGetMode_modest) fun ⟨err, mode⟩ => ?_
  dsimp only
  split_ifs
  · exact .pure _
  · exact .pure _
  · exact .pure _
  · exact framed_of_modest (wifiSetMode_modest _)
  · exact .bind (framed_of_modest (driverCall_modest .refl)) fun stopped =>
      .onlyIf (framed_of_modest (wifiSetMode_modest _))

lemma rollbackRuntime_framed (previous : Record) : Every Framed (rollbackRuntime previous) := by
  refine .bind (.update fun s => rfl) fun _ => ?_
  split_ifs
  · exact .bind (framed_of_modest disconnectSta_modest) fun _ =>
      .bind clearStaCredentials_framed fun _ => .update fun s => rfl
  · refine .bind (connectRecord_framed _ _ _ _) fun failure => ?_
    split_ifs
    · exact .pure _
    · exact framed_of_modest scheduleRetry_modest
  · exact .bind (framed_of_modest ensureStaMode_modest) fun ready =>
      .bind (.onlyIf (wifiSetConfig_framed _)) fun _ =>
      .bind (framed_of_modest disconnectSta_modest) fun _ => .update fun s => rfl

lemma restoreProfile_framed (r : Record) : Every Framed (restoreProfile r) := by
  refine .bind (framed_of_modest ensureStaMode_modest) fun ready => ?_
  split_ifs
  · exact .pure _
  refine .bind wifiGetConfig_framed fun current => ?_
  cases current with
  | none => exact .pure _
  | some p =>
    dsimp only
    split_ifs
    · exact .pure _
    exact .bind (framed_of_modest disconnectSta_modest) fun disconnected =>
      .onlyIf (wifiSetConfig_framed _)

lemma disableSta_framed : Every Framed disableSta := by
  refine .bind (framed_of_modest disconnectSta_modest) fun disconnected => ?_
  split_ifs
  · exact .pure _
  · exact .bind (.update fun s => rfl) fun _ => .pure _

lemma enabled_core (s : Service) (r : Record) (enable driverOk : Bool) :
    (s.enabled r enable driverOk).core = s.core := by
  unfold Service.enabled
  dsimp only
  split_ifs <;> rfl

lemma connectInitially_framed : Every Framed connectInitially := by
  refine .bind (.atomic fun o s => ?_) fun initial => ?_
  · split_ifs <;> rfl
  · cases initial with
    | none => exact .pure _
    | some r =>
      refine .bind (connectRecord_framed _ _ _ _) fun failure => ?_
      split_ifs
      · exact .pure _
      · exact framed_of_modest scheduleRetry_modest

end EspVision.NetworkService
