import EspVision.EventLog
import EspVision.NodeRomPort

/-!
# The port that is handed over is the selected device

What a call may find in the log before it is a predicate on logs, and the calls that matter are
counted. The functions are then followed call by call with assertions that all other calls keep.
That the waiting loops end is a matter of the clock alone and is shown on its own.
-/
namespace EspVision.NodeRomPort
open Dialogue EventLog
open Firmware (Js)

/-! ## What the log shows -/

/-- A device object was created. -/
def isCreated : Event Call.Value Thrown → Bool
  | ⟨.createDevice, .ok device⟩ => device
  | _ => false

def Call.isControl : Call → Bool
  | .control _ => true
  | _ => false

def Call.isDisconnect : Call → Bool
  | .disconnect => true
  | _ => false

/-- The call neither creates nor disconnects the device and submits no command. -/
def Call.isPassive : Call → Bool
  | .createDevice => false
  | .disconnect => false
  | .control _ => false
  | _ => true

def creates (log : Log) : ℕ := log.countP isCreated

def disconnects (log : Log) : ℕ := log.countP fun e => e.call.isDisconnect

/-- How often the bootloader command was submitted. -/
def submissions (log : Log) : ℕ := log.countP fun e => e.call.isControl

/-- `canonical` is the address of the port. -/
def Address (log : Log) (port canonical : String) : Prop :=
  comKey (.string port) = some canonical ∨
    succeeded (.realpath port) (.string canonical) ∈ log

/-- An enumeration has this descriptor alone for the selected port, and it is the device that was
asked for. -/
def Selected (o : Options) (current : Port) (log : Log) : Prop :=
  ∃ (port canonical : String) (timeout : ℤ) (ports : List Port) (required : Option Identity),
    o.port = .string port ∧ Address log port canonical ∧
    succeeded (.listSerial timeout) (some (ports.map some)) ∈ log ∧
    ports.filter (isSelected port canonical) = [current] ∧
    requiredIdentity o.expectedIdentity = .ok required ∧
    ∀ id ∈ required, hasIdentity id current = true

/-- The selected port is a runtime with this identity. -/
structure Chosen (o : Options) (current : Port) (id : Identity) (log : Log) : Prop where
  selected : Selected o current log
  runtime : nativeRuntime current = true
  identity : identityOf current.serialNumber current.location = some id

/-- What a connected runtime says its identity is. -/
def OwnIdentity (log : Log) (connected : Connected) (value : Js) : Prop :=
  if connected.deviceId = .undefined ∨ connected.deviceId = .null then
    ∃ timeout result id, succeeded (.execute timeout) result ∈ log ∧
      legacyId result = .ok id ∧ value = .string id
  else value = connected.deviceId

/-- The selected runtime has been opened and its own identity matches the descriptor. -/
structure Confirmed (o : Options) (current : Port) (id : Identity) (log : Log) : Prop where
  chosen : Chosen o current id log
  opened : succeeded (.serialTransport current.path) () ∈ log
  matched : ∃ timeout connected value, succeeded (.connect timeout) connected ∈ log ∧
    checkOwner connected = .ok () ∧ OwnIdentity log connected value ∧ mac value = some id.mac

/-- The call may come behind this log. -/
def Allowed (o : Options) (log : Log) : Call → Prop
  | .createDevice => creates log = 0
  | .disconnect => creates log = 1 ∧ disconnects log = 0
  | .control _ => submissions log = 0 ∧ ∃ current id, Confirmed o current id log
  | _ => True

/-- Every call of the log was allowed where it came. -/
def Safe (o : Options) (log : Log) : Prop := Justified (fun before e => Allowed o before e.call) log

/-- The log is safe, and how often the calls that matter came. -/
structure Tally (o : Options) (created disconnected submitted : ℕ) (log : Log) : Prop where
  safe : Safe o log
  creates_eq : creates log = created
  disconnects_eq : disconnects log = disconnected
  submissions_eq : submissions log = submitted

section Tally

variable {o : Options} {c d s : ℕ} {log : Log} {current : Port} {id : Identity}

lemma tally_nil : Tally o 0 0 0 [] := ⟨justified_nil, rfl, rfl, rfl⟩

/-- What a call that is not counted is not. -/
lemma passive_not (o : Options) (log : Log) {e : Event Call.Value Thrown} (he : e.call.isPassive = true) :
    isCreated e = false ∧ e.call.isDisconnect = false ∧ e.call.isControl = false ∧
      Allowed o log e.call := by
  rcases e with ⟨call, answer⟩
  cases call <;> first | exact ⟨rfl, rfl, rfl, trivial⟩ | cases he

lemma Tally.passive (h : Tally o c d s log) {e : Event Call.Value Thrown}
    (he : e.call.isPassive = true) : Tally o c d s (log ++ [e]) := by
  obtain ⟨hcreate, hdisconnect, hcontrol, hallowed⟩ := passive_not o log he
  refine ⟨h.safe.snoc hallowed, ?_, ?_, ?_⟩
  · simpa [creates, hcreate] using h.creates_eq
  · simpa [disconnects, hdisconnect] using h.disconnects_eq
  · simpa [submissions, hcontrol] using h.submissions_eq

lemma Tally.created (h : Tally o 0 d s log) (device : Bool) :
    Tally o (if device then 1 else 0) d s (log ++ [⟨.createDevice, .ok device⟩]) := by
  refine ⟨h.safe.snoc h.creates_eq, ?_, ?_, ?_⟩
  · have h0 : log.countP isCreated = 0 := h.creates_eq
    rw [creates, List.countP_append, h0, Nat.zero_add, List.countP_singleton]
    rfl
  · simpa [disconnects, Call.isDisconnect] using h.disconnects_eq
  · simpa [submissions, Call.isControl] using h.submissions_eq

lemma Tally.notCreated (h : Tally o 0 d s log) (error : Thrown) :
    Tally o 0 d s (log ++ [⟨.createDevice, .error error⟩]) := by
  refine ⟨h.safe.snoc h.creates_eq, ?_, ?_, ?_⟩
  · simpa [creates, isCreated] using h.creates_eq
  · simpa [disconnects, Call.isDisconnect] using h.disconnects_eq
  · simpa [submissions, Call.isControl] using h.submissions_eq

lemma Tally.disconnected (h : Tally o 1 0 s log) (answer : Except Thrown Unit) :
    Tally o 1 1 s (log ++ [⟨.disconnect, answer⟩]) := by
  refine ⟨h.safe.snoc ⟨h.creates_eq, h.disconnects_eq⟩, ?_, ?_, ?_⟩
  · simpa [creates, isCreated] using h.creates_eq
  · have h0 : log.countP (fun e => e.call.isDisconnect) = 0 := h.disconnects_eq
    rw [disconnects, List.countP_append, h0]
    rfl
  · simpa [submissions, Call.isControl] using h.submissions_eq

lemma Tally.submitted (h : Tally o c d 0 log) (hconfirmed : Confirmed o current id log)
    (timeout : ℤ) (answer : Except Thrown (Option ControlResult)) :
    Tally o c d 1 (log ++ [⟨.control timeout, answer⟩]) := by
  refine ⟨h.safe.snoc ⟨h.submissions_eq, current, id, hconfirmed⟩, ?_, ?_, ?_⟩
  · simpa [creates, isCreated] using h.creates_eq
  · simpa [disconnects, Call.isDisconnect] using h.disconnects_eq
  · have h0 : log.countP (fun e => e.call.isControl) = 0 := h.submissions_eq
    rw [submissions, List.countP_append, h0]
    rfl

end Tally

/-! ## What calls keep -/

/-- An assertion that all calls keep that are not counted. -/
abbrev Stable (R : World State Call.Value Thrown → Prop) : Prop :=
  KeptBy (fun c => c.isPassive = true) R

lemma stable_tally {o : Options} {c d s : ℕ} : Stable fun w => Tally o c d s w.log :=
  fun _ _ he h => h.passive he

lemma Address.mono {log log' : Log} {port canonical : String} (h : Address log port canonical)
    (hsub : ∀ e ∈ log, e ∈ log') : Address log' port canonical := h.imp_right (hsub _)

lemma Selected.mono {o : Options} {current : Port} {log log' : Log} (h : Selected o current log)
    (hsub : ∀ e ∈ log, e ∈ log') : Selected o current log' := by
  obtain ⟨port, canonical, timeout, ports, required, hport, haddress, hlist, hrest⟩ := h
  exact ⟨port, canonical, timeout, ports, required, hport, haddress.mono hsub, hsub _ hlist, hrest⟩

lemma Chosen.mono {o : Options} {current : Port} {id : Identity} {log log' : Log}
    (h : Chosen o current id log) (hsub : ∀ e ∈ log, e ∈ log') : Chosen o current id log' :=
  ⟨h.selected.mono hsub, h.runtime, h.identity⟩

lemma Chosen.snoc {o : Options} {current : Port} {id : Identity} {log : Log}
    (h : Chosen o current id log) (e : Event Call.Value Thrown) :
    Chosen o current id (log ++ [e]) := h.mono fun _ => List.mem_append_left _

lemma Confirmed.snoc {o : Options} {current : Port} {id : Identity} {log : Log}
    (h : Confirmed o current id log) (e : Event Call.Value Thrown) :
    Confirmed o current id (log ++ [e]) := by
  obtain ⟨hchosen, hopened, timeout, connected, value, hconnect, howner, hown, hmac⟩ := h
  have hmem : ∀ {x}, x ∈ log → x ∈ log ++ [e] := List.mem_append_left _
  refine ⟨hchosen.snoc e, hmem hopened, timeout, connected, value, hmem hconnect, howner, ?_, hmac⟩
  unfold OwnIdentity at hown ⊢
  split_ifs at hown ⊢ with hnullish
  · obtain ⟨timeout, result, legacy, hexecute, hrest⟩ := hown
    exact ⟨timeout, result, legacy, hmem hexecute, hrest⟩
  · exact hown

section Steps

variable {G X : World State Call.Value Thrown → Prop}

theorem checkAbort_spec (hG : Stable G) (hX : ∀ w, G w → X w) :
    Triple G checkAbort (fun _ => G) X := by
  refine hG.skip hX (by rfl) fun reason => ?_
  cases reason with
  | none => exact .pure fun _ hw => hw
  | some reason => exact .fail hX

theorem pause_spec (hG : Stable G) (hX : ∀ w, G w → X w) (deadline : ℚ) :
    Triple G (pause deadline) (fun _ => G) X :=
  hG.skip hX (by rfl) fun (_ : ℚ) => (hG.ask hX (by rfl)).post fun _ _ hw => hw.1

theorem remaining_spec (hG : Stable G) (hX : ∀ w, G w → X w) (deadline : ℚ) :
    Triple G (remaining deadline) (fun _ => G) X :=
  hG.skip hX (by rfl) fun _ => .pure fun _ hw => hw

theorem orFail_spec {p : Flow Enumeration}
    {Q : Enumeration → World State Call.Value Thrown → Prop}
    (hG : Stable G) (hX : ∀ w, G w → X w) (hp : Triple G p Q G) (error : Thrown) :
    Triple G (orFail p error) Q X :=
  .attempt hp fun _ => .bind (checkAbort_spec hG hX) fun _ => .fail hX

/-- An enumeration behind a log that has a property. -/
theorem listSerial_spec {F : Log → Prop} (hG : Stable G) (hX : ∀ w, G w → X w)
    (hF : ∀ w, G w → F w.log) (timeout : ℤ) (error : Thrown) :
    Triple G (orFail (ask (.listSerial timeout)) error)
      (fun e w => G w ∧ Behind F (succeeded (.listSerial timeout) e) w.log) X := by
  refine orFail_spec hG hX ?_ error
  refine Triple.call (fun e w hw => ?_) fun e w hw => hG w _ (by rfl) hw
  exact ⟨hG w _ (by rfl) hw, .here (hF w hw)⟩

/-! ## The selected port -/

theorem resolveTurn_spec (hG : Stable G) (hX : ∀ w, G w → X w) (port : String)
    (settleDeadline : ℚ) :
    Triple G (resolveTurn port settleDeadline)
      (fun turn w => G w ∧ ∀ canonical, turn = .found canonical → Address w.log port canonical)
      X := by
  refine .attempt (Y := G) ?_ fun error => ?_
  · refine hG.keep (fun _ => id) (by rfl) fun (canonical : Js) => ?_
    cases canonical with
    | string canonical =>
      refine .passed (fun _ hw => hw.1) fun _ => .pure fun w hw => ⟨hw.1, ?_⟩
      rintro _ ⟨⟩
      exact .inr hw.2
    | _ => exact .fail fun _ hw => hw.1
  · refine .bind (checkAbort_spec hG hX) fun _ => .given hX fun _ _ => .passed hX fun _ => ?_
    refine hG.skip hX (by rfl) fun _ => .passed hX fun _ => ?_
    refine hG.skip hX (by rfl) fun _ => hG.skip hX (by rfl) fun _ => ?_
    exact .pure fun _ hw => ⟨hw, fun _ h => nomatch h⟩

theorem resolve_spec (hG : Stable G) (hX : ∀ w, G w → X w) (fuel : ℕ) (port : String)
    (settleDeadline : ℚ) :
    Triple G (resolve fuel port settleDeadline)
      (fun r w => G w ∧ ∀ canonical, r = some (some canonical) → Address w.log port canonical)
      X := by
  unfold resolve
  cases hkey : comKey (.string port) with
  | some key =>
    refine .pure fun w hw => ⟨hw, ?_⟩
    rintro _ ⟨⟩
    exact .inl hkey
  | none =>
    refine (Triple.waitFor (I := fun _ => G)
      (Q := fun r w => G w ∧ ∀ canonical, r = some canonical → Address w.log port canonical)
      (fun _ => ?_) 0 fuel).post fun r w hw => ?_
    · refine .bind (checkAbort_spec hG hX) fun _ => ?_
      refine (resolveTurn_spec hG hX port settleDeadline).post fun turn w hw => ?_
      cases turn with
      | found canonical => exact ⟨hw.1, fun c hc => hw.2 c (by rw [Option.some.inj hc])⟩
      | again => exact hw.1
      | quit => exact ⟨hw.1, fun _ h => nomatch h⟩
    · cases r with
      | none => exact ⟨hw, fun _ h => nomatch h⟩
      | some r => exact ⟨hw.1, fun c hc => hw.2 c (Option.some.inj hc)⟩

theorem enumerateSelected_spec (hG : Stable G) (hX : ∀ w, G w → X w) (timeout : ℤ)
    (required : Option Identity) :
    Triple G (enumerateSelected timeout required)
      (fun r w => G w ∧ ∀ e, r = some e → succeeded (.listSerial timeout) e ∈ w.log) X := by
  refine .attempt (Y := G) ?_ fun error => ?_
  · refine hG.keep (fun _ => id) (by rfl) fun (e : Enumeration) => ?_
    exact .pure fun w hw => ⟨hw.1, fun e' he => Option.some.inj he ▸ hw.2⟩
  · refine .bind (checkAbort_spec hG hX) fun _ => .passed hX fun _ => ?_
    exact .pure fun _ hw => ⟨hw, fun _ h => nomatch h⟩

end Steps

lemma mapM_id_some {α : Type} {items : List (Option α)} {values : List α}
    (h : items.mapM id = some values) : items = values.map some := by
  induction items generalizing values with
  | nil =>
    obtain rfl : values = [] := by simpa using h.symm
    rfl
  | cons item items ih =>
    cases item with
    | none => simp at h
    | some value =>
      cases hrest : items.mapM id with
      | none => simp [hrest] at h
      | some rest =>
        obtain rfl : value :: rest = values := by simpa [hrest] using h
        rw [ih hrest, List.map_cons]

lemma descriptors_ok {e : Enumeration} {ports : List Port} (h : descriptors e = .ok ports) :
    e = some (ports.map some) := by
  cases e with
  | none => cases h
  | some items =>
    simp only [descriptors] at h
    cases hall : items.mapM id with
    | none => rw [hall] at h; cases h
    | some all =>
      rw [hall] at h
      rw [mapM_id_some hall, Except.ok.inj h]

lemma checkPort_ok {v : Js} {port : String} (h : checkPort v = .ok port) : v = .string port := by
  cases v with
  | string s =>
    simp only [checkPort] at h
    split_ifs at h
    exact congrArg Js.string (Except.ok.inj h)
  | _ => cases h

/-- What a selection is, from the ports that were enumerated. -/
def Selection.Ok (port canonical : String) (required : Option Identity) (ports : List Port) :
    Selection → Prop
  | .itself r => r = unprobed canonical ∨
      ∃ current t, ports.filter (isSelected port canonical) = [current] ∧
        (∀ id ∈ required, hasIdentity id current = true) ∧ nativeRom current = true ∧
        r = ⟨current.path, mac current.serialNumber, some t⟩ ∧ t.requested = false ∧
        t.observed = true ∧ t.location = physicalLocation current.location
  | .runtime current id => ports.filter (isSelected port canonical) = [current] ∧
      (∀ id ∈ required, hasIdentity id current = true) ∧ nativeRuntime current = true ∧
      identityOf current.serialNumber current.location = some id

theorem select_ok {port canonical : String} {required : Option Identity} {ports : List Port}
    {selection : Selection} (h : select port canonical required ports = .ok selection) :
    selection.Ok port canonical required ports := by
  unfold select at h
  rcases hfilter : ports.filter (isSelected port canonical) with _ | ⟨current, _ | ⟨_, _⟩⟩
  · rw [hfilter] at h
    cases required with
    | some id => cases h
    | none =>
      obtain rfl := Except.ok.inj h
      exact .inl rfl
  · rw [hfilter] at h
    dsimp only at h
    by_cases hwrong : (required.any fun id => ¬ hasIdentity id current) = true
    · rw [if_pos hwrong] at h
      cases h
    · rw [if_neg hwrong] at h
      have hrequired : ∀ id ∈ required, hasIdentity id current = true := by
        rintro id hid
        obtain rfl : required = some id := hid
        simpa using hwrong
      by_cases hrom : nativeRom current = true
      · rw [if_pos hrom] at h
        obtain rfl := Except.ok.inj h
        exact .inr ⟨current, _, hfilter, hrequired, hrom, rfl, rfl, rfl, rfl⟩
      · rw [if_neg hrom] at h
        by_cases hruntime : nativeRuntime current = true
        · rw [if_pos hruntime] at h
          cases hid : identityOf current.serialNumber current.location with
          | none => rw [hid] at h; cases h
          | some id =>
            rw [hid] at h
            obtain rfl := Except.ok.inj h
            exact ⟨hfilter, hrequired, hruntime, hid⟩
        · rw [if_neg hruntime] at h
          obtain rfl := Except.ok.inj h
          exact .inl rfl
  · rw [hfilter] at h
    cases h

/-! ## The handoff -/

/-- The session is going on, and the command was submitted this often. -/
structure Held (o : Options) (current : Port) (id : Identity) (submitted : ℕ)
    (w : World State Call.Value Thrown) : Prop where
  tally : Tally o (if w.state.device then 1 else 0) 0 submitted w.log
  chosen : Chosen o current id w.log
  location : w.state.transition.location = some id.location

/-- The session is going on. -/
def Busy (o : Options) (current : Port) (id : Identity) (w : World State Call.Value Thrown) :
    Prop := ∃ submitted ≤ 1, Held o current id submitted w

/-- The device was disconnected if it was created, and nothing was submitted twice. -/
def Settled (o : Options) (log : Log) : Prop :=
  ∃ created ≤ 1, ∃ submitted ≤ 1, Tally o created created submitted log

/-- The session is over, and its runtime is still known. -/
structure Released (o : Options) (current : Port) (id : Identity)
    (w : World State Call.Value Thrown) : Prop where
  settled : Settled o w.log
  chosen : Chosen o current id w.log
  location : w.state.transition.location = some id.location

section Handoff

variable {o : Options} {current : Port} {id : Identity} {s : ℕ}
  {X : World State Call.Value Thrown → Prop}

lemma stable_held : Stable (Held o current id s) := fun _ e he h =>
  ⟨h.tally.passive he, h.chosen.snoc e, h.location⟩

lemma stable_busy : Stable (Busy o current id) := fun w e he ⟨s, hs, h⟩ =>
  ⟨s, hs, stable_held w e he h⟩

lemma Held.busy {w : World State Call.Value Thrown} (h : Held o current id s w) (hs : s ≤ 1) :
    Busy o current id w := ⟨s, hs, h⟩

theorem modify_spec {f : Transition → Transition} (hf : ∀ t, (f t).location = t.location)
    {F : Log → Prop} :
    Triple (fun w => Held o current id s w ∧ F w.log) (modifyTransition f)
      (fun _ w => Held o current id s w ∧ F w.log) X :=
  .update fun _ hw => ⟨⟨hw.1.tally, hw.1.chosen, (hf _).trans hw.1.location⟩, hw.2⟩

theorem modify_busy {f : Transition → Transition} (hf : ∀ t, (f t).location = t.location) :
    Triple (Busy o current id) (modifyTransition f) (fun _ => Busy o current id) X :=
  .update fun _ ⟨s, hs, h⟩ => ⟨s, hs, h.tally, h.chosen, (hf _).trans h.location⟩

theorem runtimeIdentity_spec {G : World State Call.Value Thrown → Prop} (hG : Stable G)
    (hX : ∀ w, G w → X w) (timeout : ℤ) (connected : Connected) :
    Triple G (runtimeIdentity timeout connected)
      (fun r w => G w ∧ OwnIdentity w.log connected r.1) X := by
  unfold runtimeIdentity OwnIdentity
  split_ifs with hnullish
  · refine hG.keep hX (by rfl) fun result => ?_
    have hG1 := hG.and (.mem (σ := State) (succeeded (.execute timeout) result))
    have hX1 := fun w (hw : G w ∧ succeeded (.execute timeout) result ∈ w.log) => hX w hw.1
    refine .bind (checkAbort_spec hG1 hX1) fun _ => .given hX1 fun legacy hlegacy => ?_
    exact .pure fun w hw => ⟨hw.1, timeout, result, legacy, hw.2, hlegacy, rfl⟩
  · exact .pure fun _ hw => ⟨hw, rfl⟩

theorem submit_spec (timeout : ℤ) :
    Triple (fun w => Held o current id 0 w ∧ Confirmed o current id w.log) (submit timeout)
      (fun _ => Busy o current id) (Busy o current id) := by
  refine .bind (modify_spec (by intro _; rfl)) fun _ => ?_
  refine .attempt (Y := Busy o current id) ?_ fun error => ?_
  · have hsubmitted : ∀ (w : World State Call.Value Thrown) answer,
        Held o current id 0 w ∧ Confirmed o current id w.log →
        Held o current id 1 { w with log := w.log ++ [⟨.control timeout, answer⟩] } :=
      fun w answer hw => ⟨hw.1.tally.submitted hw.2 timeout answer, hw.1.chosen.snoc _,
        hw.1.location⟩
    have hbusy : ∀ w, Held o current id 1 w → Busy o current id w := fun w h => h.busy le_rfl
    refine .bind (Q := fun _ => Held o current id 1)
      (.call (fun _ w hw => hsubmitted w _ hw) fun _ w hw => hbusy _ (hsubmitted w _ hw))
      fun _ => ?_
    refine .bind (checkAbort_spec stable_held hbusy) fun _ => .given hbusy fun _ _ => ?_
    exact (modify_busy (by intro _; rfl)).pre hbusy
  · have hself : ∀ w, Busy o current id w → Busy o current id w := fun _ h => h
    refine .bind (checkAbort_spec stable_busy hself) fun _ => .given hself fun _ _ => ?_
    exact .passed hself fun _ => modify_busy (by intro _; rfl)

/-- The device is made, and it is noted at once. -/
theorem createDevice_spec {F : Log → Prop} (hF : ∀ log e, F log → F (log ++ [e]))
    {β : Type} {rest : Flow β} {Q : β → World State Call.Value Thrown → Prop}
    (next : Triple (fun w => Held o current id 0 w ∧ F w.log) rest Q (Busy o current id)) :
    Triple (fun w => (Held o current id 0 w ∧ w.state.device = false) ∧ F w.log)
      (do
        let device ← ask .createDevice
        update fun s : State => { s with device := device }
        failIf (device = false) (typeError "device.connect is not a function")
        rest) Q (Busy o current id) := by
  refine .bind (Q := fun (device : Bool) w =>
    (Tally o (if device then 1 else 0) 0 0 w.log ∧ Chosen o current id w.log ∧
      w.state.transition.location = some id.location) ∧ F w.log) (.call ?_ ?_)
    fun (device : Bool) => ?_
  · rintro device w ⟨⟨h, hdevice⟩, hw⟩
    have htally := h.tally
    rw [hdevice] at htally
    exact ⟨⟨htally.created device, h.chosen.snoc _, h.location⟩, hF _ _ hw⟩
  · rintro error w ⟨⟨h, hdevice⟩, -⟩
    have htally := h.tally
    rw [hdevice] at htally
    refine Held.busy (s := 0) ⟨?_, h.chosen.snoc _, h.location⟩ zero_le_one
    show Tally o (if w.state.device then 1 else 0) 0 0 _
    rw [hdevice]
    exact htally.notCreated error
  · refine .bind (Q := fun _ w => Held o current id 0 w ∧ F w.log) (.update fun w hw => ?_)
      fun _ => .passed (fun w hw => hw.1.busy zero_le_one) fun _ => next
    exact ⟨⟨hw.1.1, hw.1.2.1, hw.1.2.2⟩, hw.2⟩

theorem handoff_spec (timeout : ℤ) :
    Triple (fun w => Held o current id 0 w ∧ w.state.device = false) (handoff timeout current id)
      (fun _ => Busy o current id) (Busy o current id) := by
  have hbusy : ∀ w, Held o current id 0 w → Busy o current id w := fun w h => h.busy zero_le_one
  have hstart : Stable fun w => Held o current id 0 w ∧ w.state.device = false :=
    stable_held.and fun _ _ _ h => h
  refine hstart.keep (fun w hw => hbusy w hw.1) (by rfl) fun (transport : Unit) => ?_
  let opened : Event Call.Value Thrown := succeeded (.serialTransport current.path) transport
  refine createDevice_spec (F := fun log => opened ∈ log)
    (fun _ _ => List.mem_append_left _) ?_
  have h1 : Stable fun w => Held o current id 0 w ∧ opened ∈ w.log := stable_held.and (.mem _)
  refine h1.keep (fun w hw => hbusy w hw.1) (by rfl) fun (connected : Connected) => ?_
  have h2 := h1.and (.mem (succeeded (.connect timeout) connected))
  have hX2 := fun w (hw : (Held o current id 0 w ∧ opened ∈ w.log) ∧
    succeeded (.connect timeout) connected ∈ w.log) => hbusy w hw.1.1
  refine .bind (checkAbort_spec h2 hX2) fun _ => .given hX2 fun _ howner => ?_
  refine .bind (runtimeIdentity_spec h2 hX2 timeout connected) fun runtime => ?_
  refine .passed (fun w hw => hX2 w hw.1) fun hmac => ?_
  have hconfirmed : ∀ w : World State Call.Value Thrown,
      ((Held o current id 0 w ∧ opened ∈ w.log) ∧
        succeeded (.connect timeout) connected ∈ w.log) ∧
        OwnIdentity w.log connected runtime.1 →
      Held o current id 0 w ∧ Confirmed o current id w.log := fun w hw =>
    ⟨hw.1.1.1, hw.1.1.1.chosen, hw.1.1.2, timeout, connected, runtime.1, hw.1.2, howner, hw.2,
      not_not.mp hmac⟩
  refine .bind ((modify_spec (by intro _; rfl)).pre hconfirmed) fun _ => ?_
  have hG : Stable fun w => Held o current id 0 w ∧ Confirmed o current id w.log :=
    stable_held.and fun _ e _ h => h.snoc e
  exact .bind (checkAbort_spec hG fun w hw => hbusy w hw.1) fun _ => submit_spec timeout

lemma stable_released : Stable (Released o current id) := fun _ e he h => by
  obtain ⟨⟨c, hc, s, hs, htally⟩, hchosen, hlocation⟩ := h
  exact ⟨⟨c, hc, s, hs, htally.passive he⟩, hchosen.snoc e, hlocation⟩

theorem modify_released {f : Transition → Transition} (hf : ∀ t, (f t).location = t.location) :
    Triple (Released o current id) (modifyTransition f) (fun _ => Released o current id) X :=
  .update fun _ hw => ⟨hw.settled, hw.chosen, (hf _).trans hw.location⟩

theorem cleanUp_spec : Triple (Busy o current id) cleanUp (fun _ => Released o current id) X := by
  refine .bind (Q := fun st w => w.state = st ∧ Busy o current id w)
    (.getState fun w hw => ⟨rfl, hw⟩) fun st => ?_
  have htally : ∀ w : World State Call.Value Thrown, w.state = st ∧ Busy o current id w →
      ∃ s ≤ 1, Tally o (if st.device then 1 else 0) 0 s w.log := by
    rintro w ⟨rfl, s, hs, h⟩
    exact ⟨s, hs, h.tally⟩
  by_cases hdevice : st.device = true
  · rw [if_pos hdevice]
    have hdone : ∀ (w : World State Call.Value Thrown) answer,
        w.state = st ∧ Busy o current id w →
        Released o current id { w with log := w.log ++ [⟨.disconnect, answer⟩] } := by
      intro w answer hw
      obtain ⟨s, hs, h⟩ := htally w hw
      rw [if_pos hdevice] at h
      obtain ⟨-, _, -, hheld⟩ := hw
      exact ⟨⟨1, le_rfl, s, hs, h.disconnected answer⟩, hheld.chosen.snoc _, hheld.location⟩
    refine .attempt (Y := Released o current id) ?_ fun _ => modify_released (by intro _; rfl)
    exact .bind (Q := fun _ => Released o current id)
      (.call (fun _ w hw => hdone w _ hw) fun _ w hw => hdone w _ hw)
      fun _ => modify_released (by intro _; rfl)
  · rw [if_neg hdevice]
    refine .pure fun w hw => ?_
    obtain ⟨s, hs, h⟩ := htally w hw
    rw [if_neg hdevice] at h
    obtain ⟨-, _, -, hheld⟩ := hw
    exact ⟨⟨0, zero_le_one, s, hs, h⟩, hheld.chosen, hheld.location⟩

theorem caught_spec {P N : World State Call.Value Thrown → Prop} {body : Flow Unit}
    (h : Triple P body (fun _ => N) N) : Triple P (caught body) (fun _ => N) X :=
  .attempt (Y := N) (.bind h fun _ => .pure fun _ hw => hw) fun _ => .pure fun _ hw => hw

/-- Behind the selection, an enumeration has this ROM alone for the identity. -/
def Seen (o : Options) (current : Port) (id : Identity) (rom : Port) (log : Log) : Prop :=
  ∃ (timeout : ℤ) (ports : List Port),
    Behind (Selected o current) (succeeded (.listSerial timeout) (some (ports.map some))) log ∧
    ports.filter (fun item => nativeRom item && hasIdentity id item) = [rom]

lemma matchingRom_ok {t : Transition} {e : Enumeration} {rom : Port}
    (h : matchingRom id t e = .ok (some rom)) :
    ∃ ports : List Port, e = some (ports.map some) ∧
      ports.filter (fun item => nativeRom item && hasIdentity id item) = [rom] := by
  unfold matchingRom at h
  by_cases hnone : e = none
  · rw [if_pos hnone] at h
    cases h
  · rw [if_neg hnone] at h
    cases hports : descriptors e with
    | error error => rw [hports] at h; cases h
    | ok ports =>
      refine ⟨ports, descriptors_ok hports, ?_⟩
      simp only [hports, bind, Except.bind] at h
      rcases hfilter : ports.filter (fun item => nativeRom item && hasIdentity id item) with
        _ | ⟨item, _ | ⟨_, _⟩⟩ <;> rw [hfilter] at h
      · cases h
      · rw [Option.some.inj (Except.ok.inj h)]
      · cases h

theorem rebindTurn_spec (deadline : ℚ) :
    Triple (Released o current id) (rebindTurn id deadline)
      (fun turn w => Released o current id w ∧
        ∀ rom, turn = .found rom → Seen o current id rom w.log)
      fun w => Settled o w.log := by
  have hX : ∀ w, Released o current id w → Settled o w.log := fun _ h => h.settled
  have hquit : Triple (Released o current id) (pure .quit : Flow (Turn Port))
      (fun turn w => Released o current id w ∧
        ∀ rom, turn = .found rom → Seen o current id rom w.log)
      fun w => Settled o w.log := .pure fun _ hw => ⟨hw, fun _ h => nomatch h⟩
  unfold rebindTurn
  refine stable_released.skip hX (by rfl) fun (t : ℚ) => ?_
  by_cases hlate : deadline ≤ t
  · rw [if_pos hlate]
    exact hquit
  rw [if_neg hlate]
  refine .bind (checkAbort_spec stable_released hX) fun _ => ?_
  refine .bind (remaining_spec stable_released hX deadline) fun timeout => ?_
  refine .reading fun st => .pre ?_ fun _ hw => hw.1
  refine .bind (listSerial_spec stable_released hX (F := Selected o current)
    (fun _ hw => hw.chosen.selected) timeout _) fun e => ?_
  have hG : Stable fun w => Released o current id w ∧
      Behind (Selected o current) (succeeded (.listSerial timeout) e) w.log :=
    stable_released.and fun _ x _ h => h.snoc x
  refine .bind (checkAbort_spec hG fun w hw => hX w hw.1) fun _ => ?_
  refine hG.skip (fun w hw => hX w hw.1) (by rfl) fun (t : ℚ) => ?_
  by_cases hlate : deadline ≤ t
  · rw [if_pos hlate]
    exact hquit.pre fun _ hw => hw.1
  rw [if_neg hlate]
  refine .given (fun w hw => hX w hw.1) fun found hfound => ?_
  cases found with
  | none =>
    refine .bind (pause_spec hG (fun w hw => hX w hw.1) deadline) fun _ => ?_
    exact .pure fun _ hw => ⟨hw.1, fun _ h => nomatch h⟩
  | some rom =>
    refine .pure fun w hw => ⟨hw.1, ?_⟩
    rintro _ ⟨⟩
    obtain ⟨ports, rfl, honly⟩ := matchingRom_ok hfound
    exact ⟨timeout, ports, hw.2, honly⟩

/-- The result is the ROM that appeared for the selected runtime. -/
def Rebound (o : Options) (log : Log) (p : Prepared) : Prop :=
  ∃ current id rom t, Chosen o current id log ∧ Seen o current id rom log ∧
    p = ⟨rom.path, some id.mac, some t⟩ ∧ t.observed = true ∧ t.location = some id.location

theorem failWith_spec {α : Type} {P : World State Call.Value Thrown → Prop}
    {Q : α → World State Call.Value Thrown → Prop} (hX : ∀ w, P w → X w) (code message : String) :
    Triple P (failWith code message) Q X :=
  .bind (.getState (Q := fun _ => P) fun _ hw => hw) fun _ => .fail hX

theorem handOver_spec (fuel : ℕ) (port : String) (timeout : ℤ) :
    Triple (fun w => Tally o 0 0 0 w.log ∧ Chosen o current id w.log)
      (handOver fuel port timeout current id)
      (fun r w => Settled o w.log ∧ ∀ p, r = some p → Rebound o w.log p)
      fun w => Settled o w.log := by
  have hX : ∀ w, Released o current id w → Settled o w.log := fun _ h => h.settled
  refine .bind (Q := fun _ w => Held o current id 0 w ∧ w.state.device = false)
    (.update fun w hw => ⟨⟨hw.1, hw.2, rfl⟩, rfl⟩) fun _ => ?_
  refine .bind (caught_spec (handoff_spec timeout)) fun primary => ?_
  refine .bind cleanUp_spec fun _ => ?_
  refine .bind (caught_spec (checkAbort_spec stable_released fun _ hw => hw)) fun late => ?_
  refine .reading fun st => .pre ?_ fun _ hw => hw.1
  cases (orError primary late).filter Thrown.truthy with
  | some error => exact .fail hX
  | none =>
    refine stable_released.skip hX (by rfl) fun (t : ℚ) => ?_
    refine .bind (Triple.waitFor (I := fun _ => Released o current id)
      (Q := fun r w => Released o current id w ∧ ∀ rom, r = some rom → Seen o current id rom w.log)
      (fun _ => (rebindTurn_spec (t + timeout)).post fun turn w hw => ?_) 0 fuel) fun r => ?_
    · cases turn with
      | found rom => exact ⟨hw.1, fun _ h => hw.2 _ (by rw [Option.some.inj h])⟩
      | again => exact hw.1
      | quit => exact ⟨hw.1, fun _ h => nomatch h⟩
    · rcases r with _ | _ | rom
      · exact .pure fun w hw => ⟨hX w hw, fun _ h => nomatch h⟩
      · exact failWith_spec (fun w hw => hX w hw.1) _ _
      · refine .bind (Q := fun _ w => (Released o current id w ∧ Seen o current id rom w.log) ∧
          w.state.transition.observed = true)
          (.update fun w hw => ⟨⟨⟨hw.1.settled, hw.1.chosen, hw.1.location⟩, hw.2 rom rfl⟩, rfl⟩)
          fun _ => .reading fun st => .pure fun w hw => ⟨hX w hw.1.1.1, ?_⟩
        rintro _ ⟨⟩
        obtain ⟨⟨⟨hreleased, hseen⟩, hobserved⟩, rfl⟩ := hw
        exact ⟨current, id, rom, w.state.transition, hreleased.chosen, hseen, rfl, hobserved,
          hreleased.location⟩

end Handoff

/-! ## The preparation -/

/-- The result is the selected port itself, without any session. -/
def Itself (o : Options) (log : Log) (p : Prepared) : Prop :=
  creates log = 0 ∧ submissions log = 0 ∧
    ((∃ port canonical, o.port = .string port ∧ Address log port canonical ∧
        p = unprobed canonical) ∨
      ∃ current t, Selected o current log ∧ nativeRom current = true ∧
        p = ⟨current.path, mac current.serialNumber, some t⟩ ∧ t.requested = false ∧
        t.observed = true ∧ t.location = physicalLocation current.location)

lemma Tally.settled {o : Options} {log : Log} (h : Tally o 0 0 0 log) : Settled o log :=
  ⟨0, zero_le_one, 0, zero_le_one, h⟩

theorem prepare_spec (fuel : ℕ) (o : Options) :
    Triple (fun w => Tally o 0 0 0 w.log) (prepareNodeRomPort fuel o)
      (fun r w => Settled o w.log ∧ ∀ p, r = some p → Itself o w.log p ∨ Rebound o w.log p)
      fun w => Settled o w.log := by
  have hX : ∀ w : World State Call.Value Thrown, Tally o 0 0 0 w.log → Settled o w.log :=
    fun _ h => h.settled
  refine .given hX fun port hport => .given hX fun timeout _ => .given hX fun required hreq => ?_
  refine .bind (checkAbort_spec stable_tally hX) fun _ => ?_
  refine stable_tally.skip hX (by rfl) fun (t : ℚ) => ?_
  refine .bind (resolve_spec stable_tally hX fuel port (t + timeout)) fun r => ?_
  rcases r with _ | _ | canonical
  · exact .pure fun w hw => ⟨hX w hw.1, fun _ h => nomatch h⟩
  · exact .pure fun w hw => ⟨hX w hw.1, fun _ h => nomatch h⟩
  have hG : Stable fun w => Tally o 0 0 0 w.log ∧ Address w.log port canonical :=
    stable_tally.and fun _ _ _ h => h.mono fun _ => List.mem_append_left _
  have hXG := fun w (hw : Tally o 0 0 0 w.log ∧ Address w.log port canonical) => hX w hw.1
  refine .bind ((checkAbort_spec hG hXG).pre fun w hw => ⟨hw.1, hw.2 canonical rfl⟩) fun _ => ?_
  refine .bind (enumerateSelected_spec hG hXG timeout required) fun r => ?_
  have hitself : ∀ w : World State Call.Value Thrown,
      Tally o 0 0 0 w.log ∧ Address w.log port canonical → Itself o w.log (unprobed canonical) :=
    fun w hw => ⟨hw.1.creates_eq, hw.1.submissions_eq,
      .inl ⟨port, canonical, checkPort_ok hport, hw.2, rfl⟩⟩
  cases r with
  | none =>
    refine .pure fun w hw => ⟨hX w hw.1.1, ?_⟩
    rintro _ ⟨⟩
    exact .inl (hitself w hw.1)
  | some e =>
    have hG2 := hG.and (.mem (succeeded (.listSerial timeout) e))
    have hX2 := fun w (hw : (Tally o 0 0 0 w.log ∧ Address w.log port canonical) ∧
      succeeded (.listSerial timeout) e ∈ w.log) => hX w hw.1.1
    refine .bind ((checkAbort_spec hG2 hX2).pre fun w hw => ⟨hw.1, hw.2 e rfl⟩) fun _ => ?_
    refine .given hX2 fun ports hports => .given hX2 fun selection hselect => ?_
    obtain rfl := descriptors_ok hports
    have hok := select_ok hselect
    have hselected : ∀ current, ports.filter (isSelected port canonical) = [current] →
        (∀ id ∈ required, hasIdentity id current = true) → ∀ w : World State Call.Value Thrown,
        Address w.log port canonical →
        succeeded (.listSerial timeout) (some (ports.map some)) ∈ w.log →
        Selected o current w.log := fun current honly hid w haddress hlist =>
      ⟨port, canonical, timeout, ports, required, checkPort_ok hport, haddress, hlist, honly, hreq,
        hid⟩
    cases selection with
    | itself result =>
      refine .pure fun w hw => ⟨hX2 w hw, ?_⟩
      rintro _ ⟨⟩
      rcases hok with rfl | ⟨current, t, honly, hid, hrom, hrest⟩
      · exact .inl (hitself w hw.1)
      · exact .inl ⟨hw.1.1.creates_eq, hw.1.1.submissions_eq,
          .inr ⟨current, t, hselected current honly hid w hw.1.2 hw.2, hrom, hrest⟩⟩
    | runtime current id =>
      obtain ⟨honly, hid, hruntime, hidentity⟩ := hok
      refine ((handOver_spec fuel port timeout).pre fun w hw => ⟨hw.1.1,
        hselected current honly hid w hw.1.2 hw.2, hruntime, hidentity⟩).post fun r w hw => ?_
      exact ⟨hw.1, fun p hp => .inr (hw.2 p hp)⟩

/-! ## The recovery -/

lemma identityOf_some {serial location : Js} {id : Identity}
    (h : identityOf serial location = some id) :
    mac serial = some id.mac ∧ physicalLocation location = some id.location := by
  unfold identityOf at h
  cases hmac : mac serial with
  | none => simp [hmac] at h
  | some m =>
    cases hlocation : physicalLocation location with
    | none => simp [hmac, hlocation] at h
    | some l =>
      simp only [hmac, hlocation] at h
      split_ifs at h
      obtain rfl := Option.some.inj h
      exact ⟨rfl, rfl⟩

lemma hasIdentity_iff {id : Identity} {port : Port} : hasIdentity id port = true ↔
    mac port.serialNumber = some id.mac ∧ physicalLocation port.location = some id.location := by
  simp [hasIdentity]

lemma dropInterface_sublist (chars : List Char) : (dropInterface chars).Sublist chars := by
  induction chars with
  | nil => exact .slnil
  | cons c rest ih =>
    unfold dropInterface
    split_ifs
    · exact List.nil_sublist _
    · exact ih.cons_cons c

lemma trim_sublist (chars : List Char) : (trim chars).Sublist chars := by
  have h := (List.dropWhile_sublist (l := (chars.dropWhile isSpace).reverse) isSpace).reverse
  rw [List.reverse_reverse] at h
  exact h.trans (List.dropWhile_sublist isSpace)

lemma physicalLocation_sublist {s l : String} (h : physicalLocation (.string s) = some l) :
    l.toList.Sublist s.toList := by
  simp only [physicalLocation] at h
  split_ifs at h
  obtain rfl := Option.some.inj h
  rw [String.toList_ofList]
  exact (dropInterface_sublist _).trans (trim_sublist _)

/-- A location that comes back from its own physical location has nothing to lose. -/
lemma location_fixed {l l' : String} (h : physicalLocation (.string l) = some l')
    (h' : physicalLocation (.string l') = some l) : l' = l :=
  String.toList_inj.mp ((physicalLocation_sublist h).antisymm (physicalLocation_sublist h'))

/-- What a preparation is told that is bound to a device. -/
def Expected.bound (id : Identity) : Expected := ⟨.string id.mac, .string id.location⟩

/-- The result is a ROM that an enumeration showed with the identity. -/
def IsRomOf (id : Identity) (log : Log) (p : Prepared) : Prop :=
  ∃ (rom : Port) (timeout : ℤ) (ports : List Port) (t : Transition),
    succeeded (.listSerial timeout) (some (ports.map some)) ∈ log ∧ rom ∈ ports ∧
    nativeRom rom = true ∧ hasIdentity id rom = true ∧
    p = ⟨rom.path, some id.mac, some t⟩ ∧ t.observed = true ∧ t.location = some id.location

/-- Whatever a preparation was bound to: a result with the identity in it carries the identity. -/
lemma bound_eq {id id' : Identity} {current : Port}
    (hbound : identityOf (.string id.mac) (.string id.location) = some id')
    (hcurrent : hasIdentity id' current = true) (hmac : mac current.serialNumber = some id.mac)
    (hback : physicalLocation (.string id'.location) = some id.location) : id' = id := by
  have hforth := (identityOf_some hbound).2
  have hlocation : id'.location = id.location := location_fixed hforth hback
  have hsame : id'.mac = id.mac :=
    Option.some.inj ((hasIdentity_iff.mp hcurrent).1.symm.trans hmac)
  cases id
  cases id'
  simp_all

lemma required_bound {id : Identity} {required : Option Identity}
    (h : requiredIdentity (some (.bound id)) = .ok required) :
    ∃ id', required = some id' ∧ identityOf (.string id.mac) (.string id.location) = some id' := by
  simp only [requiredIdentity, Expected.bound] at h
  cases hid : identityOf (.string id.mac) (.string id.location) with
  | none => rw [hid] at h; cases h
  | some id' =>
    rw [hid] at h
    exact ⟨id', (Except.ok.inj h).symm, rfl⟩

theorem isRomOf_of_prepared {o : Options} {id : Identity} {log : Log} {p : Prepared}
    (ho : o.expectedIdentity = some (.bound id)) (hp : Itself o log p ∨ Rebound o log p)
    (hkeeps : keepsIdentity id p = true) : IsRomOf id log p := by
  rcases hp with ⟨-, -, ⟨port, canonical, -, -, rfl⟩ |
    ⟨current, t, hselected, hrom, rfl, -, hobserved, hlocation⟩⟩ |
    ⟨current, cid, rom, t, hchosen, ⟨timeout, ports, hbehind, honly⟩, rfl, hobserved, hlocation⟩
  · simp [keepsIdentity, unprobed] at hkeeps
  · obtain ⟨port, canonical, timeout, ports, required, -, -, hlist, honly, hrequired, hhas⟩ :=
      hselected
    rw [ho] at hrequired
    obtain ⟨id', rfl, hbound⟩ := required_bound hrequired
    have hcurrent := hhas id' rfl
    have hphysical := (hasIdentity_iff.mp hcurrent).2
    simp only [keepsIdentity, hlocation, hphysical, hobserved, Bool.and_eq_true,
      decide_eq_true_eq, true_and] at hkeeps
    obtain rfl := bound_eq hbound hcurrent hkeeps.1 hkeeps.2
    have hmem : current ∈ ports.filter (isSelected port canonical) := by
      rw [honly]
      exact List.mem_singleton_self _
    exact ⟨current, timeout, ports, t, hlist, (List.mem_filter.mp hmem).1, hrom, hcurrent,
      by rw [hkeeps.1], hobserved, hlocation.trans hphysical⟩
  · obtain ⟨hmac, hphysical⟩ := identityOf_some hchosen.identity
    obtain ⟨port, canonical, timeout', ports', required, -, -, -, -, hrequired, hhas⟩ :=
      hchosen.selected
    rw [ho] at hrequired
    obtain ⟨id', rfl, hbound⟩ := required_bound hrequired
    have hcurrent := hhas id' rfl
    have hlocations : id'.location = cid.location :=
      Option.some.inj ((hasIdentity_iff.mp hcurrent).2.symm.trans hphysical)
    simp only [keepsIdentity, hlocation, hobserved, Bool.and_eq_true, decide_eq_true_eq,
      true_and] at hkeeps
    rw [← hmac, ← hlocations] at hkeeps
    obtain rfl := bound_eq hbound hcurrent hkeeps.1 hkeeps.2
    obtain rfl : cid = id' := by
      have hmacs := Option.some.inj (hmac.symm.trans hkeeps.1)
      cases cid
      cases id'
      simp_all
    have hmem : rom ∈ ports.filter fun item => nativeRom item && hasIdentity cid item := by
      rw [honly]
      exact List.mem_singleton_self _
    obtain ⟨hports, hmatch⟩ := List.mem_filter.mp hmem
    rw [Bool.and_eq_true] at hmatch
    exact ⟨rom, timeout, ports, t, hbehind.mem, hports, hmatch.1, hmatch.2, rfl, hobserved,
      hlocation⟩

theorem watchTurn_spec {G X : World State Call.Value Thrown → Prop} (hG : Stable G)
    (hX : ∀ w, G w → X w) (id : Identity) (deadline : ℚ) :
    Triple G (watchTurn id deadline) (fun _ => G) X := by
  unfold watchTurn
  refine hG.skip hX (by rfl) fun (t : ℚ) => ?_
  split_ifs
  · exact .pure fun _ hw => hw
  refine .bind (checkAbort_spec hG hX) fun _ => ?_
  refine .bind (Q := fun _ => G) (orFail_spec hG hX (.bind (remaining_spec hG (fun _ hw => hw) _)
    fun timeout => (hG.ask (fun _ hw => hw) (by rfl)).post fun _ _ hw => hw.1) _) fun e => ?_
  refine .bind (checkAbort_spec hG hX) fun _ => ?_
  refine hG.skip hX (by rfl) fun (t : ℚ) => .passed hX fun _ => ?_
  refine .given hX fun ports _ => .given hX fun found _ => ?_
  cases found with
  | some runtime => exact .pure fun _ hw => hw
  | none => exact .bind (pause_spec hG hX deadline) fun _ => .pure fun _ hw => hw

/-- No session was opened, or it was settled as that of a preparation bound to the device. -/
def RecoverSettled (previous : Previous) (log : Log) : Prop :=
  (∀ o, Tally o 0 0 0 log) ∨ ∃ id o, boundIdentity previous = some id ∧
    o.expectedIdentity = some (.bound id) ∧ Settled o log

/-- The result is that of a preparation bound to the device, and a ROM of the device. -/
def Recovered (previous : Previous) (log : Log) (p : Prepared) : Prop :=
  ∃ id o result recovery, boundIdentity previous = some id ∧
    o.expectedIdentity = some (.bound id) ∧ (Itself o log result ∨ Rebound o log result) ∧
    p = result.recovered recovery ∧ IsRomOf id log p

lemma IsRomOf.recovered {id : Identity} {log : Log} {p : Prepared} (h : IsRomOf id log p)
    (recovery : Recovery) : IsRomOf id log (p.recovered recovery) := by
  obtain ⟨rom, timeout, ports, t, hlist, hmem, hrom, hhas, rfl, hobserved, hlocation⟩ := h
  exact ⟨rom, timeout, ports, { t with recovery := some recovery }, hlist, hmem, hrom, hhas, rfl,
    hobserved, hlocation⟩

theorem recover_spec (fuel : ℕ) (previous : Previous) (timeout : Js) :
    Triple (fun w => ∀ o, Tally o 0 0 0 w.log) (recoverNodeRomPort fuel previous timeout)
      (fun r w => RecoverSettled previous w.log ∧ (r = some none → ∀ o, Tally o 0 0 0 w.log) ∧
        ∀ p, r = some (some p) → Recovered previous w.log p)
      fun w => RecoverSettled previous w.log := by
  have hG : Stable fun w => ∀ o, Tally o 0 0 0 w.log := fun _ _ he h o => (h o).passive he
  have hX : ∀ w : World State Call.Value Thrown, (∀ o, Tally o 0 0 0 w.log) →
      RecoverSettled previous w.log := fun _ h => .inl h
  refine .bind (checkAbort_spec hG hX) fun _ => .given hX fun ms _ => ?_
  cases hid : boundIdentity previous with
  | none => exact .pure fun w hw => ⟨hX w hw, fun _ => hw, fun _ h => nomatch h⟩
  | some id =>
    refine hG.skip hX (by rfl) fun (t : ℚ) => ?_
    refine .bind (Triple.waitFor (I := fun _ w => ∀ o, Tally o 0 0 0 w.log)
      (Q := fun _ w => ∀ o, Tally o 0 0 0 w.log)
      (fun _ => (watchTurn_spec hG hX id (t + ms)).post fun turn w hw => ?_) 0 fuel) fun r => ?_
    · cases turn <;> exact hw
    · rcases r with _ | _ | runtime
      · exact .pure fun w hw => ⟨hX w hw, fun h => (nomatch h), fun _ h => nomatch h⟩
      · exact .pure fun w hw => ⟨hX w hw, fun _ => hw, fun _ h => nomatch h⟩
      · have hsettled : ∀ (w : World State Call.Value Thrown) {o : Options},
            o.expectedIdentity = some (.bound id) → Settled o w.log →
            RecoverSettled previous w.log := fun _ _ ho h => .inr ⟨id, _, hid, ho, h⟩
        refine .bind (((prepare_spec fuel _).pre fun w hw => hw _).conseq (fun _ hw => hw)
          (fun _ _ hw => hw) fun w hw => hsettled w rfl hw) fun r => ?_
        cases r with
        | none =>
          exact .pure fun w hw => ⟨hsettled w rfl hw.1, fun h => (nomatch h), fun _ h => nomatch h⟩
        | some result =>
          refine .passed (fun w hw => hsettled w rfl hw.1) fun hkeeps => .pure fun w hw =>
            ⟨hsettled w rfl hw.1, fun h => (nomatch h), ?_⟩
          rintro _ ⟨⟩
          have hresult := hw.2 result rfl
          exact ⟨id, _, result, _, hid, rfl, hresult, rfl,
            (isRomOf_of_prepared rfl hresult (Bool.not_eq_false _ ▸ hkeeps)).recovered _⟩

/-! ## The loops end -/

def isSlept : Event Call.Value Thrown → Bool
  | ⟨.sleep _, .ok _⟩ => true
  | _ => false

/-- How often the module slept. -/
def sleeps (log : Log) : ℕ := log.countP isSlept

/-- The clock gains at least `rate` with every sleep. -/
def ClockAdvances (rate : ℚ) (log : Log) : Prop :=
  ∀ before middle rest t t',
    log = before ++ succeeded .now t :: (middle ++ succeeded .now t' :: rest) →
      t + rate * sleeps middle ≤ t'

/-- The clock was read as `t`, and the module has slept this often since. -/
def Since (t : ℚ) (slept : ℕ) (log : Log) : Prop :=
  ∃ before rest, log = before ++ succeeded .now t :: rest ∧ slept ≤ sleeps rest

/-- Behind that many sleeps the clock was still less than the timeout after its first reading. -/
def Early (t timeout : ℚ) (slept : ℕ) (log : Log) : Prop :=
  ∃ t', Behind (Since t slept) (succeeded .now t') log ∧ t' < t + timeout

section Time

variable {t timeout : ℚ} {k : ℕ} {log : Log} {G X : World State Call.Value Thrown → Prop}

lemma Since.snoc (h : Since t k log) (e : Event Call.Value Thrown) : Since t k (log ++ [e]) := by
  obtain ⟨before, rest, rfl, hk⟩ := h
  refine ⟨before, rest ++ [e], by simp, hk.trans ?_⟩
  simp [sleeps]

lemma Since.slept (h : Since t k log) (ms : ℚ) (v : Unit) :
    Since t (k + 1) (log ++ [⟨.sleep ms, .ok v⟩]) := by
  obtain ⟨before, rest, rfl, hk⟩ := h
  refine ⟨before, rest ++ [⟨.sleep ms, .ok v⟩], by simp, ?_⟩
  rw [sleeps, List.countP_append]
  exact Nat.add_le_add_right hk 1

lemma stable_since : Stable fun w => Since t k w.log := fun _ e _ h => h.snoc e

lemma stable_early : Stable fun w => Early t timeout k w.log := fun _ e _ ⟨t', h, ht⟩ =>
  ⟨t', h.snoc e, ht⟩

/-- A clock that advances is not early for long. -/
theorem early_lt {rate : ℚ} (h : Early t timeout k log) (hclock : ClockAdvances rate log)
    (hrate : 0 ≤ rate) : rate * k < timeout := by
  obtain ⟨t', ⟨_, rest, rfl, before, middle, rfl, hk⟩, ht⟩ := h
  have hgain : t + rate * sleeps middle ≤ t' :=
    hclock before middle rest t t' (by simp)
  have hmono : rate * k ≤ rate * sleeps middle :=
    mul_le_mul_of_nonneg_left (by exact_mod_cast hk) hrate
  linarith

/-- What a turn is that does not end its loop. -/
def Again {α : Type} (t timeout : ℚ) (k : ℕ) (turn : Turn α) (log : Log) : Prop :=
  turn = .again → Since t (k + 1) log ∧ Early t timeout k log

theorem sleep_since (hX : ∀ w, X w) (ms : ℚ) :
    Triple (fun w => Since t k w.log ∧ Early t timeout k w.log) (ask (.sleep ms))
      (fun _ w => Since t (k + 1) w.log ∧ Early t timeout k w.log) X :=
  .call (fun v w hw => ⟨hw.1.slept ms v, stable_early w _ (by rfl) hw.2⟩) fun _ _ _ => hX _

theorem pause_since (hX : ∀ w, X w) (deadline : ℚ) :
    Triple (fun w => Since t k w.log ∧ Early t timeout k w.log) (pause deadline)
      (fun _ w => Since t (k + 1) w.log ∧ Early t timeout k w.log) X :=
  (stable_since.and stable_early).skip (fun w _ => hX w) (by rfl) fun _ => sleep_since hX _

variable (timeout) in
/-- A reading of the clock before the deadline. -/
theorem now_since {α : Type} {Q : α → World State Call.Value Thrown → Prop} {f : ℚ → Flow α}
    (hX : ∀ w, X w)
    (next : ∀ t', Triple (fun w => Since t k w.log ∧ (t' < t + timeout → Early t timeout k w.log))
      (f t') Q X) :
    Triple (fun w => Since t k w.log) (ask .now >>= f) Q X :=
  .bind (.call (fun t' _ hw => ⟨hw.snoc _, fun ht => ⟨t', .here hw, ht⟩⟩) fun _ _ _ => hX _) next

theorem waitFor_since {α : Type} {turn : Flow (Turn α)} {Q : Option α → Prop}
    (hturn : ∀ k, Triple (fun w => Since t k w.log) turn (fun r w => Again t timeout k r w.log ∧
      (r = .quit → Q none) ∧ ∀ a, r = .found a → Q (some a)) fun _ => True) (fuel : ℕ) :
    Triple (fun w => Since t 0 w.log) (waitFor turn fuel)
      (fun r w => (r = none → ∀ j, fuel = j + 1 → Early t timeout j w.log) ∧
        ∀ a, r = some a → Q a) fun _ => True := by
  refine ((Triple.waitFor (Q := fun r _ => Q r) (X := fun _ => True)
    (I := fun k w => Since t k w.log ∧ ∀ j, k = j + 1 → Early t timeout j w.log)
    (fun k => ?_) 0 fuel).pre fun w hw => ⟨hw, fun _ h => nomatch h⟩).post fun r w hw => ?_
  · refine ((hturn k).pre fun _ hw => hw.1).post fun r w hw => ?_
    cases r with
    | found a => exact hw.2.2 a rfl
    | quit => exact hw.2.1 rfl
    | again =>
      obtain ⟨hsince, hearly⟩ := hw.1 rfl
      exact ⟨hsince, fun j hj => Nat.succ.inj hj ▸ hearly⟩
  · cases r with
    | none =>
      rw [Nat.zero_add] at hw
      exact ⟨fun _ => hw.2, fun _ h => nomatch h⟩
    | some r => exact ⟨fun h => (nomatch h), fun a ha => Option.some.inj ha ▸ hw⟩

lemma always {α : Type} {P : World State Call.Value Thrown → Prop} (p : Flow α) :
    Triple P p (fun _ _ => True) fun _ => True := by
  intro env w _
  rcases p env w with ⟨w', e | a⟩ <;> trivial

theorem resolveTurn_since (port : String) (k : ℕ) :
    Triple (fun w => Since t k w.log) (resolveTurn port (t + timeout))
      (fun r w => Again t timeout k r w.log ∧ r ≠ .quit) fun _ => True := by
  refine .attempt (Y := fun w => Since t k w.log) ?_ fun error => ?_
  · refine stable_since.skip (fun _ hw => hw) (by rfl) fun (canonical : Js) => ?_
    cases canonical with
    | string canonical =>
      refine .passed (fun _ hw => hw) fun _ => .pure fun w hw => ⟨fun h => (nomatch h), ?_⟩
      exact fun h => nomatch h
    | _ => exact .fail fun _ hw => hw
  · refine .bind (checkAbort_spec stable_since fun _ _ => trivial) fun _ => ?_
    refine .given (fun _ _ => trivial) fun _ _ => .passed (fun _ _ => trivial) fun _ => ?_
    refine now_since timeout (fun _ => trivial) fun t' => ?_
    refine .passed (fun _ _ => trivial) fun hlate => ?_
    refine .bind (Q := fun _ w => Since t k w.log ∧ Early t timeout k w.log)
      (((stable_since.and stable_early).ask (fun _ _ => trivial) (by rfl)).conseq
        (fun w hw => ⟨hw.1, hw.2 (not_le.mp hlate)⟩) (fun _ _ hw => hw.1) fun _ h => h) fun _ => ?_
    refine .bind (sleep_since (fun _ => trivial) _) fun _ => .pure fun w hw => ⟨fun _ => hw, ?_⟩
    exact fun h => nomatch h

theorem resolve_since (fuel : ℕ) (port : String) :
    Triple (fun w => Since t 0 w.log) (resolve fuel port (t + timeout))
      (fun r w => r ≠ some none ∧
        (r = none → ∀ j, fuel = j + 1 → Early t timeout j w.log)) fun _ => True := by
  unfold resolve
  cases comKey (.string port) with
  | some key => exact .pure fun _ _ => ⟨fun h => (nomatch h), fun h => nomatch h⟩
  | none =>
    refine (waitFor_since (Q := fun a => a ≠ none) (fun k => ?_) fuel).post fun r w hw =>
      ⟨fun h => hw.2 none h rfl, hw.1⟩
    refine .bind (checkAbort_spec stable_since fun _ _ => trivial) fun _ => ?_
    exact (resolveTurn_since port k).post fun r w hw =>
      ⟨hw.1, fun h => absurd h hw.2, fun a _ h => nomatch h⟩

theorem rebindTurn_since (id : Identity) (k : ℕ) :
    Triple (fun w => Since t k w.log) (rebindTurn id (t + timeout))
      (fun r w => Again t timeout k r w.log) fun _ => True := by
  have htrivial : ∀ {P : World State Call.Value Thrown → Prop}, ∀ w, P w → True :=
    fun _ _ => trivial
  unfold rebindTurn
  refine now_since timeout (fun _ => trivial) fun t' => ?_
  by_cases hlate : t + timeout ≤ t'
  · rw [if_pos hlate]
    exact .pure fun _ _ h => nomatch h
  rw [if_neg hlate]
  have hG : Stable fun w => Since t k w.log ∧ Early t timeout k w.log :=
    stable_since.and stable_early
  refine Triple.pre (N := fun w => Since t k w.log ∧ Early t timeout k w.log) ?_
    fun w hw => ⟨hw.1, hw.2 (not_le.mp hlate)⟩
  refine .bind (checkAbort_spec hG htrivial) fun _ => ?_
  refine .bind (remaining_spec hG htrivial _) fun ms => .reading fun st => .pre ?_ fun _ hw => hw.1
  refine .bind ((listSerial_spec hG htrivial (F := fun _ => True) htrivial ms _).post
    fun _ _ hw => hw.1) fun e => ?_
  refine .bind (checkAbort_spec hG htrivial) fun _ => ?_
  refine hG.skip htrivial (by rfl) fun (t' : ℚ) => ?_
  by_cases hlate : t + timeout ≤ t'
  · rw [if_pos hlate]
    exact .pure fun _ _ h => nomatch h
  rw [if_neg hlate]
  refine .given htrivial fun found _ => ?_
  cases found with
  | none => exact .bind (pause_since (fun _ => trivial) _) fun _ => .pure fun _ hw _ => hw
  | some rom => exact .pure fun _ _ h => nomatch h

theorem watchTurn_since (id : Identity) (k : ℕ) :
    Triple (fun w => Since t k w.log) (watchTurn id (t + timeout))
      (fun r w => Again t timeout k r w.log) fun _ => True := by
  have htrivial : ∀ {P : World State Call.Value Thrown → Prop}, ∀ w, P w → True :=
    fun _ _ => trivial
  unfold watchTurn
  refine now_since timeout (fun _ => trivial) fun t' => ?_
  by_cases hlate : t + timeout ≤ t'
  · rw [if_pos hlate]
    exact .pure fun _ _ h => nomatch h
  rw [if_neg hlate]
  have hG : Stable fun w => Since t k w.log ∧ Early t timeout k w.log :=
    stable_since.and stable_early
  refine Triple.pre (N := fun w => Since t k w.log ∧ Early t timeout k w.log) ?_
    fun w hw => ⟨hw.1, hw.2 (not_le.mp hlate)⟩
  refine .bind (checkAbort_spec hG htrivial) fun _ => ?_
  refine .bind (Q := fun _ w => Since t k w.log ∧ Early t timeout k w.log) (orFail_spec hG htrivial
    (.bind (remaining_spec hG (fun _ hw => hw) _)
      fun ms => (hG.ask (fun _ hw => hw) (by rfl)).post fun _ _ hw => hw.1) _) fun e => ?_
  refine .bind (checkAbort_spec hG htrivial) fun _ => ?_
  refine hG.skip htrivial (by rfl) fun (t' : ℚ) => .passed htrivial fun _ => ?_
  refine .given htrivial fun ports _ => .given htrivial fun found _ => ?_
  cases found with
  | none => exact .bind (pause_since (fun _ => trivial) _) fun _ => .pure fun _ hw _ => hw
  | some runtime => exact .pure fun _ _ h => nomatch h

/-- A loop that starts with its deadline. -/
theorem waiting_since {α β : Type} {turn : ℚ → Flow (Turn α)} {f : Option (Option α) → Flow β}
    {Q : β → World State Call.Value Thrown → Prop} {fuel : ℕ}
    (hturn : ∀ t k, Triple (fun w => Since t k w.log) (turn (t + timeout))
      (fun r w => Again t timeout k r w.log) fun _ => True)
    (hnone : Triple (fun w => ∀ j, fuel = j + 1 → ∃ t, Early t timeout j w.log) (f none) Q
      fun _ => True)
    (hsome : ∀ r, Triple (fun _ => True) (f (some r)) Q fun _ => True) :
    Triple (fun _ => True)
      (ask .now >>= fun t : ℚ => waitFor (turn (t + timeout)) fuel >>= f) Q fun _ => True := by
  refine .bind (Q := fun (t : ℚ) w => Since t 0 w.log)
    (.call (fun t w _ => ⟨w.log, [], rfl, le_rfl⟩) fun _ _ _ => trivial) fun t => ?_
  refine .bind (waitFor_since (Q := fun _ => True) (fun k => (hturn t k).post fun r w hw =>
    ⟨hw, fun _ => trivial, fun _ _ => trivial⟩) fuel) fun r => ?_
  cases r with
  | none => exact hnone.pre fun w hw j hj => ⟨t, hw.1 rfl j hj⟩
  | some r => exact (hsome r).pre fun _ _ => trivial

lemma Early.mono {timeout' : ℚ} (h : Early t timeout k log) (hle : timeout ≤ timeout') :
    Early t timeout' k log :=
  h.imp fun _ ht => ⟨ht.1, by linarith [ht.2]⟩

lemma checkTimeout_le {message : String} {v : Js} {n : ℤ} (h : checkTimeout message v = .ok n) :
    (n : ℚ) ≤ 5000 := by
  unfold checkTimeout at h
  cases hn : v.safeInteger? with
  | none => rw [hn] at h; cases h
  | some m =>
    simp only [hn] at h
    split_ifs at h with hrange
    obtain rfl := Except.ok.inj h
    exact_mod_cast (not_lt.mp (not_or.mp hrange).2)

/-- A run that is still waiting has taken all its turns before the deadline. -/
def Waiting (fuel : ℕ) (log : Log) : Prop := ∀ j, fuel = j + 1 → ∃ t, Early t 5000 j log

theorem handOver_since (fuel : ℕ) (port : String) {ms : ℤ} (hms : (ms : ℚ) ≤ 5000)
    (current : Port) (id : Identity) :
    Triple (fun _ => True) (handOver fuel port ms current id)
      (fun r w => r = none → Waiting fuel w.log) fun _ => True := by
  refine .bind (always _) fun _ => .bind (always _) fun primary => .bind (always _) fun _ => ?_
  refine .bind (always _) fun late => .bind (always _) fun st => ?_
  cases (orError primary late).filter Thrown.truthy with
  | some error => exact .fail fun _ _ => trivial
  | none =>
    refine waiting_since (fun t k => rebindTurn_since id k) (.pure fun w hw _ => ?_) fun r => ?_
    · exact fun j hj => (hw j hj).imp fun t ht => ht.mono hms
    · cases r with
      | none => exact failWith_spec (fun _ _ => trivial) _ _
      | some rom =>
        exact .bind (always _) fun _ => .bind (always _) fun _ => .pure fun _ _ h => nomatch h

theorem prepare_since (fuel : ℕ) (o : Options) :
    Triple (fun _ => True) (prepareNodeRomPort fuel o)
      (fun r w => r = none → Waiting fuel w.log) fun _ => True := by
  have htrivial : ∀ {P : World State Call.Value Thrown → Prop}, ∀ w, P w → True :=
    fun _ _ => trivial
  refine .given htrivial fun port _ => .given htrivial fun ms hms => ?_
  refine .given htrivial fun required _ => .bind (always _) fun _ => ?_
  refine .bind (Q := fun (t : ℚ) w => Since t 0 w.log)
    (.call (fun t w _ => ⟨w.log, [], rfl, le_rfl⟩) fun _ _ _ => trivial) fun t => ?_
  refine .bind (resolve_since fuel port) fun r => ?_
  rcases r with _ | _ | canonical
  · exact .pure fun w hw _ j hj => ⟨t, (hw.2 rfl j hj).mono (checkTimeout_le hms)⟩
  · exact .pure fun w hw => absurd rfl hw.1
  · refine .bind (always _) fun _ => .bind (always _) fun e => ?_
    cases e with
    | none => exact .pure fun _ _ h => nomatch h
    | some e =>
      refine .bind (always _) fun _ => .given htrivial fun ports _ => ?_
      refine .given htrivial fun selection _ => ?_
      cases selection with
      | itself result => exact .pure fun _ _ h => nomatch h
      | runtime current id => exact handOver_since fuel port (checkTimeout_le hms) current id

theorem recover_since (fuel : ℕ) (previous : Previous) (timeout : Js) :
    Triple (fun _ => True) (recoverNodeRomPort fuel previous timeout)
      (fun r w => r = none → Waiting fuel w.log) fun _ => True := by
  refine .bind (always _) fun _ => .given (fun _ _ => trivial) fun ms hms => ?_
  cases boundIdentity previous with
  | none => exact .pure fun _ _ h => nomatch h
  | some id =>
    refine waiting_since (fun t k => watchTurn_since id k) (.pure fun w hw _ => ?_) fun r => ?_
    · exact fun j hj => (hw j hj).imp fun t ht => ht.mono (checkTimeout_le hms)
    · cases r with
      | none => exact .pure fun _ _ h => nomatch h
      | some runtime =>
        refine .bind (prepare_since fuel _) fun r => ?_
        cases r with
        | none => exact .pure fun w hw _ => hw rfl
        | some result => exact .passed (fun _ _ => trivial) fun _ => .pure fun _ _ h => nomatch h

lemma Waiting.refuted {fuel turns : ℕ} {rate : ℚ} (h : Waiting fuel log)
    (hfuel : fuel = turns + 1) (hrate : 5000 ≤ rate * turns) (hclock : ClockAdvances rate log) :
    False := by
  obtain ⟨t, hearly⟩ := h turns hfuel
  have hpos : 0 ≤ rate := by
    by_contra hneg
    have hle : rate * turns ≤ 0 :=
      mul_nonpos_of_nonpos_of_nonneg (not_le.mp hneg).le (Nat.cast_nonneg _)
    linarith
  exact absurd hrate (not_le.mpr (early_lt hearly hclock hpos))

end Time

/-! ## The identity of the port -/

/-- A run of the preparation: the device is disconnected exactly if it was created, the command
is submitted at most once and behind the matching identities, what is returned is the selected
port or the one ROM of the selected device, and the run ends where sleeping takes time. -/
structure PrepareSafe (fuel : ℕ) (o : Options) (log : Log)
    (r : Except Thrown (Option Prepared)) : Prop where
  settled : Settled o log
  returned : ∀ p, r = .ok (some p) → Itself o log p ∨ Rebound o log p
  ends : ∀ (rate : ℚ) (turns : ℕ), fuel = turns + 1 → 5000 ≤ rate * turns →
    ClockAdvances rate log → r ≠ .ok none

/-- A run of the recovery: the same of the preparation that is bound to the earlier device, and
nothing was opened where `null` is returned. -/
structure RecoverSafe (fuel : ℕ) (previous : Previous) (log : Log)
    (r : Except Thrown (Option (Option Prepared))) : Prop where
  settled : RecoverSettled previous log
  null : r = .ok (some none) → ∀ o, Tally o 0 0 0 log
  returned : ∀ p, r = .ok (some (some p)) → Recovered previous log p
  ends : ∀ (rate : ℚ) (turns : ℕ), fuel = turns + 1 → 5000 ≤ rate * turns →
    ClockAdvances rate log → r ≠ .ok none

lemma ends_of_since {α : Type} {fuel : ℕ} {p : Flow (Option α)}
    (h : Triple (fun _ => True) p (fun r w => r = none → Waiting fuel w.log) fun _ => True)
    (env : Partner Call.Value Thrown) (w : World State Call.Value Thrown) (rate : ℚ) (turns : ℕ)
    (hfuel : fuel = turns + 1) (hrate : 5000 ≤ rate * turns)
    (hclock : ClockAdvances rate (p env w).1.log) : (p env w).2 ≠ .ok none := by
  intro hnone
  have hends := h env w trivial
  rcases hrun : p env w with ⟨w', e | r⟩ <;> rw [hrun] at hends hclock hnone
  · cases hnone
  · exact (hends (Except.ok.inj hnone)).refuted hfuel hrate hclock

/-- However the collaborators answer, a port that is handed over is the selected device. -/
theorem rom_port_identity (env : Partner Call.Value Thrown) (st : State) (fuel : ℕ) :
    (∀ o, PrepareSafe fuel o (prepareNodeRomPort fuel o env ⟨st, []⟩).1.log
      (prepareNodeRomPort fuel o env ⟨st, []⟩).2) ∧
    ∀ previous timeout, RecoverSafe fuel previous
      (recoverNodeRomPort fuel previous timeout env ⟨st, []⟩).1.log
      (recoverNodeRomPort fuel previous timeout env ⟨st, []⟩).2 := by
  constructor
  · intro o
    have hspec := prepare_spec fuel o env ⟨st, []⟩ tally_nil
    have hends := ends_of_since (prepare_since fuel o) env ⟨st, []⟩
    rcases hrun : prepareNodeRomPort fuel o env ⟨st, []⟩ with ⟨w, e | r⟩ <;>
      rw [hrun] at hspec hends
    · exact ⟨hspec, fun _ h => (nomatch h), hends⟩
    · exact ⟨hspec.1, fun p hp => hspec.2 p (Except.ok.inj hp), hends⟩
  · intro previous timeout
    have hspec := recover_spec fuel previous timeout env ⟨st, []⟩ fun _ => tally_nil
    have hends := ends_of_since (recover_since fuel previous timeout) env ⟨st, []⟩
    rcases hrun : recoverNodeRomPort fuel previous timeout env ⟨st, []⟩ with ⟨w, e | r⟩ <;>
      rw [hrun] at hspec hends
    · exact ⟨hspec, fun h => (nomatch h), fun _ h => (nomatch h), hends⟩
    · exact ⟨hspec.1, fun h => hspec.2.1 (Except.ok.inj h),
        fun p hp => hspec.2.2 p (Except.ok.inj hp), hends⟩

end EspVision.NodeRomPort
