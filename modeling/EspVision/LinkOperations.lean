import EspVision.TcpManager

/-!
# Operations on links (`ev_transport`, `ev_channel`, `ev_tcp`)

Any number of tasks open, close, advance, write to and route links, each call taking several
locked steps. A serial endpoint has a mutex that its writers and the changes of its generation
share; the sockets of the TCP links have the manager, whose accepts and closes are left open here.
-/
namespace EspVision.LinkOperations
open EvTransport

/-! ## The world -/

/-- `ev_io_result_t`: its status and the bytes transferred. -/
inductive IoResult
  | progress (transferred : ℕ)
  | wouldBlock
  | closed
  | error
  deriving DecidableEq

/-- What a call returns. -/
inductive Result
  | link (ref : Option LinkRef)
  | io (result : IoResult)
  | flag (ok : Bool)
  | unit
  deriving DecidableEq

/-- The calls that take the mutex of a serial endpoint. -/
inductive SerialOp
  | close
  | advance
  | write (data : List UInt8)
  deriving DecidableEq

/-- Where a task stands in its call. -/
inductive Place
  | idle (last : Result)
  /-- Before `ev_transport_serial_io_take`. -/
  | waiting (op : SerialOp) (link : LinkRef)
  /-- It has the mutex. -/
  | held (op : SerialOp) (link : LinkRef)
  /-- It has the mutex and has found the reference current. -/
  | writing (data : List UInt8) (link : LinkRef)
  /-- Before `ev_transport_serial_io_give`. -/
  | giving (id : TransportId) (result : Result)
  /-- Before `ev_tcp_link_writev`, having found the reference current. -/
  | tcpWrite (data : List UInt8) (link : LinkRef)
  /-- Before `ev_tcp_link_close`. -/
  | notice (link : LinkRef)
  /-- In `ev_channel_set_owner_link`, having found the reference current. -/
  | route (link : LinkRef)

inductive Call
  | open (id : TransportId) (slot : ℕ)
  | close (link : LinkRef)
  | advance (link : LinkRef)
  | write (link : LinkRef) (data : List UInt8)
  /-- `ev_transport_set_owner`. -/
  | setOwner (link : Option LinkRef)
  /-- `ev_channel_set_owner_link`. -/
  | setOwnerLink (link : Option LinkRef)
  /-- `ev_tcp_link_close_for_reset`. -/
  | closeForReset (link : LinkRef)

/-- How the backend answers a write: the bytes that it took, a lock that is busy, or an error. -/
inductive Backend
  | took (n : ℕ)
  | busy
  | failed (result : IoResult)
  deriving DecidableEq

/-- The registry and the sockets, who has the mutex of each serial endpoint, the owner link of
`ev_channel`, what each serial driver and each socket took, and the tasks. -/
structure World extends Tcp.State where
  io : TransportId → Option ℕ := fun _ => none
  ownerLink : Option LinkRef := none
  output : TransportId → List UInt8 := fun _ => []
  sent : ℕ → List UInt8 := fun _ => []
  tasks : ℕ → Place := fun _ => .idle .unit

/-- The registry that `ev_transport_init0` leaves. -/
def initRegistry (supported : TransportId → Bool) : Registry where
  links id slot := if id ≠ .tcp ∧ slot = 0 ∧ supported id = true then ⟨1, true⟩ else {}
  supported := supported
  owner := none

def World.init (supported : TransportId → Bool) : World where
  registry := initRegistry supported

namespace World

variable (w : World)

def goto (task : ℕ) (place : Place) : World :=
  { w with tasks := fun k => if k = task then place else w.tasks k }

def withRegistry (r : Registry) : World := { w with registry := r }

/-- Add to what the serial driver took. -/
def put (id : TransportId) (bytes : List UInt8) : World :=
  { w with output := fun i => if i = id then w.output i ++ bytes else w.output i }

/-- Add to what the socket in the slot took. -/
def send (slot : ℕ) (bytes : List UInt8) : World :=
  { w with sent := fun k => if k = slot then w.sent k ++ bytes else w.sent k }

/-! ## The calls -/

/-- The first step of a call. -/
def call (task : ℕ) : Call → World
  | .open id slot =>
    match w.registry.linkOpen id slot with
    | some (r, ref) => (w.withRegistry r).goto task (.idle (.link (some ref)))
    | none => w.goto task (.idle (.link none))
  | .close link =>
    if !validSlot link.transportId link.slot then w.goto task (.idle .unit)
    else if link.transportId = .tcp then
      (w.withRegistry (w.registry.linkClose link)).goto task (.notice link)
    else w.goto task (.waiting .close link)
  | .advance link =>
    if !validSlot link.transportId link.slot then w.goto task (.idle (.link none))
    else if link.transportId = .tcp then
      (w.withRegistry (w.registry.linkAdvanceGeneration link).1).goto task
        (.idle (.link (w.registry.linkAdvanceGeneration link).2))
    else w.goto task (.waiting .advance link)
  | .write link data =>
    if data = [] then w.goto task (.idle (.io .error))
    else if link.transportId = .tcp then
      if w.registry.linkIsCurrent link then w.goto task (.tcpWrite data link)
      else w.goto task (.idle (.io .closed))
    else w.goto task (.waiting (.write data) link)
  | .setOwner link => (w.withRegistry (w.registry.setOwner link)).goto task (.idle .unit)
  | .setOwnerLink none => { w with ownerLink := none }.goto task (.idle (.flag true))
  | .setOwnerLink (some link) =>
    if w.registry.linkIsCurrent link then w.goto task (.route link)
    else w.goto task (.idle (.flag false))
  | .closeForReset link =>
    if w.linkMatches link then
      { w with toState := w.detach link.slot }.goto task (.idle (.flag true))
    else w.goto task (.idle (.flag false))

/-- The step of a task that has the mutex. -/
def locked (task : ℕ) (link : LinkRef) : SerialOp → World
  | .close =>
    (w.withRegistry (w.registry.linkClose link)).goto task (.giving link.transportId .unit)
  | .advance =>
    (w.withRegistry (w.registry.linkAdvanceGeneration link).1).goto task
      (.giving link.transportId (.link (w.registry.linkAdvanceGeneration link).2))
  | .write data =>
    if w.registry.linkIsCurrent link then w.goto task (.writing data link)
    else w.goto task (.giving link.transportId (.io .closed))

/-- `ev_transport_serial_write`. -/
def serialWrite (task : ℕ) (data : List UInt8) (link : LinkRef) : Backend → World
  | .took n =>
    let bytes := data.take n
    (w.put link.transportId bytes).goto task (.giving link.transportId
      (.io (if bytes = [] then .wouldBlock else .progress bytes.length)))
  | _ => w.goto task (.giving link.transportId (.io .wouldBlock))

/-- `ev_tcp_link_writev`. -/
def tcpWritev (task : ℕ) (data : List UInt8) (link : LinkRef) : Backend → World
  | .busy => w.goto task (.idle (.io .wouldBlock))
  | .took n =>
    let bytes := data.take n
    if w.linkMatches link then
      (w.send link.slot bytes).goto task
        (.idle (.io (if bytes = [] then .closed else .progress bytes.length)))
    else w.goto task (.idle (.io .closed))
  | .failed result =>
    if w.linkMatches link then w.goto task (.idle (.io result))
    else w.goto task (.idle (.io .closed))

/-- The next step of a task; one that waits for a mutex stays where it is until it is free. -/
def resume (task : ℕ) (answer : Backend) : World :=
  match w.tasks task with
  | .idle _ => w
  | .waiting op link =>
    if w.io link.transportId = none then
      { w with io := fun i => if i = link.transportId then some task else w.io i }.goto task
        (.held op link)
    else w
  | .held op link => w.locked task link op
  | .writing data link => w.serialWrite task data link answer
  | .giving id result =>
    { w with io := fun i => if i = id then none else w.io i }.goto task (.idle result)
  | .tcpWrite data link => w.tcpWritev task data link answer
  | .notice link => { w with toState := w.linkClose link }.goto task (.idle .unit)
  | .route link => { w with ownerLink := some link }.goto task (.idle (.flag true))

end World

/-- A task that is idle calls, a task goes on, or the manager accepts and closes connections or
answers the notice of a slot and then forgets it. -/
inductive Move
  | call (task : ℕ) (c : Call)
  | resume (task : ℕ) (answer : Backend)
  | sockets (links : ℕ → Tcp.TcpLink)
  | retire (slot : ℕ)
  | forget (slot : ℕ)

def Place.isIdle : Place → Bool
  | .idle _ => true
  | _ => false

def World.step (w : World) : Move → World
  | .call task c => if (w.tasks task).isIdle then w.call task c else w
  | .resume task answer => w.resume task answer
  | .sockets links => { w with links := links }
  | .retire slot =>
    if w.closePending slot then
      { w with toState := (w.retire slot (w.closeGeneration slot)).2 }
    else w
  | .forget slot => { w with closePending := fun k => if k = slot then false else w.closePending k }

def World.run (w : World) (moves : List Move) : World := moves.foldl World.step w

/-- How often the generation of a slot changes in a run. -/
def World.changes (id : TransportId) (slot : ℕ) (w : World) : List Move → ℕ
  | [] => 0
  | m :: moves =>
    (if ((w.step m).registry.links id slot).generation = (w.registry.links id slot).generation
      then 0 else 1) + World.changes id slot (w.step m) moves

/-! ## The registry in a step -/

section
variable (w : World)

@[simp] theorem goto_toState (task : ℕ) (place : Place) :
    (w.goto task place).toState = w.toState := rfl

@[simp] theorem goto_io (task : ℕ) (place : Place) : (w.goto task place).io = w.io := rfl

@[simp] theorem goto_output (task : ℕ) (place : Place) :
    (w.goto task place).output = w.output := rfl

@[simp] theorem goto_sent (task : ℕ) (place : Place) : (w.goto task place).sent = w.sent := rfl

@[simp] theorem goto_tasks (task k : ℕ) (place : Place) :
    (w.goto task place).tasks k = if k = task then place else w.tasks k := rfl

@[simp] theorem withRegistry_toState (r : Registry) :
    (w.withRegistry r).toState = { w.toState with registry := r } := rfl

@[simp] theorem put_toState (id : TransportId) (bytes : List UInt8) :
    (w.put id bytes).toState = w.toState := rfl

@[simp] theorem send_toState (slot : ℕ) (bytes : List UInt8) :
    (w.send slot bytes).toState = w.toState := rfl

end

@[simp] theorem detach_registry (s : Tcp.State) (slot : ℕ) :
    (s.detach slot).registry = s.registry := rfl

@[simp] theorem tcpLinkClose_registry (s : Tcp.State) (link : LinkRef) :
    (s.linkClose link).registry = s.registry := by
  unfold Tcp.State.linkClose Tcp.State.markClosePending
  split_ifs <;> rfl

@[simp] theorem retire_registry (s : Tcp.State) (slot : ℕ) (generation : UInt32) :
    (s.retire slot generation).2.registry = s.registry := by
  unfold Tcp.State.retire
  dsimp only
  split_ifs
  · split <;> rfl
  · rfl

/-- No call does anything but advance slots. -/
theorem call_advances (w : World) (task : ℕ) (c : Call) :
    w.registry.Advances (w.call task c).registry := by
  cases c with
  | «open» id slot =>
    cases h : w.registry.linkOpen id slot with
    | none => simpa [World.call, h] using w.registry.advances_refl
    | some p => simpa [World.call, h] using Registry.linkOpen_advances h
  | close link =>
    dsimp only [World.call]
    split_ifs
    · exact w.registry.advances_refl
    · exact w.registry.linkClose_advances link
    · exact w.registry.advances_refl
  | advance link =>
    dsimp only [World.call]
    split_ifs
    · exact w.registry.advances_refl
    · exact w.registry.linkAdvanceGeneration_advances link
    · exact w.registry.advances_refl
  | write link data =>
    dsimp only [World.call]
    split_ifs <;> exact w.registry.advances_refl
  | setOwner link => exact ⟨rfl, fun _ _ => .inl rfl⟩
  | setOwnerLink link =>
    cases link with
    | none => exact w.registry.advances_refl
    | some link =>
      dsimp only [World.call]
      split_ifs <;> exact w.registry.advances_refl
  | closeForReset link =>
    dsimp only [World.call]
    split_ifs <;> exact w.registry.advances_refl

theorem resume_advances (w : World) (task : ℕ) (answer : Backend) :
    w.registry.Advances (w.resume task answer).registry := by
  unfold World.resume
  cases w.tasks task with
  | idle last => exact w.registry.advances_refl
  | waiting op link =>
    dsimp only
    split_ifs <;> exact w.registry.advances_refl
  | held op link =>
    cases op with
    | close => exact w.registry.linkClose_advances link
    | advance => exact w.registry.linkAdvanceGeneration_advances link
    | write data =>
      dsimp only [World.locked]
      split_ifs <;> exact w.registry.advances_refl
  | writing data link => cases answer <;> exact w.registry.advances_refl
  | giving id result => exact w.registry.advances_refl
  | tcpWrite data link =>
    cases answer with
    | busy => exact w.registry.advances_refl
    | took n =>
      dsimp only [World.tcpWritev]
      split_ifs <;> exact w.registry.advances_refl
    | failed result =>
      dsimp only [World.tcpWritev]
      split_ifs <;> exact w.registry.advances_refl
  | notice link => simpa using w.registry.advances_refl
  | route link => exact w.registry.advances_refl

theorem step_advances (w : World) (m : Move) : w.registry.Advances (w.step m).registry := by
  cases m with
  | call task c =>
    dsimp only [World.step]
    split_ifs
    · exact call_advances w task c
    · exact w.registry.advances_refl
  | resume task answer => exact resume_advances w task answer
  | sockets links => exact w.registry.advances_refl
  | retire slot =>
    dsimp only [World.step]
    split_ifs
    · simpa using w.registry.advances_refl
    · exact w.registry.advances_refl
  | forget slot => exact w.registry.advances_refl

@[simp] theorem run_cons (w : World) (m : Move) (moves : List Move) :
    w.run (m :: moves) = (w.step m).run moves := rfl

theorem run_append (w : World) (a b : List Move) : w.run (a ++ b) = (w.run a).run b :=
  List.foldl_append

theorem changes_append (w : World) (id : TransportId) (slot : ℕ) (a b : List Move) :
    w.changes id slot (a ++ b) = w.changes id slot a + (w.run a).changes id slot b := by
  induction a generalizing w with
  | nil => simp [World.changes, World.run]
  | cons m a ih => simp [World.changes, ih, Nat.add_assoc]

/-- A run takes a slot as many generations on as it has changes; without a change the slot's
record stays. -/
theorem run_generation (w : World) (moves : List Move) (id : TransportId) (slot : ℕ) :
    (w.run moves).registry.supported = w.registry.supported ∧
      ((w.run moves).registry.links id slot).generation =
        nextGeneration^[w.changes id slot moves] (w.registry.links id slot).generation ∧
      (w.changes id slot moves = 0 →
        (w.run moves).registry.links id slot = w.registry.links id slot) := by
  induction moves generalizing w with
  | nil => exact ⟨rfl, rfl, fun _ => rfl⟩
  | cons m moves ih =>
    obtain ⟨hs, hg, hzero⟩ := ih (w.step m)
    obtain ⟨hsupported, hlinks⟩ := step_advances w m
    rw [run_cons]
    refine ⟨hs.trans hsupported, ?_⟩
    rcases hlinks id slot with hsame | hnext
    · rw [hg]
      simp only [World.changes, hsame, if_true, Nat.zero_add]
      exact ⟨trivial, fun h => (hzero h).trans hsame⟩
    · have hne : ((w.step m).registry.links id slot).generation ≠
          (w.registry.links id slot).generation := hnext ▸ nextGeneration_ne _
      rw [hg, hnext]
      simp only [World.changes, if_neg hne]
      refine ⟨?_, fun h => by omega⟩
      rw [Nat.add_comm, Function.iterate_succ_apply]

/-- A reference that has stopped being current does not become current again while its slot
changes fewer times than there are generations. -/
theorem not_current_again {w : World} {link : LinkRef} {a b : List Move}
    (hcurrent : w.registry.linkIsCurrent link = true)
    (hstopped : (w.run a).registry.linkIsCurrent link = false)
    (hfew : w.changes link.transportId link.slot (a ++ b) < 2 ^ 32 - 1) :
    (w.run (a ++ b)).registry.linkIsCurrent link = false := by
  obtain ⟨hvalid, hsup, hopen, hgen⟩ := (Registry.linkIsCurrent_iff _ _).mp hcurrent
  have hpos : 0 < w.changes link.transportId link.slot a := by
    by_contra hnone
    obtain ⟨hs, -, hsame⟩ := run_generation w a link.transportId link.slot
    have hlinks := hsame (by omega)
    have hstill : (w.run a).registry.linkIsCurrent link = true :=
      (Registry.linkIsCurrent_iff _ _).mpr
        ⟨hvalid, by rw [hs]; exact hsup, by rw [hlinks]; exact hopen, by rw [hlinks]; exact hgen⟩
    rw [hstill] at hstopped
    exact absurd hstopped (by simp)
  obtain ⟨-, hlast, -⟩ := run_generation w (a ++ b) link.transportId link.slot
  have hne : nextGeneration^[w.changes link.transportId link.slot (a ++ b)] link.generation ≠
      link.generation := by
    refine iterate_nextGeneration_ne ?_ hfew
    rw [changes_append]
    omega
  rw [hgen] at hlast
  rw [← Bool.not_eq_true, Registry.linkIsCurrent_iff]
  rintro ⟨-, -, -, hback⟩
  exact hne (hlast.symm.trans hback)

/-! ## Who may change a serial endpoint -/

/-- The endpoint whose mutex the task has. -/
def Place.holds : Place → Option TransportId
  | .held _ link => some link.transportId
  | .writing _ link => some link.transportId
  | .giving id _ => some id
  | _ => none

/-- Only serial endpoints have a mutex. -/
def Place.Serial : Place → Prop
  | .waiting _ link => link.transportId ≠ .tcp
  | .held _ link => link.transportId ≠ .tcp
  | .writing _ link => link.transportId ≠ .tcp
  | .giving id _ => id ≠ .tcp
  | _ => True

/-- Whoever holds a mutex is recorded as its holder, and a write that has passed its check is
still a write to the current generation. -/
structure Guarded (w : World) : Prop where
  holder : ∀ t id, (w.tasks t).holds = some id → w.io id = some t
  serial : ∀ t, (w.tasks t).Serial
  writing : ∀ t data link, w.tasks t = .writing data link → w.registry.linkIsCurrent link = true
  owner : w.registry.OwnerCurrent

/-- A step of task `t` keeps the guard when it leaves the mutexes and the current links that
others hold. -/
lemma guarded_of {w w' : World} {t : ℕ} {place : Place} (h : Guarded w)
    (htasks : ∀ k, w'.tasks k = if k = t then place else w.tasks k)
    (hio : ∀ id k, k ≠ t → w.io id = some k → w'.io id = some k)
    (hheld : ∀ id, place.holds = some id → w'.io id = some t) (hserial : place.Serial)
    (hwriting : ∀ data link, place = .writing data link →
      w'.registry.linkIsCurrent link = true)
    (hkeeps : ∀ link : LinkRef, link.transportId ≠ .tcp → w.io link.transportId ≠ some t →
      w.registry.linkIsCurrent link = true → w'.registry.linkIsCurrent link = true)
    (howner : w'.registry.OwnerCurrent) : Guarded w' := by
  refine ⟨fun k id hk => ?_, fun k => ?_, fun k data link hk => ?_, howner⟩
  · rw [htasks] at hk
    split_ifs at hk with hkt
    · rw [hkt]
      exact hheld id hk
    · exact hio id k hkt (h.holder k id hk)
  · rw [htasks]
    split_ifs
    · exact hserial
    · exact h.serial k
  · rw [htasks] at hk
    split_ifs at hk with hkt
    · exact hwriting data link hk
    · have hserial' := h.serial k
      rw [hk] at hserial'
      refine hkeeps link hserial' ?_ (h.writing k data link hk)
      rw [h.holder k link.transportId (by rw [hk]; rfl)]
      exact fun he => hkt (Option.some.inj he)

/-- A step that ends or suspends a call with the registry as it is. -/
lemma guarded_goto {w w' : World} {t : ℕ} {place : Place} (h : Guarded w)
    (hregistry : w'.registry = w.registry) (hio : w'.io = w.io)
    (htasks : ∀ k, w'.tasks k = if k = t then place else w.tasks k)
    (hheld : place.holds = none) (hserial : place.Serial) : Guarded w' := by
  refine guarded_of h htasks (fun id k _ hk => by rw [hio]; exact hk)
    (fun id hid => ?_) hserial (fun data link hp => ?_) (fun link _ _ hc => ?_) ?_
  · rw [hheld] at hid
    cases hid
  · subst hp
    cases hheld
  · rw [hregistry]
    exact hc
  · rw [hregistry]
    exact h.owner

theorem guarded_call {w : World} (h : Guarded w) (t : ℕ) (c : Call) : Guarded (w.call t c) := by
  cases c with
  | «open» id slot =>
    dsimp only [World.call]
    cases ho : w.registry.linkOpen id slot with
    | none => exact guarded_goto h rfl rfl (fun _ => rfl) rfl trivial
    | some p =>
      exact guarded_of h (fun _ => rfl) (fun _ _ _ hk => hk) (fun _ hid => by cases hid) trivial
        (fun _ _ hp => by cases hp) (fun _ _ _ hc => Registry.linkOpen_current ho hc)
        (Registry.linkOpen_ownerCurrent ho h.owner)
  | close link =>
    dsimp only [World.call]
    split_ifs with _ htcp
    · exact guarded_goto h rfl rfl (fun _ => rfl) rfl trivial
    · refine guarded_of h (fun _ => rfl) (fun _ _ _ hk => hk) (fun _ hid => by cases hid) trivial
        (fun _ _ hp => by cases hp) (fun x hx _ hc => ?_)
        (Registry.linkClose_ownerCurrent link h.owner)
      exact Registry.linkClose_current hc fun he => hx (he ▸ htcp)
    · exact guarded_goto h rfl rfl (fun _ => rfl) rfl (by assumption)
  | advance link =>
    dsimp only [World.call]
    split_ifs with _ htcp
    · exact guarded_goto h rfl rfl (fun _ => rfl) rfl trivial
    · refine guarded_of h (fun _ => rfl) (fun _ _ _ hk => hk) (fun _ hid => by cases hid) trivial
        (fun _ _ hp => by cases hp) (fun x hx _ hc => ?_)
        (Registry.linkAdvanceGeneration_ownerCurrent link h.owner)
      exact (Registry.linkAdvanceGeneration_current fun he => hx (he.1.trans htcp)).trans hc
    · exact guarded_goto h rfl rfl (fun _ => rfl) rfl (by assumption)
  | write link data =>
    dsimp only [World.call]
    split_ifs with _ htcp
    · exact guarded_goto h rfl rfl (fun _ => rfl) rfl trivial
    · exact guarded_goto h rfl rfl (fun _ => rfl) rfl trivial
    · exact guarded_goto h rfl rfl (fun _ => rfl) rfl trivial
    · exact guarded_goto h rfl rfl (fun _ => rfl) rfl (by assumption)
  | setOwner link =>
    exact guarded_of h (fun _ => rfl) (fun _ _ _ hk => hk) (fun _ hid => by cases hid) trivial
      (fun _ _ hp => by cases hp) (fun _ _ _ hc => hc) (w.registry.setOwner_ownerCurrent link)
  | setOwnerLink link =>
    cases link with
    | none => exact guarded_goto h rfl rfl (fun _ => rfl) rfl trivial
    | some link =>
      dsimp only [World.call]
      split_ifs <;> exact guarded_goto h rfl rfl (fun _ => rfl) rfl trivial
  | closeForReset link =>
    dsimp only [World.call]
    split_ifs <;> exact guarded_goto h rfl rfl (fun _ => rfl) rfl trivial

/-- A task that keeps the mutex it has. -/
lemma guarded_holding {w w' : World} {t : ℕ} {place : Place} (h : Guarded w)
    (hsame : place.holds = (w.tasks t).holds) (hio : w'.io = w.io)
    (htasks : ∀ k, w'.tasks k = if k = t then place else w.tasks k) (hserial : place.Serial)
    (hwriting : ∀ data link, place = .writing data link →
      w'.registry.linkIsCurrent link = true)
    (hkeeps : ∀ link : LinkRef, link.transportId ≠ .tcp → w.io link.transportId ≠ some t →
      w.registry.linkIsCurrent link = true → w'.registry.linkIsCurrent link = true)
    (howner : w'.registry.OwnerCurrent) : Guarded w' := by
  refine guarded_of h htasks (fun _ _ _ hk => by rw [hio]; exact hk) (fun id hid => ?_) hserial
    hwriting hkeeps howner
  rw [hio]
  exact h.holder t id (hsame ▸ hid)

theorem guarded_resume {w : World} (h : Guarded w) (t : ℕ) (answer : Backend) :
    Guarded (w.resume t answer) := by
  have hserial := h.serial t
  have hholder := h.holder t
  unfold World.resume
  cases hplace : w.tasks t with
  | idle last => exact h
  | waiting op link =>
    rw [hplace] at hserial
    dsimp only
    split_ifs with hfree
    · refine guarded_of h (fun _ => rfl) (fun id k hk hid => ?_) (fun id hid => ?_) hserial
        (fun _ _ hp => by cases hp) (fun _ _ _ hc => hc) h.owner
      · have hne : id ≠ link.transportId := by
          rintro rfl
          rw [hfree] at hid
          cases hid
        simp [hne, hid]
      · obtain rfl := Option.some.inj hid
        simp
    · exact h
  | held op link =>
    rw [hplace] at hserial
    have hmutex : w.io link.transportId = some t := hholder _ (by rw [hplace]; rfl)
    -- another holder's endpoint is another endpoint
    have hother : ∀ x : LinkRef, w.io x.transportId ≠ some t →
        x.transportId ≠ link.transportId := fun x hx he => hx (he ▸ hmutex)
    cases op with
    | close =>
      refine guarded_holding h (by rw [hplace]; rfl) rfl (fun _ => rfl) hserial
        (fun _ _ hp => by cases hp) (fun x _ hx hc => ?_)
        (Registry.linkClose_ownerCurrent link h.owner)
      exact Registry.linkClose_current hc fun he => hother x hx (he ▸ rfl)
    | advance =>
      refine guarded_holding h (by rw [hplace]; rfl) rfl (fun _ => rfl) hserial
        (fun _ _ hp => by cases hp) (fun x _ hx hc => ?_)
        (Registry.linkAdvanceGeneration_ownerCurrent link h.owner)
      exact (Registry.linkAdvanceGeneration_current fun he => hother x hx he.1).trans hc
    | write data =>
      dsimp only [World.locked]
      split_ifs with hc
      · refine guarded_holding h (by rw [hplace]; rfl) rfl (fun _ => rfl) hserial
          (fun _ _ hp => ?_) (fun _ _ _ hc => hc) h.owner
        cases hp
        exact hc
      · exact guarded_holding h (by rw [hplace]; rfl) rfl (fun _ => rfl) hserial
          (fun _ _ hp => by cases hp) (fun _ _ _ hc => hc) h.owner
  | writing data link =>
    rw [hplace] at hserial
    cases answer <;>
      exact guarded_holding h (by rw [hplace]; rfl) rfl (fun _ => rfl) hserial
        (fun _ _ hp => by cases hp) (fun _ _ _ hc => hc) h.owner
  | giving id result =>
    have hmutex : w.io id = some t := hholder _ (by rw [hplace]; rfl)
    refine guarded_of h (fun _ => rfl) (fun i k hk hi => ?_) (fun _ hid => by cases hid) trivial
      (fun _ _ hp => by cases hp) (fun _ _ _ hc => hc) h.owner
    have hne : i ≠ id := by
      rintro rfl
      rw [hmutex] at hi
      exact hk (Option.some.inj hi).symm
    simp [hne, hi]
  | tcpWrite data link =>
    cases answer with
    | busy => exact guarded_goto h rfl rfl (fun _ => rfl) rfl trivial
    | took n =>
      dsimp only [World.tcpWritev]
      split_ifs <;> exact guarded_goto h rfl rfl (fun _ => rfl) rfl trivial
    | failed result =>
      dsimp only [World.tcpWritev]
      split_ifs <;> exact guarded_goto h rfl rfl (fun _ => rfl) rfl trivial
  | notice link =>
    exact guarded_goto h (by simp) rfl (fun _ => rfl) rfl trivial
  | route link => exact guarded_goto h rfl rfl (fun _ => rfl) rfl trivial

/-- A step of the manager leaves the registry, the mutexes and the tasks. -/
lemma guarded_manager {w w' : World} (h : Guarded w) (hregistry : w'.registry = w.registry)
    (hio : w'.io = w.io) (htasks : w'.tasks = w.tasks) : Guarded w' := by
  refine ⟨fun t id => ?_, fun t => ?_, fun t data link => ?_, ?_⟩
  · rw [htasks, hio]
    exact h.holder t id
  · rw [htasks]
    exact h.serial t
  · rw [htasks, hregistry]
    exact h.writing t data link
  · rw [hregistry]
    exact h.owner

theorem guarded_step {w : World} (h : Guarded w) (m : Move) : Guarded (w.step m) := by
  cases m with
  | call t c =>
    dsimp only [World.step]
    split_ifs
    · exact guarded_call h t c
    · exact h
  | resume t answer => exact guarded_resume h t answer
  | sockets links => exact guarded_manager h rfl rfl rfl
  | retire slot =>
    dsimp only [World.step]
    split_ifs
    · exact guarded_manager h (by simp) rfl rfl
    · exact h
  | forget slot => exact guarded_manager h rfl rfl rfl

theorem guarded_init (supported : TransportId → Bool) : Guarded (.init supported) where
  holder _ _ h := by cases h
  serial _ := trivial
  writing _ _ _ h := by cases h
  owner _ h := by cases h

theorem guarded_run {w : World} (h : Guarded w) (moves : List Move) : Guarded (w.run moves) := by
  induction moves generalizing w with
  | nil => exact h
  | cons m moves ih => exact ih (guarded_step h m)

/-! ## Stale references -/

/-- The reference that a call carries. -/
def Call.link : Call → Option LinkRef
  | .open _ _ => none
  | .close link => some link
  | .advance link => some link
  | .write link _ => some link
  | .setOwner link => link
  | .setOwnerLink link => link
  | .closeForReset link => some link

/-- The reference for which a task is in a call. -/
def Place.link : Place → Option LinkRef
  | .idle _ => none
  | .waiting _ link => some link
  | .held _ link => some link
  | .writing _ link => some link
  | .giving _ _ => none
  | .tcpWrite _ link => some link
  | .notice link => some link
  | .route link => some link

/-- The reference for which a step is taken; the manager retires a connection for the generation
in the notice. -/
def Move.link (w : World) : Move → Option LinkRef
  | .call _ c => c.link
  | .resume task _ => (w.tasks task).link
  | .sockets _ => none
  | .retire slot => some ⟨.tcp, slot, w.closeGeneration slot⟩
  | .forget _ => none

/-- What the manager has on a slot, and what its socket took. -/
def World.socket (w : World) (slot : ℕ) : Tcp.TcpLink × List UInt8 × Bool × UInt32 :=
  (w.links slot, w.sent slot, w.closePending slot, w.closeGeneration slot)

/-- The backend of the current link `c` is as it was: the serial driver has taken nothing more,
and the socket of this generation is untouched and under no new notice. -/
structure Untouched (w w' : World) (c : LinkRef) : Prop where
  output : c.transportId ≠ .tcp → w'.output c.transportId = w.output c.transportId
  socket : c.transportId = .tcp → (w.links c.slot).ref.generation = c.generation →
    w'.socket c.slot = w.socket c.slot

/-- The socket in the slot has the generation of the reference. -/
def World.Aimed (w : World) (link : LinkRef) (slot : ℕ) : Prop :=
  link.transportId = .tcp ∧ slot = link.slot ∧
    (w.links slot).ref.generation = link.generation

/-- A step that only touches a socket of the stale reference's own generation. -/
lemma untouched_of {w w' : World} {link c : LinkRef}
    (hstale : w.registry.linkIsCurrent link = false) (hc : w.registry.linkIsCurrent c = true)
    (hout : w'.output = w.output)
    (hsocket : ∀ slot, ¬w.Aimed link slot → w'.socket slot = w.socket slot) : Untouched w w' c := by
  refine ⟨fun _ => by rw [hout], fun htcp hgen => hsocket _ ?_⟩
  rintro ⟨hid, hslot, hgen'⟩
  have hsame : c = link := by
    have hg : c.generation = link.generation := hgen.symm.trans hgen'
    cases c
    cases link
    simp_all
  rw [← hsame, hc] at hstale
  cases hstale

lemma markClosePending_socket {s : Tcp.State} {link : LinkRef} {slot : ℕ}
    (h : ¬(link.transportId = .tcp ∧ slot = link.slot ∧
      (s.links slot).ref.generation = link.generation)) :
    (s.markClosePending link).links = s.links ∧
      (s.markClosePending link).closePending slot = s.closePending slot ∧
      (s.markClosePending link).closeGeneration slot = s.closeGeneration slot := by
  unfold Tcp.State.markClosePending
  split_ifs with hmark
  · obtain ⟨hid, -, -, hgen⟩ := hmark
    have hne : slot ≠ link.slot := by
      rintro rfl
      exact h ⟨hid, rfl, hgen⟩
    simp [hne]
  · exact ⟨rfl, rfl, rfl⟩

lemma linkClose_socket {w : World} {link : LinkRef} {slot : ℕ} (t : ℕ)
    (h : ¬w.Aimed link slot) :
    ({ w with toState := w.linkClose link }.goto t (.idle .unit)).socket slot = w.socket slot := by
  obtain ⟨h1, h2, h3⟩ := markClosePending_socket (s := w.toState.note (.noticed link)) h
  have hlinks : (w.toState.linkClose link).links slot = w.links slot := congrFun h1 slot
  exact Prod.ext hlinks (Prod.ext rfl (Prod.ext h2 h3))

lemma detach_socket (s : Tcp.State) {slot k : ℕ} (h : k ≠ slot) :
    (s.detach slot).links k = s.links k := if_neg h

lemma linkMatches_iff_aimed {w : World} {link : LinkRef} (h : w.linkMatches link = true) :
    w.Aimed link link.slot := by
  simp only [Tcp.State.linkMatches, Bool.and_eq_true, decide_eq_true_eq, beq_iff_eq] at h
  exact ⟨h.1.1.1.1.1, rfl, h.1.1.2⟩

lemma retire_socket (s : Tcp.State) (slot k : ℕ) (generation : UInt32)
    (h : ¬(k = slot ∧ (s.links k).ref.generation = generation)) :
    (s.retire slot generation).2.links k = s.links k ∧
      (s.retire slot generation).2.closePending = s.closePending ∧
      (s.retire slot generation).2.closeGeneration = s.closeGeneration := by
  unfold Tcp.State.retire
  dsimp only
  split_ifs with hactive
  · have hne : k ≠ slot := by
      rintro rfl
      exact h ⟨rfl, hactive.2⟩
    split
    · exact ⟨detach_socket s hne, rfl, rfl⟩
    · exact ⟨detach_socket s hne, rfl, rfl⟩
  · exact ⟨rfl, rfl, rfl⟩

/-- A step that leaves the links and the sockets of other generations. -/
def Harmless (w w' : World) (link : LinkRef) : Prop :=
  w'.registry.links = w.registry.links ∧ w'.output = w.output ∧
    ∀ slot, ¬w.Aimed link slot → w'.socket slot = w.socket slot

theorem call_harmless {w : World} {link : LinkRef} {c : Call} (t : ℕ)
    (hstale : w.registry.linkIsCurrent link = false) (hlink : c.link = some link) :
    Harmless w (w.call t c) link := by
  cases c with
  | «open» id slot => cases hlink
  | close l =>
    obtain rfl := Option.some.inj hlink
    dsimp only [World.call]
    rw [Registry.linkClose_of_not_current hstale]
    split_ifs <;> exact ⟨rfl, rfl, fun _ _ => rfl⟩
  | advance l =>
    obtain rfl := Option.some.inj hlink
    dsimp only [World.call]
    rw [Registry.linkAdvanceGeneration_of_not_current hstale]
    split_ifs <;> exact ⟨rfl, rfl, fun _ _ => rfl⟩
  | write l data =>
    dsimp only [World.call]
    split_ifs <;> exact ⟨rfl, rfl, fun _ _ => rfl⟩
  | setOwner l => exact ⟨rfl, rfl, fun _ _ => rfl⟩
  | setOwnerLink l =>
    obtain rfl : l = some link := hlink
    dsimp only [World.call]
    split_ifs <;> exact ⟨rfl, rfl, fun _ _ => rfl⟩
  | closeForReset l =>
    obtain rfl := Option.some.inj hlink
    dsimp only [World.call]
    split_ifs with hmatch
    · refine ⟨rfl, rfl, fun slot haim => ?_⟩
      have hne : slot ≠ l.slot := by
        rintro rfl
        exact haim (linkMatches_iff_aimed hmatch)
      exact Prod.ext (detach_socket _ hne) rfl
    · exact ⟨rfl, rfl, fun _ _ => rfl⟩

theorem resume_harmless {w : World} (h : Guarded w) {link : LinkRef} {t : ℕ} (answer : Backend)
    (hstale : w.registry.linkIsCurrent link = false) (hlink : (w.tasks t).link = some link) :
    Harmless w (w.resume t answer) link := by
  unfold World.resume
  cases hplace : w.tasks t with
  | idle last => exact ⟨rfl, rfl, fun _ _ => rfl⟩
  | waiting op l =>
    dsimp only
    split_ifs <;> exact ⟨rfl, rfl, fun _ _ => rfl⟩
  | held op l =>
    rw [hplace] at hlink
    obtain rfl := Option.some.inj hlink
    cases op with
    | close =>
      dsimp only [World.locked]
      rw [Registry.linkClose_of_not_current hstale]
      exact ⟨rfl, rfl, fun _ _ => rfl⟩
    | advance =>
      dsimp only [World.locked]
      rw [Registry.linkAdvanceGeneration_of_not_current hstale]
      exact ⟨rfl, rfl, fun _ _ => rfl⟩
    | write data =>
      dsimp only [World.locked]
      split_ifs <;> exact ⟨rfl, rfl, fun _ _ => rfl⟩
  | writing data l =>
    -- the mutex kept the generation since the check
    rw [hplace] at hlink
    obtain rfl := Option.some.inj hlink
    rw [h.writing t data l hplace] at hstale
    cases hstale
  | giving id result => exact ⟨rfl, rfl, fun _ _ => rfl⟩
  | tcpWrite data l =>
    rw [hplace] at hlink
    obtain rfl := Option.some.inj hlink
    cases answer with
    | busy => exact ⟨rfl, rfl, fun _ _ => rfl⟩
    | took n =>
      dsimp only [World.tcpWritev]
      by_cases hmatch : w.linkMatches l = true
      · rw [if_pos hmatch]
        refine ⟨rfl, rfl, fun slot haim => ?_⟩
        have hne : slot ≠ l.slot := by
          rintro rfl
          exact haim (linkMatches_iff_aimed hmatch)
        exact Prod.ext rfl (Prod.ext (if_neg hne) rfl)
      · rw [if_neg hmatch]
        exact ⟨rfl, rfl, fun _ _ => rfl⟩
    | failed result =>
      dsimp only [World.tcpWritev]
      split_ifs <;> exact ⟨rfl, rfl, fun _ _ => rfl⟩
  | notice l =>
    rw [hplace] at hlink
    obtain rfl := Option.some.inj hlink
    exact ⟨by simp, rfl, fun slot haim => linkClose_socket t haim⟩
  | route l => exact ⟨rfl, rfl, fun _ _ => rfl⟩

theorem step_harmless {w : World} (h : Guarded w) {link : LinkRef} {m : Move}
    (hstale : w.registry.linkIsCurrent link = false) (hlink : m.link w = some link) :
    Harmless w (w.step m) link := by
  cases m with
  | call t c =>
    dsimp only [World.step]
    split_ifs
    · exact call_harmless t hstale hlink
    · exact ⟨rfl, rfl, fun _ _ => rfl⟩
  | resume t answer => exact resume_harmless h answer hstale hlink
  | sockets links => cases hlink
  | retire slot =>
    obtain rfl := Option.some.inj hlink
    dsimp only [World.step]
    split_ifs
    · refine ⟨by simp, rfl, fun k haim => ?_⟩
      obtain ⟨h1, h2, h3⟩ := retire_socket w.toState slot k (w.closeGeneration slot)
        fun hk => haim ⟨rfl, hk.1, hk.2⟩
      exact Prod.ext h1 (Prod.ext rfl (Prod.ext (congrFun h2 k) (congrFun h3 k)))
    · exact ⟨rfl, rfl, fun _ _ => rfl⟩
  | forget slot => cases hlink

/-- In every run of any number of tasks from the boot state: a reference that has stopped being
current stays so while its slot changes fewer than 2^32 - 1 times, and a step that is taken for a
reference that is not current leaves every slot's generation and the backend of every current
link, and does not make the reference the owner. -/
theorem stale_links_inert (supported : TransportId → Bool) (before : List Move) :
    (∀ (link : LinkRef) (a b : List Move),
      ((World.init supported).run before).registry.linkIsCurrent link = true →
      (((World.init supported).run before).run a).registry.linkIsCurrent link = false →
      ((World.init supported).run before).changes link.transportId link.slot (a ++ b) <
        2 ^ 32 - 1 →
      (((World.init supported).run before).run (a ++ b)).registry.linkIsCurrent link = false) ∧
    ∀ (link : LinkRef) (m : Move), m.link ((World.init supported).run before) = some link →
      ((World.init supported).run before).registry.linkIsCurrent link = false →
      (((World.init supported).run before).step m).registry.links =
          ((World.init supported).run before).registry.links ∧
        (((World.init supported).run before).step m).registry.owner ≠ some link ∧
        ∀ c, ((World.init supported).run before).registry.linkIsCurrent c = true →
          Untouched ((World.init supported).run before)
            (((World.init supported).run before).step m) c := by
  refine ⟨fun link a b => not_current_again, fun link m hlink hstale => ?_⟩
  have hguard := guarded_run (guarded_init supported) before
  obtain ⟨hlinks, hout, hsocket⟩ := step_harmless hguard hstale hlink
  refine ⟨hlinks, fun howner => ?_, fun c hc => untouched_of hstale hc hout hsocket⟩
  have hcurrent := (guarded_step hguard m).owner link howner
  have hsame : (((World.init supported).run before).step m).registry.linkIsCurrent link =
      ((World.init supported).run before).registry.linkIsCurrent link := by
    unfold Registry.linkIsCurrent
    rw [hlinks, (step_advances _ m).1]
  rw [hsame, hstale] at hcurrent
  cases hcurrent

/-! ## The generations go round -/

/-- Advance the serial link of the slot in four steps, nobody else being there. -/
def rotate (link : LinkRef) : List Move :=
  [.call 0 (.advance link), .resume 0 .busy, .resume 0 .busy, .resume 0 .busy]

/-- Nobody holds the mutex, and the link is current. -/
def Resting (w : World) (link : LinkRef) : Prop :=
  (w.tasks 0).isIdle = true ∧ w.io .usj = none ∧ w.registry.linkIsCurrent link = true

/-- One rotation: the link moves to the next generation, and the endpoint rests again. -/
lemma rotate_spec {w : World} {generation : UInt32} (h : Resting w ⟨.usj, 0, generation⟩) :
    Resting (w.run (rotate ⟨.usj, 0, generation⟩)) ⟨.usj, 0, nextGeneration generation⟩ ∧
      w.changes .usj 0 (rotate ⟨.usj, 0, generation⟩) = 1 := by
  obtain ⟨hidle, hio, hcurrent⟩ := h
  obtain ⟨-, hsup, -, hgen⟩ := (Registry.linkIsCurrent_iff _ _).mp hcurrent
  set link : LinkRef := ⟨.usj, 0, generation⟩
  have h1 : w.step (.call 0 (.advance link)) = w.goto 0 (.waiting .advance link) := by
    simp [World.step, hidle, World.call, link, validSlot]
  set w₁ := w.goto 0 (.waiting .advance link)
  set w₂ : World := { w₁ with io := fun i => if i = TransportId.usj then some 0 else w₁.io i }.goto
    0 (.held .advance link)
  have h2 : w₁.step (.resume 0 .busy) = w₂ := by
    change w₁.resume 0 .busy = _
    simp only [World.resume, w₁, goto_tasks, if_true]
    exact if_pos hio
  set w₃ := (w₂.withRegistry (w.registry.linkAdvanceGeneration link).1).goto 0
    (.giving .usj (.link (w.registry.linkAdvanceGeneration link).2))
  have h3 : w₂.step (.resume 0 .busy) = w₃ := by
    change w₂.resume 0 .busy = _
    simp only [World.resume, w₂, goto_tasks, if_true]
    rfl
  set w₄ : World := { w₃ with io := fun i => if i = TransportId.usj then none else w₃.io i }.goto 0
    (.idle (.link (w.registry.linkAdvanceGeneration link).2))
  have h4 : w₃.step (.resume 0 .busy) = w₄ := by
    change w₃.resume 0 .busy = _
    simp only [World.resume, w₃, goto_tasks, if_true]
    rfl
  have hlinks : (w₃.registry.links .usj 0) = ⟨nextGeneration generation, true⟩ := by
    change ((w.registry.linkAdvanceGeneration link).1.links .usj 0) = _
    simp only [Registry.linkAdvanceGeneration, if_pos hcurrent]
    simp [link]
  have hrun : w.run (rotate link) = w₄ := by
    simp only [rotate, run_cons, h1, h2, h3, h4]
    rfl
  rw [hrun]
  refine ⟨⟨rfl, rfl, (Registry.linkIsCurrent_iff _ _).mpr ⟨rfl, ?_, ?_, ?_⟩⟩, ?_⟩
  · exact (w.registry.linkAdvanceGeneration_advances link).1.symm ▸ hsup
  · exact congrArg LinkState.isOpen hlinks
  · exact congrArg LinkState.generation hlinks
  · have hg : (w.registry.links .usj 0).generation = generation := hgen
    have hg₁ : (w₁.registry.links .usj 0).generation = generation := hgen
    have hg₂ : (w₂.registry.links .usj 0).generation = generation := hgen
    have hg₃ : (w₃.registry.links .usj 0).generation = nextGeneration generation :=
      congrArg LinkState.generation hlinks
    have hg₄ : (w₄.registry.links .usj 0).generation = nextGeneration generation := hg₃
    simp only [rotate, World.changes, h1, h2, h3, h4, hg, hg₁, hg₂, hg₃, hg₄, if_true,
      if_neg (nextGeneration_ne generation)]

/-- Rotations one after the other. -/
def rotations (generation : UInt32) (n : ℕ) : List Move :=
  (List.range n).flatMap fun i => rotate ⟨.usj, 0, nextGeneration^[i] generation⟩

lemma rotations_spec {w : World} {generation : UInt32} (h : Resting w ⟨.usj, 0, generation⟩)
    (n : ℕ) : Resting (w.run (rotations generation n)) ⟨.usj, 0, nextGeneration^[n] generation⟩ ∧
      w.changes .usj 0 (rotations generation n) = n := by
  induction n with
  | zero => exact ⟨h, rfl⟩
  | succ n ih =>
    obtain ⟨hrest, hchanges⟩ := ih
    obtain ⟨hrest', hone⟩ := rotate_spec hrest
    have hsnoc : rotations generation (n + 1) = rotations generation n ++
        rotate ⟨.usj, 0, nextGeneration^[n] generation⟩ := by
      simp [rotations, List.range_succ]
    rw [hsnoc, run_append, changes_append, hchanges, hone, Function.iterate_succ_apply']
    exact ⟨hrest', rfl⟩

/-- After 2^32 - 1 rotations of a serial link its first reference is current again, although it
was not current after one. -/
theorem current_again :
    ∃ (link : LinkRef) (a b : List Move),
      (World.init fun _ => true).registry.linkIsCurrent link = true ∧
      ((World.init fun _ => true).run a).registry.linkIsCurrent link = false ∧
      (World.init fun _ => true).changes link.transportId link.slot (a ++ b) < 2 ^ 32 ∧
      ((World.init fun _ => true).run (a ++ b)).registry.linkIsCurrent link = true := by
  have hstart : Resting (World.init fun _ => true) ⟨.usj, 0, 1⟩ := ⟨rfl, rfl, by decide⟩
  have hsplit : rotations 1 (2 ^ 32 - 1) = rotate ⟨.usj, 0, 1⟩ ++
      (List.range (2 ^ 32 - 2)).flatMap fun i => rotate ⟨.usj, 0, nextGeneration^[i + 1] 1⟩ := by
    unfold rotations
    rw [show 2 ^ 32 - 1 = 2 ^ 32 - 2 + 1 by norm_num, List.range_succ_eq_map, List.flatMap_cons,
      List.flatMap_map]
    rfl
  refine ⟨⟨.usj, 0, 1⟩, rotate ⟨.usj, 0, 1⟩, (List.range (2 ^ 32 - 2)).flatMap fun i =>
    rotate ⟨.usj, 0, nextGeneration^[i + 1] 1⟩, hstart.2.2, ?_, ?_, ?_⟩
  · obtain ⟨hrest, -⟩ := rotate_spec hstart
    rw [← Bool.not_eq_true]
    intro hold
    have hsame := Registry.linkIsCurrent_unique hold hrest.2.2 rfl rfl
    exact absurd (congrArg LinkRef.generation hsame) (by decide)
  · rw [← hsplit, (rotations_spec hstart (2 ^ 32 - 1)).2]
    norm_num
  · rw [← hsplit]
    have hround : nextGeneration^[2 ^ 32 - 1] 1 = 1 := by
      refine UInt32.toNat_inj.mp ?_
      rw [toNat_iterate_nextGeneration (by decide)]
      rfl
    have hlast := (rotations_spec hstart (2 ^ 32 - 1)).1.2.2
    rwa [hround] at hlast

end EspVision.LinkOperations
