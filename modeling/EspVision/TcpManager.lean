import EspVision.LinkRegistry
import EspVision.TaskProgram

/-!
# The TCP socket manager (`ev_tcp`)

One task accepts connections, polls them and closes them. Other tasks invalidate links and leave
notices, which the manager answers. The registry of the links, the owner of the session and the
table of the preview observers are shared with them. A file descriptor stands for the connection
that was accepted under it, so no two connections share one.
-/
namespace EspVision.Tcp

open EvTransport TaskProgram

/-! ## The state -/

/-- `ev_tcp_link_t`; `none` is the descriptor -1. -/
structure TcpLink where
  fd : Option ℕ := none
  active : Bool := false
  claimedOnce : Bool := false
  idleReclaimArmed : Bool := false
  ref : LinkRef := {}
  acceptedMs : UInt32 := 0
  idleSinceMs : UInt32 := 0
  /-- `acceptedMs` on a clock that does not wrap. -/
  acceptedAtMs : ℕ := 0

/-- What is written down of a run. -/
inductive Event
  /-- A connection gets its slot, under this generation. -/
  | opened (fd slot : ℕ) (generation : UInt32)
  /-- `ev_tcp_link_close` is called. -/
  | noticed (link : LinkRef)
  /-- The manager takes a connection out of its slot because of the notice for this generation. -/
  | retired (fd slot : ℕ) (generation : UInt32)
  | closed (fd : ℕ)
  /-- The registry opens the slot under this generation. -/
  | issued (slot : ℕ) (generation : UInt32)
  /-- The link of the slot becomes an observer. -/
  | subscribed (slot : ℕ) (generation : UInt32)
  /-- The first byte of a preview frame goes to an observer. -/
  | started (link : LinkRef)
  deriving DecidableEq

/-- How a write ends. -/
inductive Sent
  | progress | wouldBlock | failed
  deriving DecidableEq

/-- Who holds `s_special_mutex`: nobody, a subscription, or the TX worker that has authorized the
start of a preview frame for the link. -/
inductive Special
  | free | control | worker (link : LinkRef)
  deriving DecidableEq

/-- `s_links`, `s_listener` and the close notices of `ev_tcp`, the link registry, the owner of the
session, `s_observer_generations` and the observer frames of which no byte was sent. -/
structure State where
  registry : Registry
  links : ℕ → TcpLink := fun _ => {}
  closePending : ℕ → Bool := fun _ => false
  closeGeneration : ℕ → UInt32 := fun _ => 0
  listener : Option String := none
  listenerRetryAtMs : UInt32 := 0
  lastNetworkPollMs : UInt32 := 0
  owner : Option LinkRef := none
  observers : ℕ → UInt32 := fun _ => 0
  special : Special := .free
  frames : List LinkRef := []
  nowMs : ℕ := 0
  /-- How many connections have been accepted. -/
  accepted : ℕ := 0
  log : List Event := []
  /-- The connections that this sweep finds never claimed and past the handshake deadline. -/
  due : List ℕ := []
  /-- The connections whose link this sweep finds invalidated, with no notice left yet. -/
  orphaned : List ℕ := []
  /-- The connections so old that the clock has gone round, to less than the handshake deadline. -/
  outlived : List ℕ := []

def handshakeTimeoutMs : UInt32 := 3000
def reclaimIdleTimeoutMs : UInt32 := 30000
def networkPollMs : UInt32 := 100

/-- `EV_TRANSPORT_PREVIEW_OBSERVERS`. -/
def previewObservers : ℕ := 2

namespace State

variable (s : State)

/-- `ev_tcp_now_ms`. -/
def clock : UInt32 := UInt32.ofNat s.nowMs

def setLink (slot : ℕ) (l : TcpLink) : State :=
  { s with links := fun k => if k = slot then l else s.links k }

def note (e : Event) : State := { s with log := s.log ++ [e] }

/-- `ev_tcp_close_requested`. -/
def closeRequested (slot : ℕ) (generation : UInt32) : Bool :=
  s.closePending slot && s.closeGeneration slot == generation

/-- `ev_tcp_link_matches_locked`. -/
def linkMatches (link : LinkRef) : Bool :=
  link.transportId = .tcp && link.slot < tcpLinks && (s.links link.slot).active &&
    (s.links link.slot).ref.generation == link.generation && (s.links link.slot).fd.isSome &&
    !s.closeRequested link.slot link.generation

/-- `ev_mux_preview_subscribed`. -/
def subscribed (link : LinkRef) : Bool :=
  link.transportId = .tcp && link.slot < tcpLinks && link.generation != 0 &&
    s.observers link.slot == link.generation && s.registry.linkIsCurrent link

/-- The current link of the slot is an observer. -/
def slotSubscribed (slot : ℕ) : Bool :=
  match s.registry.linkRef .tcp slot with
  | none => false
  | some link => s.subscribed link

/-- `ev_tcp_mark_close_pending`. -/
def markClosePending (link : LinkRef) : State :=
  if link.transportId = .tcp ∧ link.slot < tcpLinks ∧ (s.links link.slot).active = true ∧
      (s.links link.slot).ref.generation = link.generation then
    { s with
      closePending := fun k => if k = link.slot then true else s.closePending k
      closeGeneration := fun k => if k = link.slot then link.generation else s.closeGeneration k }
  else s

/-- `ev_tcp_link_close`. -/
def linkClose (link : LinkRef) : State := (s.note (.noticed link)).markClosePending link

/-- The first half of `ev_transport_link_close`. -/
def invalidate (link : LinkRef) : State := { s with registry := s.registry.linkClose link }

/-- `ev_session_link_lost`, as far as the owner goes. -/
def linkLost (link : LinkRef) : State :=
  { s with owner := if s.owner = some link then none else s.owner }

/-- The connection gets its slot. -/
def occupy (slot fd : ℕ) (ref : LinkRef) : State :=
  (s.setLink slot ⟨some fd, true, false, false, ref, s.clock, 0, s.nowMs⟩).note
    (.opened fd slot ref.generation)

/-- The connection leaves its slot. -/
def detach (slot : ℕ) : State :=
  s.setLink slot { s.links slot with fd := none, active := false, ref := {} }

/-- The locked part of `ev_tcp_close_pending_links`. -/
def retire (slot : ℕ) (generation : UInt32) : Option ℕ × State :=
  let l := s.links slot
  if l.active = true ∧ l.ref.generation = generation then
    match l.fd with
    | some fd => (some fd, (s.detach slot).note (.retired fd slot generation))
    | none => (none, s.detach slot)
  else (none, s)

/-- `ev_tcp_free_slot`. -/
def freeSlot : Option ℕ :=
  (List.range tcpLinks).find? fun slot => !(s.links slot).active && (s.links slot).fd.isNone

/-- `ev_transport_link_open` for a slot of the port. -/
def issue (slot : ℕ) : Option LinkRef × State :=
  match s.registry.linkOpen .tcp slot with
  | none => (none, s)
  | some (registry, ref) =>
    (some ref, { s with registry := registry }.note (.issued slot ref.generation))

/-- The decision of `ev_mux_preview_subscribe`, which lets the mutex go. -/
def settle (link : LinkRef) (enable already : Bool) (count : ℕ) : State :=
  if enable = true ∧ already = false ∧ previewObservers ≤ count then { s with special := .free }
  else if enable = true then
    { s with
      special := .free
      observers := fun k => if k = link.slot then link.generation else s.observers k }.note
        (.subscribed link.slot link.generation)
  else
    { s with
      special := .free
      observers := fun k => if k = link.slot then 0 else s.observers k }

/-- The worker lets the mutex go, and the frame has left the queue. -/
def unqueued (link : LinkRef) : State :=
  { s with special := .free, frames := s.frames.erase link }

/-- The first write of a frame: the frame stays where the port would block, and leaves the queue
where the link is gone. -/
def handedOver (link : LinkRef) : Sent → State
  | .wouldBlock => { s with special := .free }
  | .failed => s.unqueued link
  | .progress =>
    if s.linkMatches link = true then (s.unqueued link).note (.started link) else s.unqueued link

end State

/-! ## What other tasks do -/

/-- A step of another task. -/
inductive Other
  /-- The two halves of `ev_transport_link_close`, one after the other or at once. -/
  | invalidate (link : LinkRef)
  | notice (link : LinkRef)
  | linkClose (link : LinkRef)
  /-- The session is released, expires or loses its link. -/
  | ownerLost
  /-- A serial link acquires the session. -/
  | ownerTaken (link : LinkRef)
  | wait (ms : ℕ)
  /-- A preview frame is queued for the observer in the slot. -/
  | publish (slot : ℕ)
  /-- The TX worker has made the last check before the first byte of the frame. -/
  | authorize (link : LinkRef)
  /-- It hands over the first bytes, unless it cannot. -/
  | send (sent : Sent)
  /-- A frame is replaced, expires or is cancelled. -/
  | drop (link : LinkRef)
  deriving DecidableEq

/-- A step of another task; only the manager acquires and subscribes for a TCP link. -/
def other : Other → State → Option State
  | .invalidate link, s => some (s.invalidate link)
  | .notice link, s => some (s.linkClose link)
  | .linkClose link, s => some ((s.invalidate link).linkClose link)
  | .ownerLost, s => some { s with owner := none }
  | .ownerTaken link, s =>
    if s.owner = none ∧ link.transportId ≠ .tcp then some { s with owner := some link } else none
  | .wait ms, s => some { s with nowMs := s.nowMs + ms }
  | .publish slot, s =>
    match s.registry.linkRef .tcp slot with
    | some link =>
      if s.special = .free ∧ s.subscribed link = true then
        some { s with frames := s.frames ++ [link] }
      else none
    | none => none
  | .authorize link, s =>
    if s.special = .free ∧ link ∈ s.frames ∧ s.subscribed link = true then
      some { s with special := .worker link }
    else none
  | .send sent, s =>
    match s.special with
    | .worker link => some (s.handedOver link sent)
    | _ => none
  | .drop link, s => if s.special = .free then some (s.unqueued link) else none

/-! ## The program of the manager -/

/-- A request that arrives on a link. -/
inductive Request
  | acquire
  | release
  | subscribe (enable : Bool)
  | reset
  deriving DecidableEq

/-- How `ev_transport_read` ends, with the requests in the bytes it got. -/
inductive Read
  | progress (requests : List Request)
  | wouldBlock
  | closed
  deriving DecidableEq

/-- What is decided outside: the address to listen at, whether a call succeeds, and what a read
gets. -/
structure Outcome where
  online : Option String := none
  done : Bool := true
  read : Read := .wouldBlock
  deriving DecidableEq

/-- Where the manager stands: before its next action, before it takes the session from a link that
it reclaims for idleness, or at the end of a sweep. -/
inductive Place
  | step
  | idle (link : LinkRef)
  | rest
  deriving DecidableEq

abbrev Task := Prog State Outcome Place

/-- Look at the state. -/
def look {α : Type} (f : State → α) : Task α := atomic .step fun _ s => (f s, s)

def change (f : State → State) : Task Unit := update .step f

/-- Whether a call outside succeeds. -/
def ask : Task Bool := atomic .step fun o s => (o.done, s)

/-- One body after the other, for the members of a list. -/
def forEach {β : Type} : List β → (β → Task Unit) → Task Unit
  | [], _ => pure ()
  | x :: rest, body => do
    body x
    forEach rest body

def closeFd (fd : ℕ) : Task Unit := change fun s => s.note (.closed fd)

/-- The body of `ev_tcp_close_pending_links`. -/
def closePendingLink (slot : ℕ) : Task Unit := do
  let notice ← look fun s => (s.closePending slot, s.closeGeneration slot)
  (if notice.1 then do
    let retired ← atomic .step fun _ s => s.retire slot notice.2
    (match retired with
      | some fd => closeFd fd
      | none => pure ())
    change fun s =>
      if s.closeGeneration slot = notice.2 then
        { s with closePending := fun k => if k = slot then false else s.closePending k }
      else s
  else pure () : Task Unit)

/-- `ev_tcp_close_pending_links`. -/
def closePendingLinks : Task Unit := forEach (List.range tcpLinks) closePendingLink

/-- `ev_transport_link_close`. -/
def transportLinkClose (link : LinkRef) : Task Unit := do
  change fun s => s.invalidate link
  change fun s => s.linkClose link

/-- `ev_session_link_lost`; `place` says why the link is given up. -/
def sessionLinkLost (place : Place) (link : LinkRef) : Task Unit :=
  update place fun s => s.linkLost link

/-- `ev_tcp_request_close_slot`. -/
def requestCloseSlot (slot : ℕ) (expected : Option LinkRef) (idle : Bool) : Task Unit := do
  let ref ← look fun s =>
    let l := s.links slot
    match expected with
    | none => if l.active then some l.ref else none
    | some e =>
      if l.active ∧ e.transportId = .tcp ∧ e.slot = slot ∧ l.ref.generation = e.generation then
        some l.ref
      else none
  match ref with
  | none => pure ()
  | some ref => do
    sessionLinkLost (if idle then .idle ref else .step) ref
    transportLinkClose ref
    closePendingLinks

/-- `ev_tcp_close_all_links`. -/
def closeAllLinks : Task Unit :=
  forEach (List.range tcpLinks) fun slot => requestCloseSlot slot none false

/-- `ev_tcp_sync_listener`. -/
def syncListener : Task Unit := do
  let online ← atomic .step fun o s => (o.online, s)
  let addressChanged ← look fun s => online.isSome && s.listener.isSome && s.listener != online
  (if online.isNone || addressChanged then do
    change fun s => { s with listener := none }
    closeAllLinks
  else pure () : Task Unit)
  atomic .step fun o s => ((),
    if online.isNone ∨ s.listener.isSome then s
    else if 0x80000000 ≤ s.clock - s.listenerRetryAtMs then s
    else if o.done then { s with listener := online, listenerRetryAtMs := 0 }
    else { s with listenerRetryAtMs := s.clock + 1000 })

/-- `ev_tcp_accept_one`. -/
def acceptOne : Task Unit := do
  let offered ← atomic .step fun o s =>
    if s.listener.isSome ∧ o.done = true then
      (some s.accepted, { s with accepted := s.accepted + 1 })
    else (none, s)
  match offered with
  | none => pure ()
  | some fd => do
    let configured ← ask
    (if configured = false then closeFd fd
    else do
      let free ← look State.freeSlot
      match free with
      | none => closeFd fd
      | some slot => do
        let ref ← atomic .step fun _ s => s.issue slot
        match ref with
        | none => closeFd fd
        | some ref => change fun s => s.occupy slot fd ref : Task Unit)

/-! ### Requests -/

/-- `hello` with `acquire`: an observer is refused, and a second owner too. A repeated `hello` with
the nonce of the session finds it as it is. -/
def acquire (link : LinkRef) : Task Unit := do
  let observer ← look fun s => s.subscribed link
  (if observer then pure ()
  else do
    let current ← look fun s => s.registry.linkIsCurrent link
    (if current = false then pure ()
    else do
      let granted ← atomic .step fun o s =>
        if s.owner = none then (true, { s with owner := some link })
        else (s.owner == some link && o.done, s)
      (if granted then do
        let still ← look fun s => s.registry.linkIsCurrent link
        let answered ← ask
        (if still = false || answered = false then sessionLinkLost .step link
        else pure () : Task Unit)
      else do
        -- `SESSION_BUSY` closes the link now if its answer cannot be queued
        let answered ← ask
        (if answered = false then transportLinkClose link else pure () : Task Unit) :
        Task Unit) : Task Unit) : Task Unit)

/-- `ev_mux_preview_subscribe`. -/
def subscribe (link : LinkRef) (enable : Bool) : Task Unit := do
  let current ← look fun s =>
    link.transportId = .tcp && link.slot < tcpLinks && s.registry.linkIsCurrent link
  let owner ← look fun s => s.owner == some link
  (if current = false || owner then pure ()
  else do
    let taken ← atomic .step fun o s =>
      if s.special = .free ∧ o.done = true then (true, { s with special := .control })
      else (false, s)
    (if taken = false then pure ()
    else do
      let zero ← look fun s => s.slotSubscribed 0
      let one ← look fun s => s.slotSubscribed 1
      let two ← look fun s => s.slotSubscribed 2
      let already ← look fun s => s.subscribed link
      change fun s => s.settle link enable already ([zero, one, two].count true) : Task Unit) :
      Task Unit)

/-- Nothing comes after `esp_restart`. -/
def halt : Task Unit := do
  let never ← forever .step (pure ())
  nomatch never

/-- `ev_tcp_link_close_for_reset` and `esp_restart`. -/
def resetDevice (link : LinkRef) : Task Unit := do
  let detached ← atomic .step fun o s =>
    if o.done = true ∧ s.linkMatches link = true then
      ((s.links link.slot).fd, s.detach link.slot)
    else (none, s)
  match detached with
  | none => halt
  | some fd => do
    -- without a linger option that is set the descriptor is left to the restart
    let configured ← ask
    (if configured then closeFd fd else pure () : Task Unit)
    halt

def handle (link : LinkRef) : Request → Task Unit
  | .acquire => acquire link
  | .release => sessionLinkLost .step link
  | .subscribe enable => subscribe link enable
  | .reset => resetDevice link

/-- `ev_control_transport_rx`. -/
def transportRx (link : LinkRef) (requests : List Request) : Task Unit := do
  let current ← look fun s => s.registry.linkIsCurrent link
  if current then forEach requests (handle link) else pure ()

/-! ### The sweep -/

/-- The link owns the session or observes the preview. -/
def held (link : LinkRef) : Task Bool := do
  let owned ← look fun s => s.owner == some link
  if owned then pure true else look fun s => s.subscribed link

/-- The slot still has the connection of the link. -/
def State.sameLink (s : State) (slot : ℕ) (ref : LinkRef) : Bool :=
  (s.links slot).active && (s.links slot).ref.generation == ref.generation

/-- The claim of a held link is written down. -/
def State.claim (s : State) (slot : ℕ) (ref : LinkRef) : State :=
  if s.sameLink slot ref = true then
    s.setLink slot { s.links slot with claimedOnce := true, idleReclaimArmed := false }
  else s

/-- The connection in the slot was never claimed and is past the handshake deadline. -/
def State.dueAt (s : State) (slot : ℕ) : Prop :=
  (s.links slot).active = true ∧ (s.links slot).claimedOnce = false ∧
    s.owner ≠ some (s.links slot).ref ∧ s.subscribed (s.links slot).ref = false ∧
    (s.links slot).acceptedAtMs + handshakeTimeoutMs.toNat ≤ s.nowMs

instance (s : State) (slot : ℕ) : Decidable (s.dueAt slot) := by
  unfold State.dueAt
  infer_instance

/-- A due connection is written down. -/
def State.noteDue (s : State) (slot : ℕ) : State :=
  match (s.links slot).fd with
  | some fd => if s.dueAt slot then { s with due := fd :: s.due } else s
  | none => s

/-- A connection whose link is invalidated, with no notice yet, is written down. -/
def State.noteOrphaned (s : State) (slot : ℕ) (ref : LinkRef) : State :=
  match (s.links slot).fd with
  | some fd =>
    if s.registry.linkIsCurrent ref = false ∧ s.closeRequested slot ref.generation = false then
      { s with orphaned := fd :: s.orphaned }
    else s
  | none => s

/-- A connection so old that the clock has gone round to less than the handshake deadline is written
down. -/
def State.noteOutlived (s : State) (slot : ℕ) : State :=
  match (s.links slot).fd with
  | some fd =>
    let age := s.nowMs - (s.links slot).acceptedAtMs
    if 2 ^ 32 ≤ age ∧ age % 2 ^ 32 < handshakeTimeoutMs.toNat then
      { s with outlived := fd :: s.outlived }
    else s
  | none => s

/-- The idle decision of `ev_tcp_poll_link`, under the lock. -/
def State.idleStep (s : State) (slot : ℕ) (ref : LinkRef) (receivedData : Bool) (now : UInt32) :
    Bool × State :=
  let l := s.links slot
  if s.sameLink slot ref = true then
    if l.claimedOnce = true then
      if l.idleReclaimArmed = false ∨ receivedData = true then
        (false, s.setLink slot { l with idleSinceMs := now, idleReclaimArmed := true })
      else (decide (reclaimIdleTimeoutMs ≤ now - l.idleSinceMs), s)
    else (decide (handshakeTimeoutMs ≤ now - l.acceptedMs), s)
  else (false, s)

/-- `ev_tcp_poll_link` from the read on. -/
def serveLink (slot : ℕ) (ref : LinkRef) : Task Unit := do
  let current ← look fun s => s.registry.linkIsCurrent ref
  let read ← atomic .step fun o s =>
    (if current = false then .closed
    else if o.done = false then .wouldBlock
    else if s.linkMatches ref = true then o.read
    else .closed, s)
  match read with
  | .closed => requestCloseSlot slot (some ref) false
  | _ => do
    (match read with
      | .progress requests => transportRx ref requests
      | _ => transportRx ref [] : Task Unit)
    let claimed ← held ref
    (if claimed then change fun s => s.claim slot ref
    else do
      let now ← look State.clock
      let reclaim ← atomic .step fun _ s =>
        s.idleStep slot ref (match read with
          | .progress _ => true
          | _ => false) now
      (if reclaim then requestCloseSlot slot (some ref) true else pure () : Task Unit) :
      Task Unit)

/-- `ev_tcp_poll_link` from the copy of the slot on. -/
def pollFrom (slot : ℕ) (l : TcpLink) : Task Unit :=
  if l.active = false then pure ()
  else do
    let current ← atomic .step fun _ s =>
      (s.registry.linkIsCurrent l.ref, s.noteOrphaned slot l.ref)
    (if current = false then closePendingLinks
    else do
      let claimed ← held l.ref
      (if claimed then do
        change fun s => s.claim slot l.ref
        serveLink slot l.ref
      else do
        let now ← atomic .step fun _ s => (s.clock, s.noteOutlived slot)
        (if l.claimedOnce = false ∧ handshakeTimeoutMs ≤ now - l.acceptedMs then
          requestCloseSlot slot (some l.ref) true
        else serveLink slot l.ref : Task Unit) : Task Unit) : Task Unit)

/-- `ev_tcp_poll_link`. -/
def pollLink (slot : ℕ) : Task Unit := do
  let l ← atomic .step fun _ s => (s.links slot, s.noteDue slot)
  pollFrom slot l

/-- One round of `ev_tcp_task`. -/
def round : Task Unit := do
  let due ← atomic .step fun _ s =>
    if networkPollMs ≤ s.clock - s.lastNetworkPollMs then
      (true, { s with lastNetworkPollMs := s.clock, due := [], orphaned := [], outlived := [] })
    else (false, { s with due := [], orphaned := [], outlived := [] })
  (if due then syncListener else pure () : Task Unit)
  closePendingLinks
  acceptOne
  forEach (List.range tcpLinks) pollLink
  closePendingLinks
  update .rest id

/-- `ev_tcp_task`. -/
def manager : Task Empty := forever .step round

/-- `ev_tcp_init0` and `ev_transport_init0`: no link is open. -/
def Fresh (s : State) : Prop :=
  ∃ registry, s = { registry := registry } ∧ registry.supported .tcp = true ∧
    ∀ slot, registry.links .tcp slot = {}

/-- The other tasks may take any of their steps at any place. -/
def Free : Place → Other → State → Prop := fun _ _ _ => True

instance (l : Place) (e : Other) (s : State) : Decidable (Free l e s) := .isTrue trivial

/-- The manager among other tasks. -/
def system : TransitionSystem.System (Prog State Outcome Place Empty × State)
    (Move Other Outcome) :=
  among manager Fresh other Free

end EspVision.Tcp
