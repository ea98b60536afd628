import EspVision.TransitionSystem
import Mathlib.Data.Fintype.Basic

/-!
# Tickets of synchronous submits

A slot of the ticket table is allocated for a caller that wants to wait for its frame. The worker
stores the result of the frame in a critical section and gives the slot's semaphore after it; the
caller looks, takes the semaphore, and looks again. Each critical section and each semaphore
operation is a step of its own, so the signal of a completion may come late.
-/
namespace EspVision.EvMux

open TransitionSystem

/-! ## Model -/

/-- `esp_err_t`. -/
abbrev EspErr := ℤ

def espErrInvalidState : EspErr := 0x103

/-- `EV_MUX_TICKET_COUNT`. -/
def ticketCount : ℕ := 8

/-- The generations of a slot: 24 bits. -/
def generationLimit : ℕ := 0x01000000

/-- `ev_mux_ticket_t`. -/
abbrev Ticket := ℕ

/-- `ev_mux_ticket_state_t`; the semaphore is binary. -/
structure Slot where
  allocated : Bool := false
  done : Bool := false
  forgotten : Bool := false
  generation : ℕ := 0
  result : EspErr := 0
  semaphore : Bool := false

/-- `ev_mux_ticket_encode`. -/
def ticketEncode (slot : Fin ticketCount) (generation : ℕ) : Ticket :=
  generation % generationLimit * 256 + (slot.val + 1)

/-- `ev_mux_ticket_decode`; `none` is `false`. -/
def ticketDecode (ticket : Ticket) : Option (Fin ticketCount × ℕ) :=
  if h : ticket % 256 ≠ 0 ∧ ticket % 256 ≤ ticketCount then
    if ticket / 256 ≠ 0 then
      some (⟨ticket % 256 - 1, (Nat.sub_lt (Nat.pos_of_ne_zero h.1) one_pos).trans_le h.2⟩,
        ticket / 256)
    else none
  else none

/-- Where a call of `ev_mux_wait` stands: in `xSemaphoreTake`, or before its second look. -/
inductive WaitPhase
  | blocked
  | reading
  deriving DecidableEq

structure Wait where
  ticket : Ticket
  start : ℕ
  ticks : ℕ
  phase : WaitPhase
  deriving DecidableEq

/-- The table, the tick count, the completions that have stored their result and not yet given the
semaphore, and the waits in flight. The counts of allocations and releases and the results stored
for each ticket record what has happened. -/
structure Tickets where
  slots : Fin ticketCount → Slot := fun _ => {}
  clock : ℕ := 0
  gives : List Ticket := []
  waits : List Wait := []
  allocations : Fin ticketCount → ℕ := fun _ => 0
  releases : Fin ticketCount → ℕ := fun _ => 0
  results : List (Ticket × EspErr) := []

/-- `ev_mux_ticket_lookup_locked`. -/
def Tickets.lookup (s : Tickets) (ticket : Ticket) : Option (Fin ticketCount) :=
  match ticketDecode ticket with
  | some (i, generation) =>
    if (s.slots i).allocated ∧ (s.slots i).generation = generation then some i else none
  | none => none

/-- The first slot that is not allocated. -/
def Tickets.firstFree (s : Tickets) : Option (Fin ticketCount) :=
  (List.finRange ticketCount).find? fun i => !(s.slots i).allocated

/-- The next generation of a slot; zero is skipped. -/
def nextGeneration (generation : ℕ) : ℕ :=
  if (generation + 1) % generationLimit = 0 then 1 else (generation + 1) % generationLimit

/-- `ev_mux_ticket_allocate`, which also empties the semaphore; the ticket is zero when no slot
is free. -/
def Tickets.allocate (s : Tickets) : Tickets × Ticket :=
  match s.firstFree with
  | none => (s, 0)
  | some i =>
    let generation := nextGeneration (s.slots i).generation
    ({ s with
      slots := Function.update s.slots i
        { allocated := true, generation := generation, result := espErrInvalidState }
      allocations := Function.update s.allocations i (s.allocations i + 1) },
      ticketEncode i generation)

/-- A slot goes back to the table. -/
def Tickets.release (s : Tickets) (i : Fin ticketCount) (slot : Slot) : Tickets :=
  { s with
    slots := Function.update s.slots i { slot with allocated := false }
    releases := Function.update s.releases i (s.releases i + 1) }

/-- The critical section of `ev_mux_ticket_complete`. -/
def Tickets.complete (s : Tickets) (ticket : Ticket) (result : EspErr) : Tickets :=
  match s.lookup ticket with
  | none => s
  | some i =>
    let slot := { s.slots i with done := true, result := result }
    let s := { s with results := s.results ++ [(ticket, result)] }
    if slot.forgotten then s.release i slot
    else { s with slots := Function.update s.slots i slot, gives := s.gives ++ [ticket] }

/-- The slot that a ticket names. -/
def ticketSlot (ticket : Ticket) : Option (Fin ticketCount) := (ticketDecode ticket).map (·.1)

/-- `xSemaphoreGive` at the end of `ev_mux_ticket_complete`. -/
def Tickets.give (s : Tickets) (k : ℕ) : Option Tickets :=
  (s.gives[k]?).map fun ticket =>
    let s := { s with gives := s.gives.eraseIdx k }
    match ticketSlot ticket with
    | some i => { s with slots := Function.update s.slots i { s.slots i with semaphore := true } }
    | none => s

/-- `ev_mux_ticket_forget`. -/
def Tickets.forget (s : Tickets) (ticket : Ticket) : Tickets :=
  match s.lookup ticket with
  | none => s
  | some i =>
    if (s.slots i).done then s.release i (s.slots i)
    else { s with slots := Function.update s.slots i { s.slots i with forgotten := true } }

/-- What `ev_mux_wait` returns. -/
inductive WaitResult
  | ok (result : EspErr)
  | timeout
  | invalidState
  | invalidArgument
  deriving DecidableEq

/-- `configTICK_RATE_HZ`, as every board sets it. -/
def tickRate : ℕ := 1000

/-- The ticks that a wait blocks for. -/
def waitTicks (timeoutMs : ℕ) : ℕ :=
  let ticks := timeoutMs * tickRate / 1000
  if timeoutMs ≠ 0 ∧ ticks = 0 then 1 else ticks

inductive TicketStep
  | allocate
  | complete (ticket : Ticket) (result : EspErr)
  | give (k : ℕ)
  | wait (ticket : Ticket) (timeoutMs : ℕ)
  | take (k : ℕ)
  | expire (k : ℕ)
  | read (k : ℕ)
  | forget (ticket : Ticket)
  | tick
  deriving DecidableEq

inductive TicketReply
  | none
  | ticket (ticket : Ticket)
  | waited (w : Wait) (result : WaitResult)
  deriving DecidableEq

/-- `ev_mux_wait` up to the end of its first critical section. -/
def Tickets.wait (s : Tickets) (ticket : Ticket) (timeoutMs : ℕ) : Tickets × TicketReply :=
  let w : Wait := ⟨ticket, s.clock, waitTicks timeoutMs, .blocked⟩
  match ticketDecode ticket with
  | none => (s, .waited w .invalidArgument)
  | some _ =>
    match s.lookup ticket with
    | none => (s, .waited w .invalidState)
    | some i =>
      let phase := if (s.slots i).done then .reading else .blocked
      ({ s with waits := s.waits ++ [{ w with phase := phase }] }, .none)

/-- `xSemaphoreTake` finds the semaphore given. -/
def Tickets.take (s : Tickets) (k : ℕ) : Option Tickets :=
  match s.waits[k]? with
  | some w =>
    match ticketSlot w.ticket with
    | some i =>
      if w.phase = .blocked ∧ (s.slots i).semaphore then
        some { s with
          slots := Function.update s.slots i { s.slots i with semaphore := false }
          waits := s.waits.set k { w with phase := .reading } }
      else none
    | none => none
  | none => none

/-- `xSemaphoreTake` has blocked for all of its ticks. -/
def Tickets.expire (s : Tickets) (k : ℕ) : Option (Tickets × TicketReply) :=
  match s.waits[k]? with
  | some w =>
    match ticketSlot w.ticket with
    | some i =>
      if w.phase = .blocked ∧ ¬(s.slots i).semaphore ∧ w.start + w.ticks ≤ s.clock then
        some ({ s with waits := s.waits.eraseIdx k }, .waited w .timeout)
      else none
    | none => none
  | none => none

/-- The second critical section of `ev_mux_wait`. -/
def Tickets.read (s : Tickets) (k : ℕ) : Option (Tickets × TicketReply) :=
  match s.waits[k]? with
  | some w =>
    if w.phase = .reading then
      let s' := { s with waits := s.waits.eraseIdx k }
      match s.lookup w.ticket with
      | some i =>
        if (s.slots i).done then some (s', .waited w (.ok (s.slots i).result))
        else some (s', .waited w .timeout)
      | none => some (s', .waited w .timeout)
    else none
  | none => none

/-- One step of some task; `ev_mux_ticket_rollback` is a `forget` and a `complete`. -/
def Tickets.next (s : Tickets) : TicketStep → Option (Tickets × TicketReply)
  | .allocate => some (s.allocate.1, .ticket s.allocate.2)
  | .complete ticket result => some (s.complete ticket result, .none)
  | .give k => (s.give k).map fun t => (t, .none)
  | .wait ticket timeoutMs => some (s.wait ticket timeoutMs)
  | .take k => (s.take k).map fun t => (t, .none)
  | .expire k => s.expire k
  | .read k => s.read k
  | .forget ticket => some (s.forget ticket, .none)
  | .tick => some ({ s with clock := s.clock + 1 }, .none)

/-- Any tasks, in any order. -/
def tickets : System Tickets (TicketStep × TicketReply) where
  init s := s = {}
  step s l t := s.next l.1 = some (t, l.2)

/-- The ticket that a step carries. -/
def Tickets.carries (s : Tickets) : TicketStep → Option Ticket
  | .complete ticket _ | .wait ticket _ | .forget ticket => some ticket
  | .give k => s.gives[k]?
  | .take k | .expire k | .read k => (s.waits[k]?).map (·.ticket)
  | .allocate | .tick => none

/-- The slots have been allocated fewer than 2²⁴ times. -/
def Tickets.Bounded (s : Tickets) (l : TicketStep × TicketReply) : Prop :=
  l.1 = .allocate → ∀ i, s.firstFree = some i → s.allocations i + 1 < generationLimit

/-- No slot is allocated anew while a completion of an earlier ticket has its semaphore still to
give; and a ticket is waited for by one caller at a time, which has not forgotten it and does not
forget it meanwhile. -/
def Tickets.Orderly (s : Tickets) (l : TicketStep × TicketReply) : Prop :=
  match l.1 with
  | .allocate => ∀ i, s.firstFree = some i → ∀ ticket ∈ s.gives, ticketSlot ticket ≠ some i
  | .wait ticket _ => (∀ w ∈ s.waits, w.ticket ≠ ticket) ∧
      ∀ i, s.lookup ticket = some i → (s.slots i).forgotten = false
  | .forget ticket => ∀ w ∈ s.waits, w.ticket ≠ ticket
  | _ => True

/-! ## Tickets and slots -/

lemma ticketDecode_encode (i : Fin ticketCount) {g : ℕ} (h0 : g ≠ 0) (hg : g < generationLimit) :
    ticketDecode (ticketEncode i g) = some (i, g) := by
  have hi : i.val < 8 := i.isLt
  have hmod : g % generationLimit = g := Nat.mod_eq_of_lt hg
  have hlow : (g * 256 + (i.val + 1)) % 256 = i.val + 1 := by omega
  have hhigh : (g * 256 + (i.val + 1)) / 256 = g := by omega
  have hcond : (g * 256 + (i.val + 1)) % 256 ≠ 0 ∧
      (g * 256 + (i.val + 1)) % 256 ≤ ticketCount := by
    rw [hlow]
    exact ⟨by omega, hi⟩
  unfold ticketDecode ticketEncode
  rw [hmod, dif_pos hcond]
  simp [hlow, hhigh, h0]

lemma ticketEncode_of_decode {ticket : ℕ} {i : Fin ticketCount} {g : ℕ}
    (h : ticketDecode ticket = some (i, g)) (hg : g < generationLimit) :
    ticketEncode i g = ticket := by
  unfold ticketDecode at h
  split_ifs at h with hlow hhigh
  obtain ⟨rfl, rfl⟩ := Prod.mk.inj (Option.some.inj h)
  have hdiv := Nat.div_add_mod ticket 256
  have hpos := Nat.pos_of_ne_zero hlow.1
  unfold ticketEncode
  rw [Nat.mod_eq_of_lt hg]
  exact (by omega : ticket / 256 * 256 + (ticket % 256 - 1 + 1) = ticket)

variable {s t : Tickets}

lemma lookup_iff {ticket : Ticket} {i : Fin ticketCount} :
    s.lookup ticket = some i ↔
      ticketDecode ticket = some (i, (s.slots i).generation) ∧ (s.slots i).allocated = true := by
  unfold Tickets.lookup
  cases hd : ticketDecode ticket with
  | none => simp
  | some p =>
    obtain ⟨j, g⟩ := p
    simp only [Option.ite_none_right_eq_some, Option.some.injEq, Prod.mk.injEq]
    constructor
    · rintro ⟨⟨ha, hg⟩, rfl⟩
      exact ⟨⟨rfl, hg.symm⟩, ha⟩
    · rintro ⟨⟨rfl, hg⟩, ha⟩
      exact ⟨⟨ha, hg.symm⟩, rfl⟩

lemma ticketSlot_of_lookup {ticket : Ticket} {i : Fin ticketCount}
    (h : s.lookup ticket = some i) : ticketSlot ticket = some i := by
  simp [ticketSlot, (lookup_iff.mp h).1]

lemma firstFree_free {i : Fin ticketCount} (h : s.firstFree = some i) :
    (s.slots i).allocated = false := by
  simpa using List.find?_some h

/-! ## What a step does -/

/-- The effect of a step, with its reply. -/
inductive TicketEffect (s : Tickets) : TicketStep → Tickets → TicketReply → Prop
  | allocated (i : Fin ticketCount) (hi : s.firstFree = some i) :
      TicketEffect s .allocate
        { s with
          slots := Function.update s.slots i
            { allocated := true, generation := nextGeneration (s.slots i).generation,
              result := espErrInvalidState }
          allocations := Function.update s.allocations i (s.allocations i + 1) }
        (.ticket (ticketEncode i (nextGeneration (s.slots i).generation)))
  | full (hf : s.firstFree = none) : TicketEffect s .allocate s (.ticket 0)
  | stored (ticket : Ticket) (result : EspErr) (i : Fin ticketCount)
      (hl : s.lookup ticket = some i) (hf : (s.slots i).forgotten = false) :
      TicketEffect s (.complete ticket result)
        { s with
          slots := Function.update s.slots i { s.slots i with done := true, result := result }
          gives := s.gives ++ [ticket]
          results := s.results ++ [(ticket, result)] } .none
  | finished (ticket : Ticket) (result : EspErr) (i : Fin ticketCount)
      (hl : s.lookup ticket = some i) (hf : (s.slots i).forgotten = true) :
      TicketEffect s (.complete ticket result)
        ({ s with results := s.results ++ [(ticket, result)] }.release i
          { s.slots i with done := true, result := result }) .none
  | gave (k : ℕ) (ticket : Ticket) (i : Fin ticketCount) (hk : s.gives[k]? = some ticket)
      (hi : ticketSlot ticket = some i) :
      TicketEffect s (.give k)
        { s with
          slots := Function.update s.slots i { s.slots i with semaphore := true }
          gives := s.gives.eraseIdx k } .none
  | dropped (k : ℕ) (ticket : Ticket) (hk : s.gives[k]? = some ticket)
      (hi : ticketSlot ticket = none) :
      TicketEffect s (.give k) { s with gives := s.gives.eraseIdx k } .none
  | started (ticket : Ticket) (timeoutMs : ℕ) (i : Fin ticketCount)
      (hl : s.lookup ticket = some i) :
      TicketEffect s (.wait ticket timeoutMs)
        { s with waits := s.waits ++ [⟨ticket, s.clock, waitTicks timeoutMs,
          if (s.slots i).done then .reading else .blocked⟩] } .none
  | refused (ticket : Ticket) (timeoutMs : ℕ) (w : Wait) (r : WaitResult)
      (hr : r = .invalidState ∨ r = .invalidArgument) :
      TicketEffect s (.wait ticket timeoutMs) s (.waited w r)
  | took (k : ℕ) (w : Wait) (i : Fin ticketCount) (hk : s.waits[k]? = some w)
      (hi : ticketSlot w.ticket = some i) (hp : w.phase = .blocked)
      (hs : (s.slots i).semaphore = true) :
      TicketEffect s (.take k)
        { s with
          slots := Function.update s.slots i { s.slots i with semaphore := false }
          waits := s.waits.set k { w with phase := .reading } } .none
  | expired (k : ℕ) (w : Wait) (i : Fin ticketCount) (hk : s.waits[k]? = some w)
      (hi : ticketSlot w.ticket = some i) (hp : w.phase = .blocked)
      (hs : (s.slots i).semaphore = false) (hc : w.start + w.ticks ≤ s.clock) :
      TicketEffect s (.expire k) { s with waits := s.waits.eraseIdx k } (.waited w .timeout)
  | answered (k : ℕ) (w : Wait) (i : Fin ticketCount) (hk : s.waits[k]? = some w)
      (hp : w.phase = .reading) (hl : s.lookup w.ticket = some i) (hd : (s.slots i).done = true) :
      TicketEffect s (.read k) { s with waits := s.waits.eraseIdx k }
        (.waited w (.ok (s.slots i).result))
  | misread (k : ℕ) (w : Wait) (hk : s.waits[k]? = some w) (hp : w.phase = .reading)
      (hl : ∀ i, s.lookup w.ticket = some i → (s.slots i).done = false) :
      TicketEffect s (.read k) { s with waits := s.waits.eraseIdx k } (.waited w .timeout)
  | left (ticket : Ticket) (i : Fin ticketCount) (hl : s.lookup ticket = some i)
      (hd : (s.slots i).done = true) :
      TicketEffect s (.forget ticket) (s.release i (s.slots i)) .none
  | forgot (ticket : Ticket) (i : Fin ticketCount) (hl : s.lookup ticket = some i)
      (hd : (s.slots i).done = false) :
      TicketEffect s (.forget ticket)
        { s with slots := Function.update s.slots i { s.slots i with forgotten := true } } .none
  | unknown (l : TicketStep) (ticket : Ticket) (hc : s.carries l = some ticket)
      (hl : s.lookup ticket = none) : TicketEffect s l s .none
  | ticked : TicketEffect s .tick { s with clock := s.clock + 1 } .none

theorem next_effect {l : TicketStep} {r : TicketReply} (h : s.next l = some (t, r)) :
    TicketEffect s l t r := by
  cases l with
  | allocate =>
    obtain ⟨rfl, rfl⟩ := Prod.mk.inj (Option.some.inj h)
    unfold Tickets.allocate
    cases hf : s.firstFree with
    | none => exact .full hf
    | some i => exact .allocated i hf
  | complete ticket result =>
    obtain ⟨rfl, rfl⟩ := Prod.mk.inj (Option.some.inj h)
    unfold Tickets.complete
    cases hl : s.lookup ticket with
    | none => exact .unknown _ ticket rfl hl
    | some i =>
      cases hf : (s.slots i).forgotten with
      | true =>
        dsimp only
        rw [if_pos hf]
        exact .finished ticket result i hl hf
      | false =>
        dsimp only
        rw [if_neg (by simp [hf])]
        exact .stored ticket result i hl hf
  | give k =>
    simp only [Tickets.next, Option.map_eq_some_iff, Prod.mk.injEq] at h
    obtain ⟨t', h, rfl, rfl⟩ := h
    obtain ⟨ticket, hk, rfl⟩ := Option.map_eq_some_iff.mp h
    cases hi : ticketSlot ticket with
    | none => exact .dropped k ticket hk hi
    | some i => exact .gave k ticket i hk hi
  | wait ticket timeoutMs =>
    have h := Option.some.inj h
    unfold Tickets.wait at h
    cases hd : ticketDecode ticket with
    | none =>
      simp only [hd] at h
      obtain ⟨rfl, rfl⟩ := Prod.mk.inj h
      exact .refused _ _ _ _ (.inr rfl)
    | some p =>
      simp only [hd] at h
      cases hl : s.lookup ticket with
      | none =>
        simp only [hl] at h
        obtain ⟨rfl, rfl⟩ := Prod.mk.inj h
        exact .refused _ _ _ _ (.inl rfl)
      | some i =>
        simp only [hl] at h
        obtain ⟨rfl, rfl⟩ := Prod.mk.inj h
        exact .started ticket timeoutMs i hl
  | take k =>
    simp only [Tickets.next, Option.map_eq_some_iff, Prod.mk.injEq] at h
    obtain ⟨t', h, rfl, rfl⟩ := h
    unfold Tickets.take at h
    split at h
    · rename_i w hk
      split at h
      · rename_i i hi
        split_ifs at h with hc
        obtain rfl := Option.some.inj h
        exact .took k w i hk hi hc.1 hc.2
      · exact absurd h (by simp)
    · exact absurd h (by simp)
  | expire k =>
    simp only [Tickets.next, Tickets.expire] at h
    split at h
    · rename_i w hk
      split at h
      · rename_i i hi
        split_ifs at h with hc
        obtain ⟨rfl, rfl⟩ := Prod.mk.inj (Option.some.inj h)
        exact .expired k w i hk hi hc.1 (by simpa using hc.2.1) hc.2.2
      · exact absurd h (by simp)
    · exact absurd h (by simp)
  | read k =>
    simp only [Tickets.next, Tickets.read] at h
    split at h
    · rename_i w hk
      split_ifs at h with hp
      split at h
      · rename_i i hl
        split_ifs at h with hd
        · obtain ⟨rfl, rfl⟩ := Prod.mk.inj (Option.some.inj h)
          exact .answered k w i hk hp hl hd
        · obtain ⟨rfl, rfl⟩ := Prod.mk.inj (Option.some.inj h)
          refine .misread k w hk hp fun j hj => ?_
          obtain rfl : i = j := Option.some.inj (hl.symm.trans hj)
          simpa using hd
      · rename_i hl
        obtain ⟨rfl, rfl⟩ := Prod.mk.inj (Option.some.inj h)
        exact .misread k w hk hp fun j hj => absurd (hl.symm.trans hj) (by simp)
    · exact absurd h (by simp)
  | forget ticket =>
    obtain ⟨rfl, rfl⟩ := Prod.mk.inj (Option.some.inj h)
    unfold Tickets.forget
    cases hl : s.lookup ticket with
    | none => exact .unknown _ ticket rfl hl
    | some i =>
      cases hd : (s.slots i).done with
      | true =>
        dsimp only
        rw [if_pos hd]
        exact .left ticket i hl hd
      | false =>
        dsimp only
        rw [if_neg (by simp [hd])]
        exact .forgot ticket i hl hd
  | tick =>
    obtain ⟨rfl, rfl⟩ := Prod.mk.inj (Option.some.inj h)
    exact .ticked

/-! ## What holds of the table -/

/-- The generation of a slot counts its allocations; all of them but the present one have been
released; a slot that is done and forgotten is not kept; and the result of a slot that is done is
one that was stored for its ticket. -/
structure SlotOk (i : Fin ticketCount) (slot : Slot) (allocations releases : ℕ)
    (results : List (Ticket × EspErr)) : Prop where
  generation : slot.generation = allocations
  bound : allocations < generationLimit
  count : allocations = releases + if slot.allocated then 1 else 0
  once : slot.allocated = true → slot.done = true → slot.forgotten = false
  stored : slot.allocated = true → slot.done = true →
    (ticketEncode i slot.generation, slot.result) ∈ results

structure Tickets.Inv (s : Tickets) : Prop where
  slot : ∀ i, SlotOk i (s.slots i) (s.allocations i) (s.releases i) s.results
  past : ∀ p ∈ s.results, ∃ i g, ticketDecode p.1 = some (i, g) ∧ g ≤ (s.slots i).generation

/-- A step that changes one slot, and stores results for its ticket only. -/
lemma inv_slot (hi : s.Inv) {i : Fin ticketCount} {slot : Slot} {a r : ℕ}
    (hok : SlotOk i slot a r t.results) (hslots : t.slots = Function.update s.slots i slot)
    (ha : t.allocations = Function.update s.allocations i a)
    (hr : t.releases = Function.update s.releases i r)
    (hsub : ∀ p ∈ s.results, p ∈ t.results) (hgen : (s.slots i).generation ≤ slot.generation)
    (hnew : ∀ p ∈ t.results, p ∈ s.results ∨ ticketDecode p.1 = some (i, slot.generation)) :
    t.Inv := by
  constructor
  · intro j
    rw [hslots, ha, hr]
    by_cases hj : j = i
    · subst hj
      simpa using hok
    · simp only [Function.update_of_ne hj]
      exact { hi.slot j with stored := fun h h' => hsub _ ((hi.slot j).stored h h') }
  · intro p hp
    rcases hnew p hp with hold | hnow
    · obtain ⟨j, g, hd, hg⟩ := hi.past p hold
      refine ⟨j, g, hd, ?_⟩
      rw [hslots]
      by_cases hj : j = i
      · subst hj
        simpa using hg.trans hgen
      · simpa [Function.update_of_ne hj] using hg
    · exact ⟨i, slot.generation, hnow, by simp [hslots]⟩

lemma Tickets.Inv.generation_lt (hi : s.Inv) (i : Fin ticketCount) :
    (s.slots i).generation < generationLimit :=
  (hi.slot i).generation ▸ (hi.slot i).bound

/-- The ticket of a slot that has been found. -/
lemma Tickets.Inv.encode (hi : s.Inv) {ticket : Ticket} {i : Fin ticketCount}
    (hl : s.lookup ticket = some i) : ticketEncode i (s.slots i).generation = ticket :=
  ticketEncode_of_decode (lookup_iff.mp hl).1 (hi.generation_lt i)

theorem inv_ticket_next {l : TicketStep} {r : TicketReply} (hi : s.Inv)
    (hb : s.Bounded (l, r)) (h : s.next l = some (t, r)) : t.Inv := by
  have hmem : ∀ {x : Ticket × EspErr}, ∀ p ∈ s.results, p ∈ s.results ++ [x] :=
    fun p hp => List.mem_append_left _ hp
  have hsame : ∀ i, s.allocations = Function.update s.allocations i (s.allocations i) ∧
      s.releases = Function.update s.releases i (s.releases i) :=
    fun i => ⟨(Function.update_eq_self i _).symm, (Function.update_eq_self i _).symm⟩
  cases next_effect h with
  | allocated i hfree =>
    have hok := hi.slot i
    have hlt := hb rfl i hfree
    have hnext : nextGeneration (s.slots i).generation = (s.slots i).generation + 1 := by
      rw [hok.generation]
      have hmod := Nat.mod_eq_of_lt hlt
      simp [nextGeneration, hmod]
    have hcount := hok.count
    rw [firstFree_free hfree] at hcount
    refine inv_slot hi ?_ rfl rfl (hsame i).2 (fun _ hp => hp) (hnext ▸ Nat.le_succ _)
      fun _ hp => .inl hp
    exact {
      generation := by rw [hnext, hok.generation]
      bound := hlt
      count := by simpa using hcount
      once := fun _ hd => absurd hd Bool.false_ne_true
      stored := fun _ hd => absurd hd Bool.false_ne_true }
  | stored ticket result i hl hf =>
    refine inv_slot hi ?_ rfl (hsame i).1 (hsame i).2 hmem le_rfl fun p hp => ?_
    · exact { hi.slot i with
        once := fun _ _ => hf
        stored := fun _ _ => List.mem_append_right _ (by simp [hi.encode hl]) }
    · rcases List.mem_append.mp hp with hp | hp
      · exact .inl hp
      · obtain rfl := List.mem_singleton.mp hp
        exact .inr (lookup_iff.mp hl).1
  | finished ticket result i hl hf =>
    have hcount := (hi.slot i).count
    rw [(lookup_iff.mp hl).2] at hcount
    refine inv_slot hi ?_ rfl (hsame i).1 rfl hmem le_rfl fun p hp => ?_
    · exact { hi.slot i with
        count := by simpa using hcount
        once := fun ha => absurd ha Bool.false_ne_true
        stored := fun ha => absurd ha Bool.false_ne_true }
    · rcases List.mem_append.mp hp with hp | hp
      · exact .inl hp
      · obtain rfl := List.mem_singleton.mp hp
        exact .inr (lookup_iff.mp hl).1
  | gave k ticket i =>
    refine inv_slot hi ?_ rfl (hsame i).1 (hsame i).2 (fun _ hp => hp) le_rfl fun _ hp => .inl hp
    exact { hi.slot i with }
  | took k w i =>
    refine inv_slot hi ?_ rfl (hsame i).1 (hsame i).2 (fun _ hp => hp) le_rfl fun _ hp => .inl hp
    exact { hi.slot i with }
  | left ticket i hl hd =>
    have hcount := (hi.slot i).count
    rw [(lookup_iff.mp hl).2] at hcount
    refine inv_slot hi ?_ rfl (hsame i).1 rfl (fun _ hp => hp) le_rfl fun _ hp => .inl hp
    exact { hi.slot i with
      count := by simpa using hcount
      once := fun ha => absurd ha Bool.false_ne_true
      stored := fun ha => absurd ha Bool.false_ne_true }
  | forgot ticket i hl hd =>
    refine inv_slot hi ?_ rfl (hsame i).1 (hsame i).2 (fun _ hp => hp) le_rfl fun _ hp => .inl hp
    exact { hi.slot i with once := fun _ hd' => absurd (hd.symm.trans hd') Bool.false_ne_true }
  | _ => exact ⟨hi.slot, hi.past⟩

/-! ## Signals -/

/-- What is known of a wait in flight: its slot is still its own, and nobody has forgotten it; past
the semaphore the slot is done, and before it a slot that is done has its signal under way. -/
def Tickets.WaitOk (s : Tickets) (w : Wait) (i : Fin ticketCount) : Prop :=
  s.lookup w.ticket = some i ∧ (s.slots i).forgotten = false ∧
    match w.phase with
    | .reading => (s.slots i).done = true
    | .blocked => (s.slots i).done = true → w.ticket ∈ s.gives ∨ (s.slots i).semaphore = true

/-- Signals, given or not, belong to the latest ticket of their slot. -/
structure Tickets.Calm (s : Tickets) : Prop where
  give : ∀ x ∈ s.gives, ∃ i, ticketDecode x = some (i, (s.slots i).generation) ∧
    (s.slots i).done = true
  token : ∀ i, (s.slots i).semaphore = true → (s.slots i).done = true
  wait : ∀ w ∈ s.waits, ∃ i, s.WaitOk w i
  apart : (s.waits.map (·.ticket)).Nodup

lemma lookup_carry {x : Ticket} {j : Fin ticketCount} (hl : s.lookup x = some j)
    (ha : (t.slots j).allocated = (s.slots j).allocated)
    (hg : (t.slots j).generation = (s.slots j).generation) : t.lookup x = some j := by
  rw [lookup_iff] at hl ⊢
  rw [ha, hg]
  exact hl

/-- A wait whose slot is left alone. -/
lemma Tickets.WaitOk.carry {w : Wait} {j : Fin ticketCount} (h : s.WaitOk w j)
    (hs : t.slots j = s.slots j) (hg : w.ticket ∈ s.gives → w.ticket ∈ t.gives) :
    t.WaitOk w j := by
  obtain ⟨hl, hf, hp⟩ := h
  refine ⟨lookup_carry hl (by rw [hs]) (by rw [hs]), by rw [hs]; exact hf, ?_⟩
  rw [hs]
  cases hph : w.phase with
  | reading => rw [hph] at hp; exact hp
  | blocked =>
    rw [hph] at hp
    exact fun hd => (hp hd).imp_left hg

lemma Tickets.Inv.ticket_eq (hi : s.Inv) {x y : Ticket} {i : Fin ticketCount}
    (hx : s.lookup x = some i) (hy : s.lookup y = some i) : x = y :=
  (hi.encode hx).symm.trans (hi.encode hy)

/-- A step that leaves each slot's allocation, and what was done in it. -/
lemma Tickets.Calm.give_carry (hc : s.Calm) {i : Fin ticketCount} {slot : Slot} {gives : List Ticket}
    (hg : slot.generation = (s.slots i).generation)
    (hd : (s.slots i).done = true → slot.done = true) (hsub : ∀ x ∈ gives, x ∈ s.gives) :
    ∀ x ∈ gives, ∃ j, ticketDecode x = some (j, (Function.update s.slots i slot j).generation) ∧
      (Function.update s.slots i slot j).done = true := by
  intro x hx
  obtain ⟨j, hj, hdj⟩ := hc.give x (hsub x hx)
  refine ⟨j, ?_⟩
  by_cases hji : j = i
  · subst hji
    simp only [Function.update_self]
    exact ⟨hg ▸ hj, hd hdj⟩
  · simp only [Function.update_of_ne hji]
    exact ⟨hj, hdj⟩

lemma token_update {i : Fin ticketCount} {slot : Slot} {slots : Fin ticketCount → Slot}
    (hc : ∀ j, (slots j).semaphore = true → (slots j).done = true)
    (hs : slot.semaphore = true → slot.done = true) :
    ∀ j, (Function.update slots i slot j).semaphore = true →
      (Function.update slots i slot j).done = true := by
  intro j
  by_cases hji : j = i
  · subst hji
    simpa using hs
  · simpa [Function.update_of_ne hji] using hc j

/-- A step after which fewer waits are in flight. -/
lemma Tickets.Calm.fewer_waits (hc : s.Calm) {waits : List Wait} (h : waits.Sublist s.waits) :
    ({ s with waits := waits } : Tickets).Calm :=
  ⟨hc.give, hc.token, fun w hw => hc.wait w (h.subset hw), hc.apart.sublist (h.map _)⟩

/-- No wait in flight is for the slot. -/
lemma wait_other (hi : s.Inv) (hc : s.Calm) {ticket : Ticket} {i : Fin ticketCount}
    (hl : s.lookup ticket = some i) (hno : ∀ w ∈ s.waits, w.ticket ≠ ticket) {w : Wait}
    (hw : w ∈ s.waits) : ∃ j, j ≠ i ∧ s.WaitOk w j := by
  obtain ⟨j, hj⟩ := hc.wait w hw
  refine ⟨j, fun he => hno w hw ?_, hj⟩
  exact hi.ticket_eq (he ▸ hj.1) hl

theorem calm_next {l : TicketStep} {r : TicketReply} (hi : s.Inv) (hc : s.Calm)
    (ho : s.Orderly (l, r)) (h : s.next l = some (t, r)) : t.Calm := by
  cases next_effect h with
  | allocated i hfree =>
    refine ⟨fun x hx => ?_, token_update hc.token (by simp), fun w hw => ?_, hc.apart⟩
    · obtain ⟨j, hj, hd⟩ := hc.give x hx
      have hji : j ≠ i := fun he => ho i hfree x hx (by simp [ticketSlot, hj, he])
      exact ⟨j, by simpa [Function.update_of_ne hji] using hj,
        by simpa [Function.update_of_ne hji] using hd⟩
    · obtain ⟨j, hj⟩ := hc.wait w hw
      have hji : j ≠ i := by
        rintro rfl
        exact absurd ((firstFree_free hfree).symm.trans (lookup_iff.mp hj.1).2) (by decide)
      exact ⟨j, hj.carry (Function.update_of_ne hji _ _) fun h => h⟩
  | full => exact hc
  | stored ticket result i hl hf =>
    refine ⟨fun x hx => ?_, token_update hc.token fun _ => rfl, fun w hw => ?_, hc.apart⟩
    · rcases List.mem_append.mp hx with hx | hx
      · have hold := @Tickets.Calm.give_carry s hc i
          { s.slots i with done := true, result := result } s.gives
        exact hold rfl (fun _ => rfl) (fun _ h => h) x hx
      · obtain rfl := List.mem_singleton.mp hx
        exact ⟨i, by simpa using (lookup_iff.mp hl).1, by simp⟩
    · obtain ⟨j, hj⟩ := hc.wait w hw
      by_cases hji : j = i
      · subst hji
        refine ⟨j, lookup_carry hj.1 (by simp) (by simp), by simpa using hf, ?_⟩
        cases w.phase with
        | reading => simp
        | blocked => exact fun _ => .inl (List.mem_append_right _ (by simp [hi.ticket_eq hj.1 hl]))
      · exact ⟨j, hj.carry (Function.update_of_ne hji _ _) (List.mem_append_left _)⟩
  | finished ticket result i hl hf =>
    refine ⟨hc.give_carry rfl (fun _ => rfl) (fun _ h => h), token_update hc.token fun _ => rfl,
      fun w hw => ?_, hc.apart⟩
    obtain ⟨j, hj⟩ := hc.wait w hw
    have hji : j ≠ i := by
      rintro rfl
      exact absurd (hf.symm.trans hj.2.1) (by decide)
    exact ⟨j, hj.carry (Function.update_of_ne hji _ _) fun h => h⟩
  | gave k ticket i hk hslot =>
    have hmem := List.mem_of_getElem? hk
    obtain ⟨i', hdec, hdone⟩ := hc.give ticket hmem
    obtain rfl : i' = i := by simpa [ticketSlot, hdec] using hslot
    refine ⟨hc.give_carry rfl (fun h => h) fun x hx => (List.eraseIdx_sublist _ _).subset hx,
      token_update hc.token fun _ => hdone, fun w hw => ?_, hc.apart⟩
    obtain ⟨j, hj⟩ := hc.wait w hw
    by_cases hji : j = i'
    · subst hji
      refine ⟨j, lookup_carry hj.1 (by simp) (by simp), by simpa using hj.2.1, ?_⟩
      have hp := hj.2.2
      cases hph : w.phase with
      | reading => simpa [hph] using hp
      | blocked => exact fun _ => .inr (by simp)
    · refine ⟨j, hj.carry (Function.update_of_ne hji _ _) fun hg => ?_⟩
      obtain ⟨n, hn⟩ := List.mem_iff_getElem?.mp hg
      refine List.mem_eraseIdx_iff_getElem?.mpr ⟨n, fun he => hji ?_, hn⟩
      have hsame : w.ticket = ticket := Option.some.inj (hn.symm.trans (he ▸ hk))
      have hd := (lookup_iff.mp hj.1).1
      rw [hsame, hdec] at hd
      exact (Prod.mk.inj (Option.some.inj hd)).1.symm
  | dropped k ticket hk hslot =>
    obtain ⟨i', hdec, -⟩ := hc.give ticket (List.mem_of_getElem? hk)
    simp [ticketSlot, hdec] at hslot
  | started ticket timeoutMs i hl =>
    obtain ⟨hno, hkept⟩ := ho
    refine ⟨hc.give, hc.token, fun w hw => ?_, ?_⟩
    · rcases List.mem_append.mp hw with hw | hw
      · exact hc.wait w hw
      · obtain rfl := List.mem_singleton.mp hw
        refine ⟨i, hl, hkept i hl, ?_⟩
        by_cases hd : (s.slots i).done = true
        · dsimp only
          rw [if_pos hd]
          exact hd
        · dsimp only
          rw [if_neg hd]
          exact fun hd' => absurd hd' hd
    · rw [List.map_append, List.map_singleton]
      refine List.nodup_append.mpr ⟨hc.apart, List.nodup_singleton _, ?_⟩
      intro x hx y hy
      obtain ⟨w, hw, rfl⟩ := List.mem_map.mp hx
      obtain rfl := List.mem_singleton.mp hy
      exact hno w hw
  | refused => exact hc
  | took k w i hk hslot hp hsem =>
    have hmem := List.mem_of_getElem? hk
    obtain ⟨i', hw⟩ := hc.wait w hmem
    obtain rfl : i' = i := by simpa [ticketSlot_of_lookup hw.1] using hslot
    have hlt := (List.getElem?_eq_some_iff.mp hk).1
    have hmap : (s.waits.set k { w with phase := .reading }).map (·.ticket) =
        s.waits.map (·.ticket) := by
      have hk' : (s.waits.map (·.ticket))[k]? = some w.ticket := by simp [hk]
      obtain ⟨hlt', hget'⟩ := List.getElem?_eq_some_iff.mp hk'
      rw [List.map_set]
      dsimp only
      rw [← hget']
      exact List.set_getElem_self hlt'
    refine ⟨hc.give_carry rfl (fun h => h) (fun _ h => h), token_update hc.token (by simp),
      fun v hv => ?_, by rw [hmap]; exact hc.apart⟩
    obtain ⟨n, hn⟩ := List.mem_iff_getElem?.mp hv
    by_cases hkn : k = n
    · subst hkn
      obtain rfl : { w with phase := .reading } = v := by
        simpa [List.getElem?_set, hlt] using hn
      exact ⟨i', lookup_carry hw.1 (by simp) (by simp), by simpa using hw.2.1,
        by simpa using hc.token i' hsem⟩
    · have hold : s.waits[n]? = some v := by simpa [List.getElem?_set, hkn] using hn
      obtain ⟨j, hj⟩ := hc.wait v (List.mem_of_getElem? hold)
      have hji : j ≠ i' := by
        rintro rfl
        -- two waits for one slot would be waits for one ticket
        have hsame := hi.ticket_eq hj.1 hw.1
        have h1 : (s.waits.map (·.ticket))[n]? = some w.ticket := by simp [hold, hsame]
        have h2 : (s.waits.map (·.ticket))[k]? = some w.ticket := by simp [hk]
        have hlt' : k < (s.waits.map (·.ticket)).length := by simpa using hlt
        exact hkn ((List.getElem?_inj hlt' hc.apart).mp (h2.trans h1.symm))
      exact ⟨j, hj.carry (Function.update_of_ne hji _ _) fun h => h⟩
  | expired k w i => exact hc.fewer_waits (List.eraseIdx_sublist _ _)
  | answered k w i => exact hc.fewer_waits (List.eraseIdx_sublist _ _)
  | misread k w => exact hc.fewer_waits (List.eraseIdx_sublist _ _)
  | left ticket i hl hd =>
    refine ⟨hc.give_carry rfl (fun h => h) (fun _ h => h), token_update hc.token fun _ => hd,
      fun w hw => ?_, hc.apart⟩
    obtain ⟨j, hji, hj⟩ := wait_other hi hc hl ho hw
    exact ⟨j, hj.carry (Function.update_of_ne hji _ _) fun h => h⟩
  | forgot ticket i hl hd =>
    refine ⟨hc.give_carry rfl (fun h => h) (fun _ h => h), token_update hc.token (hc.token i),
      fun w hw => ?_, hc.apart⟩
    obtain ⟨j, hji, hj⟩ := wait_other hi hc hl ho hw
    exact ⟨j, hj.carry (Function.update_of_ne hji _ _) fun h => h⟩
  | unknown => exact hc
  | ticked => exact ⟨hc.give, hc.token, hc.wait, hc.apart⟩

/-! ## The protocol -/

/-- A step that carries a ticket changes at most the slot whose ticket it is, or the semaphore of
the slot that its ticket names. -/
lemma changed_slot {l : TicketStep} {r : TicketReply} (h : s.next l = some (t, r)) {x : Ticket}
    (hx : s.carries l = some x) : t.slots = s.slots ∨ ∃ j slot,
      t.slots = Function.update s.slots j slot ∧ (s.lookup x = some j ∨
        (ticketSlot x = some j ∧ ∃ b, slot = { s.slots j with semaphore := b })) := by
  cases next_effect h with
  | allocated => exact absurd hx (by simp [Tickets.carries])
  | stored ticket result i hl => exact .inr ⟨i, _, rfl, .inl (Option.some.inj hx ▸ hl)⟩
  | finished ticket result i hl => exact .inr ⟨i, _, rfl, .inl (Option.some.inj hx ▸ hl)⟩
  | gave k ticket i hk hi =>
    obtain rfl : ticket = x := Option.some.inj (hk.symm.trans hx)
    exact .inr ⟨i, _, rfl, .inr ⟨hi, true, rfl⟩⟩
  | took k w i hk hi =>
    obtain rfl : w.ticket = x := by simpa [Tickets.carries, hk] using hx
    exact .inr ⟨i, _, rfl, .inr ⟨hi, false, rfl⟩⟩
  | left ticket i hl => exact .inr ⟨i, _, rfl, .inl (Option.some.inj hx ▸ hl)⟩
  | forgot ticket i hl => exact .inr ⟨i, _, rfl, .inl (Option.some.inj hx ▸ hl)⟩
  | _ => exact .inl rfl

/-- A step that carries an old ticket leaves the newer ticket of the slot, its semaphore apart. -/
lemma record_kept (hi : s.Inv) {l : TicketStep} {r : TicketReply} (h : s.next l = some (t, r))
    {x : Ticket} (hx : s.carries l = some x) {i : Fin ticketCount}
    (hne : ticketEncode i (s.slots i).generation ≠ x) :
    ({ t.slots i with semaphore := false } : Slot) = { s.slots i with semaphore := false } := by
  rcases changed_slot h hx with hs | ⟨j, slot, hs, hj⟩
  · rw [hs]
  · rw [hs]
    by_cases hij : i = j
    · subst hij
      rcases hj with hl | ⟨-, b, rfl⟩
      · exact absurd (hi.encode hl) hne
      · simp
    · rw [Function.update_of_ne hij]

/-- Signals that belong to the latest ticket of their slot leave every newer ticket alone. -/
lemma slot_kept (hi : s.Inv) (hc : s.Calm) {l : TicketStep} {r : TicketReply}
    (h : s.next l = some (t, r)) {x : Ticket} (hx : s.carries l = some x) {i : Fin ticketCount}
    (hne : ticketEncode i (s.slots i).generation ≠ x) : t.slots i = s.slots i := by
  have hdec : ∀ j, ticketDecode x = some (j, (s.slots j).generation) → j ≠ i := by
    rintro j hd rfl
    exact hne (ticketEncode_of_decode hd (hi.generation_lt j))
  cases next_effect h with
  | allocated => exact absurd hx (by simp [Tickets.carries])
  | stored ticket result j hl =>
    obtain rfl := Option.some.inj hx
    exact Function.update_of_ne (hdec j (lookup_iff.mp hl).1).symm _ _
  | finished ticket result j hl =>
    obtain rfl := Option.some.inj hx
    exact Function.update_of_ne (hdec j (lookup_iff.mp hl).1).symm _ _
  | gave k ticket j hk hj =>
    obtain rfl : ticket = x := Option.some.inj (hk.symm.trans hx)
    obtain ⟨j', hd, -⟩ := hc.give ticket (List.mem_of_getElem? hk)
    obtain rfl : j' = j := by simpa [ticketSlot, hd] using hj
    exact Function.update_of_ne (hdec j' hd).symm _ _
  | took k w j hk hj =>
    obtain rfl : w.ticket = x := by simpa [Tickets.carries, hk] using hx
    obtain ⟨j', hw⟩ := hc.wait w (List.mem_of_getElem? hk)
    obtain rfl : j' = j := by simpa [ticketSlot_of_lookup hw.1] using hj
    exact Function.update_of_ne (hdec j' (lookup_iff.mp hw.1).1).symm _ _
  | left ticket j hl =>
    obtain rfl := Option.some.inj hx
    exact Function.update_of_ne (hdec j (lookup_iff.mp hl).1).symm _ _
  | forgot ticket j hl =>
    obtain rfl := Option.some.inj hx
    exact Function.update_of_ne (hdec j (lookup_iff.mp hl).1).symm _ _
  | _ => rfl

/-- A wait that answers OK answers the result that was stored for its ticket. -/
lemma answered_result (hi : s.Inv) {l : TicketStep} {w : Wait} {result : EspErr}
    (h : s.next l = some (t, .waited w (.ok result))) : (w.ticket, result) ∈ s.results := by
  cases next_effect h with
  | refused ticket timeoutMs w r hr => rcases hr with hr | hr <;> exact absurd hr (by simp)
  | answered k w i hk hp hl hd =>
    have hstored := (hi.slot i).stored (lookup_iff.mp hl).2 hd
    rwa [hi.encode hl] at hstored

/-- Nothing has been stored for a ticket before it is allocated. -/
lemma allocated_fresh (hi : s.Inv) {x : Ticket} (hx : x ≠ 0)
    (hb : s.Bounded (.allocate, .ticket x)) (h : s.next .allocate = some (t, .ticket x))
    (result : EspErr) : (x, result) ∉ s.results := by
  intro hmem
  have heff := next_effect h
  generalize hr : TicketReply.ticket x = r at heff
  cases heff with
  | allocated i hfree =>
    obtain rfl := TicketReply.ticket.inj hr
    have hlt := hb rfl i hfree
    have hnext : nextGeneration (s.slots i).generation = s.allocations i + 1 := by
      rw [(hi.slot i).generation]
      have hmod := Nat.mod_eq_of_lt hlt
      simp [nextGeneration, hmod]
    obtain ⟨j, g, hd, hg⟩ := hi.past _ hmem
    rw [hnext, ticketDecode_encode i (Nat.succ_ne_zero _) hlt] at hd
    obtain ⟨rfl, rfl⟩ := Prod.mk.inj (Option.some.inj hd)
    rw [(hi.slot i).generation] at hg
    omega
  | full => exact hx (TicketReply.ticket.inj hr)
  | unknown => exact absurd hr (by simp)

/-- A wait that times out has blocked for all of its ticks, and the completion of its ticket has
not given its signal. -/
lemma timeout_elapsed (hc : s.Calm) {l : TicketStep} {w : Wait}
    (h : s.next l = some (t, .waited w .timeout)) :
    w.start + w.ticks ≤ s.clock ∧ ∃ i, s.lookup w.ticket = some i ∧
      ((s.slots i).done = true → w.ticket ∈ s.gives) := by
  cases next_effect h with
  | refused ticket timeoutMs w r hr => rcases hr with hr | hr <;> exact absurd hr (by simp)
  | expired k w i hk hslot hp hsem hel =>
    obtain ⟨j, hl, -, hph⟩ := hc.wait w (List.mem_of_getElem? hk)
    obtain rfl : j = i := by simpa [ticketSlot_of_lookup hl] using hslot
    rw [hp] at hph
    exact ⟨hel, j, hl, fun hd => (hph hd).resolve_right (by simp [hsem])⟩
  | misread k w hk hp hno =>
    -- past the semaphore the ticket is done
    obtain ⟨j, hl, -, hph⟩ := hc.wait w (List.mem_of_getElem? hk)
    rw [hp] at hph
    exact absurd ((hno j hl).symm.trans hph) (by decide)

lemma generationLimit_pos : 0 < generationLimit := by decide

theorem inv_of_reaches_tickets {h : List (TicketStep × TicketReply)}
    (hr : Reaches (tickets.restrict Tickets.Bounded) h s) : s.Inv := by
  refine hr.stateInvariant (I := Tickets.Inv) ?_ ?_
  · rintro s rfl
    exact ⟨fun i => ⟨rfl, generationLimit_pos, rfl, by simp, by simp⟩, by simp⟩
  · rintro s ⟨step, r⟩ t hi ⟨hb, hnext⟩
    exact inv_ticket_next hi hb hnext

/-- The runs in which nothing is late and every ticket has one caller. -/
def orderlyTickets : System Tickets (TicketStep × TicketReply) :=
  tickets.restrict fun s l => s.Bounded l ∧ s.Orderly l

theorem calm_of_reaches {h : List (TicketStep × TicketReply)}
    (hr : Reaches orderlyTickets h s) : s.Inv ∧ s.Calm := by
  refine hr.stateInvariant (I := fun s => s.Inv ∧ s.Calm) ?_ ?_
  · rintro s rfl
    exact ⟨⟨fun i => ⟨rfl, generationLimit_pos, rfl, by simp, by simp⟩, by simp⟩,
      ⟨by simp, by simp, by simp, by simp⟩⟩
  · rintro s ⟨step, r⟩ t ⟨hi, hc⟩ ⟨⟨hb, ho⟩, hnext⟩
    exact ⟨inv_ticket_next hi hb hnext, calm_next hi hc ho hnext⟩

/-- **The tickets of synchronous submits.** In every run in which no slot is allocated 2²⁴ times:
a slot is released once for each allocation but the present one, and not kept once it is done and
forgotten; a step that carries an old ticket leaves the record of a newer ticket in the slot; and
a wait answers OK only with a result stored for its ticket, after its allocation. In every run that
is orderly as well, an old ticket leaves the newer one's semaphore too, and a wait times out only
when all of its ticks have gone by and its ticket's completion has not given its signal. -/
theorem ticket_protocol {h : List (TicketStep × TicketReply)}
    (hr : Reaches (tickets.restrict Tickets.Bounded) h s) :
    (∀ i, s.allocations i = s.releases i + (if (s.slots i).allocated then 1 else 0) ∧
      ((s.slots i).allocated = true → (s.slots i).done = true →
        (s.slots i).forgotten = false)) ∧
    (∀ l t, (tickets.restrict Tickets.Bounded).step s l t →
      (∀ x i, s.carries l.1 = some x → ticketEncode i (s.slots i).generation ≠ x →
        ({ t.slots i with semaphore := false } : Slot) = { s.slots i with semaphore := false }) ∧
      (∀ w result, l.2 = .waited w (.ok result) → (w.ticket, result) ∈ s.results) ∧
      (∀ x result, l = (.allocate, .ticket x) → x ≠ 0 → (x, result) ∉ s.results)) ∧
    (Reaches orderlyTickets h s → ∀ l t, orderlyTickets.step s l t →
      (∀ x i, s.carries l.1 = some x → ticketEncode i (s.slots i).generation ≠ x →
        t.slots i = s.slots i) ∧
      (∀ w, l.2 = .waited w .timeout → w.start + w.ticks ≤ s.clock ∧
        ∃ i, s.lookup w.ticket = some i ∧
          ((s.slots i).done = true → w.ticket ∈ s.gives))) := by
  have hi := inv_of_reaches_tickets hr
  refine ⟨fun i => ⟨(hi.slot i).count, (hi.slot i).once⟩, fun l t hstep => ?_,
    fun hro l t hstep => ?_⟩
  · obtain ⟨hb, hnext⟩ := hstep
    have hnext : s.next l.1 = some (t, l.2) := hnext
    refine ⟨fun x i hx hne => record_kept hi hnext hx hne, fun w result hw => ?_,
      fun x result hl hx => ?_⟩
    · rw [hw] at hnext
      exact answered_result hi hnext
    · subst hl
      exact allocated_fresh hi hx hb hnext result
  · obtain ⟨-, hc⟩ := calm_of_reaches hro
    refine ⟨fun x i hx hne => slot_kept hi hc hstep.2 hx hne, fun w hw => ?_⟩
    have hnext : s.next l.1 = some (t, l.2) := hstep.2
    rw [hw] at hnext
    exact timeout_elapsed hc hnext

/-! ## Runs -/

/-- Take steps one after the other, with their replies. -/
def Tickets.run (s : Tickets) : List TicketStep → Option (List (TicketStep × TicketReply) × Tickets)
  | [] => some ([], s)
  | l :: ls => (s.next l).bind fun r => (r.1.run ls).map fun rest => ((l, r.2) :: rest.1, rest.2)

lemma Tickets.run_path {ls : List TicketStep} {s t : Tickets}
    {h : List (TicketStep × TicketReply)} (hr : s.run ls = some (h, t)) : Path tickets s h t := by
  induction ls generalizing s h with
  | nil =>
    obtain ⟨rfl, rfl⟩ := Prod.mk.inj (Option.some.inj hr)
    exact .nil s
  | cons l ls ih =>
    obtain ⟨⟨u, reply⟩, hs, hr⟩ := Option.bind_eq_some_iff.mp hr
    obtain ⟨⟨rest, t'⟩, hrest, heq⟩ := Option.map_eq_some_iff.mp hr
    obtain ⟨rfl, rfl⟩ := Prod.mk.inj heq
    exact .cons hs (ih hrest)

def firstSlot : Fin ticketCount := ⟨0, by decide⟩

instance (s : Tickets) (l : TicketStep × TicketReply) : Decidable (s.Bounded l) :=
  inferInstanceAs (Decidable (l.1 = .allocate → ∀ i, s.firstFree = some i → _))

instance (s : Tickets) : (l : TicketStep × TicketReply) → Decidable (s.Orderly l)
  | (.allocate, _) => inferInstanceAs (Decidable (∀ i, s.firstFree = some i → ∀ t ∈ s.gives, _))
  | (.wait _ _, _) => inferInstanceAs (Decidable (_ ∧ ∀ i, s.lookup _ = some i → _))
  | (.forget _, _) => inferInstanceAs (Decidable (∀ w ∈ s.waits, _))
  | (.complete _ _, _) | (.give _, _) | (.take _, _) | (.expire _, _) | (.read _, _)
  | (.tick, _) => inferInstanceAs (Decidable True)

/-- One step with its reply, where it is orderly. -/
def Tickets.nextOrderly (s : Tickets) (l : TicketStep × TicketReply) : Option Tickets :=
  match s.next l.1 with
  | some (t, r) => if r = l.2 ∧ s.Bounded l ∧ s.Orderly l then some t else none
  | none => none

lemma step_nextOrderly {l : TicketStep × TicketReply} (h : s.nextOrderly l = some t) :
    orderlyTickets.step s l t := by
  unfold Tickets.nextOrderly at h
  split at h
  · rename_i t' r hnext
    split_ifs at h with hc
    obtain rfl := Option.some.inj h
    obtain ⟨hr, hc⟩ := hc
    rw [hr] at hnext
    exact ⟨hc, hnext⟩
  · cases h

/-- A ticket completes, its wait returns the result, and the ticket is forgotten. -/
def punctual : List (TicketStep × TicketReply) :=
  [(.allocate, .ticket 257), (.wait 257 1000, .none), (.complete 257 0, .none), (.give 0, .none),
    (.take 0, .none)]

/-- The wait is about to answer with the result that was stored for its ticket. -/
theorem ticket_protocol_punctual :
    ∃ s t, Reaches orderlyTickets punctual s ∧
      s.next (.read 0) = some (t, .waited ⟨257, 0, 1000, .reading⟩ (.ok 0)) ∧
      (257, 0) ∈ s.results := by
  obtain ⟨s, hs⟩ := Option.isSome_iff_exists.mp
    (show (punctual.foldlM Tickets.nextOrderly {}).isSome = true by decide)
  have hview : ((punctual.foldlM Tickets.nextOrderly {}).bind fun s =>
      (s.next (.read 0)).map (·.2)) =
      some (.waited ⟨257, 0, 1000, .reading⟩ (.ok 0)) := by decide
  rw [hs] at hview
  obtain ⟨⟨t, r⟩, ht, rfl⟩ := Option.map_eq_some_iff.mp hview
  have h₀ : Reaches orderlyTickets [] {} := .init rfl
  have hro : Reaches orderlyTickets punctual s := by
    simpa using h₀.append (.of_foldlM (fun _ _ _ => step_nextOrderly) hs)
  have hr : Reaches (tickets.restrict Tickets.Bounded) punctual s := by
    refine Reaches.mono (S := orderlyTickets) (T := tickets.restrict Tickets.Bounded)
      (fun _ h => h) ?_ hro
    rintro s l t ⟨⟨hb, -⟩, hstep⟩
    exact ⟨hb, hstep⟩
  exact ⟨s, t, hro, ht, ((ticket_protocol hr).2.1 (.read 0, _) t
    ⟨fun h => by simp at h, ht⟩).2.1 _ _ rfl⟩

/-- The signal of the first ticket of a slot comes when the slot is the second one's: the wait for
the second ticket, which has not completed, times out at once instead of after a second. -/
def lateSignal : List TicketStep :=
  [.allocate, .complete 257 0, .wait 257 1000, .read 0, .forget 257, .allocate, .give 0,
    .wait 513 1000, .take 0, .read 0]

theorem late_signal_times_out :
    ∃ h s, Reaches tickets h s ∧ h.map (·.1) = lateSignal ∧
      h.getLast? = some (.read 0, .waited ⟨513, 0, 1000, .reading⟩ .timeout) ∧
      s.clock = 0 ∧ (s.slots firstSlot).done = false ∧ s.allocations firstSlot = 2 := by
  obtain ⟨⟨h, s⟩, hs⟩ := Option.isSome_iff_exists.mp
    (show (Tickets.run {} lateSignal).isSome = true by decide)
  have hview : (Tickets.run {} lateSignal).map (fun r => decide (r.1.map (·.1) = lateSignal ∧
      r.1.getLast? = some (.read 0, .waited ⟨513, 0, 1000, .reading⟩ .timeout) ∧
      r.2.clock = 0 ∧ (r.2.slots firstSlot).done = false ∧ r.2.allocations firstSlot = 2)) = some true := by
    decide
  rw [hs] at hview
  have h₀ : Reaches tickets [] {} := .init rfl
  exact ⟨h, s, by simpa using h₀.append (Tickets.run_path hs),
    of_decide_eq_true (Option.some.inj hview)⟩

end EspVision.EvMux
