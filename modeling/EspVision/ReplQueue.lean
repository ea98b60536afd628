import EspVision.RingBuffer

/-!
# REPL input ring (`ev_repl_queue.h`)

512 cells, each a value with the input generation it was pushed under, and a
guard that remembers which generation the ring was last cleared for. Every
function is one critical section; `current` is the lock-free input generation
read inside it. The value type is left open: the firmware stores bytes.
-/
namespace EspVision.EvReplQueue
open RingBuffer

/-- `EV_REPL_QUEUE_CAPACITY`. -/
def capacity : ℕ := 512

/-- `ev_repl_queue_entry_t`. -/
structure Entry (α : Type*) where
  value : α
  generation : UInt32
  deriving DecidableEq

/-- `ev_repl_queue_t`. -/
structure Queue (α : Type*) where
  entries : ℕ → Entry α
  head : ℕ := 0
  tail : ℕ := 0
  guardGeneration : UInt32 := 0
  guardValid : Bool := false

variable {α : Type*}

/-- `ev_repl_queue_force_clear`. -/
def forceClear (q : Queue α) (generation : UInt32) : Queue α :=
  { q with
    head := 0
    tail := 0
    guardGeneration := generation
    guardValid := generation ≠ 0 }

/-- The part of `ev_repl_queue_clear_generation` behind its generation check. -/
def renew (q : Queue α) (generation : UInt32) : Queue α :=
  if !q.guardValid ∨ q.guardGeneration ≠ generation then forceClear q generation else q

/-- `ev_repl_queue_clear_generation`. -/
def clearGeneration (q : Queue α) (generation current : UInt32) : Queue α × Bool :=
  if generation = 0 ∨ generation ≠ current then (q, false) else (renew q generation, true)

/-- One turn of the copy loop of `ev_repl_queue_push`. -/
def store (generation : UInt32) (q : Queue α) (value : α) : Queue α :=
  { q with
    entries := Function.update q.entries q.tail ⟨value, generation⟩
    tail := next capacity q.tail }

/-- The free positions `ev_repl_queue_push` computes. -/
def freeBytes (q : Queue α) : ℕ := (q.head + capacity - q.tail - 1) % capacity

/-- `ev_repl_queue_push`. -/
def push (q : Queue α) (data : List α) (generation current : UInt32) : Queue α × Bool :=
  if generation = 0 ∨ generation ≠ current then (q, false)
  else
    let q := renew q generation
    if freeBytes q < data.length then (q, false)
    else (data.foldl (store generation) q, true)

/-- The loop of `ev_repl_queue_pop`; the ring is empty after at most `capacity` turns. -/
def popLoop (generation : UInt32) : ℕ → Queue α → Queue α × Option α
  | 0, q => (q, none)
  | fuel + 1, q =>
    if q.head = q.tail then (q, none)
    else
      let entry := q.entries q.head
      let q := { q with head := next capacity q.head }
      if entry.generation = generation then (q, some entry.value)
      else popLoop generation fuel q

/-- `ev_repl_queue_pop`. -/
def pop (q : Queue α) (generation current : UInt32) (consumerReady : Bool) :
    Queue α × Option α :=
  if generation = 0 ∨ generation ≠ current then (q, none)
  else if !consumerReady then (forceClear q generation, none)
  else popLoop generation capacity (renew q generation)

/-- The loop of `ev_repl_queue_pending`. -/
def pendingLoop (generation : UInt32) : ℕ → Queue α → Queue α × Bool
  | 0, q => (q, false)
  | fuel + 1, q =>
    if q.head = q.tail then (q, false)
    else if (q.entries q.head).generation = generation then (q, true)
    else pendingLoop generation fuel { q with head := next capacity q.head }

/-- `ev_repl_queue_pending`. -/
def pending (q : Queue α) (generation current : UInt32) (consumerReady : Bool) :
    Queue α × Bool :=
  if generation = 0 ∨ generation ≠ current then (q, false)
  else if !consumerReady then (forceClear q generation, false)
  else pendingLoop generation capacity (renew q generation)

/-! ## The ring as a list -/

/-- The indices stay inside the ring. -/
def WellFormed (q : Queue α) : Prop := q.head < capacity ∧ q.tail < capacity

/-- The queued entries, oldest first. -/
def Queue.contents (q : Queue α) : List (Entry α) :=
  RingBuffer.contents capacity q.entries q.head q.tail

lemma capacity_pos : 0 < capacity := by decide

@[simp] theorem forceClear_contents (q : Queue α) (generation : UInt32) :
    (forceClear q generation).contents = [] := contents_self capacity_pos _

theorem wellFormed_forceClear (q : Queue α) (generation : UInt32) :
    WellFormed (forceClear q generation) := ⟨capacity_pos, capacity_pos⟩

theorem wellFormed_renew {q : Queue α} (h : WellFormed q) (generation : UInt32) :
    WellFormed (renew q generation) := by
  unfold renew
  split_ifs
  · exact wellFormed_forceClear q generation
  · exact h

/-- Renewing keeps the queue or empties it. -/
theorem renew_contents (q : Queue α) (generation : UInt32) :
    (renew q generation).contents = [] ∨ (renew q generation).contents = q.contents := by
  unfold renew
  split_ifs
  · exact .inl (forceClear_contents q generation)
  · exact .inr rfl

/-- The free positions are those the queued entries leave, one cell staying unused. -/
theorem freeBytes_eq {q : Queue α} (h : WellFormed q) :
    freeBytes q = capacity - 1 - q.contents.length := by
  have hsum := used_add_free h.1 h.2
  simp only [Queue.contents, length_contents, freeBytes]
  omega

lemma store_contents {q : Queue α} (h : WellFormed q) (hfree : q.contents.length + 1 < capacity)
    (generation : UInt32) (value : α) :
    WellFormed (store generation q value) ∧
      (store generation q value).contents = q.contents ++ [⟨value, generation⟩] := by
  refine ⟨⟨h.1, next_lt capacity_pos _⟩, contents_push h.1 h.2 ?_ _ _⟩
  intro hfull
  have hu := used_eq h.1 h.2
  simp only [Queue.contents, length_contents] at hfree
  rw [next_eq h.2] at hfull
  split_ifs at hfull hu <;> omega

/-- The copy loop appends the data. -/
theorem storeAll_contents (generation : UInt32) {data : List α} {q : Queue α}
    (h : WellFormed q) (hfree : q.contents.length + data.length < capacity) :
    WellFormed (data.foldl (store generation) q) ∧
      (data.foldl (store generation) q).contents =
        q.contents ++ data.map fun v => ⟨v, generation⟩ := by
  induction data generalizing q with
  | nil => simpa using h
  | cons v data ih =>
    simp only [List.length_cons] at hfree
    obtain ⟨hwf, hc⟩ := store_contents h (by omega) generation v
    have hfree' : (store generation q v).contents.length + data.length < capacity := by
      rw [hc, List.length_append, List.length_singleton]
      omega
    obtain ⟨hwf', hc'⟩ := ih hwf hfree'
    refine ⟨hwf', ?_⟩
    rw [List.foldl_cons, hc', hc]
    simp

/-- A push appends all of the data under the generation, or leaves what `renew` left. -/
theorem push_contents {q : Queue α} (h : WellFormed q) (data : List α)
    (generation current : UInt32) :
    WellFormed (push q data generation current).1 ∧
      (((push q data generation current).2 = false ∧
          ((push q data generation current).1.contents = [] ∨
            (push q data generation current).1.contents = q.contents)) ∨
        ((push q data generation current).2 = true ∧ generation ≠ 0 ∧ generation = current ∧
          (push q data generation current).1.contents =
            (renew q generation).contents ++ data.map fun v => ⟨v, generation⟩)) := by
  unfold push
  by_cases hg : generation = 0 ∨ generation ≠ current
  · simp only [hg, if_true]
    exact ⟨h, .inl ⟨trivial, .inr trivial⟩⟩
  · have hwf := wellFormed_renew h generation
    simp only [hg, if_false]
    by_cases hfull : freeBytes (renew q generation) < data.length
    · simp only [hfull, if_true]
      exact ⟨hwf, .inl ⟨trivial, renew_contents q generation⟩⟩
    · simp only [hfull, if_false]
      rw [freeBytes_eq hwf] at hfull
      have hlen : (renew q generation).contents.length < capacity := by
        rw [Queue.contents, length_contents]
        exact used_lt hwf.1 hwf.2
      obtain ⟨hwf', hc⟩ := storeAll_contents generation hwf (show _ + data.length < _ by omega)
      push Not at hg
      exact ⟨hwf', .inr ⟨trivial, hg.1, hg.2, hc⟩⟩

lemma contents_empty {q : Queue α} (he : q.head = q.tail) : q.contents = [] := by
  rw [Queue.contents, he]
  exact contents_self capacity_pos _

lemma contents_step {q : Queue α} (h : WellFormed q) (he : q.head ≠ q.tail) : q.contents =
    q.entries q.head :: ({ q with head := next capacity q.head } : Queue α).contents :=
  contents_pop h.1 h.2 he _

/-- The pop loop drops the entries of other generations and takes the first one left. -/
theorem popLoop_contents (generation : UInt32) {fuel : ℕ} {q : Queue α} (h : WellFormed q)
    (hfuel : q.contents.length ≤ fuel) :
    WellFormed (popLoop generation fuel q).1 ∧
      (popLoop generation fuel q).1.contents =
        (q.contents.dropWhile fun e => e.generation ≠ generation).tail ∧
      (popLoop generation fuel q).2 =
        ((q.contents.dropWhile fun e => e.generation ≠ generation).head?).map (·.value) := by
  induction fuel generalizing q with
  | zero =>
    have hnil : q.contents = [] := List.length_eq_zero_iff.mp (by omega)
    exact ⟨h, by simp [popLoop, hnil], by simp [popLoop, hnil]⟩
  | succ fuel ih =>
    unfold popLoop
    by_cases he : q.head = q.tail
    · have hnil := contents_empty he
      simp only [he, if_true]
      exact ⟨h, by simp [hnil], by simp [hnil]⟩
    · have hc := contents_step h he
      have hwf : WellFormed { q with head := next capacity q.head } :=
        ⟨next_lt capacity_pos _, h.2⟩
      simp only [he, if_false]
      by_cases hg : (q.entries q.head).generation = generation
      · simp only [hg, if_true]
        exact ⟨hwf, by simp [hc, hg], by simp [hc, hg]⟩
      · have hlen : ({ q with head := next capacity q.head } : Queue α).contents.length ≤ fuel := by
          rw [hc, List.length_cons] at hfuel
          omega
        obtain ⟨hwf', hc', hv⟩ := ih hwf hlen
        simp only [hg, if_false]
        exact ⟨hwf', by simp [hc', hc, hg], by simp [hv, hc, hg]⟩

/-- Looking at the ring drops the entries of other generations in front. -/
theorem pendingLoop_contents (generation : UInt32) {fuel : ℕ} {q : Queue α} (h : WellFormed q)
    (hfuel : q.contents.length ≤ fuel) :
    WellFormed (pendingLoop generation fuel q).1 ∧
      (pendingLoop generation fuel q).1.contents =
        q.contents.dropWhile (fun e => e.generation ≠ generation) ∧
      (pendingLoop generation fuel q).2 =
        (q.contents.dropWhile fun e => e.generation ≠ generation).head?.isSome := by
  induction fuel generalizing q with
  | zero =>
    have hnil : q.contents = [] := List.length_eq_zero_iff.mp (by omega)
    exact ⟨h, by simp [pendingLoop, hnil], by simp [pendingLoop, hnil]⟩
  | succ fuel ih =>
    unfold pendingLoop
    by_cases he : q.head = q.tail
    · have hnil := contents_empty he
      simp only [he, if_true]
      exact ⟨h, by simp [hnil], by simp [hnil]⟩
    · have hc := contents_step h he
      simp only [he, if_false]
      by_cases hg : (q.entries q.head).generation = generation
      · simp only [hg, if_true]
        exact ⟨h, by simp [hc, hg], by simp [hc, hg]⟩
      · have hlen : ({ q with head := next capacity q.head } : Queue α).contents.length ≤ fuel := by
          rw [hc, List.length_cons] at hfuel
          omega
        have hwf : WellFormed { q with head := next capacity q.head } :=
          ⟨next_lt capacity_pos _, h.2⟩
        obtain ⟨hwf', hc', hv⟩ := ih hwf hlen
        simp only [hg, if_false]
        exact ⟨hwf', by simp [hc', hc, hg], by simp [hv, hc, hg]⟩

lemma contents_length_le {q : Queue α} (h : WellFormed q) : q.contents.length ≤ capacity := by
  rw [Queue.contents, length_contents]
  exact (used_lt h.1 h.2).le

/-! ## Entries of every section -/

/-- Each entry left by a section was there before or is what a push brought. -/
theorem mem_push {q : Queue α} (h : WellFormed q) {data : List α} {generation current : UInt32}
    {e : Entry α} (he : e ∈ (push q data generation current).1.contents) :
    e ∈ q.contents ∨
      (e.generation = generation ∧ e.value ∈ data ∧ generation = current) := by
  obtain ⟨-, ⟨-, hc | hc⟩ | ⟨-, -, hcur, hc⟩⟩ := push_contents h data generation current
  · simp [hc] at he
  · exact .inl (hc ▸ he)
  · rw [hc, List.mem_append] at he
    rcases he with he | he
    · rcases renew_contents q generation with hr | hr
      · simp [hr] at he
      · exact .inl (hr ▸ he)
    · obtain ⟨v, hv, rfl⟩ := List.mem_map.mp he
      exact .inr ⟨rfl, hv, hcur⟩

/-- A pop leaves queued entries only, and what it takes was queued under the generation that is
current. -/
theorem pop_spec {q : Queue α} (h : WellFormed q) (generation current : UInt32) (ready : Bool) :
    WellFormed (pop q generation current ready).1 ∧
      (∀ e ∈ (pop q generation current ready).1.contents, e ∈ q.contents) ∧
      ∀ v, (pop q generation current ready).2 = some v →
        ready = true ∧ generation = current ∧ ⟨v, generation⟩ ∈ q.contents := by
  unfold pop
  by_cases hg : generation = 0 ∨ generation ≠ current
  · simp only [hg, if_true]
    exact ⟨h, fun e he => he, by simp⟩
  · simp only [hg, if_false]
    push Not at hg
    cases ready with
    | false =>
      refine ⟨wellFormed_forceClear q generation, ?_, by simp⟩
      simp
    | true =>
      simp only [Bool.not_true, Bool.false_eq_true, if_false]
      have hwf := wellFormed_renew h generation
      obtain ⟨hwf', hc, hv⟩ := popLoop_contents generation hwf (contents_length_le hwf)
      have hsub : ∀ e ∈ (renew q generation).contents, e ∈ q.contents := by
        intro e he
        rcases renew_contents q generation with hr | hr
        · simp [hr] at he
        · exact hr ▸ he
      refine ⟨hwf', ?_, ?_⟩
      · intro e he
        rw [hc] at he
        exact hsub e ((List.dropWhile_sublist _).subset (List.mem_of_mem_tail he))
      · intro v hpop
        rw [hv, Option.map_eq_some_iff] at hpop
        obtain ⟨e, hhead, rfl⟩ := hpop
        have hmem := List.mem_of_mem_head? hhead
        have hgen : e.generation = generation := by
          have := List.head?_dropWhile_not (fun e : Entry α => e.generation ≠ generation)
            (renew q generation).contents
          rw [hhead] at this
          simpa using this
        refine ⟨trivial, hg.2, ?_⟩
        rw [← hgen]
        exact hsub e ((List.dropWhile_sublist _).subset hmem)

/-- Looking at the ring leaves queued entries only. -/
theorem pending_spec {q : Queue α} (h : WellFormed q) (generation current : UInt32)
    (ready : Bool) :
    WellFormed (pending q generation current ready).1 ∧
      ∀ e ∈ (pending q generation current ready).1.contents, e ∈ q.contents := by
  unfold pending
  by_cases hg : generation = 0 ∨ generation ≠ current
  · simp only [hg, if_true]
    exact ⟨h, fun e he => he⟩
  · simp only [hg, if_false]
    cases ready with
    | false => exact ⟨wellFormed_forceClear q generation, by simp⟩
    | true =>
      simp only [Bool.not_true, Bool.false_eq_true, if_false]
      have hwf := wellFormed_renew h generation
      obtain ⟨hwf', hc, -⟩ := pendingLoop_contents generation hwf (contents_length_le hwf)
      refine ⟨hwf', fun e he => ?_⟩
      rw [hc] at he
      have he' := (List.dropWhile_sublist _).subset he
      rcases renew_contents q generation with hr | hr
      · simp [hr] at he'
      · exact hr ▸ he'

end EspVision.EvReplQueue
