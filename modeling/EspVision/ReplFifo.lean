import EspVision.ReplQueue

/-!
# The REPL input ring is a queue (`ev_repl_queue.h`)

Whatever the position of its two indices, the ring is a first-in first-out queue of at most 511
bytes under one generation. The generation of a session may change between any two calls.
-/
namespace EspVision.EvReplQueue
open RingBuffer

variable {α : Type*}

/-! ## The queue -/

/-- The bytes that wait, oldest first, and the generation that they carry. -/
structure Fifo (α : Type*) where
  generation : Option UInt32 := none
  bytes : List α := []
  deriving DecidableEq

/-- The positions that can be filled; one of the cells stays free. -/
def limit : ℕ := capacity - 1

/-- What a call finds on the queue or on the ring; the consumer may be unready. -/
inductive Op (α : Type*)
  | push (data : List α) (generation : UInt32)
  | pop (generation : UInt32) (ready : Bool)
  | pending (generation : UInt32) (ready : Bool)
  | clear (generation : UInt32)
  | forceClear (generation : UInt32)
  /-- The generation of the session changes. -/
  | change (generation : UInt32)

inductive Answer (α : Type*)
  | flag (b : Bool)
  | byte (v : Option α)
  deriving DecidableEq

namespace Fifo

/-- The bytes of this generation. -/
def under (f : Fifo α) (generation : UInt32) : List α :=
  if f.generation = some generation then f.bytes else []

@[simp] theorem under_mk (g : UInt32) (bytes : List α) :
    (⟨some g, bytes⟩ : Fifo α).under g = bytes :=
  if_pos rfl

/-- The bytes that do not carry the generation `old`. -/
def fresh (f : Fifo α) (old : UInt32) : List α :=
  if f.generation = some old then [] else f.bytes

/-- One operation of the queue, under the present generation. -/
def step (f : Fifo α) (current : UInt32) : Op α → Fifo α × Answer α
  | .push data g =>
    if g = 0 ∨ g ≠ current then (f, .flag false)
    else if (f.under g).length + data.length ≤ limit then
      (⟨some g, f.under g ++ data⟩, .flag true)
    else (⟨some g, f.under g⟩, .flag false)
  | .pop g ready =>
    if g = 0 ∨ g ≠ current then (f, .byte none)
    else if ready = false then (⟨some g, []⟩, .byte none)
    else (⟨some g, (f.under g).tail⟩, .byte (f.under g).head?)
  | .pending g ready =>
    if g = 0 ∨ g ≠ current then (f, .flag false)
    else if ready = false then (⟨some g, []⟩, .flag false)
    else (⟨some g, f.under g⟩, .flag (f.under g).head?.isSome)
  | .clear g =>
    if g = 0 ∨ g ≠ current then (f, .flag false) else (⟨some g, f.under g⟩, .flag true)
  | .forceClear g => (⟨if g = 0 then none else some g, []⟩, .flag true)
  | .change _ => (f, .flag true)

end Fifo

/-! ## The ring -/

/-- Every queued byte carries the generation of the guard. -/
def Sound (q : Queue α) : Prop :=
  WellFormed q ∧ ∀ e ∈ q.contents, q.guardValid = true ∧ e.generation = q.guardGeneration

/-- A ring, with its two indices anywhere. -/
def Ring (α : Type*) : Type _ := { q : Queue α // Sound q }

/-- The ring as a queue. -/
def Queue.fifo (q : Queue α) : Fifo α :=
  ⟨if q.guardValid then some q.guardGeneration else none, q.contents.map (·.value)⟩

/-- One operation of the ring, under the present generation. -/
def Queue.step (q : Queue α) (current : UInt32) : Op α → Queue α × Answer α
  | .push data g => ((push q data g current).1, .flag (push q data g current).2)
  | .pop g ready => ((pop q g current ready).1, .byte (pop q g current ready).2)
  | .pending g ready => ((pending q g current ready).1, .flag (pending q g current ready).2)
  | .clear g => ((clearGeneration q g current).1, .flag (clearGeneration q g current).2)
  | .forceClear g => (EvReplQueue.forceClear q g, .flag true)
  | .change _ => (q, .flag true)

theorem sound_forceClear (q : Queue α) (g : UInt32) : Sound (forceClear q g) :=
  ⟨wellFormed_forceClear q g, by simp⟩

@[simp] theorem forceClear_fifo (q : Queue α) (g : UInt32) :
    (forceClear q g).fifo = ⟨if g = 0 then none else some g, []⟩ := by
  unfold Queue.fifo
  rw [forceClear_contents]
  by_cases hg : g = 0 <;> simp [forceClear, hg]

/-- What a renewed ring is as a queue. -/
theorem renew_spec {q : Queue α} (h : Sound q) {g : UInt32} (hg : g ≠ 0) :
    Sound (renew q g) ∧ (renew q g).guardValid = true ∧ (renew q g).guardGeneration = g ∧
      (renew q g).contents.map (·.value) = q.fifo.under g := by
  unfold renew
  by_cases hstale : (!q.guardValid) = true ∨ q.guardGeneration ≠ g
  · rw [if_pos hstale]
    refine ⟨sound_forceClear q g, by simp [forceClear, hg], rfl, ?_⟩
    have hne : q.fifo.generation ≠ some g := by
      unfold Queue.fifo
      rcases hstale with hv | hne
      · simp_all
      · split_ifs <;> simp [hne]
    rw [forceClear_contents, Fifo.under, if_neg hne]
    rfl
  · rw [if_neg hstale]
    push Not at hstale
    have hvalid : q.guardValid = true := by simpa using hstale.1
    refine ⟨h, hvalid, hstale.2, ?_⟩
    simp [Fifo.under, Queue.fifo, hvalid, hstale.2]

lemma renew_contents_generation {q : Queue α} (h : Sound q) {g : UInt32} (hg : g ≠ 0) :
    ∀ e ∈ (renew q g).contents, e.generation = g := by
  obtain ⟨hs, -, hgen, -⟩ := renew_spec h hg
  intro e he
  rw [(hs.2 e he).2, hgen]

/-- A ring with this guard and these entries. -/
lemma sound_of {q : Queue α} {g : UInt32} (hw : WellFormed q) (hv : q.guardValid = true)
    (hgen : q.guardGeneration = g) (he : ∀ e ∈ q.contents, e.generation = g) : Sound q :=
  ⟨hw, fun e hm => ⟨hv, (he e hm).trans hgen.symm⟩⟩

lemma fifo_of {q : Queue α} {g : UInt32} {bytes : List α} (hv : q.guardValid = true)
    (hgen : q.guardGeneration = g) (hb : q.contents.map (·.value) = bytes) :
    q.fifo = ⟨some g, bytes⟩ := by
  simp [Queue.fifo, hv, hgen, hb]

lemma storeAll_guard (g : UInt32) (data : List α) (q : Queue α) :
    (data.foldl (store g) q).guardValid = q.guardValid ∧
      (data.foldl (store g) q).guardGeneration = q.guardGeneration := by
  induction data generalizing q with
  | nil => exact ⟨rfl, rfl⟩
  | cons v data ih => exact ih (store g q v)

lemma popLoop_guard (g : UInt32) (fuel : ℕ) (q : Queue α) :
    (popLoop g fuel q).1.guardValid = q.guardValid ∧
      (popLoop g fuel q).1.guardGeneration = q.guardGeneration := by
  induction fuel generalizing q with
  | zero => exact ⟨rfl, rfl⟩
  | succ fuel ih =>
    unfold popLoop
    by_cases he : q.head = q.tail
    · simp [he]
    · by_cases hg : (q.entries q.head).generation = g
      · simp [he, hg]
      · simpa [he, hg] using ih { q with head := next capacity q.head }

lemma pendingLoop_guard (g : UInt32) (fuel : ℕ) (q : Queue α) :
    (pendingLoop g fuel q).1.guardValid = q.guardValid ∧
      (pendingLoop g fuel q).1.guardGeneration = q.guardGeneration := by
  induction fuel generalizing q with
  | zero => exact ⟨rfl, rfl⟩
  | succ fuel ih =>
    unfold pendingLoop
    by_cases he : q.head = q.tail
    · simp [he]
    · by_cases hg : (q.entries q.head).generation = g
      · simp [he, hg]
      · simpa [he, hg] using ih { q with head := next capacity q.head }

lemma dropWhile_own {l : List (Entry α)} {g : UInt32} (h : ∀ e ∈ l, e.generation = g) :
    l.dropWhile (fun e => e.generation ≠ g) = l := by
  cases l with
  | nil => rfl
  | cons e l => simp [h e (by simp)]

/-! ### Each operation -/

theorem push_refines {q : Queue α} (h : Sound q) (data : List α) (g current : UInt32) :
    Sound (push q data g current).1 ∧
      ((push q data g current).1.fifo, Answer.flag (push q data g current).2) =
        q.fifo.step current (.push data g) := by
  unfold push Fifo.step
  by_cases hbad : g = 0 ∨ g ≠ current
  · simp only [if_pos hbad]
    exact ⟨h, trivial⟩
  simp only [if_neg hbad]
  push Not at hbad
  obtain ⟨hs, hv, hgen, hbytes⟩ := renew_spec h hbad.1
  have hlen : (q.fifo.under g).length = (renew q g).contents.length := by
    rw [← hbytes, List.length_map]
  have hle : (renew q g).contents.length < capacity := by
    rw [Queue.contents, length_contents]
    exact used_lt hs.1.1 hs.1.2
  rw [freeBytes_eq hs.1]
  by_cases hfit : (q.fifo.under g).length + data.length ≤ limit
  · rw [if_pos hfit]
    rw [hlen, limit] at hfit
    rw [if_neg (by omega)]
    obtain ⟨hw, hc⟩ := storeAll_contents g hs.1 (show _ + data.length < _ by omega)
    obtain ⟨hv', hgen'⟩ := storeAll_guard g data (renew q g)
    have hall : ∀ e ∈ (data.foldl (store g) (renew q g)).contents, e.generation = g := by
      intro e he
      rw [hc] at he
      rcases List.mem_append.mp he with he | he
      · exact renew_contents_generation h hbad.1 e he
      · obtain ⟨v, -, rfl⟩ := List.mem_map.mp he
        rfl
    refine ⟨sound_of hw (hv'.trans hv) (hgen'.trans hgen) hall, ?_⟩
    rw [fifo_of (hv'.trans hv) (hgen'.trans hgen) rfl, hc]
    simp [hbytes, Function.comp_def]
  · rw [if_neg hfit]
    rw [hlen, limit] at hfit
    rw [if_pos (by omega)]
    exact ⟨hs, by rw [fifo_of hv hgen hbytes]⟩

theorem pop_refines {q : Queue α} (h : Sound q) (g current : UInt32) (ready : Bool) :
    Sound (pop q g current ready).1 ∧
      ((pop q g current ready).1.fifo, Answer.byte (pop q g current ready).2) =
        q.fifo.step current (.pop g ready) := by
  unfold pop Fifo.step
  by_cases hbad : g = 0 ∨ g ≠ current
  · simp only [if_pos hbad]
    exact ⟨h, trivial⟩
  simp only [if_neg hbad]
  push Not at hbad
  cases ready with
  | false => exact ⟨sound_forceClear q g, by simp [hbad.1]⟩
  | true =>
    obtain ⟨hs, hv, hgen, hbytes⟩ := renew_spec h hbad.1
    have hown := renew_contents_generation h hbad.1
    obtain ⟨hw, hc, hval⟩ := popLoop_contents g hs.1 (contents_length_le hs.1)
    obtain ⟨hv', hgen'⟩ := popLoop_guard g capacity (renew q g)
    rw [dropWhile_own hown] at hc hval
    simp only [Bool.not_true, Bool.false_eq_true, if_false]
    refine ⟨sound_of hw (hv'.trans hv) (hgen'.trans hgen) fun e he => ?_, ?_⟩
    · rw [hc] at he
      exact hown e (List.mem_of_mem_tail he)
    · rw [fifo_of (hv'.trans hv) (hgen'.trans hgen) rfl, hc, hval, ← hbytes, List.map_tail]
      simp

theorem pending_refines {q : Queue α} (h : Sound q) (g current : UInt32) (ready : Bool) :
    Sound (pending q g current ready).1 ∧
      ((pending q g current ready).1.fifo, Answer.flag (pending q g current ready).2) =
        q.fifo.step current (.pending g ready) := by
  unfold pending Fifo.step
  by_cases hbad : g = 0 ∨ g ≠ current
  · simp only [if_pos hbad]
    exact ⟨h, trivial⟩
  simp only [if_neg hbad]
  push Not at hbad
  cases ready with
  | false => exact ⟨sound_forceClear q g, by simp [hbad.1]⟩
  | true =>
    obtain ⟨hs, hv, hgen, hbytes⟩ := renew_spec h hbad.1
    have hown := renew_contents_generation h hbad.1
    obtain ⟨hw, hc, hval⟩ := pendingLoop_contents g hs.1 (contents_length_le hs.1)
    obtain ⟨hv', hgen'⟩ := pendingLoop_guard g capacity (renew q g)
    rw [dropWhile_own hown] at hc hval
    simp only [Bool.not_true, Bool.false_eq_true, if_false]
    refine ⟨sound_of hw (hv'.trans hv) (hgen'.trans hgen) fun e he => hown e (hc ▸ he), ?_⟩
    rw [fifo_of (hv'.trans hv) (hgen'.trans hgen) rfl, hc, hval, ← hbytes]
    simp

theorem clear_refines {q : Queue α} (h : Sound q) (g current : UInt32) :
    Sound (clearGeneration q g current).1 ∧
      ((clearGeneration q g current).1.fifo, Answer.flag (clearGeneration q g current).2) =
        (q.fifo.step current (.clear g) : Fifo α × Answer α) := by
  unfold clearGeneration Fifo.step
  by_cases hbad : g = 0 ∨ g ≠ current
  · simp only [if_pos hbad]
    exact ⟨h, trivial⟩
  simp only [if_neg hbad]
  push Not at hbad
  obtain ⟨hs, hv, hgen, hbytes⟩ := renew_spec h hbad.1
  exact ⟨hs, by rw [fifo_of hv hgen hbytes]⟩

/-- Every operation of the ring is the operation of the queue. -/
theorem step_refines {q : Queue α} (h : Sound q) (current : UInt32) (op : Op α) :
    Sound (q.step current op).1 ∧
      ((q.step current op).1.fifo, (q.step current op).2) = q.fifo.step current op := by
  cases op with
  | push data g => exact push_refines h data g current
  | pop g ready => exact pop_refines h g current ready
  | pending g ready => exact pending_refines h g current ready
  | clear g => exact clear_refines h g current
  | forceClear g => exact ⟨sound_forceClear q g, by simp [Queue.step, Fifo.step]⟩
  | change g => exact ⟨h, rfl⟩

/-! ## Runs -/

/-- The present generation behind an operation. -/
def Op.current (current : UInt32) : Op α → UInt32
  | .change g => g
  | _ => current

/-- The operations on the ring one after the other, with their answers. -/
def Ring.run : Ring α → UInt32 → List (Op α) → Ring α × List (Answer α)
  | r, _, [] => (r, [])
  | r, current, op :: rest =>
    let next : Ring α := ⟨(r.1.step current op).1, (step_refines r.2 current op).1⟩
    let (last, answers) := Ring.run next (op.current current) rest
    (last, (r.1.step current op).2 :: answers)

/-- The same on the queue. -/
def Fifo.run : Fifo α → UInt32 → List (Op α) → Fifo α × List (Answer α)
  | f, _, [] => (f, [])
  | f, current, op :: rest =>
    let (last, answers) := Fifo.run (f.step current op).1 (op.current current) rest
    (last, (f.step current op).2 :: answers)

/-- The bytes that an operation brought into the queue. -/
def Op.pushed : Op α → Answer α → List α
  | .push data _, .flag true => data
  | _, _ => []

/-- The byte that an operation took out of it. -/
def Op.popped : Op α → Answer α → List α
  | .pop _ _, .byte (some v) => [v]
  | _, _ => []

/-- All bytes that the operations brought in. -/
def pushed (ops : List (Op α)) (answers : List (Answer α)) : List α :=
  (List.zipWith Op.pushed ops answers).flatten

/-- All bytes that they took out. -/
def popped (ops : List (Op α)) (answers : List (Answer α)) : List α :=
  (List.zipWith Op.popped ops answers).flatten

/-- The operation throws nothing away while the generation is `g`. -/
def Op.Keeps (g : UInt32) : Op α → Prop
  | .pop g' ready => g' = g → ready = true
  | .pending g' ready => g' = g → ready = true
  | .forceClear _ => False
  | .change _ => False
  | _ => True

/-- The operation does not bring the generation `g` back. -/
def Op.Leaves (g : UInt32) : Op α → Prop
  | .change g' => g' ≠ g
  | _ => True

theorem run_refines (r : Ring α) (current : UInt32) (ops : List (Op α)) :
    ((r.run current ops).1.1.fifo, (r.run current ops).2) = r.1.fifo.run current ops := by
  induction ops generalizing r current with
  | nil => rfl
  | cons op rest ih =>
    have hstep := (step_refines r.2 current op).2
    have hrest := ih ⟨(r.1.step current op).1, (step_refines r.2 current op).1⟩ (op.current current)
    simp only [Ring.run, Fifo.run, ← hstep, ← hrest]

/-- An operation that throws nothing away: what was there and what it brought is what it took and
what is there. -/
lemma step_keeps (f : Fifo α) {g : UInt32} (hg : g ≠ 0) {op : Op α} (h : op.Keeps g) :
    f.under g ++ op.pushed (f.step g op).2 = op.popped (f.step g op).2 ++ (f.step g op).1.under g ∧
      op.current g = g := by
  cases op with
  | push data g' =>
    refine ⟨?_, rfl⟩
    unfold Fifo.step
    by_cases hbad : g' = 0 ∨ g' ≠ g
    · simp [hbad, Op.pushed, Op.popped]
    · simp only [if_neg hbad]
      push Not at hbad
      obtain rfl := hbad.2
      by_cases hfit : (f.under g').length + data.length ≤ limit
      · simp [hfit, Op.pushed, Op.popped]
      · simp [hfit, Op.pushed, Op.popped]
  | pop g' ready =>
    refine ⟨?_, rfl⟩
    unfold Fifo.step
    by_cases hbad : g' = 0 ∨ g' ≠ g
    · simp [hbad, Op.pushed, Op.popped]
    · simp only [if_neg hbad]
      push Not at hbad
      obtain rfl := hbad.2
      obtain rfl : ready = true := h rfl
      cases hb : f.under g' <;> simp [Op.pushed, Op.popped]
  | pending g' ready =>
    refine ⟨?_, rfl⟩
    unfold Fifo.step
    by_cases hbad : g' = 0 ∨ g' ≠ g
    · simp [hbad, Op.pushed, Op.popped]
    · simp only [if_neg hbad]
      push Not at hbad
      obtain rfl := hbad.2
      obtain rfl : ready = true := h rfl
      simp [Op.pushed, Op.popped]
  | clear g' =>
    refine ⟨?_, rfl⟩
    unfold Fifo.step
    by_cases hbad : g' = 0 ∨ g' ≠ g
    · simp [hbad, Op.pushed, Op.popped]
    · simp only [if_neg hbad]
      push Not at hbad
      obtain rfl := hbad.2
      simp [Op.pushed, Op.popped]
  | forceClear g' => exact h.elim
  | change g' => exact h.elim

/-- In a stretch of a run without a clear, the bytes come out in the order in which they went in,
each once. -/
theorem run_keeps (f : Fifo α) {g : UInt32} (hg : g ≠ 0) {ops : List (Op α)}
    (h : ∀ op ∈ ops, op.Keeps g) :
    f.under g ++ pushed ops (f.run g ops).2 =
      popped ops (f.run g ops).2 ++ (f.run g ops).1.under g := by
  induction ops generalizing f with
  | nil => simp [Fifo.run, pushed, popped]
  | cons op rest ih =>
    obtain ⟨hstep, hcur⟩ := step_keeps f hg (h op (by simp))
    have hrest := ih (f.step g op).1 fun x hx => h x (by simp [hx])
    simp only [pushed, popped, Fifo.run, hcur, List.zipWith_cons_cons, List.flatten_cons] at hrest ⊢
    rw [← List.append_assoc, hstep, List.append_assoc, hrest, List.append_assoc]

lemma under_sublist_fresh (f : Fifo α) {g old : UInt32} (h : g ≠ old) :
    (f.under g).Sublist (f.fresh old) := by
  unfold Fifo.under Fifo.fresh
  by_cases hg : f.generation = some g
  · have hold : f.generation ≠ some old := by
      rw [hg]
      simpa using h
    rw [if_pos hg, if_neg hold]
  · rw [if_neg hg]
    exact List.nil_sublist _

lemma fresh_mk {g old : UInt32} (h : g ≠ old) (bytes : List α) :
    (⟨some g, bytes⟩ : Fifo α).fresh old = bytes :=
  if_neg (by simpa using h)

/-- Behind a change of the generation, an operation takes what was brought behind it. -/
lemma step_fresh (f : Fifo α) {current old : UInt32} (hcur : current ≠ old) {op : Op α}
    (h : op.Leaves old) :
    (op.popped (f.step current op).2 ++ (f.step current op).1.fresh old).Sublist
        (f.fresh old ++ op.pushed (f.step current op).2) ∧ op.current current ≠ old := by
  cases op with
  | push data g =>
    refine ⟨?_, hcur⟩
    unfold Fifo.step
    by_cases hbad : g = 0 ∨ g ≠ current
    · simp [hbad, Op.pushed, Op.popped]
    · simp only [if_neg hbad]
      push Not at hbad
      obtain rfl := hbad.2
      have hsub := under_sublist_fresh f hcur
      by_cases hfit : (f.under g).length + data.length ≤ limit
      · simpa [hfit, Op.pushed, Op.popped, fresh_mk hcur] using hsub
      · simpa [hfit, Op.pushed, Op.popped, fresh_mk hcur] using hsub
  | pop g ready =>
    refine ⟨?_, hcur⟩
    unfold Fifo.step
    by_cases hbad : g = 0 ∨ g ≠ current
    · simp [hbad, Op.pushed, Op.popped]
    · simp only [if_neg hbad]
      push Not at hbad
      obtain rfl := hbad.2
      have hsub := under_sublist_fresh f hcur
      cases ready with
      | false => simp [Op.pushed, Op.popped, fresh_mk hcur]
      | true =>
        cases hb : f.under g with
        | nil => simp [Op.pushed, Op.popped, fresh_mk hcur]
        | cons v rest => simpa [Op.pushed, Op.popped, fresh_mk hcur, hb] using hsub
  | pending g ready =>
    refine ⟨?_, hcur⟩
    unfold Fifo.step
    by_cases hbad : g = 0 ∨ g ≠ current
    · simp [hbad, Op.pushed, Op.popped]
    · simp only [if_neg hbad]
      push Not at hbad
      obtain rfl := hbad.2
      cases ready with
      | false => simp [Op.pushed, Op.popped, fresh_mk hcur]
      | true => simpa [Op.pushed, Op.popped, fresh_mk hcur] using under_sublist_fresh f hcur
  | clear g =>
    refine ⟨?_, hcur⟩
    unfold Fifo.step
    by_cases hbad : g = 0 ∨ g ≠ current
    · simp [hbad, Op.pushed, Op.popped]
    · simp only [if_neg hbad]
      push Not at hbad
      obtain rfl := hbad.2
      simpa [Op.pushed, Op.popped, fresh_mk hcur] using under_sublist_fresh f hcur
  | forceClear g => exact ⟨by simp [Fifo.step, Op.popped, Fifo.fresh], hcur⟩
  | change g => exact ⟨by simp [Fifo.step, Op.popped, Op.pushed], h⟩

/-- While a generation does not come back, no byte that carries it comes out. -/
theorem run_fresh (f : Fifo α) {current old : UInt32} (hcur : current ≠ old) {ops : List (Op α)}
    (h : ∀ op ∈ ops, op.Leaves old) :
    (popped ops (f.run current ops).2).Sublist
      (f.fresh old ++ pushed ops (f.run current ops).2) := by
  induction ops generalizing f current with
  | nil => simp [Fifo.run, popped]
  | cons op rest ih =>
    obtain ⟨hstep, hcur'⟩ := step_fresh f hcur (h op (by simp))
    have hrest := ih (f.step current op).1 hcur' fun x hx => h x (by simp [hx])
    simp only [pushed, popped, Fifo.run, List.zipWith_cons_cons, List.flatten_cons] at hrest ⊢
    refine ((List.Sublist.refl _).append hrest).trans ?_
    rw [← List.append_assoc, ← List.append_assoc]
    exact hstep.append (.refl _)

/-- The ring that `ev_repl_queue_t` begins with. -/
def Ring.new (cells : ℕ → Entry α) : Ring α :=
  ⟨{ entries := cells }, ⟨capacity_pos, capacity_pos⟩, by
    simp [Queue.contents, contents_self capacity_pos]⟩

end EspVision.EvReplQueue
