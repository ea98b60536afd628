import EspVision.EventLog
import EspVision.StorageVfs
import Mathlib.Data.Finset.Card

/-!
# Admissions and open handles

Every method of `storage_vfs.c` ends the admission that it began, however it leaves, and the count
of open handles follows what was opened and closed. Both are read off the calls: an admission is
begun when it is granted, and an object is open from the call that gave its descriptor until a
close that succeeds.
-/
namespace EspVision.StorageVfs
open Dialogue EventLog
open FileSystem (Errno)
open EvFileTransfer (Volume)

/-! ## What the calls say -/

/-- An admission to the volume was granted. -/
def begins (v : Volume) : Event Call.Value Raised → Bool
  | ⟨.begin u _, .ok granted⟩ => granted && u = v
  | _ => false

/-- An admission to the volume was given back. -/
def ends (v : Volume) : Event Call.Value Raised → Bool
  | ⟨.finish u, .ok _⟩ => u = v
  | _ => false

/-- One call more: the objects of the volume that are open. -/
def openedStep (v : Volume) (objects : Finset ℕ) : Event Call.Value Raised → Finset ℕ
  | ⟨.openFile i path _, .ok (.ok _)⟩ =>
    if volumeForPath path = v then insert i objects else objects
  | ⟨.opendir i path, .ok (.ok _)⟩ =>
    if volumeForPath path = v then insert i objects else objects
  | ⟨.close i _, .ok (.ok ())⟩ => objects.erase i
  | ⟨.closedir i _, .ok (.ok ())⟩ => objects.erase i
  | _ => objects

/-- The objects of the volume whose descriptor was opened and not yet successfully closed. -/
def opened (v : Volume) (log : Log) : Finset ℕ := log.foldl (openedStep v) ∅

/-- The calls that may raise an exception. -/
def Call.MayRaise : Call → Prop
  | .handlePending => True
  | .alloc => True
  | _ => False

/-- No other call raised one. -/
def Returned (log : Log) : Prop := ∀ e ∈ log, e.Failed → e.call.MayRaise

lemma Returned.of_snoc {log : Log} {e : Event Call.Value Raised} (h : Returned (log ++ [e])) :
    Returned log := fun x hx => h x (List.mem_append_left _ hx)

lemma opened_snoc (v : Volume) (log : Log) (e : Event Call.Value Raised) :
    opened v (log ++ [e]) = openedStep v (opened v log) e := by
  rw [opened, List.foldl_append]
  rfl

/-- A call that is made again while it is interrupted. -/
theorem triple_retry {c : Flow (Except Errno Unit)} {P Y : World Machine Call.Value Raised → Prop}
    {T : Except Errno Unit → World Machine Call.Value Raised → Prop} (hc : Triple P c T Y)
    (hagain : ∀ w, T (.error eintr) w → P w) (fuel : ℕ) :
    Triple P (retry fuel c) (fun
      | none => P
      | some r => T r) Y := by
  have hturn : ∀ _ : ℕ, Triple P (do
      let result ← c
      pure (if result = .error eintr then Turn.again else .found result)) (fun
        | .found r => T r
        | .quit => P
        | .again => P) Y := by
    refine fun _ => .bind hc fun result => .pure fun w hw => ?_
    by_cases hresult : result = .error eintr
    · rw [if_pos hresult]
      exact hagain w (hresult ▸ hw)
    · rw [if_neg hresult]
      exact hw
  refine .bind (Triple.waitFor (I := fun _ => P) (Q := fun
    | none => P
    | some r => T r) (fun k => (hturn k).post fun turn w hw => ?_) 0 fuel) fun r => ?_
  · cases turn <;> exact hw
  · refine .pure fun w hw => ?_
    cases r with
    | none => exact hw
    | some r => cases r <;> exact hw

/-! ## Books -/

/-- The counts and the objects agree with the calls. -/
structure Booked (s : Machine) (log : Log) : Prop where
  count : ∀ v, (∀ l, l <+: log → (opened v l).card < 2 ^ 32) →
    s.openHandles v = (opened v log).card
  present : ∀ i, (s.objects i).descriptor ≠ .absent → i ∈ opened (s.objects i).volume log
  known : ∀ v, ∀ i ∈ opened v log, i < s.next ∧ (s.objects i).volume = v

/-- A call after which the same objects are open. -/
def Call.Quiet : Call → Prop
  | .openFile _ _ _ => False
  | .opendir _ _ => False
  | .close _ _ => False
  | .closedir _ _ => False
  | _ => True

/-- The relation of the state to the calls does not depend on quiet ones. -/
def Stable (R : Machine → Log → Prop) : Prop :=
  ∀ s log e, (∀ v, opened v (log ++ [e]) = opened v log) → R s log → R s (log ++ [e])

lemma opened_quiet {e : Event Call.Value Raised} (h : e.call.Quiet) (v : Volume) (log : Log) :
    opened v (log ++ [e]) = opened v log := by
  rw [opened_snoc]
  obtain ⟨c, answer⟩ := e
  cases c <;> first | rfl | exact absurd h not_false

lemma stable_booked : Stable Booked := by
  intro s log e hquiet h
  refine ⟨fun v hbound => ?_, fun i hi => ?_, fun v i hi => ?_⟩
  · rw [hquiet]
    exact h.count v fun l hl => hbound l (hl.trans (List.prefix_append _ _))
  · rw [hquiet]
    exact h.present i hi
  · rw [hquiet] at hi
    exact h.known v i hi

/-- Which volumes an admission is held for. -/
abbrev Held := Volume → Bool

/-- None. -/
def free : Held := fun _ => false

/-- The state and the calls are in `R`, and these admissions are held. -/
def At (R : Machine → Log → Prop) (held : Held) (w : World Machine Call.Value Raised) : Prop :=
  Returned w.log → R w.state w.log ∧ ∀ v, openAfter (begins v) (ends v) w.log = some (held v)

/-- The books agree and no admission is held. -/
abbrev Idle : World Machine Call.Value Raised → Prop := At Booked free

section Rules

variable {R S : Machine → Log → Prop} {held : Held} {α : Type}

lemma at_mono (h : ∀ s log, R s log → S s log) {w : World Machine Call.Value Raised}
    (hw : At R held w) : At S held w := fun hr => ⟨h _ _ (hw hr).1, (hw hr).2⟩

/-- A call that failed although it cannot. -/
lemma at_failed (c : Call) {e : Raised} (hc : ¬ c.MayRaise) {w : World Machine Call.Value Raised}
    (S : Machine → Log → Prop) (held' : Held) :
    At S held' { w with log := w.log ++ [⟨c, .error e⟩] } := fun hr =>
  absurd (hr ⟨c, .error e⟩ (by simp) ⟨e, rfl⟩) hc

/-- Neither the begin nor the end of an admission. -/
def Call.Inner : Call → Prop
  | .begin _ _ => False
  | .finish _ => False
  | _ => True

lemma held_inner {e : Event Call.Value Raised} (h : e.call.Inner) (v : Volume) (log : Log) :
    openAfter (begins v) (ends v) (log ++ [e]) = openAfter (begins v) (ends v) log := by
  rw [openAfter_snoc]
  have hb : begins v e = false := by
    obtain ⟨c, answer⟩ := e
    cases c <;> first | rfl | exact absurd h not_false
  have he : ends v e = false := by
    obtain ⟨c, answer⟩ := e
    cases c <;> first | rfl | exact absurd h not_false
  cases openAfter (begins v) (ends v) log with
  | none => rfl
  | some isOpen => simp only [pairStep, hb, he, Bool.false_eq_true, if_false]

/-- A call inside an operation that opens and closes nothing. -/
theorem at_inner {c : Call} (hR : Stable R) (hinner : c.Inner) (hquiet : c.Quiet)
    (hc : ¬ c.MayRaise) : Triple (At R held) (ask c) (fun _ => At R held) Idle := by
  refine .call (fun a w hw hr => ?_) fun e w _ => at_failed c hc Booked free
  obtain ⟨hR', hheld⟩ := hw hr.of_snoc
  refine ⟨hR _ _ _ (fun v => opened_quiet hquiet v _) hR', fun v => ?_⟩
  rw [held_inner hinner]
  exact hheld v

/-- A call that may raise, while no admission is held. -/
theorem at_raising {c : Call} (hR : Stable R) (hinner : c.Inner) (hquiet : c.Quiet)
    (hbooked : ∀ s log, R s log → Booked s log) :
    Triple (At R free) (ask c) (fun _ => At R free) Idle := by
  have hstep : ∀ (e : Event Call.Value Raised) (w : World Machine Call.Value Raised),
      e.call = c → At R free w → At R free { w with log := w.log ++ [e] } := by
    rintro e w rfl hw hr
    obtain ⟨hR', hheld⟩ := hw hr.of_snoc
    refine ⟨hR _ _ _ (fun v => opened_quiet hquiet v _) hR', fun v => ?_⟩
    rw [held_inner hinner]
    exact hheld v
  exact .call (fun a w hw => hstep _ w rfl hw) fun e w hw => at_mono hbooked (hstep _ w rfl hw)

/-- An admission is asked for. -/
theorem at_begin {v : Volume} {writing : Bool} (hR : Stable R) (hfree : held v = false) :
    Triple (At R held) (ask (.begin v writing))
      (fun granted => At R (if granted then Function.update held v true else held)) Idle := by
  refine .call (fun granted w hw hr => ?_)
    fun e w _ => at_failed (.begin v writing) not_false Booked free
  obtain ⟨hR', hheld⟩ := hw hr.of_snoc
  have hquiet : ∀ u, opened u (w.log ++ [⟨.begin v writing, .ok granted⟩]) = opened u w.log :=
    fun u => opened_quiet (by trivial) u _
  refine ⟨hR _ _ _ hquiet hR', fun u => ?_⟩
  rw [openAfter_snoc, hheld u, pairStep]
  by_cases hu : v = u
  · subst hu
    cases granted <;> simp [begins, ends, hfree]
  · cases granted <;> simp [begins, ends, hu, Function.update_of_ne (Ne.symm hu)]

/-- An admission is given back. -/
theorem at_finish {v : Volume} (hR : Stable R) (hheld : held v = true) :
    Triple (At R held) (ask (.finish v)) (fun _ => At R (Function.update held v false)) Idle := by
  refine .call (fun finished w hw hr => ?_)
    fun e w _ => at_failed (.finish v) not_false Booked free
  obtain ⟨hR', hall⟩ := hw hr.of_snoc
  have hquiet : ∀ u, opened u (w.log ++ [⟨.finish v, .ok finished⟩]) = opened u w.log :=
    fun u => opened_quiet (by trivial) u _
  refine ⟨hR _ _ _ hquiet hR', fun u => ?_⟩
  rw [openAfter_snoc, hall u, pairStep]
  by_cases hu : v = u
  · subst hu
    simp [begins, ends, hheld]
  · simp [begins, ends, hu, Function.update_of_ne (Ne.symm hu)]

theorem at_retry {c : Flow (Except Errno Unit)} {T : Except Errno Unit → Machine → Log → Prop}
    {Y : World Machine Call.Value Raised → Prop}
    (hc : Triple (At R held) c (fun r => At (T r) held) Y)
    (hagain : ∀ s log, T (.error eintr) s log → R s log) (fuel : ℕ) :
    Triple (At R held) (retry fuel c) (fun
      | none => At R held
      | some r => At (T r) held) Y :=
  (triple_retry hc (fun _ hw => at_mono hagain hw) fuel).post fun r _ hw => by cases r <;> exact hw

end Rules

/-! ## Objects -/

/-- A new object, not opened yet. -/
structure Ready (i : ℕ) (v : Volume) (s : Machine) (log : Log) : Prop extends Booked s log where
  inUse : i < s.next
  volume : (s.objects i).volume = v
  unopened : ∀ u, i ∉ opened u log

/-- An object with its descriptor. -/
structure Live (i : ℕ) (s : Machine) (log : Log) : Prop extends Booked s log where
  open_ : (s.objects i).descriptor ≠ .absent

lemma stable_ready (i : ℕ) (v : Volume) : Stable (Ready i v) := fun s log e hquiet h =>
  ⟨stable_booked s log e hquiet h.toBooked, h.inUse, h.volume, fun u => by
    rw [hquiet]
    exact h.unopened u⟩

lemma stable_live (i : ℕ) : Stable (Live i) := fun s log e hquiet h =>
  ⟨stable_booked s log e hquiet h.toBooked, h.open_⟩

/-- `esp_vision_storage_vfs_handle_open` on the state. -/
def counted (v : Volume) (s : Machine) : Machine :=
  if s.openHandles v ≠ 2 ^ 32 - 1 then s.setOpenHandles v (s.openHandles v + 1) else s

/-- `esp_vision_storage_vfs_handle_close` on the state. -/
def uncounted (v : Volume) (s : Machine) : Machine :=
  if 0 < s.openHandles v then s.setOpenHandles v (s.openHandles v - 1) else s

/-- The object has the descriptor. -/
def described (i : ℕ) (d : Descriptor) (s : Machine) : Machine :=
  s.setObject i { s.objects i with descriptor := d }

/-- `released` on the state. -/
def releasing (i : ℕ) (result : Except Errno Unit) (s : Machine) : Machine :=
  if result = .ok () then uncounted (s.objects i).volume (described i .absent s)
  else described i .absent s

@[simp] lemma counted_objects (v : Volume) (s : Machine) : (counted v s).objects = s.objects := by
  unfold counted
  split_ifs <;> rfl

@[simp] lemma counted_next (v : Volume) (s : Machine) : (counted v s).next = s.next := by
  unfold counted
  split_ifs <;> rfl

@[simp] lemma uncounted_objects (v : Volume) (s : Machine) :
    (uncounted v s).objects = s.objects := by
  unfold uncounted
  split_ifs <;> rfl

@[simp] lemma uncounted_next (v : Volume) (s : Machine) : (uncounted v s).next = s.next := by
  unfold uncounted
  split_ifs <;> rfl

@[simp] lemma described_self (i : ℕ) (d : Descriptor) (s : Machine) :
    ((described i d s).objects i).descriptor = d := by
  simp [described, Machine.setObject]

lemma described_of_ne {i j : ℕ} (h : j ≠ i) (d : Descriptor) (s : Machine) :
    (described i d s).objects j = s.objects j := Function.update_of_ne h _ _

lemma described_volume (i j : ℕ) (d : Descriptor) (s : Machine) :
    ((described i d s).objects j).volume = (s.objects j).volume := by
  by_cases h : j = i
  · subst h
    simp [described, Machine.setObject]
  · simp [described, Machine.setObject, Function.update_of_ne h]

/-- The first descriptor of an object. -/
lemma Ready.opening {i : ℕ} {v : Volume} {s : Machine} {log : Log} (h : Ready i v s log)
    {e : Event Call.Value Raised} (d : Descriptor)
    (he : ∀ u, opened u (log ++ [e]) = if v = u then insert i (opened u log) else opened u log) :
    Booked (counted v (described i d s)) (log ++ [e]) := by
  refine ⟨fun u hbound => ?_, fun j hj => ?_, fun u j hj => ?_⟩
  · have hlog := h.count u fun l hl => hbound l (hl.trans (List.prefix_append _ _))
    by_cases hu : v = u
    · subst hu
      have hnext := hbound _ (List.prefix_refl _)
      rw [he, if_pos rfl, Finset.card_insert_of_notMem (h.unopened v)] at hnext ⊢
      have hne : (described i d s).openHandles v ≠ 2 ^ 32 - 1 := by
        show s.openHandles v ≠ 2 ^ 32 - 1
        omega
      rw [counted, if_pos hne]
      simp only [Machine.setOpenHandles, Function.update_self]
      show s.openHandles v + 1 = _
      rw [hlog]
    · rw [he, if_neg hu, ← hlog]
      unfold counted
      split_ifs
      · simp only [Machine.setOpenHandles, Function.update_of_ne (Ne.symm hu)]
        rfl
      · rfl
  · rw [counted_objects, described_volume, he]
    by_cases hji : j = i
    · subst hji
      rw [if_pos h.volume.symm]
      exact Finset.mem_insert_self _ _
    · rw [counted_objects, described_of_ne hji] at hj
      have hmem := h.present j hj
      split_ifs
      · exact Finset.mem_insert_of_mem hmem
      · exact hmem
  · rw [counted_objects, counted_next, described_volume]
    rw [he] at hj
    split_ifs at hj with hu
    · rcases Finset.mem_insert.mp hj with rfl | hj
      · exact ⟨h.inUse, h.volume.trans hu⟩
      · exact h.known u j hj
    · exact h.known u j hj

/-- The last use of a descriptor. -/
lemma Live.releasing {i : ℕ} {s : Machine} {log : Log} (h : Live i s log)
    {e : Event Call.Value Raised} {result : Except Errno Unit}
    (he : ∀ u, opened u (log ++ [e]) =
      if result = .ok () then (opened u log).erase i else opened u log) :
    Booked (releasing i result s) (log ++ [e]) := by
  have hmem := h.present i h.open_
  by_cases hresult : result = .ok ()
  · simp only [if_pos hresult] at he
    rw [StorageVfs.releasing, if_pos hresult]
    refine ⟨fun u hbound => ?_, fun j hj => ?_, fun u j hj => ?_⟩
    · have hlog := h.count u fun l hl => hbound l (hl.trans (List.prefix_append _ _))
      rw [he]
      by_cases hu : (s.objects i).volume = u
      · subst hu
        have hpos : 0 < (opened (s.objects i).volume log).card := Finset.card_pos.mpr ⟨i, hmem⟩
        have hcount : 0 < (described i .absent s).openHandles (s.objects i).volume := by
          show 0 < s.openHandles _
          rw [hlog]
          exact hpos
        rw [Finset.card_erase_of_mem hmem, uncounted, if_pos hcount, ← hlog]
        simp only [Machine.setOpenHandles, Function.update_self]
        rfl
      · have hnot : i ∉ opened u log := fun hi => hu (h.known u i hi).2
        rw [Finset.erase_eq_of_notMem hnot, ← hlog]
        unfold uncounted
        split_ifs
        · simp only [Machine.setOpenHandles, Function.update_of_ne (Ne.symm hu)]
          rfl
        · rfl
    · rw [uncounted_objects, described_volume, he]
      rw [uncounted_objects] at hj
      have hji : j ≠ i := by
        rintro rfl
        exact hj (described_self _ _ _)
      rw [described_of_ne hji] at hj
      exact Finset.mem_erase.mpr ⟨hji, h.present j hj⟩
    · rw [he] at hj
      rw [uncounted_objects, uncounted_next, described_volume]
      exact h.known u j (Finset.mem_of_mem_erase hj)
  · simp only [if_neg hresult] at he
    rw [StorageVfs.releasing, if_neg hresult]
    refine ⟨fun u hbound => ?_, fun j hj => ?_, fun u j hj => ?_⟩
    · rw [he]
      exact h.count u fun l hl => hbound l (hl.trans (List.prefix_append _ _))
    · rw [described_volume, he]
      have hji : j ≠ i := by
        rintro rfl
        exact hj (described_self _ _ _)
      rw [described_of_ne hji] at hj
      exact h.present j hj
    · rw [he] at hj
      rw [described_volume]
      exact h.known u j hj

/-! ## Steps -/

section Steps

variable {R : Machine → Log → Prop} {held : Held} {v : Volume} {i : ℕ}

/-- The admission to one volume. -/
def only (v : Volume) : Held := Function.update free v true

lemma only_given_back (v : Volume) : Function.update (only v) v false = free := by
  rw [only, Function.update_idem]
  exact Function.update_eq_self v free

@[simp] lemma only_self (v : Volume) : only v v = true := by
  rw [only, Function.update_self]

theorem steps_vfsBegin (hR : Stable R) (hbooked : ∀ s log, R s log → Booked s log)
    (writing : Bool) :
    Triple (At R free) (vfsBegin v writing) (fun _ => At R (only v)) Idle := by
  refine .bind (at_begin hR rfl) fun granted => ?_
  cases granted with
  | true => exact .pure fun _ h => h
  | false => exact .failIf (fun _ h => absurd rfl h) fun w h => at_mono hbooked h

theorem steps_vfsFinish (hR : Stable R) (hbooked : ∀ s log, R s log → Booked s log) :
    Triple (At R (only v)) (vfsFinish v) (fun _ => At R free) Idle := by
  refine .bind (at_finish hR (only_self v)) fun finished => ?_
  rw [only_given_back]
  exact .failIf (fun _ _ h => h) fun w h => at_mono hbooked h

theorem steps_newObject (v : Volume) :
    Triple Idle (newObject v) (fun i => At (Ready i v) free) Idle := by
  refine .bind (at_raising (c := .alloc) stable_booked trivial trivial fun _ _ h => h) fun _ => ?_
  refine .reading fun m => .bind (Q := fun _ => At (Ready m.next v) free)
    (.update fun w hw => ?_) fun _ => .pure fun _ h => h
  obtain ⟨hw, rfl⟩ := hw
  intro hr
  obtain ⟨hbooked, hheld⟩ := hw hr
  have hnew : ∀ u, w.state.next ∉ opened u w.log := fun u hmem =>
    absurd (hbooked.known u _ hmem).1 (Nat.lt_irrefl _)
  refine ⟨⟨⟨hbooked.count, fun j hj => ?_, fun u j hj => ?_⟩, Nat.lt_succ_self _, ?_, hnew⟩, hheld⟩
  · by_cases hji : j = w.state.next
    · subst hji
      exact absurd (by simp [Machine.setObject]) hj
    · simp only [Machine.setObject, Function.update_of_ne hji] at hj ⊢
      exact hbooked.present j hj
  · have hji : j ≠ w.state.next := fun h => hnew u (h ▸ hj)
    simp only [Machine.setObject, Function.update_of_ne hji]
    exact ⟨Nat.lt_succ_of_lt (hbooked.known u j hj).1, (hbooked.known u j hj).2⟩
  · simp [Machine.setObject]

/-- `open` and `opendir` for a new object, which get its descriptor or leave it as it is. -/
theorem steps_open (held : Held) {c : Call} (hinner : c.Inner) (hc : ¬ c.MayRaise)
    (got : c.Value → Option Descriptor)
    (hgot : ∀ a d, got a = some d → d ≠ .absent ∧ ∀ u log,
      opened u (log ++ [⟨c, .ok a⟩]) = if v = u then insert i (opened u log) else opened u log)
    (hnot : ∀ a, got a = none → ∀ u log, opened u (log ++ [⟨c, .ok a⟩]) = opened u log) :
    Triple (At (Ready i v) held) (ask c) (fun a => match got a with
      | some d => At (fun s log => Live i (counted v (described i d s)) log) held
      | none => At (Ready i v) held) Idle := by
  refine .call (fun a w hw => ?_) fun e w _ => at_failed c hc Booked free
  have hheld : Returned (w.log ++ [⟨c, .ok a⟩]) → ∀ u, openAfter (begins u) (ends u)
      (w.log ++ [⟨c, .ok a⟩]) = some (held u) := fun hr u => by
    rw [held_inner hinner]
    exact (hw hr.of_snoc).2 u
  cases ha : got a with
  | none =>
    exact fun hr => ⟨stable_ready i v _ _ _ (fun u => hnot a ha u _) (hw hr.of_snoc).1, hheld hr⟩
  | some d =>
    obtain ⟨hd, hopened⟩ := hgot a d ha
    refine fun hr => ⟨⟨(hw hr.of_snoc).1.opening d fun u => hopened u _, ?_⟩, hheld hr⟩
    rw [counted_objects, described_self]
    exact hd

/-- `close` and `closedir`. -/
theorem steps_close {c : Call} (hinner : c.Inner) (hc : ¬ c.MayRaise)
    (result : c.Value → Except Errno Unit)
    (hresult : ∀ a u log, opened u (log ++ [⟨c, .ok a⟩]) =
      if result a = .ok () then (opened u log).erase i else opened u log) :
    Triple (At (Live i) held) (ask c) (fun a => At (fun s log =>
      (result a ≠ .ok () → Live i s log) ∧ Booked (releasing i (result a) s) log) held) Idle := by
  refine .call (fun a w hw hr => ?_) fun e w _ => at_failed c hc Booked free
  obtain ⟨hlive, hheld⟩ := hw hr.of_snoc
  refine ⟨⟨fun hne => stable_live i _ _ _ (fun u => ?_) hlive, hlive.releasing fun u => ?_⟩,
    fun u => ?_⟩
  · rw [hresult, if_neg hne]
  · exact hresult a u _
  · rw [held_inner hinner]
    exact hheld u

theorem steps_closeFile (fd : ℕ) :
    Triple (At (Live i) held) (ask (.close i fd)) (fun r => At (fun s log =>
      (r ≠ .ok () → Live i s log) ∧ Booked (releasing i r s) log) held) Idle := by
  refine steps_close (c := .close i fd) trivial not_false id fun r u log => ?_
  rw [opened_snoc]
  rcases r with e | ⟨⟩ <;> rfl

theorem steps_closedir (dir : ℕ) :
    Triple (At (Live i) held) (ask (.closedir i dir)) (fun r => At (fun s log =>
      (r ≠ .ok () → Live i s log) ∧ Booked (releasing i r s) log) held) Idle := by
  refine steps_close (c := .closedir i dir) trivial not_false id fun r u log => ?_
  rw [opened_snoc]
  rcases r with e | ⟨⟩ <;> rfl

theorem steps_released (r : Except Errno Unit) :
    Triple (At (fun s log => Booked (releasing i r s) log) held) (released i r)
      (fun _ => At Booked held) Idle := by
  intro env w hw
  rcases r with e | ⟨⟩
  · exact hw
  · exact hw

/-- A file is closed until the close is not interrupted. -/
theorem steps_retryClose (fuel fd : ℕ) :
    Triple (At (Live i) held) (retryClose fuel i fd) (fun
      | none => At (Live i) held
      | some r => At (fun s log => Booked (releasing i r s) log) held) Idle := by
  refine (at_retry (T := fun r s log => (r ≠ .ok () → Live i s log) ∧
    Booked (releasing i r s) log) (steps_closeFile fd) (fun s log h => h.1 nofun) fuel).post ?_
  intro r w hw
  cases r with
  | none => exact hw
  | some r => exact at_mono (fun s log h => h.2) hw

lemma live_booked (i : ℕ) : ∀ s log, Live i s log → Booked s log := fun _ _ h => h.toBooked

lemma ready_booked (i : ℕ) (v : Volume) : ∀ s log, Ready i v s log → Booked s log :=
  fun _ _ h => h.toBooked

/-- The descriptor is stored and the handle counted. -/
theorem steps_counted {β : Type} {d : Descriptor} {f : Unit → Flow β}
    {Q : β → World Machine Call.Value Raised → Prop}
    (next : Triple (At (Live i) held) (f ()) Q Idle) :
    Triple (At (fun s log => Live i (counted v (described i d s)) log) held)
      (setDescriptor i d >>= fun _ => handleOpen v >>= f) Q Idle :=
  .bind (Q := fun _ => At (fun s log => Live i (counted v s) log) held) (.update fun _ h => h)
    fun _ => .bind (Q := fun _ => At (Live i) held) (.update fun _ h => h) fun _ => next

/-- The object in the state has its descriptor. -/
lemma idle_live {w : World Machine Call.Value Raised} {m : Machine}
    (h : At Booked held w ∧ w.state = m) (hi : (m.objects i).descriptor ≠ .absent) :
    At (Live i) held w := fun hr => ⟨⟨(h.1 hr).1, h.2 ▸ hi⟩, (h.1 hr).2⟩

end Steps

/-! ## Methods -/

/-- The method has ended with the books in order and no admission, or it is still interrupted. -/
def Ended {α : Type} : Option α → World Machine Call.Value Raised → Prop
  | none => fun w => ∃ held, At Booked held w
  | some _ => Idle

/-- The method ends idle, however it leaves. -/
abbrev Orderly {α : Type} (p : Flow α) : Prop := Triple Idle p (fun _ => Idle) Idle

/-- The same for a method that may still be interrupted. -/
abbrev OrderlyEnd {α : Type} (p : Flow (Option α)) : Prop := Triple Idle p Ended Idle

section Methods

variable {α β : Type} {v : Volume} (fresh : Fresh) (fuel mount : ℕ)

theorem idle_pure (a : α) : Orderly (pure a) := .pure fun _ h => h

theorem idle_fail (e : Raised) : Orderly (fail e : Flow α) := .fail fun _ h => h

theorem idle_failIf {c : Prop} [Decidable c] {e : Raised} : Orderly (failIf c e) :=
  .failIf (fun _ _ h => h) fun _ h => h

theorem idle_lift {x : Except Raised α} : Orderly (lift x : Flow α) :=
  .lift (fun _ _ _ h => h) fun _ h => h

theorem idle_getMount : Orderly (getMount mount) :=
  .bind (Q := fun _ => Idle) (.getState fun _ h => h) fun _ => idle_pure _

theorem idle_setMount (f : Vfs → Vfs) : Orderly (setMount mount f) :=
  .update fun _ h hr => ⟨⟨(h hr).1.count, (h hr).1.present, (h hr).1.known⟩, (h hr).2⟩

theorem idle_alloc : Orderly (ask .alloc) :=
  at_raising stable_booked trivial trivial fun _ _ h => h

/-- A call inside an operation. -/
theorem inner_ask {held : Held} {c : Call} (hinner : c.Inner) (hquiet : c.Quiet)
    (hc : ¬ c.MayRaise) : Triple (At Booked held) (ask c) (fun _ => At Booked held) Idle :=
  at_inner stable_booked hinner hquiet hc

theorem idle_vfsBegin (v : Volume) (writing : Bool) :
    Triple Idle (vfsBegin v writing) (fun _ => At Booked (only v)) Idle :=
  steps_vfsBegin stable_booked (fun _ _ h => h) writing

theorem idle_vfsFinish : Triple (At Booked (only v)) (vfsFinish v) (fun _ => Idle) Idle :=
  steps_vfsFinish stable_booked fun _ _ h => h

/-- A descriptor has been opened that the object does not know yet, or nothing has been. -/
def Found (i : ℕ) (path : Bytes) : Option ℕ → World Machine Call.Value Raised → Prop
  | none => At (Ready i (volumeForPath path)) (only (volumeForPath path))
  | some fd => At (fun s log => Live i (counted (volumeForPath path) (described i (.fd fd) s)) log)
    (only (volumeForPath path))

theorem steps_openTurn (i : ℕ) (path : Bytes) (flags : Flags) :
    Triple (At (Ready i (volumeForPath path)) (only (volumeForPath path)))
      (openTurn i path flags) (fun
        | .found fd => At (fun s log => Live i
          (counted (volumeForPath path) (described i (.fd fd) s)) log) (only (volumeForPath path))
        | .quit => At (Ready i (volumeForPath path)) (only (volumeForPath path))
        | .again => At (Ready i (volumeForPath path)) (only (volumeForPath path))) Idle := by
  have hopen := steps_open (only (volumeForPath path)) (i := i) (v := volumeForPath path)
    (c := .openFile i path flags) trivial not_false
    (fun a => a.toOption.map .fd) (fun a d had => by
      rcases a with e | fd
      · cases had
      · obtain rfl := Option.some.inj had
        exact ⟨nofun, fun u log => opened_snoc u log _⟩) fun a ha u log => by
      rcases a with e | fd
      · exact opened_snoc u log _
      · cases ha
  refine .bind hopen fun a => ?_
  rcases a with e | fd
  · refine .bind (steps_vfsFinish (stable_ready i _) (ready_booked i _)) fun _ =>
      .bind (Q := fun _ => At (Ready i (volumeForPath path)) free)
        (.failIf (fun _ _ h => h) fun _ h => at_mono (ready_booked i _) h) fun _ =>
      .bind (at_raising (c := .handlePending) (stable_ready i _) trivial trivial
        (ready_booked i _)) fun _ => ?_
    exact .bind (steps_vfsBegin (stable_ready i _) (ready_booked i _) _) fun _ =>
      .pure fun _ h => h
  · exact .pure fun _ h => h

theorem steps_fileOpen (path mode : Bytes) : OrderlyEnd (fileOpen fuel path mode) := by
  refine .bind (steps_newObject _) fun i =>
    .bind (steps_vfsBegin (stable_ready i _) (ready_booked i _) _) fun _ => ?_
  refine .bind (Triple.waitFor (I := fun _ => At (Ready i (volumeForPath path))
    (only (volumeForPath path))) (Q := Found i path)
    (fun _ => (steps_openTurn i path _).post fun turn w hw => by cases turn <;> exact hw) 0 fuel)
    fun found => ?_
  rcases found with - | - | fd
  · exact .pure fun w hw => ⟨_, at_mono (ready_booked i _) hw⟩
  · exact .pure fun w hw => ⟨_, at_mono (ready_booked i _) hw⟩
  · refine steps_counted (.bind (at_finish (stable_live i) (only_self _)) fun finished => ?_)
    rw [only_given_back]
    cases finished with
    | true => exact .pure fun _ h => at_mono (live_booked i) h
    | false =>
      refine .bind (steps_retryClose fuel fd) fun r => ?_
      cases r with
      | none => exact .pure fun w hw => ⟨_, at_mono (live_booked i) hw⟩
      | some r => exact .bind (steps_released r) fun _ => .fail fun _ h => h

theorem steps_vfsOpen (path mode : Bytes) : OrderlyEnd (vfsOpen fresh fuel mount path mode) :=
  .bind (idle_getMount mount) fun _ => .bind idle_failIf fun _ => .bind idle_lift fun _ =>
    steps_fileOpen fuel _ _

theorem steps_fileClose (file : ℕ) : OrderlyEnd (fileClose fuel file) := by
  refine .reading fun m => ?_
  cases hd : (m.objects file).descriptor with
  | fd fd =>
    have hlive : (m.objects file).descriptor ≠ .absent := by rw [hd]; nofun
    refine .bind ((steps_retryClose fuel fd).pre fun w hw => idle_live hw hlive) fun r => ?_
    cases r with
    | none => exact .pure fun w hw => ⟨_, at_mono (live_booked file) hw⟩
    | some r => exact .bind (steps_released r) fun _ => .pure fun _ h => h
  | absent => exact .pure fun _ h => h.1
  | dir dir => exact .pure fun _ h => h.1

theorem steps_dirIterClose (iter : ℕ) : Orderly (dirIterClose iter) := by
  refine .reading fun m => ?_
  cases hd : (m.objects iter).descriptor with
  | dir dir =>
    have hlive : (m.objects iter).descriptor ≠ .absent := by rw [hd]; nofun
    exact .bind ((steps_closedir dir).pre fun w hw => idle_live hw hlive) fun r =>
      (steps_released r).pre fun w hw => at_mono (fun _ _ h => h.2) hw
  | absent => exact .pure fun _ h => h.1
  | fd fd => exact .pure fun _ h => h.1

theorem steps_nextTurn (iter dir : ℕ) : Orderly (nextTurn iter dir) := by
  refine .bind (inner_ask (c := .readdir iter dir) trivial trivial not_false) fun entry => ?_
  rcases entry with e | entry
  · refine .bind (steps_dirIterClose iter) fun _ => ?_
    cases e with
    | none => exact idle_pure _
    | some e => exact idle_fail _
  · dsimp only
    split_ifs
    · exact idle_pure _
    · exact .bind idle_alloc fun _ => idle_pure _

theorem steps_dirIterNext (iter : ℕ) : OrderlyEnd (dirIterNext fuel iter) := by
  refine .reading fun m => ?_
  cases (m.objects iter).descriptor with
  | dir dir =>
    have hloop := Triple.waitFor (I := fun _ => Idle) (Q := fun _ => Idle)
      (fun _ => (steps_nextTurn iter dir).post fun turn _ hw => by cases turn <;> exact hw) 0 fuel
    refine (hloop.pre fun w hw => hw.1).post fun found w hw => ?_
    cases found with
    | none => exact ⟨_, hw⟩
    | some found => exact hw
  | absent => exact .pure fun _ h => h.1
  | fd fd => exact .pure fun _ h => h.1

theorem steps_statInside (path : Bytes) : Orderly (statInside path) :=
  .bind (idle_vfsBegin _ _) fun _ => .bind (inner_ask (c := .stat path) trivial trivial not_false)
    fun _ => .bind idle_vfsFinish fun _ => idle_lift

theorem steps_vfsIlistdir (path : Bytes) : Orderly (vfsIlistdir fresh mount path) := by
  refine .bind (idle_getMount mount) fun _ => .bind idle_lift fun paths =>
    .bind (steps_newObject _) fun i =>
      .bind (steps_vfsBegin (stable_ready i _) (ready_booked i _) _) fun _ => ?_
  set full := cstr paths.full
  have hopen := steps_open (only (volumeForPath full)) (i := i) (v := volumeForPath full)
    (c := .opendir i full) trivial not_false
    (fun a => a.toOption.map .dir) (fun a d had => by
      rcases a with e | dir
      · cases had
      · obtain rfl := Option.some.inj had
        exact ⟨nofun, fun u log => opened_snoc u log _⟩) fun a ha u log => by
      rcases a with e | dir
      · exact opened_snoc u log _
      · cases ha
  refine .bind hopen fun a => ?_
  rcases a with e | dir
  · exact .bind (steps_vfsFinish (stable_ready i _) (ready_booked i _)) fun _ =>
      .fail fun _ h => at_mono (ready_booked i _) h
  · refine steps_counted (.bind (at_finish (stable_live i) (only_self _)) fun finished => ?_)
    rw [only_given_back]
    cases finished with
    | true => exact .pure fun _ h => at_mono (live_booked i) h
    | false =>
      exact .bind (steps_closedir dir) fun r => .bind ((steps_released r).pre fun w hw =>
        at_mono (fun _ _ h => h.2) hw) fun _ => .fail fun _ h => h

theorem steps_vfsChange (path : Bytes) {function : Bytes → Flow (Except Errno Unit)}
    (h : ∀ p held, Triple (At Booked held) (function p) (fun _ => At Booked held) Idle) :
    Orderly (vfsChange fresh mount path function) :=
  .bind (idle_getMount mount) fun _ => .bind idle_failIf fun _ => .bind (idle_getMount mount)
    fun _ => .bind idle_lift fun _ => .bind (idle_vfsBegin _ _) fun _ => .bind (h _ _) fun _ =>
      .bind idle_vfsFinish fun _ => idle_lift

/-! ### Renames -/

section Rename

variable {held : Held} {old new : Volume}

/-- A call that is made again while it is interrupted. -/
theorem inner_retry {c : Flow (Except Errno Unit)}
    (h : Triple (At Booked held) c (fun _ => At Booked held) Idle) :
    Triple (At Booked held) (retry fuel c) (fun _ => At Booked held) Idle :=
  (at_retry (T := fun _ => Booked) h (fun _ _ h => h) fuel).post fun r _ hw => by
    cases r <;> exact hw

theorem inner_renameFiles (oldPath newPath : Bytes) :
    Triple (At Booked held) (renameFiles fuel oldPath newPath) (fun _ => At Booked held) Idle := by
  have hrename : Triple (At Booked held) (retry fuel (ask (.rename oldPath newPath)))
      (fun _ => At Booked held) Idle :=
    inner_retry fuel (inner_ask (c := .rename oldPath newPath) trivial trivial not_false)
  refine .bind hrename fun result => ?_
  cases result with
  | none => exact .pure fun _ h => h
  | some result =>
    dsimp only
    split_ifs
    · refine .bind (inner_ask (c := .stat newPath) trivial trivial not_false) fun kind => ?_
      rcases kind with e | kind
      · exact .pure fun _ h => h
      · cases kind with
        | directory => exact .pure fun _ h => h
        | other => exact .pure fun _ h => h
        | regular =>
          refine .bind (inner_retry fuel
            (inner_ask (c := .unlink newPath) trivial trivial not_false)) fun unlinked => ?_
          rcases unlinked with - | e | ⟨⟩
          · exact .pure fun _ h => h
          · exact .pure fun _ h => h
          · exact hrename
    · exact .pure fun _ h => h

/-- The admissions of a rename. -/
def both (old new : Volume) : Held := if new = old then only old else Function.update (only old) new true

theorem steps_beginSecond :
    Triple (At Booked (only old)) (beginSecond old new) (fun _ => At Booked (both old new)) Idle := by
  unfold beginSecond both
  by_cases h : new = old
  · rw [if_neg (not_not.mpr h), if_pos h]
    exact .pure fun _ h => h
  · rw [if_pos h, if_neg h]
    have hfree : only old new = false := Function.update_of_ne h _ _
    refine .bind (at_begin stable_booked hfree) fun granted => ?_
    cases granted with
    | true => exact .pure fun _ h => h
    | false => exact .bind idle_vfsFinish fun _ => .fail fun _ h => h

theorem steps_finishBoth :
    Triple (At Booked (both old new)) (finishBoth old new) (fun _ => Idle) Idle := by
  have hlast : ∀ newFinished : Bool, Triple (At Booked (only old)) (ask (.finish old) >>=
      fun oldFinished => failIf (newFinished = false ∨ oldFinished = false) (.osError eio))
      (fun _ => Idle) Idle := fun _ => by
    refine .bind (at_finish stable_booked (only_self old)) fun _ => ?_
    rw [only_given_back]
    exact idle_failIf
  unfold finishBoth both
  split_ifs with h
  · exact .bind (.pure fun _ h => h) hlast
  · refine .bind (at_finish stable_booked (Function.update_self _ _ _)) fun finished => ?_
    rw [Function.update_idem, show Function.update (only old) new false = only old from
      Function.update_eq_iff.mpr ⟨by rw [only, Function.update_of_ne h]; rfl, fun _ _ => rfl⟩]
    exact hlast finished

theorem steps_vfsRename (oldPath newPath : Bytes) :
    OrderlyEnd (vfsRename fresh fuel mount oldPath newPath) := by
  refine .bind (idle_getMount mount) fun _ => .bind idle_failIf fun _ => .bind idle_lift fun _ =>
    .bind idle_lift fun _ => .bind (idle_vfsBegin _ _) fun _ => .bind steps_beginSecond fun _ =>
      .bind (inner_renameFiles fuel _ _) fun result => ?_
  cases result with
  | none => exact .pure fun _ h => ⟨_, h⟩
  | some result =>
    exact .bind steps_finishBoth fun _ => .bind idle_lift fun _ => .pure fun _ h => h

end Rename

theorem steps_vfsStat (path : Bytes) : Orderly (vfsStat fresh mount path) :=
  .bind (idle_getMount mount) fun _ => .bind idle_lift fun _ => .bind (steps_statInside _) fun _ =>
    .bind idle_alloc fun _ => idle_pure _

theorem steps_vfsStatvfs : Orderly (vfsStatvfs mount) := by
  refine .bind (idle_getMount mount) fun v => .bind (idle_vfsBegin _ _) fun _ =>
    .bind (inner_ask (c := .fatInfo v.basePath) trivial trivial not_false) fun info =>
      .bind idle_vfsFinish fun _ => ?_
  cases info with
  | none => exact idle_fail _
  | some info => exact .bind idle_alloc fun _ => idle_pure _

theorem steps_vfsImportStat (path : Bytes) : Orderly (vfsImportStat fresh mount path) := by
  refine .bind (idle_getMount mount) fun _ => .bind idle_lift fun paths => ?_
  dsimp only
  generalize cstr paths.full = full
  refine .bind (at_begin stable_booked rfl) fun granted => ?_
  cases granted with
  | false => exact idle_pure _
  | true =>
    refine .bind (inner_ask (c := .stat full) trivial trivial not_false) fun result =>
      .bind (at_finish stable_booked (Function.update_self _ _ _)) fun finished => ?_
    rw [← only, if_pos rfl, only_given_back]
    cases finished with
    | false => exact idle_pure _
    | true =>
      rcases result with e | kind
      · exact idle_pure _
      · cases kind <;> exact idle_pure _

theorem steps_returns {p : Flow α} (h : Orderly p) : OrderlyEnd (returns p) :=
  .bind h fun _ => .pure fun _ h => h

theorem steps_mayReturn {p : Flow (Option α)} (h : OrderlyEnd p) : OrderlyEnd (mayReturn p) :=
  .bind h fun r => .pure fun w hw => by cases r <;> exact hw

theorem steps_serve (request : Request) : OrderlyEnd (serve fresh fuel mount request) := by
  cases request with
  | mount readonly mkfs =>
    exact steps_returns (.bind idle_failIf fun _ => idle_setMount mount _)
  | umount => exact .pure fun _ h => h
  | openFile path mode => exact steps_mayReturn (steps_vfsOpen fresh fuel mount path mode)
  | chdir path =>
    exact steps_returns (.bind (idle_getMount mount) fun _ => .bind idle_lift fun _ =>
      .bind (steps_statInside _) fun _ => .bind idle_failIf fun _ => idle_setMount mount _)
  | getcwd =>
    exact steps_returns (.bind (idle_getMount mount) fun _ => .bind idle_alloc fun _ =>
      idle_pure _)
  | ilistdir path => exact steps_returns (steps_vfsIlistdir fresh mount path)
  | mkdir path =>
    exact steps_returns (steps_vfsChange fresh mount path fun p _ =>
      inner_ask (c := .mkdir p) trivial trivial not_false)
  | remove path =>
    exact steps_returns (steps_vfsChange fresh mount path fun p _ =>
      inner_ask (c := .unlink p) trivial trivial not_false)
  | rmdir path =>
    exact steps_returns (steps_vfsChange fresh mount path fun p _ =>
      inner_ask (c := .rmdir p) trivial trivial not_false)
  | rename old new => exact steps_mayReturn (steps_vfsRename fresh fuel mount old new)
  | stat path => exact steps_returns (steps_vfsStat fresh mount path)
  | statvfs => exact steps_returns (steps_vfsStatvfs mount)
  | importStat path => exact steps_returns (steps_vfsImportStat fresh mount path)
  | close file => exact steps_fileClose fuel file
  | next iter => exact steps_mayReturn (steps_dirIterNext fuel iter)
  | finalise iter => exact steps_returns (steps_dirIterClose iter)

end Methods

/-! ## Runs -/

theorem steps_serveAll (fresh : Fresh) (fuel : ℕ) (requests : List (ℕ × Request)) :
    OrderlyEnd (serveAll fresh fuel requests) := by
  induction requests with
  | nil => exact .pure fun _ h => h
  | cons request rest ih =>
    refine .bind (.attempt (steps_serve fresh fuel request.1 request.2) fun _ =>
      .pure fun _ h => h) fun result => ?_
    cases result with
    | none => exact .pure fun _ h => h
    | some => exact ih

lemma start_idle (volumeOf : ℕ → Volume) : Idle ⟨Machine.start volumeOf, []⟩ := fun _ =>
  ⟨⟨fun _ _ => rfl, fun _ h => absurd rfl h, fun _ _ h => absurd h (Finset.notMem_empty _)⟩,
    fun _ => rfl⟩

/-- The admissions and the counts of a run. -/
structure Accounted (run : World Machine Call.Value Raised × Except Raised (Option Unit)) :
    Prop where
  /-- When the last request has ended, every admission was ended once. -/
  paired : Returned run.1.log → run.2 ≠ .ok none → ∀ v, Paired (begins v) (ends v) run.1.log
  count : Returned run.1.log → ∀ v, (∀ l, l <+: run.1.log → (opened v l).card < 2 ^ 32) →
    run.1.state.openHandles v = (opened v run.1.log).card
  drained : Returned run.1.log → ∀ v, (∀ l, l <+: run.1.log → (opened v l).card < 2 ^ 32) →
    run.1.state.openHandles v = 0 → opened v run.1.log = ∅ ∧
      ∀ i, (run.1.state.objects i).volume = v → (run.1.state.objects i).descriptor = .absent

/-- Over all requests every admission is ended once and the counts are those of the objects whose
descriptor is open or uncertain. -/
theorem admissions_and_handles (volumeOf : ℕ → Volume) (fresh : Fresh) (fuel : ℕ)
    (env : Partner Call.Value Raised) (requests : List (ℕ × Request)) :
    Accounted (serveAll fresh fuel requests env ⟨Machine.start volumeOf, []⟩) := by
  have hends := steps_serveAll fresh fuel requests env _ (start_idle volumeOf)
  generalize serveAll fresh fuel requests env ⟨Machine.start volumeOf, []⟩ = run at hends ⊢
  obtain ⟨w, r⟩ := run
  have hbooked : Returned w.log → Booked w.state w.log := by
    rcases r with e | - | ⟨⟩
    · exact fun hr => (hends hr).1
    · obtain ⟨held, hw⟩ := hends
      exact fun hr => (hw hr).1
    · exact fun hr => (hends hr).1
  refine ⟨fun hr hend v => ?_, fun hr v hbound => (hbooked hr).count v hbound,
    fun hr v hbound hzero => ?_⟩
  · refine paired_of_openAfter ?_
    rcases r with e | - | ⟨⟩
    · exact (hends hr).2 v
    · exact absurd rfl hend
    · exact (hends hr).2 v
  · have hnone : opened v w.log = ∅ :=
      Finset.card_eq_zero.mp (((hbooked hr).count v hbound).symm.trans hzero)
    refine ⟨hnone, fun i hi => by_contra fun hd => ?_⟩
    have hmem := (hbooked hr).present i hd
    rw [hi, hnone] at hmem
    exact absurd hmem (Finset.notMem_empty i)

end EspVision.StorageVfs
