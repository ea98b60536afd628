import EspVision.UploadSafe

/-!
# The invariant of an upload, and what follows from it

Every message on its way fits the state of both sides: a `begin` is the first request, a chunk is
the only one and starts where the device stands, and a response that completes the commit means
that the upload is stored.
-/
namespace EspVision.Upload

open EvSession (Snapshot)
open EvFileTransfer FileSystem TransitionSystem

/-! ## The link -/

theorem mem_without {α : Type*} {q : ℕ} {m : ℕ × α} {ms : List (ℕ × α)} :
    m ∈ without q ms ↔ m ∈ ms ∧ m.1 ≠ q := by
  simp [without]

theorem without_sublist {α : Type*} (q : ℕ) (ms : List (ℕ × α)) : (without q ms).Sublist ms :=
  List.filter_sublist

/-- The numbers of the messages on their way. -/
def Joint.numbers (s : Joint) : List ℕ := s.requests.map Prod.fst ++ s.responses.map Prod.fst

/-- The `begin` may still arrive. -/
def Joint.Starting (s : Joint) : Prop :=
  ∃ q total digest, (q, Request.begin total digest) ∈ s.requests

def Joint.NoChunk (s : Joint) : Prop :=
  ∀ q offset data, (q, Request.chunk offset data) ∉ s.requests

/-- A chunk on its way starts where the device stands, and is the only one. -/
structure Piece (job : Job) (s : Joint) (q offset : ℕ) (data : List UInt8) : Prop where
  limit : job.limit = chunkBytes
  inside : offset < s.host.hashed.length
  size : data.length = min chunkBytes (s.host.hashed.length - offset)
  received : Mine job s.device → s.device.file.received.toNat = offset
  only : ∀ q' offset' data', (q', Request.chunk offset' data') ∈ s.requests → q' = q
  begun : ¬s.Starting

section Invariant

variable (sha256 : List UInt8 → List UInt8) (job : Job) (hd : List Event)

/-- What a phase of the host means. -/
def AtPhase (s : Joint) : HostPhase → Prop
  | .called | .hashed => s.host.next = 0
  | .waiting .begin q =>
    (q = 0 ∧ 0 < s.host.next) ∧ s.NoChunk ∧ (Mine job s.device → s.device.file.received.toNat = 0)
  | .waiting (.chunk offset size) q =>
    (q < s.host.next ∧ job.limit = chunkBytes) ∧ offset < s.host.hashed.length ∧
      size = min chunkBytes (s.host.hashed.length - offset) ∧ ¬s.Starting ∧
      (∀ q' offset' data, (q', Request.chunk offset' data) ∈ s.requests → q' = q) ∧
      ∀ n, (q, Response.written n) ∈ s.responses → Mine job s.device →
        s.device.file.received = n
  | .waiting .commit q => q < s.host.next
  | .cleaning | .rejected => True
  | .committed | .resolved => Stored sha256 job s.host.hashed hd s.device ∧ ¬s.Starting

/-- No earlier upload has this one's id or stages in its target. -/
def Fresh : Prop :=
  ∀ u, uploadOf hd = some u → unhex (some u.request.uploadId) 16 ≠ some job.id ∧
    ∀ path, u.request.path = some path →
      temporaryOf (targetOf path) u.request.uploadId ≠ job.target

/-- Before the first request. -/
structure Quiet (s : Joint) : Prop where
  requests : s.requests = []
  responses : s.responses = []
  fresh : Fresh job hd
  target : s.device.fs job.target = s.before

/-- What holds of both sides and of the link. -/
structure Inv (s : Joint) : Prop where
  own : OwnUploads sha256 job s.host.hashed hd
  progress : Progress sha256 job s.host.hashed s.before s.Starting hd s.device
  numbers : s.numbers.Nodup
  below : ∀ q ∈ s.numbers, q < s.host.next
  quiet : s.host.next = 0 → Quiet job hd s
  length : s.host.phase = .hashed ∨ 0 < s.host.next →
    s.host.hashed.length = s.host.content.length ∧ s.host.hashed.length ≤ 0xffffffff
  begins : ∀ q total digest, (q, Request.begin total digest) ∈ s.requests →
    q = 0 ∧ total = s.host.hashed.length ∧ digest = sha256 s.host.hashed
  pieces : ∀ q offset data, (q, Request.chunk offset data) ∈ s.requests →
    Piece job s q offset data
  acks : ∀ q uploadId n, (q, Response.begun uploadId n) ∈ s.responses → n = chunkBytes
  ended : ∀ q n, (q, Response.ended n true) ∈ s.responses →
    Stored sha256 job s.host.hashed hd s.device ∧ ¬s.Starting
  phase : AtPhase sha256 job hd s s.host.phase

end Invariant

section Host

variable {sha256 : List UInt8 → List UInt8} {job : Job} {hd : List Event} {s : Joint}

theorem Piece.of_host {q offset : ℕ} {data : List UInt8} (h : Piece job s q offset data)
    {host : Host} (hh : host.hashed = s.host.hashed) :
    Piece job { s with host := host } q offset data :=
  ⟨h.limit, by rw [hh]; exact h.inside, by rw [hh]; exact h.size, h.received, h.only, h.begun⟩

/-- A number is on its way once. -/
theorem Inv.not_both (hi : Inv sha256 job hd s) {q : ℕ} {r : Request} {r' : Response}
    (h : (q, r) ∈ s.requests) (h' : (q, r') ∈ s.responses) : False :=
  (List.nodup_append.mp hi.numbers).2.2 q (List.mem_map_of_mem h) q (List.mem_map_of_mem h') rfl

theorem elsewhere_of_fresh {d : State} (hr : Reaches (transfers sha256) hd d)
    (hf : Fresh job hd) : Elsewhere job d := by
  intro hact hclean
  obtain ⟨u, hu, w⟩ := (inv_of_reaches hr).phase.named hact hclean
  obtain ⟨hid, hpath⟩ := hf u hu
  obtain ⟨path, hp, _, htarget⟩ := w.path
  refine ⟨fun h => hid (h ▸ w.id), ?_⟩
  rw [w.temporary, htarget]
  exact hpath path hp

theorem AtPhase.shrink {phase : HostPhase} (h : AtPhase sha256 job hd s phase)
    {requests : List (ℕ × Request)} {responses : List (ℕ × Response)}
    (hq : requests.Sublist s.requests) (hs : responses.Sublist s.responses) :
    AtPhase sha256 job hd { s with requests := requests, responses := responses } phase := by
  have hstart : ({ s with requests := requests, responses := responses } : Joint).Starting →
      s.Starting := fun ⟨q, t, d, h⟩ => ⟨q, t, d, hq.subset h⟩
  cases phase with
  | called => exact h
  | hashed => exact h
  | waiting rpc q =>
    cases rpc with
    | begin => exact ⟨h.1, fun q o data h' => h.2.1 q o data (hq.subset h'), h.2.2⟩
    | chunk offset size =>
      obtain ⟨h1, h2, h3, h4, h5, h6⟩ := h
      exact ⟨h1, h2, h3, fun h => h4 (hstart h), fun q' o' data h => h5 q' o' data (hq.subset h),
        fun n h => h6 n (hs.subset h)⟩
    | commit => exact h
  | committed => exact ⟨h.1, fun h' => h.2 (hstart h')⟩
  | cleaning => trivial
  | resolved => exact ⟨h.1, fun h' => h.2 (hstart h')⟩
  | rejected => trivial

/-- Messages may get lost. -/
theorem Inv.shrink (hi : Inv sha256 job hd s) {requests : List (ℕ × Request)}
    {responses : List (ℕ × Response)} (hq : requests.Sublist s.requests)
    (hs : responses.Sublist s.responses) :
    Inv sha256 job hd { s with requests := requests, responses := responses } := by
  have hstart : ({ s with requests := requests, responses := responses } : Joint).Starting →
      s.Starting := fun ⟨q, t, d, h⟩ => ⟨q, t, d, hq.subset h⟩
  have hnum := (hq.map Prod.fst).append (hs.map Prod.fst)
  refine ⟨hi.own, hi.progress.mono hstart, hi.numbers.sublist hnum,
    fun q h => hi.below q (hnum.subset h), fun hn => ?_, hi.length,
    fun q t d h => hi.begins q t d (hq.subset h), fun q o data h => ?_,
    fun q u n h => hi.acks q u n (hs.subset h), fun q n h => ?_, hi.phase.shrink hq hs⟩
  · obtain ⟨h1, h2, h3, h4⟩ := hi.quiet hn
    rw [h1] at hq
    rw [h2] at hs
    exact ⟨List.sublist_nil.mp hq, List.sublist_nil.mp hs, h3, h4⟩
  · have hp := hi.pieces q o data (hq.subset h)
    exact ⟨hp.limit, hp.inside, hp.size, hp.received,
      fun q' o' data' h' => hp.only q' o' data' (hq.subset h'), fun hst => hp.begun (hstart hst)⟩
  · obtain ⟨hst, hno⟩ := hi.ended q n (hs.subset h)
    exact ⟨hst, fun h => hno (hstart h)⟩

theorem mem_send {phase : HostPhase} {r : Request} {m : ℕ × Request} :
    m ∈ (s.send phase r).requests ↔ m ∈ s.requests ∨ m = (s.host.next, r) := by
  simp [Joint.send]

/-- What the host may send. -/
structure MaySend (sha256 : List UInt8 → List UInt8) (job : Job) (s : Joint) (r : Request) : Prop
    where
  begin : ∀ total digest, r = .begin total digest →
    s.host.next = 0 ∧ total = s.host.hashed.length ∧ digest = sha256 s.host.hashed
  chunk : ∀ offset data, r = .chunk offset data → s.NoChunk ∧ ¬s.Starting ∧
    job.limit = chunkBytes ∧ offset < s.host.hashed.length ∧
    data.length = min chunkBytes (s.host.hashed.length - offset) ∧
    (Mine job s.device → s.device.file.received.toNat = offset)

theorem Inv.send (hi : Inv sha256 job hd s) (hreach : Reaches (transfers sha256) hd s.device)
    {phase : HostPhase} {r : Request} (hr : MaySend sha256 job s r)
    (hlen : s.host.hashed.length = s.host.content.length ∧ s.host.hashed.length ≤ 0xffffffff)
    (hphase : AtPhase sha256 job hd (s.send phase r) phase) :
    Inv sha256 job hd (s.send phase r) := by
  have hstart : (s.send phase r).Starting → s.Starting ∨ ∃ t d, r = .begin t d := by
    rintro ⟨q, t, d, h⟩
    rcases mem_send.mp h with h | h
    · exact .inl ⟨q, t, d, h⟩
    · exact .inr ⟨t, d, (Prod.mk.inj h).2.symm⟩
  have hnew {t : ℕ} {d : List UInt8} (h : r = .begin t d) : Quiet job hd s :=
    hi.quiet (hr.begin t d h).1
  have hnumbers : (s.send phase r).numbers.Perm (s.host.next :: s.numbers) := by
    simp only [Joint.numbers, Joint.send, List.map_append, List.map_cons, List.map_nil,
      List.append_assoc, List.cons_append, List.nil_append]
    exact List.perm_middle
  refine ⟨hi.own, ?_, ?_, fun q h => ?_, fun h => absurd h (Nat.succ_ne_zero _), fun _ => hlen,
    fun q t d h => ?_, fun q o data h => ?_, hi.acks, fun q n h => ?_, hphase⟩
  · by_cases hb : ∃ t d, r = .begin t d
    · obtain ⟨t, d, hb⟩ := hb
      exact .untouched (elsewhere_of_fresh hreach (hnew hb).fresh) (hnew hb).target
    · exact hi.progress.mono fun h => (hstart h).resolve_right hb
  · rw [hnumbers.nodup_iff, List.nodup_cons]
    exact ⟨fun h => lt_irrefl _ (hi.below _ h), hi.numbers⟩
  · rcases List.mem_cons.mp (hnumbers.mem_iff.mp h) with rfl | h
    · exact Nat.lt_succ_self _
    · exact (hi.below q h).trans (Nat.lt_succ_self _)
  · rcases mem_send.mp h with h | h
    · exact hi.begins q t d h
    · obtain ⟨rfl, rfl⟩ := Prod.mk.inj h
      exact hr.begin t d rfl
  · rcases mem_send.mp h with h | h
    · have hp := hi.pieces q o data h
      refine ⟨hp.limit, hp.inside, hp.size, hp.received, fun q' o' data' h' => ?_, fun hst => ?_⟩
      · rcases mem_send.mp h' with h' | h'
        · exact hp.only q' o' data' h'
        · exact absurd h ((hr.chunk o' data' (Prod.mk.inj h').2.symm).1 q o data)
      · rcases hstart hst with hst | ⟨t, d, hb⟩
        · exact hp.begun hst
        · simp [(hnew hb).requests] at h
    · obtain ⟨rfl, rfl⟩ := Prod.mk.inj h
      obtain ⟨hno, hst, h1, h2, h3, h4⟩ := hr.chunk o data rfl
      refine ⟨h1, h2, h3, h4, fun q' o' data' h' => ?_, fun hst' => ?_⟩
      · rcases mem_send.mp h' with h' | h'
        · exact absurd h' (hno q' o' data')
        · exact (Prod.mk.inj h').1
      · exact (hstart hst').elim hst fun ⟨_, _, hb⟩ => by simp at hb
  · obtain ⟨hst, hno⟩ := hi.ended q n h
    refine ⟨hst, fun hst' => ?_⟩
    rcases hstart hst' with hst' | ⟨t, d, hb⟩
    · exact hno hst'
    · have hres : (q, Response.ended n true) ∈ s.responses := h
      simp [(hnew hb).responses] at hres

/-- A change of the host that sends nothing. -/
theorem Inv.rephase (hi : Inv sha256 job hd s) {phase : HostPhase} (hne : phase ≠ .hashed)
    (hphase : AtPhase sha256 job hd s phase) :
    Inv sha256 job hd { s with host := { s.host with phase := phase } } where
  own := hi.own
  progress := hi.progress
  numbers := hi.numbers
  below := hi.below
  quiet h := ⟨(hi.quiet h).requests, (hi.quiet h).responses, (hi.quiet h).fresh, (hi.quiet h).target⟩
  length h := hi.length (.inr (h.resolve_left hne))
  begins := hi.begins
  pieces q o data h := (hi.pieces q o data h).of_host rfl
  acks := hi.acks
  ended := hi.ended
  phase := by
    show AtPhase sha256 job hd _ phase
    cases phase with
    | waiting rpc q => cases rpc <;> exact hphase
    | _ => exact hphase

/-- A request that waits has been sent. -/
theorem Inv.next_pos (hi : Inv sha256 job hd s) {q : ℕ} {r : Response}
    (h : (q, r) ∈ s.responses) : 0 < s.host.next := by
  by_contra hn
  have hq := (hi.quiet (by omega)).responses
  simp [hq] at h

theorem AtPhase.next_pos {rpc : Rpc} {q : ℕ} (h : AtPhase sha256 job hd s (.waiting rpc q)) :
    0 < s.host.next := by
  cases rpc with
  | begin => exact h.1.2
  | chunk offset size => exact Nat.zero_lt_of_lt h.1.1
  | commit => exact Nat.zero_lt_of_lt h

theorem Inv.abort (hi : Inv sha256 job hd s) (hreach : Reaches (transfers sha256) hd s.device)
    (hn : 0 < s.host.next) : Inv sha256 job hd s.fail :=
  hi.send hreach ⟨by simp, by simp⟩ (hi.length (.inr hn)) trivial

/-- A chunk ends where the content or its limit does. -/
lemma size_eq (a l n : ℕ) : min (min (a + l) n - a) (n - a) = min l (n - a) := by omega

/-- The next turn of the loop, when the device stands where the host thinks. -/
theorem Inv.turn (hi : Inv sha256 job hd s) (hreach : Reaches (transfers sha256) hd s.device)
    (hn : 0 < s.host.next) (hno : s.NoChunk) (hst : ¬s.Starting) (hlimit : job.limit = chunkBytes)
    {offset : ℕ} (hrec : offset < s.host.hashed.length → Mine job s.device →
      s.device.file.received.toNat = offset) :
    Inv sha256 job hd (s.send (.waiting (s.host.turn job offset).1 s.host.next)
      (s.host.turn job offset).2) := by
  have hlen := hi.length (.inr hn)
  unfold Host.turn
  by_cases ho : offset < s.host.content.length
  · rw [if_pos ho]
    have hsize : ((s.host.content.drop offset).take
        (min (offset + job.limit) s.host.content.length - offset)).length =
        min chunkBytes (s.host.hashed.length - offset) := by
      rw [List.length_take, List.length_drop, hlimit, hlen.1, size_eq]
    have hinside : offset < s.host.hashed.length := by rw [hlen.1]; exact ho
    refine hi.send hreach ⟨by simp, fun o data h => ?_⟩ hlen
      ⟨⟨Nat.lt_succ_self _, hlimit⟩, hinside, hsize, ?_, ?_, ?_⟩
    · obtain ⟨rfl, rfl⟩ := Request.chunk.inj h
      exact ⟨hno, hst, hlimit, hinside, hsize, hrec hinside⟩
    · rintro ⟨q, t, d, h⟩
      rcases mem_send.mp h with h | h
      · exact hst ⟨q, t, d, h⟩
      · simp at h
    · intro q o data h
      rcases mem_send.mp h with h | h
      · exact absurd h (hno q o data)
      · exact (Prod.mk.inj h).1
    · intro n h
      have hlt := hi.below s.host.next (List.mem_append_right _ (List.mem_map_of_mem h))
      exact absurd hlt (lt_irrefl _)
  · rw [if_neg ho]
    exact hi.send hreach ⟨by simp, by simp⟩ hlen (Nat.lt_succ_self _)

/-- The host takes a response to the request that it waits for. -/
theorem Inv.receive (hi : Inv sha256 job hd s) (hreach : Reaches (transfers sha256) hd s.device)
    {q : ℕ} {rpc : Rpc} {r : Response} (hphase : s.host.phase = .waiting rpc q)
    (hmem : (q, r) ∈ s.responses) :
    Inv sha256 job hd ({ s with responses := without q s.responses }.follow
      (s.host.judge job rpc r)) := by
  have hn := hi.next_pos hmem
  have hs : Inv sha256 job hd { s with responses := without q s.responses } :=
    hi.shrink (List.Sublist.refl _) (without_sublist q _)
  have hat := hi.phase
  rw [hphase] at hat
  have hfail : Inv sha256 job hd ({ s with responses := without q s.responses } : Joint).fail :=
    hs.abort hreach hn
  cases rpc with
  | begin =>
    cases r with
    | begun uploadId n =>
      simp only [Host.judge]
      by_cases hok : uploadId = job.uploadId ∧ n = job.limit
      · rw [if_pos hok]
        obtain ⟨⟨rfl, _⟩, hno, hrec⟩ := hat
        refine hs.turn hreach hn hno ?_ (hok.2.symm.trans (hi.acks _ _ _ hmem)) fun _ hm => hrec hm
        rintro ⟨q, t, d, h⟩
        obtain ⟨rfl, -, -⟩ := hi.begins q t d h
        exact hi.not_both h hmem
      · rw [if_neg hok]
        exact hfail
    | _ => exact hfail
  | chunk offset size =>
    cases r with
    | written n =>
      simp only [Host.judge]
      by_cases hok : n.toNat = offset + size
      · rw [if_pos hok]
        obtain ⟨⟨_, hlimit⟩, hinside, hsize, hst, honly, hrec⟩ := hat
        refine hs.turn hreach hn (fun q' o data h => ?_) hst hlimit fun hlt hm => ?_
        · obtain rfl := honly q' o data h
          exact hi.not_both h hmem
        · show s.device.file.received.toNat = offset + job.limit
          rw [hrec n hmem hm, hok, hsize, hlimit]
          have hlt' : offset + job.limit < s.host.hashed.length := hlt
          rw [hlimit] at hlt'
          omega
      · rw [if_neg hok]
        exact hfail
    | _ => exact hfail
  | commit =>
    cases r with
    | ended n complete =>
      simp only [Host.judge]
      by_cases hok : complete = true ∧ n.toNat = s.host.content.length
      · rw [if_pos hok]
        obtain ⟨rfl, -⟩ := hok
        exact hs.rephase (by simp) (hi.ended q n hmem)
      · rw [if_neg hok]
        exact hfail
    | _ => exact hfail

end Host

section Device

variable {sha256 : List UInt8 → List UInt8} {job : Job} {hd : List Event} {s : Joint}
  {e : Event} {d' : State}

/-- The device has made a call; its request is off the link, and its response not yet on it. -/
theorem Inv.device (hi : Inv sha256 job hd s) {requests : List (ℕ × Request)}
    (hq : requests.Sublist s.requests)
    (hown : OwnUploads sha256 job s.host.hashed (hd ++ [e]))
    (hprogress : Progress sha256 job s.host.hashed s.before
      ({ s with device := d', requests := requests } : Joint).Starting (hd ++ [e]) d')
    (hquiet : s.host.next = 0 → Fresh job (hd ++ [e]) ∧ d'.fs job.target = s.before)
    (hpiece : ∀ q offset data, (q, Request.chunk offset data) ∈ requests → Mine job d' →
      d'.file.received.toNat = offset)
    (hstored : Stored sha256 job s.host.hashed hd s.device → ¬s.Starting →
      Stored sha256 job s.host.hashed (hd ++ [e]) d')
    (hphase : AtPhase sha256 job (hd ++ [e]) { s with device := d', requests := requests }
      s.host.phase) :
    Inv sha256 job (hd ++ [e]) { s with device := d', requests := requests } := by
  have hs := hi.shrink hq (List.Sublist.refl s.responses)
  have hstart : ({ s with device := d', requests := requests } : Joint).Starting → s.Starting :=
    fun ⟨q, t, d, h⟩ => ⟨q, t, d, hq.subset h⟩
  refine ⟨hown, hprogress, hs.numbers, hs.below, fun h => ?_, hi.length, hs.begins,
    fun q o data h => ?_, hi.acks, fun q n h => ?_, hphase⟩
  · exact ⟨(hs.quiet h).requests, (hi.quiet h).responses, (hquiet h).1, (hquiet h).2⟩
  · have hp := hs.pieces q o data h
    exact ⟨hp.limit, hp.inside, hp.size, hpiece q o data h, hp.only, hp.begun⟩
  · obtain ⟨hst, hno⟩ := hi.ended q n h
    exact ⟨hstored hst hno, fun h => hno (hstart h)⟩

/-- A response goes on the link. -/
theorem Inv.answer (hi : Inv sha256 job hd s) {q : ℕ} {r : Response} (hq : q ∉ s.numbers)
    (hlt : q < s.host.next) (hbegun : ∀ uploadId n, r = .begun uploadId n → n = chunkBytes)
    (hended : ∀ n, r = .ended n true →
      Stored sha256 job s.host.hashed hd s.device ∧ ¬s.Starting)
    (hwritten : ∀ n, r = .written n → Mine job s.device → s.device.file.received = n) :
    Inv sha256 job hd { s with responses := s.responses ++ [(q, r)] } := by
  have hperm : ({ s with responses := s.responses ++ [(q, r)] } : Joint).numbers.Perm
      (q :: s.numbers) := by
    simp only [Joint.numbers, List.map_append, List.map_cons, List.map_nil,
      ← List.append_assoc]
    exact List.perm_append_singleton q _
  have hmem {m : ℕ × Response} (h : m ∈ s.responses ++ [(q, r)]) :
      m ∈ s.responses ∨ m = (q, r) := by simpa using h
  refine ⟨hi.own, hi.progress, ?_, fun q' h => ?_,
    fun hn => absurd (lt_of_lt_of_eq hlt hn) (Nat.not_lt_zero q), hi.length, hi.begins,
    fun q' o data h => ?_, fun q' u n h => ?_, fun q' n h => ?_, ?_⟩
  · rw [hperm.nodup_iff, List.nodup_cons]
    exact ⟨hq, hi.numbers⟩
  · rcases List.mem_cons.mp (hperm.mem_iff.mp h) with rfl | h
    · exact hlt
    · exact hi.below q' h
  · have hp := hi.pieces q' o data h
    exact ⟨hp.limit, hp.inside, hp.size, hp.received, hp.only, hp.begun⟩
  · rcases hmem h with h | h
    · exact hi.acks q' u n h
    · exact hbegun u n (Prod.mk.inj h).2.symm
  · rcases hmem h with h | h
    · exact hi.ended q' n h
    · exact hended n (Prod.mk.inj h).2.symm
  · have hph := hi.phase
    show AtPhase sha256 job hd _ s.host.phase
    generalize s.host.phase = phase at hph
    cases phase with
    | waiting rpc q' =>
      cases rpc with
      | chunk offset size =>
        obtain ⟨h1, h2, h3, h4, h5, h6⟩ := hph
        refine ⟨h1, h2, h3, h4, h5, fun n h => ?_⟩
        rcases hmem h with h | h
        · exact h6 n h
        · exact hwritten n (Prod.mk.inj h).2.symm
      | _ => exact hph
    | _ => exact hph

/-- A call that leaves the transfer where it stands leaves every phase as it is. -/
theorem AtPhase.device {phase : HostPhase} (h : AtPhase sha256 job hd s phase)
    (hrec : Mine job d' → Mine job s.device ∧ d'.file.received = s.device.file.received)
    (hstored : Stored sha256 job s.host.hashed hd s.device → ¬s.Starting →
      Stored sha256 job s.host.hashed (hd ++ [e]) d') :
    AtPhase sha256 job (hd ++ [e]) { s with device := d' } phase := by
  cases phase with
  | called => exact h
  | hashed => exact h
  | waiting rpc q =>
    cases rpc with
    | begin =>
      obtain ⟨h1, h2, h3⟩ := h
      refine ⟨h1, h2, fun hm => ?_⟩
      obtain ⟨hm', he⟩ := hrec hm
      exact (congrArg UInt32.toNat he).trans (h3 hm')
    | chunk offset size =>
      obtain ⟨h1, h2, h3, h4, h5, h6⟩ := h
      refine ⟨h1, h2, h3, h4, h5, fun n hn hm => ?_⟩
      obtain ⟨hm', he⟩ := hrec hm
      exact he.trans (h6 n hn hm')
    | commit => exact h
  | committed => exact ⟨hstored h.1 h.2, h.2⟩
  | cleaning => trivial
  | resolved => exact ⟨hstored h.1 h.2, h.2⟩
  | rejected => trivial

theorem Inv.poll (hi : Inv sha256 job hd s) (hreach : Reaches (transfers sha256) hd s.device)
    {a : PollAnswers} (hcall : e.call = .poll a)
    (hstep : (transfers sha256).step s.device e d') :
    Inv sha256 job (hd ++ [e]) { s with device := d' } := by
  have heffect := poll_effect hcall hstep
  have hrec : Mine job d' → Mine job s.device ∧ d'.file.received = s.device.file.received := by
    rcases heffect with rfl | ⟨_, _, he⟩
    · exact fun hm => ⟨hm, rfl⟩
    · exact fun hm => absurd hm (elsewhere_of_ended he).not_mine
  have hstored : Stored sha256 job s.host.hashed hd s.device → ¬s.Starting →
      Stored sha256 job s.host.hashed (hd ++ [e]) d' := by
    intro hst _
    rcases heffect with rfl | ⟨hact, _, _⟩
    · exact hst.later
    · exact absurd hact (by simp [hst.idle])
  have hupload : uploadOf (hd ++ [e]) = uploadOf hd := by
    rw [uploadOf_append]
    obtain ⟨c, f⟩ := e
    obtain rfl : c = .poll a := hcall
    cases f <;> rfl
  refine hi.device (List.Sublist.refl _) (hi.own.step fun r a' h => ?_) (hi.progress.poll hreach hi.own hcall hstep)
    (fun hn => ⟨fun u hu => (hi.quiet hn).fresh u (hupload ▸ hu), ?_⟩)
    (fun q o data h hm => ?_) hstored (hi.phase.device hrec hstored)
  · rw [hcall] at h
    simp at h
  · rcases heffect with rfl | ⟨hact, hclean, he⟩
    · exact (hi.quiet hn).target
    · have helse := elsewhere_of_fresh hreach (hi.quiet hn).fresh
      exact (he.others _ (helse hact hclean).2.symm).trans (hi.quiet hn).target
  · obtain ⟨hm', he⟩ := hrec hm
    rw [he]
    exact (hi.pieces q o data h).received hm'

theorem route_begin {owner : Snapshot} {a : Answers} {total : ℕ} {digest : List UInt8} {c : Call}
    (h : route owner a ((Request.begin total digest).body job) = some c) :
    ∃ r, c = .begin r a.begin ∧ r.path = some job.path ∧ r.uploadId = job.uploadId ∧
      r.sha256 = some (hexText digest) ∧ r.total = total.toUInt32 := by
  simp only [Request.body, route] at h
  split_ifs at h
  obtain rfl := Option.some.inj h
  exact ⟨_, rfl, rfl, rfl, rfl, rfl⟩

/-- The `begin` arrives. -/
theorem Inv.arriveBegin (hi : Inv sha256 job hd s) {q total : ℕ} {digest : List UInt8}
    {owner : Snapshot} {a : Answers} (hm : (q, Request.begin total digest) ∈ s.requests)
    (hroute : route owner a ((Request.begin total digest).body job) = some e.call)
    (hstep : (transfers sha256).step s.device e d') :
    Inv sha256 job (hd ++ [e]) { s with device := d', requests := without q s.requests } := by
  obtain ⟨r, hcall, hpath, hid, hsha, htotal⟩ := route_begin hroute
  obtain ⟨rfl, rfl, rfl⟩ := hi.begins q total digest hm
  have hown : Own sha256 job s.host.hashed r := ⟨hpath, hid, hsha, htotal⟩
  have hstart : s.Starting := ⟨_, _, _, hm⟩
  have hstart' : ¬({ s with device := d', requests := without 0 s.requests } : Joint).Starting := by
    rintro ⟨q, t, d, h⟩
    obtain ⟨h, hne⟩ := mem_without.mp h
    exact hne (hi.begins q t d h).1
  have hsub := without_sublist 0 s.requests
  obtain ⟨he, ht⟩ : Elsewhere job s.device ∧ s.device.fs job.target = s.before := by
    cases hi.progress with
    | untouched he ht => exact ⟨he, ht⟩
    | mine _ hs _ => exact absurd hstart hs
    | stored _ hs => exact absurd hstart hs
    | aside _ hs => exact absurd hstart hs
  obtain ⟨ht', hcase⟩ := begin_effect hown hcall hstep he ht
  have hzero : Mine job d' → d'.file.received.toNat = 0 := by
    rcases hcase with he' | ⟨_, hrec⟩
    · exact fun hm => absurd hm he'.not_mine
    · exact fun _ => by rw [hrec]; rfl
  refine hi.device hsub (hi.own.step fun r' a' h _ => ?_) ?_ (fun hn => ?_)
    (fun q o data h => ?_) (fun _ hno => absurd hstart hno) ?_
  · rw [hcall] at h
    exact (Call.begin.inj h).1 ▸ hown
  · rcases hcase with he' | ⟨hm', _⟩
    · exact .untouched he' ht'
    · exact .mine hm' hstart' ht'
  · simp [(hi.quiet hn).requests] at hm
  · exact absurd hstart (hi.pieces q o data (hsub.subset h)).begun
  · have hph := hi.phase
    generalize s.host.phase = phase at hph ⊢
    cases phase with
    | called => exact hph
    | hashed => exact hph
    | waiting rpc q =>
      cases rpc with
      | begin => exact ⟨hph.1, fun q o data h => hph.2.1 q o data (hsub.subset h), hzero⟩
      | chunk offset size => exact absurd hstart hph.2.2.2.1
      | commit => exact hph
    | committed => exact absurd hstart hph.2
    | cleaning => trivial
    | resolved => exact absurd hstart hph.2
    | rejected => trivial

/-- A chunk arrives. -/
theorem Inv.arriveChunk (hi : Inv sha256 job hd s)
    (hreach : Reaches (transfers sha256) hd s.device) {q offset : ℕ} {data : List UInt8}
    {owner : Snapshot} {a : WriteAnswers} (hm : (q, Request.chunk offset data) ∈ s.requests)
    (hcall : e.call = .write owner (job.id ++ le32 offset ++ data) a)
    (hstep : (transfers sha256).step s.device e d') :
    Inv sha256 job (hd ++ [e]) { s with device := d', requests := without q s.requests } := by
  have hsub := without_sublist q s.requests
  have heffect := chunk_effect hcall hstep
  have hstored : Stored sha256 job s.host.hashed hd s.device → ¬s.Starting →
      Stored sha256 job s.host.hashed (hd ++ [e]) d' := by
    intro hst _
    rcases heffect with ⟨rfl, _⟩ | ⟨hmine, _⟩
    · exact hst.later
    · exact absurd hmine.active (by simp [hst.idle])
  refine hi.device hsub (hi.own.step fun r' a' h _ => ?_)
    ((hi.progress.chunk hreach hi.own hcall hstep).mono fun ⟨q, t, d, h⟩ => ⟨q, t, d, hsub.subset h⟩)
    (fun hn => ?_) (fun q' o data' h => ?_) hstored ?_
  · rw [hcall] at h
    simp at h
  · simp [(hi.quiet hn).requests] at hm
  · obtain ⟨h, hne⟩ := mem_without.mp h
    exact absurd ((hi.pieces q offset data hm).only q' o data' h) hne
  · have hph := hi.phase
    by_cases hgrown : e.fault = none
    · -- the number of the chunk has no response yet
      have hmine : Mine job s.device := by
        rcases heffect with ⟨_, hne⟩ | ⟨hmine, _⟩
        · exact absurd hgrown hne
        · exact hmine
      generalize s.host.phase = phase at hph ⊢
      cases phase with
      | called => exact hph
      | hashed => exact hph
      | waiting rpc q' =>
        cases rpc with
        | begin => exact absurd hm (hph.2.1 q offset data)
        | chunk o size =>
          obtain ⟨h1, h2, h3, h4, h5, _⟩ := hph
          obtain rfl := h5 q offset data hm
          exact ⟨h1, h2, h3, fun ⟨q, t, d, h⟩ => h4 ⟨q, t, d, hsub.subset h⟩,
            fun q' o' data' h => h5 q' o' data' (hsub.subset h),
            fun n h _ => (hi.not_both hm h).elim⟩
        | commit => exact hph
      | committed => exact absurd hmine.active (by simp [hph.1.idle])
      | cleaning => trivial
      | resolved => exact absurd hmine.active (by simp [hph.1.idle])
      | rejected => trivial
    · refine (AtPhase.device hph (fun hm' => ?_) hstored).shrink hsub (List.Sublist.refl _)
      rcases heffect with ⟨rfl, _⟩ | ⟨_, _, ⟨_, he⟩ | ⟨hnone, _⟩⟩
      · exact ⟨hm', rfl⟩
      · exact absurd hm' (elsewhere_of_ended he).not_mine
      · exact absurd hnone hgrown

/-- A commit or an abort arrives. -/
theorem Inv.arriveFinish (hi : Inv sha256 job hd s)
    (hreach : Reaches (transfers sha256) hd s.device) {q : ℕ} {r : Request} {commit : Bool}
    {owner : Snapshot} {a : EndAnswers} (hm : (q, r) ∈ s.requests)
    (hcall : e.call = .finish owner (some job.uploadId) commit a)
    (hstep : (transfers sha256).step s.device e d') :
    Inv sha256 job (hd ++ [e]) { s with device := d', requests := without q s.requests } := by
  have hsub := without_sublist q s.requests
  have heffect := finish_effect hreach hcall hstep
  have hrec : Mine job d' → Mine job s.device ∧ d'.file.received = s.device.file.received := by
    intro hm'
    rcases heffect with ⟨rfl, _⟩ | ⟨_, ⟨_, close, he⟩ | ⟨_, _, _, _, hfile⟩ | ⟨_, fs, _, _, hfile⟩⟩
    · exact ⟨hm', rfl⟩
    · exact absurd hm' (elsewhere_of_ended he).not_mine
    · exact absurd hm'.active (by simp [hfile])
    · exact absurd hm'.active (by simp [hfile])
  have hstored : Stored sha256 job s.host.hashed hd s.device → ¬s.Starting →
      Stored sha256 job s.host.hashed (hd ++ [e]) d' := by
    intro hst _
    rcases heffect with ⟨rfl, _⟩ | ⟨hmine, _⟩
    · exact hst.later
    · exact absurd hmine.active (by simp [hst.idle])
  refine hi.device hsub (hi.own.step fun r' a' h _ => ?_)
    ((hi.progress.finish hreach hi.own hcall hstep).mono
      fun ⟨q, t, d, h⟩ => ⟨q, t, d, hsub.subset h⟩)
    (fun hn => ?_) (fun q' o data' h hm' => ?_) hstored
    ((hi.phase.device hrec hstored).shrink hsub (List.Sublist.refl _))
  · rw [hcall] at h
    simp at h
  · simp [(hi.quiet hn).requests] at hm
  · obtain ⟨hmine, he⟩ := hrec hm'
    rw [he]
    exact (hi.pieces q' o data' (hsub.subset h)).received hmine

/-- The number of a message that has been taken off the link is free. -/
theorem Inv.taken (hi : Inv sha256 job hd s) {q : ℕ} {r : Request} (hm : (q, r) ∈ s.requests) :
    q ∉ (without q s.requests).map Prod.fst ++ s.responses.map Prod.fst := by
  intro h
  rcases List.mem_append.mp h with h | h
  · obtain ⟨m, hm', hq⟩ := List.mem_map.mp h
    exact (mem_without.mp hm').2 hq
  · obtain ⟨m, hm', hq⟩ := List.mem_map.mp h
    exact hi.not_both hm (show (q, m.2) ∈ s.responses from hq ▸ hm')

theorem Inv.refuse (hi : Inv sha256 job hd s) {m : ℕ × Request} (hm : m ∈ s.requests) :
    Inv sha256 job hd { s with
      requests := without m.1 s.requests
      responses := s.responses ++ [(m.1, .error)] } :=
  (hi.shrink (without_sublist m.1 _) (List.Sublist.refl _)).answer (hi.taken hm)
    (hi.below m.1 (List.mem_append_left _ (List.mem_map_of_mem hm))) (by simp) (by simp) (by simp)

theorem write_received {d : State} {owner : Snapshot} {payload : List UInt8} {a : WriteAnswers}
    (h : (write d owner payload a).2.1 = none) :
    (write d owner payload a).2.2 = some (write d owner payload a).1.file.received := by
  revert h
  unfold write
  dsimp only
  split_ifs <;> simp

theorem respond_begun {d : State} {c : Call} {uploadId : EvFileTransfer.Path} {n : ℕ}
    (h : respond sha256 d c = .begun uploadId n) : n = chunkBytes := by
  cases c with
  | begin r a =>
    simp only [respond] at h
    cases hf : (EvFileTransfer.begin d r a).2 with
    | none =>
      rw [hf] at h
      exact (Response.begun.inj h).2.symm
    | some f => simp [hf] at h
  | write owner payload a =>
    simp only [respond] at h
    split at h <;> simp at h
  | finish owner uploadId commit a =>
    simp only [respond] at h
    split at h <;> simp at h
  | _ => simp [respond] at h

theorem respond_written {d : State} {c : Call} {n : UInt32}
    (h : respond sha256 d c = .written n) : (c.apply sha256 d).1.file.received = n := by
  cases c with
  | begin r a =>
    simp only [respond] at h
    split at h <;> simp at h
  | write owner payload a =>
    simp only [respond] at h
    cases hf : (write d owner payload a).2 with
    | mk fault received =>
      cases fault with
      | some f => simp [hf] at h
      | none =>
        have hrec : (write d owner payload a).2.2 =
            some (write d owner payload a).1.file.received := write_received (by rw [hf])
        rw [hf] at h hrec
        obtain rfl := Response.written.inj h
        show (write d owner payload a).1.file.received = received.getD 0
        rw [show received = some _ from hrec]
        rfl
  | finish owner uploadId commit a =>
    simp only [respond] at h
    split at h <;> simp at h
  | _ => simp [respond] at h

theorem respond_ended {d : State} {c : Call} {n : UInt32}
    (h : respond sha256 d c = .ended n true) :
    (∃ owner uploadId a, c = .finish owner uploadId true a) ∧ (c.apply sha256 d).2 = none := by
  cases c with
  | begin r a =>
    simp only [respond] at h
    split at h <;> simp at h
  | write owner payload a =>
    simp only [respond] at h
    split at h <;> simp at h
  | finish owner uploadId commit a =>
    simp only [respond] at h
    cases hf : (finish sha256 d owner uploadId commit a).2 with
    | mk fault received =>
      cases fault with
      | some f => simp [hf] at h
      | none =>
        rw [hf] at h
        obtain rfl := (Response.ended.inj h).2
        exact ⟨⟨owner, uploadId, a, rfl⟩, by simp [Call.apply, hf]⟩
  | _ => simp [respond] at h

/-- A request arrives and is answered. -/
theorem Inv.deliver (hi : Inv sha256 job hd s) (hreach : Reaches (transfers sha256) hd s.device)
    {m : ℕ × Request} {owner : Snapshot} {a : Answers} (hm : m ∈ s.requests)
    (hroute : route owner a (m.2.body job) = some e.call)
    (hstep : (transfers sha256).step s.device e d') :
    Inv sha256 job (hd ++ [e]) { s with
      device := d'
      requests := without m.1 s.requests
      responses := s.responses ++ [(m.1, respond sha256 s.device e.call)] } := by
  obtain ⟨q, r⟩ := m
  have hs : Inv sha256 job (hd ++ [e])
      { s with device := d', requests := without q s.requests } := by
    cases r with
    | begin total digest => exact hi.arriveBegin hm hroute hstep
    | chunk offset data => exact hi.arriveChunk hreach hm (Option.some.inj hroute).symm hstep
    | commit => exact hi.arriveFinish hreach hm (Option.some.inj hroute).symm hstep
    | abort => exact hi.arriveFinish hreach hm (Option.some.inj hroute).symm hstep
  have happly : (d', e.fault) = e.call.apply sha256 s.device := hstep
  refine hs.answer (q := q) (hi.taken hm)
    (hi.below q (List.mem_append_left _ (List.mem_map_of_mem hm)))
    (fun u n h => respond_begun h) (fun n h => ?_) (fun n h _ => ?_)
  · obtain ⟨⟨owner', uploadId, a', hcall⟩, hnone⟩ := respond_ended h
    rw [← happly] at hnone
    have hcommit : e.call = .finish owner (some job.uploadId) true a.finish := by
      cases r with
      | begin total digest =>
        obtain ⟨_, hb, _⟩ := route_begin hroute
        simp [hcall] at hb
      | chunk offset data => simp [Request.body, route, hcall] at hroute
      | commit => exact (Option.some.inj hroute).symm
      | abort => simp [Request.body, route, hcall] at hroute
    rcases finish_effect hreach hcommit hstep with ⟨_, hne⟩ | ⟨hmine, hcase⟩
    · exact absurd hnone hne
    · obtain ⟨hno, _⟩ := hi.progress.of_mine hmine
      rcases hcase with ⟨hc, _⟩ | ⟨_, hrec, hsha, hp, hfile⟩ | ⟨hne, _⟩
      · exact absurd (hc hnone) (by simp)
      · exact ⟨hmine.stored hreach hi.own hrec hsha hp hfile,
          fun ⟨q', t, d, h⟩ => hno ⟨q', t, d, (without_sublist q s.requests).subset h⟩⟩
      · exact absurd hnone hne
  · have h' := respond_written h
    rw [← happly] at h'
    exact h'

end Device

/-! ## Runs -/

section Runs

variable {sha256 : List UInt8 → List UInt8} {job : Job} {h : List Label} {s s' : Joint}

/-- The device's part of a run is a run of uploads. -/
theorem device_reaches (hr : Reaches (uploads sha256 job) h s) :
    Reaches (transfers sha256) (h.filterMap Label.event) s.device := by
  refine hr.project (S := uploads sha256 job) (T := transfers sha256) Joint.device Label.event
    (fun s hs => hs.1) fun s l t hstep => ?_
  cases hstep with
  | other e d _ _ hd => exact hd
  | deliver m e owner a d _ _ hd => exact hd
  | poll e a d _ hd => exact hd
  | receive q rpc r _ _ =>
    show _ = s.device
    cases s.host.judge job rpc r <;> rfl
  | _ => rfl

theorem inv_init (hs : (uploads sha256 job).init s) : Inv sha256 job [] s := by
  obtain ⟨⟨_, hfile, _⟩, hbefore, hhost, hq, hr⟩ := hs
  have hnext : s.host.next = 0 := by rw [hhost]
  have hphase : s.host.phase = .called := by rw [hhost]
  have hidle : s.device.file.active = false := by simp [hfile]
  refine ⟨fun u hu => by simp [uploadOf] at hu, .untouched (elsewhere_of_inactive hidle)
    hbefore.symm, by simp [Joint.numbers, hq, hr], by simp [Joint.numbers, hq, hr],
    fun _ => ⟨hq, hr, fun u hu => by simp [uploadOf] at hu, hbefore.symm⟩,
    fun h => by simp [hphase, hnext] at h, by simp [hq], by simp [hq], by simp [hr], by simp [hr],
    ?_⟩
  rw [hphase]
  exact hnext

/-- A call of the device before `writeFile`. -/
theorem Inv.other {hd : List Event} (hi : Inv sha256 job hd s)
    (hreach : Reaches (transfers sha256) hd s.device) (hphase : s.host.phase = .called) {e : Event}
    {d : State} (hforeign : job.Foreign e.call) (hstep : (transfers sha256).step s.device e d) :
    Inv sha256 job (hd ++ [e]) { s with device := d, before := d.fs job.target } := by
  have hnext : s.host.next = 0 := by
    have hph := hi.phase
    rwa [hphase] at hph
  have hq := hi.quiet hnext
  have hfresh : Fresh job (hd ++ [e]) :=
    request_step (P := fun r => unhex (some r.uploadId) 16 ≠ some job.id ∧
      ∀ path, r.path = some path → temporaryOf (targetOf path) r.uploadId ≠ job.target)
      hq.fresh hforeign
  refine ⟨hi.own.step fun r a hc hid => absurd hid (hforeign r a hc).1,
    .untouched (elsewhere_of_fresh (hreach.snoc hstep) hfresh) rfl, hi.numbers, hi.below,
    fun _ => ⟨hq.requests, hq.responses, hfresh, rfl⟩, fun h => ?_, hi.begins, ?_, hi.acks, ?_, ?_⟩
  · exact absurd h (by simp [hphase, hnext])
  · simp [hq.requests]
  · simp [hq.responses]
  · rw [hphase]
    exact hnext

/-- The content is hashed. -/
theorem Inv.digest {hd : List Event} (hi : Inv sha256 job hd s)
    (hreach : Reaches (transfers sha256) hd s.device) (hphase : s.host.phase = .called)
    (hlen : s.host.content.length ≤ 0xffffffff) :
    Inv sha256 job hd
      { s with host := { s.host with phase := .hashed, hashed := s.host.content } } := by
  have hnext : s.host.next = 0 := by
    have hph := hi.phase
    rwa [hphase] at hph
  have hq := hi.quiet hnext
  exact ⟨fun u hu hid => absurd hid (hq.fresh u hu).1,
    .untouched (elsewhere_of_fresh hreach hq.fresh) hq.target, hi.numbers, hi.below,
    fun _ => ⟨hq.requests, hq.responses, hq.fresh, hq.target⟩, fun _ => ⟨rfl, hlen⟩,
    by simp [hq.requests], by simp [hq.requests], hi.acks, by simp [hq.responses], hnext⟩

theorem Inv.start {hd : List Event} (hi : Inv sha256 job hd s)
    (hreach : Reaches (transfers sha256) hd s.device) (hphase : s.host.phase = .hashed) :
    Inv sha256 job hd (s.send (.waiting .begin s.host.next)
      (.begin s.host.content.length (sha256 s.host.hashed))) := by
  have hnext : s.host.next = 0 := by
    have hph := hi.phase
    rwa [hphase] at hph
  have hq := hi.quiet hnext
  have hlen := hi.length (.inl hphase)
  refine hi.send hreach ⟨fun t d h => ?_, by simp⟩ hlen
    ⟨⟨hnext, Nat.succ_pos _⟩, fun q o data h => ?_, fun hm => ?_⟩
  · obtain ⟨rfl, rfl⟩ := Request.begin.inj h
    exact ⟨hnext, hlen.1.symm, rfl⟩
  · rcases mem_send.mp h with h | h
    · simp [hq.requests] at h
    · simp at h
  · exact absurd hm (elsewhere_of_fresh hreach hq.fresh).not_mine

theorem inv_step {l : Label} (hr : Reaches (uploads sha256 job) h s)
    (hi : Inv sha256 job (h.filterMap Label.event) s) (hstep : Step sha256 job s l s') :
    Inv sha256 job ((h ++ [l]).filterMap Label.event) s' := by
  have hreach := device_reaches hr
  rw [List.filterMap_append]
  cases hstep with
  | other e d hphase hforeign hd => exact hi.other hreach hphase hforeign hd
  | mutate content hlen =>
    simp only [List.filterMap_cons, Label.event, List.filterMap_nil, List.append_nil]
    exact ⟨hi.own, hi.progress, hi.numbers, hi.below,
      fun h => ⟨(hi.quiet h).requests, (hi.quiet h).responses, (hi.quiet h).fresh,
        (hi.quiet h).target⟩, fun h => ⟨(hi.length h).1.trans hlen.symm, (hi.length h).2⟩,
      hi.begins, fun q o data h => (hi.pieces q o data h).of_host rfl, hi.acks, hi.ended, hi.phase⟩
  | digest hphase _ _ _ hlen =>
    simp only [List.filterMap_cons, Label.event, List.filterMap_nil, List.append_nil]
    exact hi.digest hreach hphase hlen
  | giveUp hphase =>
    simp only [List.filterMap_cons, Label.event, List.filterMap_nil, List.append_nil]
    exact hi.rephase (by simp) trivial
  | start hphase =>
    simp only [List.filterMap_cons, Label.event, List.filterMap_nil, List.append_nil]
    exact hi.start hreach hphase
  | receive q rpc r hphase hmem =>
    simp only [List.filterMap_cons, Label.event, List.filterMap_nil, List.append_nil]
    exact hi.receive hreach hphase hmem
  | fail rpc q hphase =>
    simp only [List.filterMap_cons, Label.event, List.filterMap_nil, List.append_nil]
    have hph := hi.phase
    rw [hphase] at hph
    exact hi.abort hreach hph.next_pos
  | failLate hphase =>
    simp only [List.filterMap_cons, Label.event, List.filterMap_nil, List.append_nil]
    exact hi.rephase (by simp) trivial
  | resolve hphase =>
    simp only [List.filterMap_cons, Label.event, List.filterMap_nil, List.append_nil]
    have hph := hi.phase
    rw [hphase] at hph
    exact hi.rephase (by simp) hph
  | cleaned hphase =>
    simp only [List.filterMap_cons, Label.event, List.filterMap_nil, List.append_nil]
    exact hi.rephase (by simp) trivial
  | deliver m e owner a d hm hroute hd => exact hi.deliver hreach hm hroute hd
  | refuse m hm =>
    simp only [List.filterMap_cons, Label.event, List.filterMap_nil, List.append_nil]
    exact hi.refuse hm
  | poll e a d hcall hd => exact hi.poll hreach hcall hd
  | loseRequest m hm =>
    simp only [List.filterMap_cons, Label.event, List.filterMap_nil, List.append_nil]
    exact hi.shrink (without_sublist _ _) (List.Sublist.refl _)
  | loseResponse m hm =>
    simp only [List.filterMap_cons, Label.event, List.filterMap_nil, List.append_nil]
    exact hi.shrink (List.Sublist.refl _) (without_sublist _ _)

theorem inv_of_uploads (hr : Reaches (uploads sha256 job) h s) :
    Inv sha256 job (h.filterMap Label.event) s :=
  hr.invariant (I := fun h s => Inv sha256 job (h.filterMap Label.event) s)
    (fun _ hs => inv_init hs) fun _ _ _ _ hr hi hstep => inv_step hr hi hstep

/-- The device takes the chunks of the host for their offset, size and alignment. -/
theorem chunk_fits (hr : Reaches (uploads sha256 job) h s) {q offset : ℕ} {data : List UInt8}
    {owner : Snapshot} {a : WriteAnswers} (hm : (q, Request.chunk offset data) ∈ s.requests) :
    let payload := job.id ++ le32 offset ++ data
    prefixBytes < payload.length ∧ payload.length ≤ payloadMax ∧
      (write s.device owner payload a).2.1 ≠ some .invalidOffsetOrSize := by
  have hi := inv_of_uploads hr
  have hp := hi.pieces q offset data hm
  have hreach := device_reaches hr
  have hn : 0 < s.host.next := by
    by_contra hn
    simp [(hi.quiet (by omega)).requests] at hm
  have hmax := (hi.length (.inr hn)).2
  have hsize := hp.size
  have hinside := hp.inside
  have hlen : (job.id ++ le32 offset ++ data).length = prefixBytes + data.length := by
    simp [job.id_length, le32, prefixBytes]
    omega
  have hdrop : (job.id ++ le32 offset ++ data).drop prefixBytes = data := by
    rw [List.drop_append_of_le_length (by simp [job.id_length, le32, prefixBytes])]
    simp [job.id_length, le32, prefixBytes]
  unfold chunkBytes at hsize
  refine ⟨by rw [hlen]; omega, by rw [hlen]; unfold payloadMax chunkBytes; omega, fun hf => ?_⟩
  obtain ⟨haddr, hnot⟩ : Addressed s.device owner (job.id ++ le32 offset ++ data) a.current ∧
      ¬Takes s.device owner (job.id ++ le32 offset ++ data) a.current := by
    have hout := write_outcome s.device owner (job.id ++ le32 offset ++ data) a
    generalize (write s.device owner (job.id ++ le32 offset ++ data) a).1 = d' at hout
    rw [hf] at hout
    generalize hfault : some Fault.invalidOffsetOrSize = fault at hout
    cases hout with
    | rejected fault hnot _ haddr => exact ⟨haddr (Option.some.inj hfault).symm, hnot⟩
    | failed d' fault _ hmem _ => simp [← Option.some.inj hfault] at hmem
    | accepted => simp at hfault
  have hmine : Mine job s.device := by
    refine ⟨haddr.active, haddr.clean, ?_⟩
    rw [← haddr.id, List.append_assoc, List.take_append_of_le_length (by simp [job.id_length])]
    exact List.take_of_length_le (by simp [job.id_length])
  obtain ⟨u, _, w, hown, _⟩ := hmine.working hreach hi.own
  have hrec := hp.received hmine
  have htotal : s.device.file.total.toNat = s.host.hashed.length := by
    rw [w.total, hown.total, Nat.toUInt32, UInt32.toNat_ofNat']
    exact Nat.mod_eq_of_lt (by omega)
  have hleft : (s.device.file.total - s.device.file.received).toNat =
      s.host.hashed.length - offset := by
    have hle : s.device.file.received ≤ s.device.file.total := by
      rw [UInt32.le_iff_toNat_le]
      omega
    rw [UInt32.toNat_sub_of_le _ _ hle, htotal, hrec]
  refine hnot ⟨haddr, ?_, ?_, ?_⟩
  · rw [offsetOf_chunk job.id_length (by omega)]
    apply UInt32.toNat_inj.mp
    rw [hrec, Nat.toUInt32, UInt32.toNat_ofNat']
    exact Nat.mod_eq_of_lt (by omega)
  · rw [hdrop, hleft]
    omega
  · rw [hdrop, hleft]
    omega

/-- **The upload arrives as a whole or not at all.** No two byte strings of the run that the device
has hashed may have the digest of the content; the bytes of the array may change at any time. -/
theorem upload_end_to_end (hr : Reaches (uploads sha256 job) h s)
    (hcollision : ∀ h' u, h' <+: h.filterMap Label.event → uploadOf h' = some u →
      sha256 u.bytes = sha256 s.host.hashed → u.bytes = s.host.hashed) :
    (s.host.phase = .resolved → s.device.fs job.target = some (.file s.host.hashed)) ∧
      (s.device.fs job.target = s.before ∨ s.device.fs job.target = some (.file s.host.hashed) ∨
        ∃ bytes, s.before = some (.file bytes) ∧ s.device.fs job.target = none ∧
          s.device.fs job.backup = some (.file bytes)) ∧
      ∀ q offset data owner a, (q, Request.chunk offset data) ∈ s.requests →
        let payload := job.id ++ le32 offset ++ data
        prefixBytes < payload.length ∧ payload.length ≤ payloadMax ∧
          (write s.device owner payload a).2.1 ≠ some .invalidOffsetOrSize := by
  have hi := inv_of_uploads hr
  have hnew (hs : Stored sha256 job s.host.hashed (h.filterMap Label.event) s.device) :
      s.device.fs job.target = some (.file s.host.hashed) := by
    obtain ⟨h', u, hp, hu, ht, _, hsha⟩ := hs.target
    rw [ht, hcollision h' u hp hu hsha]
  refine ⟨fun hphase => ?_, ?_, fun q offset data owner a hm => chunk_fits hr hm⟩
  · have hph := hi.phase
    rw [hphase] at hph
    exact hnew hph.1
  · cases hi.progress with
    | untouched _ ht => exact .inl ht
    | mine _ _ ht => exact .inl ht
    | stored hs _ => exact .inr (.inl (hnew hs))
    | aside ha _ =>
      obtain ⟨bytes, hb⟩ := ha.old
      exact .inr (.inr ⟨bytes, hb, ha.target, ha.backup.trans hb⟩)

end Runs

/-! ## Two runs -/

/-- A digest that is one to one on short byte strings. -/
def shortDigest (bytes : List UInt8) : List UInt8 :=
  if bytes.length < 32 then bytes.length.toUInt8 :: bytes ++ List.replicate (31 - bytes.length) 0
  else List.replicate 32 0xff

/-- An upload to `/flash/t`. -/
def someJob : Job := ⟨[0x2f, 0x74], .overwrite, List.replicate 16 0, 16384, rfl⟩

def someAnswers (publish : PublishAnswers) : Answers where
  begin := { current := some someOwner }
  write := { current := some someOwner, results := [.count 3], currentAfter := some someOwner }
  finish := { current := some someOwner, currentAfter := some someOwner, publish := publish }

/-- The state after a request has been delivered, as the model computes it. -/
def Joint.delivered (job : Job) (a : Answers) (s : Joint) : Joint :=
  match s.requests with
  | [] => s
  | m :: _ =>
    match route someOwner a (m.2.body job) with
    | none => s
    | some c => { s with
        device := (c.apply shortDigest s.device).1
        requests := without m.1 s.requests
        responses := s.responses ++ [(m.1, respond shortDigest s.device c)] }

/-- The state after the host has taken the first response. -/
def Joint.received (job : Job) (s : Joint) : Joint :=
  match s.responses, s.host.phase with
  | (q, r) :: _, .waiting rpc q' =>
    if q = q' then { s with responses := without q s.responses }.follow (s.host.judge job rpc r)
    else s
  | _, _ => s

theorem delivered_reaches {job : Job} {h : List Label} {s : Joint} (a : Answers)
    (hr : Reaches (uploads shortDigest job) h s) :
    ∃ h', Reaches (uploads shortDigest job) h' (s.delivered job a) := by
  unfold Joint.delivered
  cases hq : s.requests with
  | nil => exact ⟨h, hr⟩
  | cons m requests =>
    dsimp only
    cases hroute : route someOwner a (m.2.body job) with
    | none => exact ⟨h, hr⟩
    | some c =>
      have hstep := Step.deliver (s := s) m
        ⟨c, (c.apply shortDigest s.device).2⟩ someOwner a (c.apply shortDigest s.device).1
        (by simp [hq]) hroute rfl
      rw [hq] at hstep
      exact ⟨_, hr.snoc hstep⟩

theorem received_reaches {job : Job} {h : List Label} {s : Joint}
    (hr : Reaches (uploads shortDigest job) h s) :
    ∃ h', Reaches (uploads shortDigest job) h' (s.received job) := by
  unfold Joint.received
  cases hq : s.responses with
  | nil => exact ⟨h, hr⟩
  | cons m responses =>
    obtain ⟨q, r⟩ := m
    cases hp : s.host.phase with
    | waiting rpc q' =>
      dsimp only
      by_cases he : q = q'
      · subst he
        rw [if_pos rfl]
        have hstep : (uploads shortDigest job).step s _ _ := Step.receive q rpc r hp (by simp [hq])
        rw [hq] at hstep
        exact ⟨_, hr.snoc hstep⟩
      · rw [if_neg he]
        exact ⟨h, hr⟩
    | _ => exact ⟨h, hr⟩

/-- A host that has sent its `begin` to a device that has just started. -/
def started (job : Job) (fs : Files EvFileTransfer.Path) (content : List UInt8) : Joint :=
  Joint.send
    { host := { content := content, phase := .hashed, hashed := content }
      device := { lock := true, fs := fs }
      before := fs job.target }
    (.waiting .begin 0) (.begin content.length (shortDigest content))

theorem started_reaches (fs : Files EvFileTransfer.Path) {content : List UInt8}
    (hlen : content.length ≤ 0xffffffff) :
    ∃ h, Reaches (uploads shortDigest someJob) h (started someJob fs content) := by
  have h0 : Reaches (uploads shortDigest someJob) []
      { host := { content := content }, device := { fs := fs }, before := fs someJob.target } :=
    .init ⟨⟨rfl, rfl, rfl⟩, rfl, rfl, rfl, rfl⟩
  have h1 := h0.snoc (Step.other ⟨.init true, none⟩ { lock := true, fs := fs } rfl
    (fun _ _ hc => by simp at hc) rfl)
  have h2 := h1.snoc (Step.digest rfl (by decide) (by decide) (by decide) hlen)
  exact ⟨_, h2.snoc (Step.start rfl)⟩

/-- Some requests with their responses. -/
def Joint.exchanges (a : Answers) : ℕ → Joint → Joint
  | 0, s => s
  | n + 1, s => Joint.exchanges a n ((s.delivered someJob a).received someJob)

theorem exchanges_reaches (a : Answers) (n : ℕ) {h : List Label} {s : Joint}
    (hr : Reaches (uploads shortDigest someJob) h s) :
    ∃ h', Reaches (uploads shortDigest someJob) h' (s.exchanges a n) := by
  induction n generalizing h s with
  | zero => exact ⟨h, hr⟩
  | succ n ih =>
    obtain ⟨h₁, hr₁⟩ := delivered_reaches a hr
    obtain ⟨h₂, hr₂⟩ := received_reaches hr₁
    exact ih hr₂

theorem shortDigest_threeBytes {bytes : List UInt8}
    (h : shortDigest bytes = shortDigest [1, 2, 3]) : bytes = [1, 2, 3] := by
  unfold shortDigest at h
  by_cases hl : bytes.length < 32
  · rw [if_pos hl, if_pos (by decide), List.cons_append, List.cons_append] at h
    obtain ⟨hn, ht⟩ := List.cons.inj h
    have hlen : bytes.length = 3 := by
      have hn' := congrArg UInt8.toNat hn
      simp only [Nat.toUInt8, UInt8.toNat_ofNat', List.length_cons, List.length_nil] at hn'
      omega
    exact (List.append_inj ht hlen).1
  · rw [if_neg hl] at h
    exact absurd h (by decide)

/-- Three bytes are uploaded. -/
theorem upload_end_to_end_threeBytes : ∃ h s, Reaches (uploads shortDigest someJob) h s ∧
    s.host.phase = .resolved ∧ s.device.fs someJob.target = some (.file [1, 2, 3]) := by
  obtain ⟨h, hr⟩ := started_reaches (fun _ => none) (show [1, 2, 3].length ≤ 0xffffffff by decide)
  obtain ⟨h', hr'⟩ := exchanges_reaches (someAnswers {}) 3 hr
  have hdone := hr'.snoc (Step.resolve (by decide))
  refine ⟨_, _, hdone, rfl, (upload_end_to_end hdone fun h' u _ _ hsha => ?_).1 rfl⟩
  exact shortDigest_threeBytes hsha

/-- The staged file cannot be moved, nor the old one back: `writeFile` rejects without a target. -/
theorem rejected_without_target : ∃ h s, Reaches (uploads shortDigest someJob) h s ∧
    s.host.phase = .rejected ∧ s.before = some (.file [7]) ∧ s.host.hashed = [] ∧
      s.device.fs someJob.target = none := by
  obtain ⟨h, hr⟩ := started_reaches
    (fun p => if p = someJob.target then some (.file [7]) else none)
    (show [].length ≤ 0xffffffff by decide)
  obtain ⟨h', hr'⟩ := exchanges_reaches (someAnswers
    { rename := some .exists, renameAgain := some (.other 5), rollback := some (.other 5) }) 2 hr
  have hdone := hr'.snoc (Step.cleaned (by decide))
  exact ⟨_, _, hdone, rfl, by decide, by decide, by decide⟩

end EspVision.Upload
