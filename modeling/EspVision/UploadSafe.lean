import EspVision.FileTransferSafe
import EspVision.UploadProtocol

/-!
# Uploads from end to end

What is known of the host, the link and the device together. The device's side of a run is a run
of uploads, so what holds there holds here; on top of it come the one transfer that carries this
upload's id, and the one chunk that is on its way.
-/
namespace EspVision.Upload

open EvSession (Snapshot)
open EvFileTransfer FileSystem TransitionSystem

/-! ## Texts and numbers -/

theorem hexValue_hexChar {n : UInt8} (h : n.toNat < 16) : hexValue (hexChar n) = some n := by
  have hn : n = UInt8.ofNat n.toNat := by simp
  rw [hn]
  generalize n.toNat = k at h
  interval_cases k <;> rfl

theorem unhexPairs_hexText (bytes : List UInt8) : unhexPairs (hexText bytes) = some bytes := by
  induction bytes with
  | nil => rfl
  | cons b bytes ih =>
    have hlt := b.toNat_lt
    have hhigh : (b / 16).toNat < 16 := by
      rw [UInt8.toNat_div]
      show b.toNat / 16 < 16
      omega
    have hlow : (b % 16).toNat < 16 := by
      rw [UInt8.toNat_mod]
      show b.toNat % 16 < 16
      omega
    have hb : b / 16 * 16 + b % 16 = b := by
      apply UInt8.toNat_inj.mp
      rw [UInt8.toNat_add, UInt8.toNat_mul, UInt8.toNat_div, UInt8.toNat_mod]
      show (b.toNat / 16 * 16 % 256 + b.toNat % 16) % 256 = b.toNat
      omega
    have hcons : hexText (b :: bytes) = hexChar (b / 16) :: hexChar (b % 16) :: hexText bytes := rfl
    rw [hcons]
    simp [unhexPairs, hexValue_hexChar hhigh, hexValue_hexChar hlow, ih, hb]

/-- Bits above a bound and bits below it add up. -/
theorem or_shift {a b i : ℕ} (h : a < 2 ^ i) : a ||| b <<< i = b * 2 ^ i + a := by
  rw [Nat.or_comm, Nat.shiftLeft_eq, Nat.mul_comm, Nat.two_pow_add_eq_or_of_lt h]

/-- A byte that is shifted within 32 bits loses nothing. -/
lemma shiftLeft_mod {b k : ℕ} (hb : b < 2 ^ 8) (hk : 8 + k ≤ 32) : b <<< k % 2 ^ 32 = b <<< k := by
  rw [Nat.shiftLeft_eq]
  refine Nat.mod_eq_of_lt (Nat.lt_of_lt_of_le
    (Nat.mul_lt_mul_of_pos_right hb (Nat.two_pow_pos k)) ?_)
  rw [← Nat.pow_add]
  exact Nat.pow_le_pow_right (by decide) hk

/-- Four bytes at their places are a sum. -/
lemma or_bytes {a b c d : ℕ} (ha : a < 2 ^ 8) (hb : b < 2 ^ 8) (hc : c < 2 ^ 8) (hd : d < 2 ^ 8) :
    0 ||| a <<< 0 % 2 ^ 32 ||| b <<< 8 % 2 ^ 32 ||| c <<< 16 % 2 ^ 32 ||| d <<< 24 % 2 ^ 32 =
      d * 2 ^ 24 + (c * 2 ^ 16 + (b * 2 ^ 8 + a)) := by
  rw [shiftLeft_mod ha (by decide), shiftLeft_mod hb (by decide), shiftLeft_mod hc (by decide),
    shiftLeft_mod hd (by decide), Nat.zero_or, Nat.shiftLeft_zero, or_shift (b := b) ha,
    or_shift (b := c) (by omega), or_shift (b := d) (by omega)]

theorem offsetOf_chunk {id data : List UInt8} (hid : id.length = 16) {n : ℕ} (hn : n < 2 ^ 32) :
    offsetOf (id ++ le32 n ++ data) = n.toUInt32 := by
  have hget (i : ℕ) (hi : i < 4) : (id ++ le32 n ++ data).getD (16 + i) 0 =
      (n / 256 ^ i % 256).toUInt8 := by
    rw [List.getD_eq_getElem?_getD, List.append_assoc, List.getElem?_append_right (by omega), hid]
    interval_cases i <;> simp [le32]
  have hlen : prefixBytes ≤ (id ++ le32 n ++ data).length := by
    simp [hid, le32, prefixBytes]
    omega
  have hbyte (i : ℕ) : ((n / 256 ^ i % 256).toUInt8.toUInt32).toNat = n / 256 ^ i % 256 := by
    simp [Nat.toUInt8]
  have hlt (i : ℕ) : n / 256 ^ i % 256 < 2 ^ 8 := Nat.mod_lt _ (by decide)
  unfold offsetOf
  rw [if_pos hlen]
  simp only [show List.range 4 = [0, 1, 2, 3] from rfl, List.foldl_cons, List.foldl_nil,
    hget 0 (by omega), hget 1 (by omega), hget 2 (by omega), hget 3 (by omega)]
  apply UInt32.toNat_inj.mp
  simp only [UInt32.toNat_or, UInt32.toNat_shiftLeft, hbyte]
  refine (or_bytes (hlt 0) (hlt 1) (hlt 2) (hlt 3)).trans ?_
  show _ = n % 2 ^ 32
  have h0 := Nat.div_add_mod n 256
  have h1 := Nat.div_add_mod (n / 256) 256
  have h2 := Nat.div_add_mod (n / 256 / 256) 256
  simp only [Nat.pow_zero, Nat.div_one, Nat.pow_succ, ← Nat.div_div_eq_div_mul, Nat.one_mul]
  rw [Nat.mod_eq_of_lt (show n / 256 / 256 / 256 < 256 by omega)]
  omega

theorem Job.unhex_uploadId (job : Job) : unhex (some job.uploadId) 16 = some job.id := by
  have hlen (bytes : List UInt8) : (hexText bytes).length = bytes.length * 2 := by
    induction bytes with
    | nil => rfl
    | cons b bytes ih =>
      simp only [hexText, List.flatMap_cons, List.length_append, List.length_cons,
        List.length_nil] at ih ⊢
      omega
  have h := hlen job.id
  rw [job.id_length] at h
  simp [unhex, Job.uploadId, h, unhexPairs_hexText]

/-! ## The device's transfer and the upload -/

/-- The transfer that works has this upload's id. -/
structure Mine (job : Job) (d : State) : Prop where
  active : d.file.active = true
  clean : d.file.poisoned = false
  id : d.file.id = job.id

/-- A transfer that works has another id, and stages elsewhere. -/
def Elsewhere (job : Job) (d : State) : Prop :=
  d.file.active = true → d.file.poisoned = false →
    d.file.id ≠ job.id ∧ d.file.temporary ≠ job.target

theorem Elsewhere.not_mine {job : Job} {d : State} (h : Elsewhere job d) : ¬Mine job d := fun m =>
  (h m.active m.clean).1 m.id

theorem elsewhere_of_inactive {job : Job} {d : State} (h : d.file.active = false) :
    Elsewhere job d := fun hact => by simp [h] at hact

/-- The request that the device has taken is the one that the host has sent. -/
structure Own (sha256 : List UInt8 → List UInt8) (job : Job) (hashed : List UInt8)
    (r : BeginRequest) : Prop where
  path : r.path = some job.path
  uploadId : r.uploadId = job.uploadId
  sha256 : r.sha256 = some (hexText (sha256 hashed))
  total : r.total = hashed.length.toUInt32

/-- Whatever upload has this id is the one that the host has begun. -/
def OwnUploads (sha256 : List UInt8 → List UInt8) (job : Job) (hashed : List UInt8)
    (hd : List Event) : Prop :=
  ∀ u, uploadOf hd = some u → unhex (some u.request.uploadId) 16 = some job.id →
    Own sha256 job hashed u.request

theorem Mine.working {sha256 : List UInt8 → List UInt8} {job : Job} {hashed : List UInt8}
    {hd : List Event} {d : State} (m : Mine job d) (hr : Reaches (transfers sha256) hd d)
    (ho : OwnUploads sha256 job hashed hd) :
    ∃ u, uploadOf hd = some u ∧ Working d u ∧ Own sha256 job hashed u.request ∧
      d.file.target = job.target := by
  obtain ⟨u, hu, w⟩ := (inv_of_reaches hr).phase.named m.active m.clean
  have hown := ho u hu (m.id ▸ w.id)
  obtain ⟨path, hpath, _, htarget⟩ := w.path
  obtain rfl : job.path = path := by simpa [hown.path] using hpath
  exact ⟨u, hu, w, hown, htarget⟩

theorem elsewhere_of_ended {job : Job} {d d' : State} {close : Bool} (he : Ended d d' close) :
    Elsewhere job d' := fun hact hclean => by simp [he.not_working hact] at hclean

/-- The name of the backup of the target. -/
def Job.backup (job : Job) : Path := temporaryOf job.target job.uploadId ++ oldSuffix

/-- The target holds an upload whose digest is that of the hashed content. -/
structure Stored (sha256 : List UInt8 → List UInt8) (job : Job) (hashed : List UInt8)
    (hd : List Event) (d : State) : Prop where
  idle : d.file.active = false
  target : ∃ h' u, h' <+: hd ∧ uploadOf h' = some u ∧ d.fs job.target = some (.file u.bytes) ∧
    u.bytes.length = hashed.length.toUInt32.toNat ∧ sha256 u.bytes = sha256 hashed

/-- The publication could not be undone: the old file stands at the backup. -/
structure Aside (job : Job) (before : Option Node) (d : State) : Prop where
  idle : d.file.active = false
  target : d.fs job.target = none
  backup : d.fs job.backup = before
  old : ∃ bytes, before = some (.file bytes)

/-- How far the upload has come; `starting` when its `begin` may still arrive. -/
inductive Progress (sha256 : List UInt8 → List UInt8) (job : Job) (hashed : List UInt8)
    (before : Option Node) (starting : Prop) (hd : List Event) (d : State) : Prop
  | untouched : Elsewhere job d → d.fs job.target = before → Progress ..
  | mine : Mine job d → ¬starting → d.fs job.target = before → Progress ..
  | stored : Stored sha256 job hashed hd d → ¬starting → Progress ..
  | aside : Aside job before d → ¬starting → Progress ..

section Device

variable {sha256 : List UInt8 → List UInt8} {job : Job} {hashed : List UInt8}
  {before : Option Node} {starting : Prop} {hd : List Event} {d d' : State}

theorem Stored.later {e : Event} (h : Stored sha256 job hashed hd d) :
    Stored sha256 job hashed (hd ++ [e]) d := by
  obtain ⟨h', u, hp, hrest⟩ := h.target
  exact ⟨h.idle, h', u, hp.trans (List.prefix_append _ _), hrest⟩

theorem Progress.later {e : Event} (h : Progress sha256 job hashed before starting hd d) :
    Progress sha256 job hashed before starting (hd ++ [e]) d := by
  cases h with
  | untouched he ht => exact .untouched he ht
  | mine hm hs ht => exact .mine hm hs ht
  | stored hst hs => exact .stored hst.later hs
  | aside ha hs => exact .aside ha hs

theorem Progress.mono {starting' : Prop} (h : Progress sha256 job hashed before starting hd d)
    (hs : starting' → starting) : Progress sha256 job hashed before starting' hd d := by
  cases h with
  | untouched he ht => exact .untouched he ht
  | mine hm hn ht => exact .mine hm (fun h => hn (hs h)) ht
  | stored hst hn => exact .stored hst fun h => hn (hs h)
  | aside ha hn => exact .aside ha fun h => hn (hs h)

theorem Progress.of_mine (h : Progress sha256 job hashed before starting hd d) (hm : Mine job d) :
    ¬starting ∧ d.fs job.target = before := by
  cases h with
  | untouched he _ => exact absurd hm he.not_mine
  | mine _ hs ht => exact ⟨hs, ht⟩
  | stored hst _ => exact absurd hm.active (by simp [hst.idle])
  | aside ha _ => exact absurd hm.active (by simp [ha.idle])

/-- A poll ends at most the transfer that works. -/
theorem poll_effect {e : Event} {a : PollAnswers} (hcall : e.call = .poll a)
    (hstep : (transfers sha256).step d e d') :
    d' = d ∨ (d.file.active = true ∧ d.file.poisoned = false ∧ Ended d d' a.discard.close) := by
  obtain ⟨c, f⟩ := e
  obtain rfl : c = .poll a := hcall
  obtain ⟨rfl, -⟩ := Prod.mk.inj hstep
  have h := poll_outcome d a
  show poll d a = d ∨ _ ∧ _ ∧ Ended d (poll d a) _
  generalize poll d a = p at h
  cases h with
  | kept => exact .inl rfl
  | ended p hact hclean he => exact .inr ⟨hact, hclean, he⟩

theorem Progress.poll (h : Progress sha256 job hashed before starting hd d)
    (hr : Reaches (transfers sha256) hd d) (ho : OwnUploads sha256 job hashed hd) {e : Event}
    {a : PollAnswers} (hcall : e.call = .poll a) (hstep : (transfers sha256).step d e d') :
    Progress sha256 job hashed before starting (hd ++ [e]) d' := by
  rcases poll_effect hcall hstep with rfl | ⟨hact, hclean, he⟩
  · exact h.later
  · cases h with
    | untouched helse ht =>
      exact .untouched (elsewhere_of_ended he)
        ((he.others _ (helse hact hclean).2.symm).trans ht)
    | mine hm hs ht =>
      obtain ⟨u, _, w, _, htarget⟩ := hm.working hr ho
      exact .untouched (elsewhere_of_ended he)
        ((he.others _ (htarget ▸ w.named.target_ne)).trans ht)
    | stored hst _ => simp [hst.idle] at hact
    | aside ha _ => simp [ha.idle] at hact

/-- The device's answer to a chunk of this upload. -/
theorem chunk_effect {e : Event} {owner : Snapshot} {offset : ℕ} {data : List UInt8}
    {a : WriteAnswers} (hcall : e.call = .write owner (job.id ++ le32 offset ++ data) a)
    (hstep : (transfers sha256).step d e d') :
    (d' = d ∧ e.fault ≠ none) ∨
      (Mine job d ∧ Takes d owner (job.id ++ le32 offset ++ data) a.current ∧
        ((e.fault ≠ none ∧ Ended d d' a.discard.close) ∨
          (e.fault = none ∧ ∃ fs nowMs, d' = d.grown data fs nowMs ∧
            ∀ q, q ≠ d.file.temporary → fs q = d.fs q))) := by
  obtain ⟨c, f⟩ := e
  obtain rfl : c = .write owner (job.id ++ le32 offset ++ data) a := hcall
  have hdrop : (job.id ++ le32 offset ++ data).drop prefixBytes = data := by
    rw [List.drop_append_of_le_length (by simp [job.id_length, le32, prefixBytes])]
    simp [job.id_length, le32, prefixBytes]
  have hmine (ht : Takes d owner (job.id ++ le32 offset ++ data) a.current) : Mine job d := by
    refine ⟨ht.active, ht.clean, ?_⟩
    rw [← ht.id, List.append_assoc, List.take_append_of_le_length (by simp [job.id_length])]
    exact List.take_of_length_le (by simp [job.id_length])
  have h := write_outcome d owner (job.id ++ le32 offset ++ data) a
  obtain ⟨rfl, rfl⟩ := Prod.mk.inj hstep
  generalize (write d owner (job.id ++ le32 offset ++ data) a).1 = d',
    (write d owner (job.id ++ le32 offset ++ data) a).2.1 = f at h
  cases h with
  | rejected fault _ _ _ => exact .inl ⟨rfl, by simp⟩
  | failed d' fault ht _ he => exact .inr ⟨hmine ht, ht, .inl ⟨by simp, he⟩⟩
  | accepted ht _ =>
    refine .inr ⟨hmine ht, ht, .inr ⟨rfl, _, a.nowMs, by rw [hdrop], fun q hq => ?_⟩⟩
    exact writeLoop_of_ne hq _ _ _

theorem Progress.chunk (h : Progress sha256 job hashed before starting hd d)
    (hr : Reaches (transfers sha256) hd d) (ho : OwnUploads sha256 job hashed hd) {e : Event}
    {owner : Snapshot} {offset : ℕ} {data : List UInt8} {a : WriteAnswers}
    (hcall : e.call = .write owner (job.id ++ le32 offset ++ data) a)
    (hstep : (transfers sha256).step d e d') :
    Progress sha256 job hashed before starting (hd ++ [e]) d' := by
  rcases chunk_effect hcall hstep with ⟨rfl, _⟩ | ⟨hm, _, hcase⟩
  · exact h.later
  · obtain ⟨hs, ht⟩ := h.of_mine hm
    obtain ⟨u, _, w, _, htarget⟩ := hm.working hr ho
    have hne : job.target ≠ d.file.temporary := htarget ▸ w.named.target_ne
    rcases hcase with ⟨_, he⟩ | ⟨_, fs, nowMs, rfl, hfs⟩
    · exact .untouched (elsewhere_of_ended he) ((he.others _ hne).trans ht)
    · exact .mine ⟨hm.active, hm.clean, hm.id⟩ hs ((hfs _ hne).trans ht)

/-- The device's answer to a commit or an abort of this upload. -/
theorem finish_effect {e : Event} {owner : Snapshot} {commit : Bool} {a : EndAnswers}
    (hr : Reaches (transfers sha256) hd d)
    (hcall : e.call = .finish owner (some job.uploadId) commit a)
    (hstep : (transfers sha256).step d e d') :
    (d' = d ∧ e.fault ≠ none) ∨
      (Mine job d ∧
        (((e.fault = none → commit = false) ∧ ∃ close, Ended d d' close) ∨
          (commit = true ∧ d.file.received = d.file.total ∧
            sha256 d.file.hash = d.file.expectedHash ∧ Published d d'.fs ∧ d'.file = {}) ∨
          (e.fault ≠ none ∧ ∃ fs, RolledAside d fs ∧ (∀ q, q ≠ d.file.temporary → d'.fs q = fs q) ∧
            d'.file = {}))) := by
  obtain ⟨c, f⟩ := e
  obtain rfl : c = .finish owner (some job.uploadId) commit a := hcall
  have hmine (hm : MayEnd d owner (some job.uploadId) a.current) : Mine job d := by
    have hid := hm.id
    rw [job.unhex_uploadId] at hid
    exact ⟨hm.active, hm.clean, (Option.some.inj hid).symm⟩
  have h := finish_outcome sha256 owner (some job.uploadId) commit a fun h1 h2 =>
    ((inv_of_reaches hr).phase.named h1 h2).elim fun u hu => hu.2.named
  obtain ⟨rfl, rfl⟩ := Prod.mk.inj hstep
  generalize (finish sha256 d owner (some job.uploadId) commit a).1 = d',
    (finish sha256 d owner (some job.uploadId) commit a).2.1 = f at h
  cases h with
  | rejected fault _ => exact .inl ⟨rfl, by simp⟩
  | aborted d' fault hm hc he => exact .inr ⟨hmine hm, .inl ⟨fun _ => hc, _, he⟩⟩
  | failed d' fault hm _ _ he => exact .inr ⟨hmine hm, .inl ⟨by simp, _, he⟩⟩
  | published d' fault hm hc _ hrec hsha hp _ hfile _ =>
    exact .inr ⟨hmine hm, .inr (.inl ⟨hc, hrec, hsha, hp, hfile⟩)⟩
  | rolledAside d' fs hm _ hp hothers _ hfile _ =>
    exact .inr ⟨hmine hm, .inr (.inr ⟨by simp, fs, hp, hothers, hfile⟩)⟩

/-- A publication stores an upload with the digest of the hashed content. -/
theorem Mine.stored {e : Event} (hm : Mine job d) (hr : Reaches (transfers sha256) hd d)
    (ho : OwnUploads sha256 job hashed hd) (hrec : d.file.received = d.file.total)
    (hsha : sha256 d.file.hash = d.file.expectedHash) (hp : Published d d'.fs)
    (hfile : d'.file = {}) : Stored sha256 job hashed (hd ++ [e]) d' := by
  obtain ⟨u, hu, w, hown, htarget⟩ := hm.working hr ho
  refine ⟨by simp [hfile], hd, u, List.prefix_append _ _, hu, ?_, ?_, ?_⟩
  · rw [← htarget, hp.target, w.staged]
  · rw [← w.received, hrec, w.total, hown.total]
  · have hdigest := w.digest
    rw [hown.sha256] at hdigest
    have hlen := unhex_length hdigest
    have hx : unhex (some (hexText (sha256 hashed))) 32 = some (sha256 hashed) := by
      simp only [unhex, if_pos hlen, unhexPairs_hexText]
    rw [hx] at hdigest
    rw [← w.hash, hsha]
    exact (Option.some.inj hdigest).symm

theorem Mine.aside {fs : Files EvFileTransfer.Path} (hm : Mine job d)
    (hr : Reaches (transfers sha256) hd d) (ho : OwnUploads sha256 job hashed hd)
    (ht : d.fs job.target = before) (hp : RolledAside d fs)
    (hothers : ∀ q, q ≠ d.file.temporary → d'.fs q = fs q) (hfile : d'.file = {}) :
    Aside job before d' := by
  obtain ⟨u, hu, w, hown, htarget⟩ := hm.working hr ho
  have hbackup : job.backup = d.file.backup := by
    rw [Job.backup, Transfer.backup, w.temporary, hown.uploadId, htarget]
  refine ⟨by simp [hfile], ?_, ?_, ?_⟩
  · rw [← htarget, hothers _ w.named.target_ne]
    exact hp.target
  · rw [hbackup, hothers _ w.named.backup_ne.1, hp.backup, htarget]
    exact ht
  · obtain ⟨bytes, hold⟩ := hp.old
    exact ⟨bytes, by rw [← ht, ← htarget, hold]⟩

theorem Progress.finish (h : Progress sha256 job hashed before starting hd d)
    (hr : Reaches (transfers sha256) hd d) (ho : OwnUploads sha256 job hashed hd) {e : Event}
    {owner : Snapshot} {commit : Bool} {a : EndAnswers}
    (hcall : e.call = .finish owner (some job.uploadId) commit a)
    (hstep : (transfers sha256).step d e d') :
    Progress sha256 job hashed before starting (hd ++ [e]) d' := by
  rcases finish_effect hr hcall hstep with ⟨rfl, _⟩ | ⟨hm, hcase⟩
  · exact h.later
  · obtain ⟨hs, ht⟩ := h.of_mine hm
    rcases hcase with ⟨_, close, he⟩ | ⟨_, hrec, hsha, hp, hfile⟩ | ⟨_, fs, hp, hothers, hfile⟩
    · obtain ⟨u, _, w, _, htarget⟩ := hm.working hr ho
      exact .untouched (elsewhere_of_ended he)
        ((he.others _ (htarget ▸ w.named.target_ne)).trans ht)
    · exact .stored (hm.stored hr ho hrec hsha hp hfile) hs
    · exact .aside (hm.aside hr ho ht hp hothers hfile) hs

/-- The device's answer to the `begin` of this upload. -/
theorem begin_effect {r : BeginRequest} {e : Event} {a : BeginAnswers}
    (hown : Own sha256 job hashed r) (hcall : e.call = .begin r a)
    (hstep : (transfers sha256).step d e d') (he : Elsewhere job d)
    (ht : d.fs job.target = before) :
    d'.fs job.target = before ∧
      (Elsewhere job d' ∨ (Mine job d' ∧ d'.file.received = 0)) := by
  obtain ⟨c, f⟩ := e
  obtain rfl : c = .begin r a := hcall
  have htarget {path : EvFileTransfer.Path} {digest token : List UInt8}
      (hacc : Accepts d r a path digest token) : targetOf path = job.target := by
    have hpath := hacc.path.1
    rw [hown.path] at hpath
    rw [Job.target, Option.some.inj hpath]
  have hne {path : EvFileTransfer.Path} (hp : targetOf path = job.target) :
      job.target ≠ temporaryOf (targetOf path) r.uploadId := by
    rw [hp]
    exact ne_of_length_lt (by rw [temporaryOf_length]; omega)
  have h := begin_outcome d r a
  obtain ⟨rfl, rfl⟩ : d' = (EvFileTransfer.begin d r a).1 ∧
      f = (EvFileTransfer.begin d r a).2 := Prod.ext_iff.mp hstep
  generalize (EvFileTransfer.begin d r a).1 = d', (EvFileTransfer.begin d r a).2 = f at h
  cases h with
  | refused fault => exact ⟨ht, .inl he⟩
  | dropped file fault _ hact _ _ => exact ⟨ht, .inl (elsewhere_of_inactive hact)⟩
  | abandoned path digest token d' fault hacc _ hended =>
    have hp := htarget hacc
    exact ⟨(hended.others _ (hne hp)).trans ((opened_of_ne (hne hp)).trans ht),
      .inl (elsewhere_of_ended hended)⟩
  | staged path digest token hacc _ =>
    have hp := htarget hacc
    have htoken := hacc.token
    rw [hown.uploadId, job.unhex_uploadId] at htoken
    exact ⟨(opened_of_ne (hne hp)).trans ht,
      .inr ⟨⟨rfl, rfl, (Option.some.inj htoken).symm⟩, rfl⟩⟩

/-- What holds of the last upload's request holds after a call that begins no other one. -/
theorem request_step {P : BeginRequest → Prop} {e : Event}
    (h : ∀ u, uploadOf hd = some u → P u.request) (hnew : ∀ r a, e.call = .begin r a → P r) :
    ∀ u, uploadOf (hd ++ [e]) = some u → P u.request := by
  intro u hu
  rw [uploadOf_append] at hu
  obtain ⟨c, f⟩ := e
  cases f with
  | some f =>
    rw [Event.upload_fault] at hu
    exact h u hu
  | none =>
    cases c with
    | begin r a =>
      obtain rfl : ({ request := r } : Upload) = u := Option.some.inj hu
      exact hnew r a rfl
    | write owner payload a =>
      cases hprev : uploadOf hd with
      | none => simp [Event.upload, hprev] at hu
      | some v =>
        simp only [Event.upload, hprev, Option.map_some, Option.some.injEq] at hu
        subst hu
        exact h v hprev
    | init created => exact h u hu
    | finish owner uploadId commit a => exact h u hu
    | poll a => exact h u hu

theorem OwnUploads.step {e : Event} (ho : OwnUploads sha256 job hashed hd)
    (hnew : ∀ r a, e.call = .begin r a → unhex (some r.uploadId) 16 = some job.id →
      Own sha256 job hashed r) : OwnUploads sha256 job hashed (hd ++ [e]) :=
  request_step (P := fun r => unhex (some r.uploadId) 16 = some job.id → Own sha256 job hashed r)
    ho hnew

end Device

end EspVision.Upload
