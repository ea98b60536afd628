import EspVision.FirmwareImage

/-!
# The erase range of an installation (`firmware_partitions.js`)

A partition table is a row of records, possibly the record of their MD5, and an end marker. The
range that an installation erases is the one `ffat` record of such a table.
-/
namespace EspVision.Firmware

/-! ## The table format -/

/-- The fields of a partition record. -/
def entryOf (record : Bytes) : Entry where
  label := (slice record 12 28).takeWhile (· ≠ 0)
  type := (record.getD 2 0).toNat
  subtype := (record.getD 3 0).toNat
  offset := getUint32 record 4
  size := getUint32 record 8
  flags := getUint32 record 28

/-- The MD5 record of the bytes before it. -/
structure DigestRecord (before record : Bytes) : Prop where
  length : record.length = 32
  magic : getUint16 record 0 = 0xebeb
  filler : allFF (slice record 2 16) = true
  digest : slice record 16 32 = RomMd5.romMd5 before

/-- The bytes are the partition records, possibly their MD5 record, and the end marker. -/
structure Table (raw : Bytes) (records : List Bytes) (digest : Option Bytes) : Prop where
  text : ∃ padding, raw = records.flatten ++ (digest.getD [] ++ padding) ∧ 32 ≤ padding.length ∧
    allFF padding = true
  record : ∀ r ∈ records, r.length = 32 ∧ getUint16 r 0 = 0x50aa
  digest : ∀ d ∈ digest, DigestRecord records.flatten d

lemma getUint16_append {a b : Bytes} (h : 2 ≤ a.length) : getUint16 (a ++ b) 0 = getUint16 a 0 := by
  unfold getUint16
  simp only [List.getD_eq_getElem?_getD, List.getElem?_append_left (by omega : 0 < a.length),
    List.getElem?_append_left (by omega : 0 + 1 < a.length)]

lemma getUint16_allFF {a : Bytes} (h : 2 ≤ a.length) (hff : allFF a = true) :
    getUint16 a 0 = 0xffff := by
  obtain ⟨x, y, rest, rfl⟩ : ∃ x y rest, a = x :: y :: rest := by
    match a, h with
    | x :: y :: rest, _ => exact ⟨x, y, rest, rfl⟩
  simp only [allFF, List.all_cons, Bool.and_eq_true, decide_eq_true_eq] at hff
  rw [getUint16, hff.1, List.getD_cons_zero, List.getD_cons_succ, List.getD_cons_zero, hff.2.1]
  rfl

/-- What stands behind the records is none: it begins with the MD5 record or the end marker. -/
lemma getUint16_tail {before padding : Bytes} {digest : Option Bytes}
    (hd : ∀ d ∈ digest, DigestRecord before d) (hp : 32 ≤ padding.length)
    (hff : allFF padding = true) :
    getUint16 (digest.getD [] ++ padding) 0 = if digest.isSome then 0xebeb else 0xffff := by
  cases digest with
  | none =>
    rw [Option.getD_none, List.nil_append]
    exact getUint16_allFF (by omega) hff
  | some d =>
    have hrecord := hd d rfl
    rw [Option.getD_some, getUint16_append (by rw [hrecord.length]; omega), hrecord.magic]
    rfl

/-- The bytes tell which records there are, and whether there is an MD5 record. -/
theorem Table.unique {raw : Bytes} {records records' : List Bytes} {digest digest' : Option Bytes}
    (h : Table raw records digest) (h' : Table raw records' digest') :
    records = records' ∧ digest = digest' := by
  obtain ⟨⟨padding, htext, hpad, hff⟩, hrecord, hdigest⟩ := h
  obtain ⟨⟨padding', htext', hpad', hff'⟩, hrecord', hdigest'⟩ := h'
  have hmagic := getUint16_tail hdigest hpad hff
  have hmagic' := getUint16_tail hdigest' hpad' hff'
  have hlength : ∀ d ∈ digest, d.length = 32 := fun d hd => (hdigest d hd).length
  have hlength' : ∀ d ∈ digest', d.length = 32 := fun d hd => (hdigest' d hd).length
  have heq := htext.symm.trans htext'
  clear htext htext' hdigest hdigest' hpad hpad' hff hff'
  induction records generalizing records' with
  | nil =>
    rw [List.flatten_nil, List.nil_append] at heq
    cases records' with
    | nil =>
      rw [List.flatten_nil, List.nil_append] at heq
      rw [heq, hmagic'] at hmagic
      cases digest with
      | none =>
        cases digest' with
        | none => exact ⟨rfl, rfl⟩
        | some d' => simp at hmagic
      | some d =>
        cases digest' with
        | none => simp at hmagic
        | some d' =>
          have hsame := List.append_inj_left heq ((hlength d rfl).trans (hlength' d' rfl).symm)
          rw [Option.getD_some, Option.getD_some] at hsame
          exact ⟨rfl, congrArg some hsame⟩
    | cons r' rest' =>
      obtain ⟨hl, hm⟩ := hrecord' r' (by simp)
      rw [heq, List.flatten_cons, List.append_assoc, getUint16_append (by omega), hm] at hmagic
      split_ifs at hmagic <;> omega
  | cons r rest ih =>
    obtain ⟨hl, hm⟩ := hrecord r (by simp)
    rw [List.flatten_cons, List.append_assoc] at heq
    cases records' with
    | nil =>
      rw [List.flatten_nil, List.nil_append] at heq
      rw [← heq, getUint16_append (by omega), hm] at hmagic'
      split_ifs at hmagic' <;> omega
    | cons r' rest' =>
      obtain ⟨hl', -⟩ := hrecord' r' (by simp)
      rw [List.flatten_cons, List.append_assoc] at heq
      obtain ⟨rfl, hrest⟩ := List.append_inj heq (hl.trans hl'.symm)
      obtain ⟨rfl, hdig⟩ := ih (fun x hx => hrecord x (by simp [hx]))
        (fun x hx => hrecord' x (by simp [hx])) hrest
      exact ⟨rfl, hdig⟩

/-- What is demanded of every partition of a table at `tableOffset`. -/
structure Partition (tableOffset flashSize : ℤ) (e : Entry) : Prop where
  named : e.label ≠ []
  above : tableOffset + sectorBytes ≤ e.offset
  aligned : e.offset % sectorBytes = 0
  pos : 0 < e.size
  inside : (e.offset + e.size : ℤ) ≤ flashSize

variable {tableOffset flashSize : ℤ} {raw bytes record : Bytes} {records : List Bytes}

lemma readEntry_ok {labels : List Bytes} {e : Entry}
    (h : readEntry tableOffset flashSize labels record = .ok e) :
    e = entryOf record ∧ e.label ∉ labels ∧ Partition tableOffset flashSize e := by
  unfold readEntry at h
  dsimp only at h
  split_ifs at h with h1 h2
  push Not at h1 h2
  obtain ⟨hname, hnew, -⟩ := h1
  obtain ⟨habove, haligned, hsize, hinside, -⟩ := h2
  obtain rfl := Except.ok.inj h
  exact ⟨rfl, hnew, hname, habove, haligned, Nat.pos_of_ne_zero hsize, hinside⟩

/-! ## Reading the records -/

lemma readEntries_succ (left : ℕ) (entries : List Entry) (digestSeen : Bool) :
    readEntries tableOffset flashSize raw (left + 1) entries digestSeen =
      (let cursor := raw.length - 32 * (left + 1)
      let entry := slice raw cursor (cursor + 32)
      if allFF entry then
        if !allFF (raw.drop cursor) then .error (invalid "data after the end marker")
        else if entries = [] then .error (invalid "missing entries or end marker")
        else .ok entries
      else
        let magic := getUint16 entry 0
        if magic = 0xebeb ∧ digestSeen = false then
          if !allFF (slice entry 2 16) then .error (invalid "malformed MD5 record")
          else if RomMd5.romMd5 (raw.take cursor) ≠ slice entry 16 32 then
            .error (invalid "MD5 mismatch")
          else readEntries tableOffset flashSize raw left entries true
        else if magic ≠ 0x50aa ∨ digestSeen = true then
          .error (invalid "unexpected entry or data after MD5")
        else
          match readEntry tableOffset flashSize (entries.map (·.label)) entry with
          | .error e => .error e
          | .ok e => readEntries tableOffset flashSize raw left (entries ++ [e]) false) := by
  delta readEntries
  rfl

/-- The records that were read so far. -/
structure Listed (tableOffset flashSize : ℤ) (records : List Bytes) : Prop where
  record : ∀ r ∈ records, r.length = 32 ∧ getUint16 r 0 = 0x50aa
  partitions : ∀ r ∈ records, Partition tableOffset flashSize (entryOf r)
  labels : (records.map fun r => (entryOf r).label).Nodup

lemma Listed.snoc (h : Listed tableOffset flashSize records) (hlength : record.length = 32)
    (hmagic : getUint16 record 0 = 0x50aa) (hp : Partition tableOffset flashSize (entryOf record))
    (hnew : (entryOf record).label ∉ records.map fun r => (entryOf r).label) :
    Listed tableOffset flashSize (records ++ [record]) where
  record r hr := by
    rcases List.mem_append.mp hr with hr | hr
    · exact h.record r hr
    · rw [List.mem_singleton.mp hr]
      exact ⟨hlength, hmagic⟩
  partitions r hr := by
    rcases List.mem_append.mp hr with hr | hr
    · exact h.partitions r hr
    · rwa [List.mem_singleton.mp hr]
  labels := by
    rw [List.map_append, List.nodup_append]
    refine ⟨h.labels, List.nodup_singleton _, fun a ha b hb => ?_⟩
    rw [List.map_singleton, List.mem_singleton] at hb
    rintro rfl
    exact hnew (hb ▸ ha)

/-- What the record loop accepts is a table, and what it returns are its entries. -/
theorem readEntries_ok {left : ℕ} (digest : Option Bytes) (rest : Bytes) {entries : List Entry}
    (hraw : raw = records.flatten ++ (digest.getD [] ++ rest)) (hrest : rest.length = 32 * left)
    (hdigest : ∀ d ∈ digest, DigestRecord records.flatten d)
    (hc : Listed tableOffset flashSize records)
    (h : readEntries tableOffset flashSize raw left (records.map entryOf) digest.isSome =
      .ok entries) :
    ∃ all digest, Table raw all digest ∧ Listed tableOffset flashSize all ∧
      entries = all.map entryOf := by
  induction left generalizing records digest rest with
  | zero => exact absurd h (by delta readEntries; simp)
  | succ left ih =>
    set front := records.flatten ++ digest.getD [] with hfront
    have hsplit : raw = front ++ rest := by rw [hraw, hfront, List.append_assoc]
    have hcursor : raw.length - 32 * (left + 1) = front.length := by
      rw [hsplit, List.length_append, hrest, Nat.add_sub_cancel]
    have hdrop : raw.drop front.length = rest := by rw [hsplit, List.drop_left]
    have hentry : slice raw front.length (front.length + 32) = rest.take 32 := by
      rw [slice, hdrop, Nat.add_sub_cancel_left]
    have hlength : (rest.take 32).length = 32 := by
      rw [List.length_take, hrest]
      omega
    have htail : (rest.drop 32).length = 32 * left := by
      rw [List.length_drop, hrest]
      omega
    rw [readEntries_succ] at h
    dsimp only at h
    rw [hcursor, hentry, hdrop] at h
    split_ifs at h with hend hall hnone hmd5 hfiller hmatch hmagic
    · obtain rfl := Except.ok.inj h
      refine ⟨records, digest, ⟨⟨rest, hraw, by omega, ?_⟩, hc.record, hdigest⟩, hc, rfl⟩
      simpa using hall
    · -- the MD5 record
      have hd : digest = none := by simpa using hmd5.2
      subst hd
      rw [Option.getD_none, List.append_nil] at hfront
      have hbefore : raw.take front.length = records.flatten := by
        rw [hsplit, List.take_left, hfront]
      rw [hbefore] at hmatch
      refine @ih _ (some (rest.take 32)) (rest.drop 32) ?_ htail ?_ hc h
      · rw [Option.getD_some, List.take_append_drop, ← hfront, hsplit]
      · rintro d hd
        obtain rfl := Option.some.inj hd
        exact ⟨hlength, hmd5.1, by simpa using hfiller, (not_not.mp hmatch).symm⟩
    · -- a partition record
      push Not at hmagic
      have hd : digest = none := by simpa using hmagic.2
      subst hd
      cases hread : readEntry tableOffset flashSize ((records.map entryOf).map (·.label))
          (rest.take 32) with
      | error e =>
        rw [hread] at h
        cases h
      | ok e =>
        rw [hread] at h
        obtain ⟨rfl, hnew, hp⟩ := readEntry_ok hread
        rw [List.map_map] at hnew
        refine @ih (records ++ [rest.take 32]) none (rest.drop 32) ?_ htail (by simp) (hc.snoc hlength hmagic.1 hp hnew) ?_
        · rw [hraw, List.flatten_append, List.flatten_singleton, List.append_assoc,
            Option.getD_none, List.nil_append, List.nil_append, List.take_append_drop]
        · rw [List.map_append, List.map_singleton]
          exact h

/-! ## The range -/

/-- Two entries have no byte in common. -/
def Apart (a b : Entry) : Prop := a.offset + a.size ≤ b.offset ∨ b.offset + b.size ≤ a.offset

lemma Apart.symm {a b : Entry} (h : Apart a b) : Apart b a := Or.symm h

instance : Std.Symm Apart := ⟨fun _ _ => Apart.symm⟩

/-- Neighbours that do not overlap keep all entries apart. -/
lemma disjoint_pairwise {entries : List Entry} (h : disjoint entries = true) :
    entries.Pairwise fun a b => a.offset + a.size ≤ b.offset := by
  induction entries with
  | nil => exact .nil
  | cons a rest ih =>
    cases rest with
    | nil => exact List.pairwise_singleton _ a
    | cons b rest =>
      rw [disjoint, Bool.and_eq_true, decide_eq_true_eq] at h
      have htail := ih h.2
      refine .cons (fun c hc => ?_) htail
      rcases List.mem_cons.mp hc with rfl | hc
      · exact h.1
      · have hbc := (List.pairwise_cons.mp htail).1 c hc
        omega

/-- The length of the image, rounded up to a sector. -/
def roundUp (n : ℕ) : ℕ := (n + sectorBytes - 1) / sectorBytes * sectorBytes

/-- What the erase of a range may rely on. -/
structure Erasable (flashSize : ℤ) (imageLength : ℕ) (records : List Bytes) (range : Range) :
    Prop where
  fat : ∃ r ∈ records, (entryOf r).label = ffatLabel ∧ (entryOf r).type = 1 ∧
    (entryOf r).subtype = 0x81 ∧ (entryOf r).flags = 0 ∧ range.offset = (entryOf r).offset ∧
    range.size = (entryOf r).size ∧
    ∀ r' ∈ records, (entryOf r').label = ffatLabel → r' = r
  aligned : range.offset % sectorBytes = 0 ∧ range.size % sectorBytes = 0 ∧ 0 < range.size
  inside : (range.offset + range.size : ℤ) ≤ flashSize
  apart : ∀ r ∈ records, (entryOf r).label ≠ ffatLabel →
    range.offset + range.size ≤ (entryOf r).offset ∨
      (entryOf r).offset + (entryOf r).size ≤ range.offset
  outside : roundUp imageLength ≤ range.offset
  entries : ∀ r ∈ records, ((entryOf r).offset + (entryOf r).size : ℤ) ≤ flashSize

lemma planRange_ok {entries : List Entry} {range : Range}
    (h : planRange bytes entries = .ok range) :
    ∃ fat ∈ entries, fat.label = ffatLabel ∧ fat.type = 1 ∧ fat.subtype = 0x81 ∧ fat.flags = 0 ∧
      fat.size % sectorBytes = 0 ∧ roundUp bytes.length ≤ fat.offset ∧
      range.offset = fat.offset ∧ range.size = fat.size := by
  unfold planRange at h
  cases hfind : entries.find? fun e => e.label = ffatLabel with
  | none =>
    rw [hfind] at h
    cases h
  | some fat =>
    rw [hfind] at h
    dsimp only at h
    split_ifs at h with hbad
    push Not at hbad
    obtain ⟨htype, hsub, hflags, hsize, hbelow⟩ := hbad
    obtain rfl := Except.ok.inj h
    have hlabel : fat.label = ffatLabel := by simpa using List.find?_some hfind
    exact ⟨fat, List.mem_of_find?_eq_some hfind, hlabel, htype, hsub, hflags, hsize, hbelow, rfl,
      rfl⟩

lemma erasable_of_plan {range : Range} (hc : Listed tableOffset flashSize records)
    (hd : disjoint ((records.map entryOf).mergeSort fun a b => a.offset ≤ b.offset) = true)
    (h : planRange bytes ((records.map entryOf).mergeSort fun a b => a.offset ≤ b.offset) =
      .ok range) : Erasable flashSize bytes.length records range := by
  obtain ⟨fat, hmem, hlabel, htype, hsub, hflags, hsize, hout, hoffset, hrange⟩ := planRange_ok h
  rw [List.mem_mergeSort] at hmem
  obtain ⟨r, hr, rfl⟩ := List.mem_map.mp hmem
  have hp := hc.partitions r hr
  have hunique : ∀ r' ∈ records, (entryOf r').label = ffatLabel → r' = r := fun r' hr' hl =>
    List.inj_on_of_nodup_map hc.labels hr' hr (hl.trans hlabel.symm)
  have hpair : (records.map entryOf).Pairwise Apart := by
    have hsorted := (disjoint_pairwise hd).imp (S := Apart) Or.inl
    exact ((List.mergeSort_perm _ _).pairwise_iff Apart.symm).mp hsorted
  refine ⟨⟨r, hr, hlabel, htype, hsub, hflags, hoffset, hrange, hunique⟩, ?_, ?_, ?_, ?_, ?_⟩
  · rw [hoffset, hrange]
    exact ⟨hp.aligned, hsize, hp.pos⟩
  · rw [hoffset, hrange]
    exact hp.inside
  · intro r' hr' hne
    rw [hoffset, hrange]
    have hdiff : entryOf r ≠ entryOf r' := fun he => hne (by rw [← he, hlabel])
    exact hpair.forall (List.mem_map_of_mem hr) (List.mem_map_of_mem hr') hdiff
  · rw [hoffset]
    exact hout
  · exact fun r' hr' => (hc.partitions r' hr').inside

/-! ## Every image -/

/-- The fields of an image that the plan takes as numbers, and a table that lies in the image. -/
structure Described (image : Image) (bytes : Bytes) where
  table : Segment
  tableOffset : ℕ
  tableBytes : ℕ
  flashSize : ℤ
  hasTable : image.partitionTable = some table
  offset : table.offset.safeInteger? = some (tableOffset : ℤ)
  count : table.bytes.safeInteger? = some (tableBytes : ℤ)
  flash : image.flashSize.safeInteger? = some flashSize
  within : tableOffset + tableBytes ≤ bytes.length
  application : ∃ app count, image.application = some app ∧ app.bytes.safeInteger? = some count

/-- The bytes of the table. -/
def Described.rawTable {image : Image} {bytes : Bytes} (d : Described image bytes) : Bytes :=
  slice bytes d.tableOffset (d.tableOffset + d.tableBytes)

/-- The plan fails, or the table is well formed and the range is that of its `ffat` record, apart
from all other partitions and from the image. -/
theorem install_erase_planned {image : Image} {bytes : Bytes} (d : Described image bytes) :
    (∃ e, planInstallFilesystemErase image bytes = .error e) ∨
      ∃ range, planInstallFilesystemErase image bytes = .ok range ∧
        (∃ records digest, Table d.rawTable records digest) ∧
        ∀ records digest, Table d.rawTable records digest →
          Erasable d.flashSize bytes.length records range := by
  cases hplan : planInstallFilesystemErase image bytes with
  | error e => exact .inl ⟨e, rfl⟩
  | ok range =>
    have hwithin := d.within
    unfold planInstallFilesystemErase at hplan
    rw [d.hasTable] at hplan
    cases happ : image.application with
    | none =>
      rw [happ] at hplan
      cases hplan
    | some app =>
      rw [happ] at hplan
      dsimp only at hplan
      rw [d.offset, d.count, d.flash] at hplan
      dsimp only at hplan
      split_ifs at hplan with hbad
      push Not at hbad
      have hstop : ((d.tableOffset : ℤ) + d.tableBytes).toNat = d.tableOffset + d.tableBytes := by
        omega
      have hraw : slice bytes (d.tableOffset : ℤ).toNat
          ((d.tableOffset : ℤ) + d.tableBytes).toNat = d.rawTable := by
        rw [hstop, Int.toNat_natCast]
        rfl
      have hlength : d.rawTable.length = d.tableBytes := by
        rw [Described.rawTable, slice, List.length_take, List.length_drop]
        omega
      have hrows : d.rawTable.length = 32 * (d.rawTable.length / 32) := by
        have hmod := hbad.2.1
        omega
      rw [hraw] at hplan
      cases hread : readEntries d.tableOffset d.flashSize d.rawTable (d.rawTable.length / 32) []
          false with
      | error e =>
        rw [hread] at hplan
        cases hplan
      | ok entries =>
        rw [hread] at hplan
        have hnone : Listed (d.tableOffset : ℤ) d.flashSize [] :=
          ⟨by simp, by simp, List.nodup_nil⟩
        obtain ⟨records, digest, htable, hc, rfl⟩ :=
          readEntries_ok none d.rawTable rfl hrows (by simp) hnone hread
        simp only [bind, Except.bind] at hplan
        split_ifs at hplan with hoverlap happ
        have hd : disjoint ((records.map entryOf).mergeSort fun a b => a.offset ≤ b.offset) =
            true := by simpa using hoverlap
        refine .inr ⟨range, rfl, ⟨records, digest, htable⟩, fun records' digest' htable' => ?_⟩
        rw [← (htable.unique htable').1]
        exact erasable_of_plan hc hd hplan

lemma checkSegments_cons {sha256 : Bytes → String} {stop : ℤ} {segment : Option Segment}
    {rest : List (Option Segment)}
    (h : checkSegments sha256 bytes stop (segment :: rest) = .ok ()) :
    ∃ part offset count, segment = some part ∧ part.offset.safeInteger? = some offset ∧
      part.bytes.safeInteger? = some count ∧ stop ≤ offset ∧ 0 < count ∧
      offset + count ≤ bytes.length ∧
      checkSegments sha256 bytes (offset + count) rest = .ok () := by
  cases segment with
  | none => cases h
  | some part =>
    unfold checkSegments at h
    cases hoffset : part.offset.safeInteger? with
    | none => simp [hoffset] at h
    | some offset =>
      cases hcount : part.bytes.safeInteger? with
      | none => simp [hoffset, hcount] at h
      | some count =>
        simp only [hoffset, hcount] at h
        split_ifs at h with hbad hsha
        push Not at hbad
        exact ⟨part, offset, count, rfl, hoffset, hcount, hbad.1, hbad.2.1, hbad.2.2.1, h⟩

/-- An image that was validated for an installation is described. -/
theorem described_of_validated {sha256 : Bytes → String} {image : Image} {payload : Bytes}
    (h : validateFirmwareImage sha256 image (some bytes) .install = .ok payload) :
    payload = bytes ∧ Nonempty (Described image bytes) := by
  unfold validateFirmwareImage at h
  dsimp only at h
  rw [if_pos rfl] at h
  split_ifs at h with h1 h2 h3 h4
  simp only [bind, Except.bind] at h
  cases hsegments : checkSegments sha256 bytes 0
      [image.bootloader, image.partitionTable, image.application] with
  | error e =>
    rw [hsegments] at h
    cases h
  | ok _ =>
    rw [hsegments] at h
    obtain rfl := Except.ok.inj h
    have hflash : ∃ limit, image.flashSize.safeInteger? = some limit := by
      simp only [boundsOk, Bool.not_eq_true', Bool.not_eq_false, if_true] at h3
      cases hlimit : image.flashSize.safeInteger? with
      | none =>
        rw [hlimit] at h3
        cases hoffset : image.offset.safeInteger? <;> simp [hoffset] at h3
      | some limit => exact ⟨limit, rfl⟩
    obtain ⟨flashSize, hflash⟩ := hflash
    obtain ⟨_, first, size, -, -, -, hfirst, hsize, -, hrest⟩ := checkSegments_cons hsegments
    obtain ⟨table, offset, count, htable, hoffset, hcount, hstart, hpos, hwithin, hlast⟩ :=
      checkSegments_cons hrest
    obtain ⟨app, _, appBytes, happ, -, hbytes, -⟩ := checkSegments_cons hlast
    refine ⟨rfl, ⟨⟨table, offset.toNat, count.toNat, flashSize, htable, ?_, ?_, hflash, ?_,
      ⟨app, appBytes, happ, hbytes⟩⟩⟩⟩
    · rw [hoffset, Int.toNat_of_nonneg (by omega)]
    · rw [hcount, Int.toNat_of_nonneg (by omega)]
    · omega

end EspVision.Firmware
