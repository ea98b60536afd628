import EspVision.JpegSegments

/-!
# The two JPEG validators agree

The two walks run alike: the device's single loop in a scan is the host's inner loop and then the
next round of its outer one, which meets the same marker again.
-/
namespace EspVision.Jpeg

open Lockstep

variable {data : List UInt8} {width height : ℕ} {host : HostState}

theorem skipFill_eq (position : ℕ) (h : position ≤ data.length) :
    ∃ past, skipFill data position = pure past ∧ position ≤ past ∧ past ≤ data.length := by
  induction hk : data.length - position generalizing position with
  | zero =>
    rw [skipFill, if_neg (by omega)]
    exact ⟨position, rfl, le_rfl, h⟩
  | succ k ih =>
    rw [skipFill, if_pos (by omega), byteAt_eq (by omega), Lockstep.pure_bind]
    by_cases hff : value data position = 0xff
    · obtain ⟨past, hpast, hle, hlen⟩ := ih (position + 1) (by omega) (by omega)
      rw [if_pos hff]
      exact ⟨past, hpast, by omega, hlen⟩
    · rw [if_neg hff]
      exact ⟨position, rfl, le_rfl, h⟩

/-- The device's walk from here on. -/
abbrev deviceRun (data : List UInt8) (width height fuel : ℕ) (walk : Walk) : Check Unit :=
  whileFuel .outOfFuel (validateStep data width height) fuel walk

/-- The host's walk from here on. -/
abbrev hostRun (data : List UInt8) (width height fuel : ℕ) (host : HostState) : Check (ℕ × ℕ) :=
  whileFuel .outOfFuel (hostStep data width height) fuel host

/-- The host's walk from a place in entropy-coded data on. -/
abbrev entropyRun (data : List UInt8) (width height inner fuel : ℕ) (host : HostState)
    (s : Entropy) : Check (ℕ × ℕ) := do
  let s ← whileFuel .outOfFuel (entropyStep data host.restartInterval) inner s
  rejectIf (s.entropyBytes = 0)
  hostRun data width height fuel { host with offset := s.offset }

/-- The host returns the dimensions when the device accepts. -/
abbrev Result (width height : ℕ) : Unit → ℕ × ℕ → Prop := fun _ r => r = (width, height)

/-- With less than `k` bytes to go, the walks agree between two segments. -/
def BetweenSegments (data : List UInt8) (width height k : ℕ) : Prop :=
  ∀ (walk : Walk) (host : HostState) (n m : ℕ), walk.inScan = false →
    Matches width height walk.state host → host.offset = walk.position →
    data.length - walk.position < k → k ≤ n → k ≤ m →
    Agree (Result width height) (deviceRun data width height n walk)
      (hostRun data width height m host)

/-- With less than `k` bytes to go, the walks agree in entropy-coded data. -/
def WithinScan (data : List UInt8) (width height k : ℕ) : Prop :=
  ∀ (walk : Walk) (host : HostState) (s : Entropy) (n m f : ℕ), walk.inScan = true →
    Matches width height walk.state host → s.offset = walk.position →
    (s.entropyBytes = 0 ↔ walk.scanHasData = false) → s.restart = walk.nextRestart →
    data.length - walk.position < k → k ≤ n → k ≤ m → k ≤ f →
    Agree (Result width height) (deviceRun data width height n walk)
      (entropyRun data width height f m host s)

theorem segment_agree {k n m marker : ℕ} {walk : Walk}
    (hbetween : BetweenSegments data width height k) (hwithin : WithinScan data width height k)
    (hm : Matches width height walk.state host) (hoffset : host.offset = walk.position)
    (hscan : walk.inScan = false) (hpos : walk.position ≤ data.length)
    (hk : data.length - walk.position < k) (hn : k ≤ n) (hm' : k ≤ m)
    (hlen : k ≤ data.length + 1) :
    Agree (Result width height)
      (markerSegment data width height marker walk >>=
        Sum.elim (deviceRun data width height n) pure)
      (hostSegment data width height marker host >>=
        Sum.elim (hostRun data width height m) pure) := by
  rw [markerSegment, hostSegment]
  dsimp only
  rw [Lockstep.bind_assoc, Lockstep.bind_assoc, hoffset]
  refine Alike.visit ?_
  by_cases hend : marker = 0xd9
  · rw [if_pos hend, if_pos hend, hm.frame]
    by_cases h0 : walk.state.frameMarker = 0
    · have hsaw := (hm.frameless h0).2
      rw [if_pos h0, failIf_bind_of Stop.rejected (by simp [hsaw])]
      exact Alike.fail rfl rfl
    · rw [if_neg h0]
      simp only [Lockstep.bind_assoc, Lockstep.pure_bind, Sum.elim_inr]
      have hscans : host.scans = 0 ↔ ¬walk.state.sawScan = true := by
        rw [hm.scans, Bool.not_eq_true]
      rw [hm.components_length, hm.covered]
      by_cases hgood : walk.state.sawScan = true ∧
          walk.state.initialComponents = 1 <<< walk.state.componentCount - 1
      · refine Alike.check_right (fun h => ?_) fun _ => Alike.check rfl rfl ?_ fun _ =>
          Alike.pure rfl
        · rcases h with h | h
          · exact absurd hgood.1 (hscans.mp h)
          · exact absurd hgood.2 h
        · simp [hgood]
      · refine Alike.check_left (fun _ => ?_) fun h =>
          (hgood ⟨(not_not.mp h).1, (not_not.mp h).2.1⟩).elim
        rw [failIf_bind_of Stop.rejected]
        · exact Alike.fail rfl rfl
        · rw [hscans]
          exact not_and_or.mp hgood
  · rw [if_neg hend, if_neg hend]
    simp only [Lockstep.bind_assoc]
    by_cases hbad : marker = 0 ∨ marker = 0xd8 ∨ data.length - walk.position < 2
    · rw [failIf_bind_of Stop.rejected hbad]
      refine Alike.check_right (fun _ => Alike.fail rfl rfl) fun h => ?_
      rw [failIf_bind_of Stop.rejected (by omega)]
      exact Alike.fail rfl rfl
    refine Alike.check_left (fun h => absurd h hbad) fun _ => ?_
    rw [jpegValidationBe16_eq (by omega), word_eq (by omega)]
    simp only [Lockstep.pure_bind]
    generalize value16 data walk.position = length
    by_cases hshort : length < 2 ∨ data.length - walk.position < length
    · rw [failIf_bind_of Stop.rejected hshort]
      refine Alike.check_right (fun _ => Alike.fail rfl rfl) fun h =>
        Alike.check_right (fun _ => Alike.fail rfl rfl) fun h' => ?_
      rw [failIf_bind_of Stop.rejected (by omega)]
      exact Alike.fail rfl rfl
    refine Alike.check_left (fun h => absurd h hshort) fun _ => ?_
    by_cases halone : 0xd0 ≤ marker ∧ marker ≤ 0xd7
    · rw [failIf_bind_of Stop.rejected (Or.inr (Or.inr halone)), if_neg (by omega),
        if_neg (by omega), if_neg (by omega), if_neg (by omega), if_neg (by omega),
        Lockstep.bind_assoc, failIf_bind_of Stop.rejected (by omega)]
      exact Alike.fail rfl rfl
    refine Alike.check_right (by omega) fun _ => Alike.check_right (by omega) fun _ =>
      Alike.check_right (by omega) fun _ => ?_
    -- Both sides go on behind the segment.
    have hnext : ∀ (s : State) (t : HostState),
        MatchesAt width height (walk.position + length) s t →
        Agree (Result width height)
          (deviceRun data width height n
            { walk with position := walk.position + length, state := s })
          (hostRun data width height m t) := fun s t h =>
      hbetween _ t n m hscan h.1 h.2 (by simp only; omega) hn hm'
    have hleft : data.length - (walk.position + length) < k := by omega
    have hmove := hm.move (walk.position + length)
    by_cases hframe : marker = 0xc0 ∨ marker = 0xc1 ∨ marker = 0xc2
    · rw [if_pos hframe, if_neg (by omega), if_neg (by omega), if_neg (by omega),
        if_neg (by omega), if_pos (by omega), Lockstep.bind_assoc, Lockstep.bind_assoc]
      exact Alike.bind (frame_agree hmove (by omega) (by omega) (by omega)) hnext
    rw [if_neg hframe]
    by_cases hdqt : marker = 0xdb
    · rw [if_pos hdqt, if_neg (by omega), if_pos hdqt, Lockstep.bind_assoc, Lockstep.bind_assoc]
      exact Alike.bind (quantization_agree hmove (by omega) (by omega)) hnext
    rw [if_neg hdqt]
    by_cases hdht : marker = 0xc4
    · rw [if_pos hdht, if_neg (by omega), if_neg hdqt, if_pos hdht, Lockstep.bind_assoc,
        Lockstep.bind_assoc]
      exact Alike.bind (huffman_segment_agree hmove (by omega) (by omega)) hnext
    rw [if_neg hdht]
    by_cases hdri : marker = 0xdd
    · rw [if_pos hdri, if_neg (by omega), if_neg hdqt, if_neg hdht, if_pos hdri]
      simp only [Lockstep.bind_assoc]
      refine Alike.check rfl rfl (by omega) fun h => ?_
      rw [jpegValidationBe16_eq (by omega), word_eq (by omega)]
      exact hnext _ _ ⟨⟨hm.frame, hm.components, hm.tables, hm.frameless, hm.quant, hm.dc, hm.ac,
        hm.covered, rfl, hm.scans⟩, rfl⟩
    rw [if_neg hdri]
    by_cases hsos : marker = 0xda
    · rw [if_pos hsos, if_neg (by omega), if_neg hdqt, if_neg hdht, if_neg hdri, if_neg (by omega)]
      simp only [Lockstep.bind_assoc]
      refine Alike.check_right (fun h => absurd hsos h) fun _ => ?_
      refine Alike.bind (scan_agree hmove (by omega) (by omega)) fun s t hst => ?_
      rw [entropyData]
      simp only [Lockstep.bind_assoc, Lockstep.pure_bind, Sum.elim_inl]
      exact hwithin _ t ⟨t.offset, 0, 0⟩ n m _ rfl hst.1 hst.2 (by simp) rfl hleft hn
        hm' hlen
    rw [if_neg hsos, Lockstep.bind_assoc]
    by_cases happ : 0xe0 ≤ marker ∧ marker ≤ 0xef ∨ marker = 0xfe
    · rw [if_pos happ]
      refine Alike.check_left (by omega) fun _ => ?_
      exact hnext walk.state _ ⟨hmove, rfl⟩
    · rw [if_neg happ, if_neg hdqt, if_neg hdht, if_neg hdri, if_neg (by omega),
        Lockstep.bind_assoc, failIf_bind_of Stop.rejected hsos,
        failIf_bind_of Stop.rejected (by omega)]
      exact Alike.fail rfl rfl

/-- The host's next round from a marker: it skips the fill bytes and treats the marker. -/
theorem hostRun_marker {past m : ℕ} (hpos : host.offset < data.length)
    (hff : value data host.offset = 0xff) (hpast : skipFill data (host.offset + 1) = pure past)
    (hlt : past < data.length) :
    hostRun data width height (m + 1) host =
      hostSegment data width height (value data past) { host with offset := past + 1 } >>=
        Sum.elim (hostRun data width height m) pure := by
  rw [hostRun, whileFuel_succ, hostStep, failIf_bind_of_not Stop.rejected (by omega),
    byteAt_eq hpos, Lockstep.pure_bind, failIf_bind_of_not Stop.rejected (not_not.mpr hff), hpast,
    Lockstep.pure_bind, failIf_bind_of_not Stop.rejected (by omega), byteAt_eq hlt,
    Lockstep.pure_bind]

theorem hostRun_end {m : ℕ} (hpos : data.length ≤ host.offset) :
    hostRun data width height (m + 1) host = fail .rejected := by
  rw [hostRun, whileFuel_succ, hostStep, failIf_bind_of Stop.rejected hpos]
  rfl

theorem betweenSegments_step {k : ℕ} (hlen : k ≤ data.length + 1)
    (hbetween : BetweenSegments data width height k) (hwithin : WithinScan data width height k) :
    BetweenSegments data width height (k + 1) := by
  intro walk host n m hscan hm hoffset hk hn hm'
  obtain ⟨n, rfl⟩ : ∃ n', n = n' + 1 := ⟨n - 1, by omega⟩
  obtain ⟨m, rfl⟩ : ∃ m', m = m' + 1 := ⟨m - 1, by omega⟩
  rw [deviceRun, whileFuel_succ, validateStep]
  by_cases hpos : walk.position < data.length
  swap
  · rw [hostRun_end (by omega), Lockstep.bind_assoc]
    exact Alike.check_left (fun _ => Alike.fail rfl rfl) fun h => absurd h (by omega)
  simp only [Lockstep.bind_assoc]
  refine Alike.check_left (by omega) fun _ => ?_
  rw [byteAt_eq hpos, Lockstep.pure_bind, hscan, if_neg (by simp)]
  simp only [Lockstep.bind_assoc, Lockstep.pure_bind]
  obtain ⟨past, hpast, hle, hpastlen⟩ := skipFill_eq (walk.position + 1) (Nat.succ_le_of_lt hpos)
  by_cases hff : value data walk.position = 0xff
  · refine Alike.check_left (fun h => absurd hff h) fun _ => ?_
    rw [hpast, Lockstep.pure_bind]
    by_cases hend : past = data.length
    · rw [failIf_bind_of Stop.rejected hend, hostRun, whileFuel_succ, hostStep]
      simp only [Lockstep.bind_assoc]
      refine Alike.check_right (fun _ => Alike.fail rfl rfl) fun _ => ?_
      rw [hoffset, byteAt_eq hpos, Lockstep.pure_bind]
      refine Alike.check_right (fun _ => Alike.fail rfl rfl) fun _ => ?_
      rw [hpast, Lockstep.pure_bind, failIf_bind_of Stop.rejected hend.ge]
      exact Alike.fail rfl rfl
    · refine Alike.check_left (fun h => absurd h hend) fun _ => ?_
      rw [hostRun_marker (by omega) (by rw [hoffset]; exact hff) (by rw [hoffset]; exact hpast)
        (by omega), byteAt_eq (by omega), Lockstep.pure_bind, if_neg (by simp)]
      exact segment_agree hbetween hwithin (hm.move (past + 1)) rfl rfl (by simp only; omega)
        (by simp only; omega) (by omega) (by omega) hlen
  · rw [failIf_bind_of Stop.rejected hff, hostRun, whileFuel_succ, hostStep]
    simp only [Lockstep.bind_assoc]
    refine Alike.check_right (fun _ => Alike.fail rfl rfl) fun _ => ?_
    rw [hoffset, byteAt_eq hpos, Lockstep.pure_bind, failIf_bind_of Stop.rejected hff]
    exact Alike.fail rfl rfl

theorem withinScan_step {k : ℕ} (hlen : k ≤ data.length + 1)
    (hbetween : BetweenSegments data width height k) (hwithin : WithinScan data width height k) :
    WithinScan data width height (k + 1) := by
  intro walk host s n m f hscan hm hoffset hdata hrestart hk hn hm' hf
  obtain ⟨n, rfl⟩ : ∃ n', n = n' + 1 := ⟨n - 1, by omega⟩
  obtain ⟨m, rfl⟩ : ∃ m', m = m' + 1 := ⟨m - 1, by omega⟩
  obtain ⟨f, rfl⟩ : ∃ f', f = f' + 1 := ⟨f - 1, by omega⟩
  rw [deviceRun, entropyRun, whileFuel_succ, whileFuel_succ, validateStep, entropyStep]
  dsimp only
  by_cases hpos : walk.position < data.length
  swap
  · rw [if_pos (by omega), Lockstep.pure_bind, Sum.elim_inr, Lockstep.pure_bind,
      failIf_bind_of Stop.rejected (by omega)]
    refine Alike.check_right (fun _ => Alike.fail rfl rfl) fun _ => ?_
    rw [hostRun_end (by simp only; omega)]
    exact Alike.fail rfl rfl
  rw [if_neg (by omega), hoffset, byteAt_eq hpos]
  simp only [Lockstep.bind_assoc, Lockstep.pure_bind]
  refine Alike.check_left (by omega) fun _ => ?_
  by_cases hff : value data walk.position = 0xff
  swap
  · rw [if_pos ⟨hscan, hff⟩, if_pos hff]
    simp only [Lockstep.bind_assoc, Lockstep.pure_bind, Sum.elim_inl]
    refine Alike.visit ?_
    exact hwithin _ host ⟨walk.position + 1, s.entropyBytes + 1, s.restart⟩ n (m + 1) f hscan hm rfl
      (by simp) hrestart (by simp only; omega) (by omega) (by omega) (by omega)
  rw [if_neg (by simp [hff]), if_neg (by simp [hff])]
  obtain ⟨past, hpast, hle, hpastlen⟩ := skipFill_eq (walk.position + 1) (Nat.succ_le_of_lt hpos)
  rw [hpast]
  simp only [Lockstep.bind_assoc, Lockstep.pure_bind]
  refine Alike.check_left (fun h => absurd hff h) fun _ =>
    Alike.check rfl rfl (by omega) fun hend => ?_
  rw [byteAt_eq (by omega), Lockstep.pure_bind, Lockstep.pure_bind, if_pos hscan]
  have hleft : data.length - (past + 1) < k := by omega
  by_cases hstuffed : value data past = 0
  · rw [if_pos hstuffed, if_pos hstuffed]
    simp only [Lockstep.bind_assoc, Lockstep.pure_bind, Sum.elim_inl]
    refine Alike.check rfl rfl (by omega) fun _ => Alike.visit ?_
    exact hwithin _ host ⟨past + 1, s.entropyBytes + 1, s.restart⟩ n (m + 1) f hscan hm rfl
      (by simp) hrestart hleft (by omega) (by omega) (by omega)
  rw [if_neg hstuffed, if_neg hstuffed]
  have hempty : s.entropyBytes = 0 ↔ (!walk.scanHasData) = true := by
    rw [hdata, Bool.not_eq_true']
  by_cases hrst : 0xd0 ≤ value data past ∧ value data past ≤ 0xd7
  · rw [if_pos hrst, if_pos hrst]
    simp only [Lockstep.bind_assoc, Lockstep.pure_bind, Sum.elim_inl]
    refine Alike.check rfl rfl ?_ fun _ => Alike.visit ?_
    · rw [hm.restart, hempty, hrestart]
    · exact hwithin _ host ⟨past + 1, 0, (s.restart + 1) &&& 7⟩ n (m + 1) f hscan hm rfl
        (by simp) (by rw [hrestart]) hleft (by omega) (by omega) (by omega)
  · -- The host steps back and meets the marker again.
    rw [if_neg hrst, if_neg hrst]
    simp only [Lockstep.bind_assoc, Lockstep.pure_bind, Sum.elim_inr]
    refine Alike.check rfl rfl hempty.symm fun h => ?_
    rw [failIf_bind_of_not Stop.rejected (fun h' => h (hempty.mp h'))]
    rw [hostRun_marker hpos hff hpast (by omega)]
    exact segment_agree hbetween hwithin (hm.move (past + 1)) rfl rfl (by simp only; omega)
      hleft (by omega) (by omega) hlen

theorem walks_agree (k : ℕ) (hlen : k ≤ data.length + 1) :
    BetweenSegments data width height k ∧ WithinScan data width height k := by
  induction k with
  | zero =>
    exact ⟨fun walk host n m _ _ _ h => absurd h (by omega),
      fun walk host s n m f _ _ _ _ _ h => absurd h (by omega)⟩
  | succ k ih =>
    obtain ⟨hbetween, hwithin⟩ := ih (by omega)
    exact ⟨betweenSegments_step (by omega) hbetween hwithin,
      withinScan_step (by omega) hbetween hwithin⟩

theorem Matches.start : Matches width height State.zero HostState.start :=
  ⟨rfl, rfl, by simp [State.zero], fun _ => ⟨rfl, rfl⟩, by simp [State.zero, HostState.start],
    by simp [State.zero, HostState.start], by simp [State.zero, HostState.start], rfl, rfl,
    by simp [State.zero, HostState.start]⟩

theorem validators_alike (data : List UInt8) (width height : ℕ) :
    Agree (Result width height) (espVisionJpegValidate data width height)
      (validateJpegImage data width height) := by
  rw [espVisionJpegValidate, validateJpegImage]
  by_cases hbad : data.length < 4 ∨ width = 0 ∨ height = 0 ∨ 65535 < width ∨ 65535 < height
  · rw [failIf_bind_of Stop.rejected hbad]
    refine Alike.check_right (fun _ => Alike.fail rfl rfl) fun h =>
      Alike.check_right (fun _ => Alike.fail rfl rfl) fun h' => ?_
    omega
  refine Alike.check_left (fun h => absurd h hbad) fun _ => Alike.check_right (by omega) fun _ =>
    Alike.check_right (by omega) fun _ => ?_
  rw [byteAt_eq (by omega), byteAt_eq (by omega), Lockstep.pure_bind, Lockstep.pure_bind]
  refine Alike.check rfl rfl Iff.rfl fun _ => Alike.check rfl rfl Iff.rfl fun _ => ?_
  exact (walks_agree (data.length + 1) le_rfl).1 _ HostState.start _ _ rfl Matches.start rfl
    (by simp only; omega) le_rfl le_rfl

/-- The two validators accept the same images, pass the same bytes in the same roles, and either
accept or reject: no loop outlives its bound and no read is outside the data. -/
theorem jpeg_validators_agree (data : List UInt8) (width height : ℕ) :
    ((espVisionJpegValidate data width height []).2 = .ok () ↔
      ∃ image, (validateJpegImage data width height []).2 = .ok image) ∧
    (espVisionJpegValidate data width height []).1 = (validateJpegImage data width height []).1 ∧
    ((espVisionJpegValidate data width height []).2 = .ok () ∨
      (espVisionJpegValidate data width height []).2 = .error .rejected) ∧
    ((validateJpegImage data width height []).2 = .ok (width, height) ∨
      (validateJpegImage data width height []).2 = .error .rejected) := by
  obtain ⟨hlog, hout⟩ := validators_alike data width height []
  rcases hdevice : (espVisionJpegValidate data width height []).2 with e | a <;>
    rcases hhost : (validateJpegImage data width height []).2 with e' | image <;>
    rw [hdevice, hhost] at hout
  · exact ⟨by simp, hlog, Or.inr (by rw [hout.1]), Or.inr (by rw [hout.2])⟩
  · exact hout.elim
  · exact hout.elim
  · obtain rfl : image = (width, height) := hout
    exact ⟨by simp, hlog, Or.inl rfl, Or.inl rfl⟩

end EspVision.Jpeg
