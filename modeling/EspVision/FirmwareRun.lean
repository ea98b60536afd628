import EspVision.FirmwareFlashSafe

/-!
# Runs of the flashing session

A new session holds the loader, and every method leaves it usable or closed. What a call may
find in the log and what a result says is therefore true in every run.
-/
namespace EspVision.Firmware
open Dialogue EventLog

section Runs

variable {sha256 : Bytes → String}

variable (sha256) in
/-- Between two methods the session is new, may flash or is over. -/
inductive Usable (w : World Session Call.Value Err) : Prop
  | idle (h : Holding sha256 .idle w)
  | connected (h : Holding sha256 .connected w) (hready : Ready sha256 w)
  | closed (h : Closed sha256 w)

lemma usable_new : Usable sha256 ⟨{}, []⟩ :=
  .idle ⟨⟨⟨justified_nil, rfl⟩, rfl⟩, rfl⟩

lemma Usable.safe {w : World Session Call.Value Err} (h : Usable sha256 w) :
    Safe sha256 w.log := by
  cases h with
  | idle h => exact h.1.1.1
  | connected h _ => exact h.1.1.1
  | closed h => exact h.safe

lemma Usable.disconnects_eq {w : World Session Call.Value Err} (h : Usable sha256 w) :
    disconnects w.log = if w.state.phase = .closed then 1 else 0 := by
  cases h with
  | idle h => simpa [h.2] using h.1.1.2
  | connected h _ => simpa [h.2] using h.1.1.2
  | closed h => simpa [h.phase] using h.once

/-- A connection is only begun by a new session. -/
lemma connect_of_ne (env : Partner Call.Value Err) {w : World Session Call.Value Err}
    (bytes : Option Bytes) (h : w.state.phase ≠ .idle) :
    connect sha256 bytes env w = (w, .error (.error "Firmware loader is already in use")) := by
  unfold connect
  simp only [bind_apply, getState, failIf, if_pos h]
  rfl

/-- A write is only begun behind a connection. -/
lemma flash_of_ne (env : Partner Call.Value Err) {w : World Session Call.Value Err}
    (bytes : Option Bytes) (h : w.state.phase ≠ .connected) : flash sha256 bytes env w =
      (w, .error (.error "Connect and validate the device before flashing")) := by
  unfold flash
  simp only [bind_apply, getState, failIf, if_pos h]
  rfl

/-- A second disconnection does nothing. -/
lemma disconnect_of_closed (env : Partner Call.Value Err) {w : World Session Call.Value Err}
    (h : w.state.phase = .closed) : disconnect env w = (w, .ok ()) := by
  unfold disconnect
  simp only [bind_apply, getState, if_pos h]
  rfl

/-- A session that holds the loader gives it up. -/
lemma disconnect_closed (env : Partner Call.Value Err) {w : World Session Call.Value Err}
    (h : Open sha256 w) : Closed sha256 (disconnect env w).1 := by
  have hends := disconnect_spec (F := fun _ => True) (fun _ _ _ h => h) env w ⟨h, trivial⟩
  rcases hr : disconnect env w with ⟨w', e | ⟨⟩⟩ <;> rw [hr] at hends
  · exact hends
  · exact hends.1

/-- A failed connection gives the loader up. -/
lemma connect_closed {env : Partner Call.Value Err} {w : World Session Call.Value Err}
    {bytes : Option Bytes} {e : Err} (h : Holding sha256 .idle w)
    (herr : (connect sha256 bytes env w).2 = .error e) :
    Closed sha256 (connect sha256 bytes env w).1 := by
  have hends : Ends _ (Closed sha256) (connect sha256 bytes env w) := connect_spec bytes env w h
  rcases hr : connect sha256 bytes env w with ⟨w', e' | ⟨⟩⟩ <;> rw [hr] at hends herr
  · exact hends
  · cases herr

/-- A write of a connected session gives the loader up. -/
lemma flash_closed {env : Partner Call.Value Err} {w : World Session Call.Value Err}
    (bytes : Option Bytes) (h : Holding sha256 .connected w) (hready : Ready sha256 w) :
    Closed sha256 (flash sha256 bytes env w).1 ∧ ∀ r, (flash sha256 bytes env w).2 = .ok r →
      Reported sha256 w.log r (flash sha256 bytes env w).1.log := by
  have hends : Ends (fun r w' => Closed sha256 w' ∧ Reported sha256 w.log r w'.log) (Closed sha256)
      (flash sha256 bytes env w) := flash_spec bytes env w ⟨⟨h, hready⟩, rfl⟩
  rcases hr : flash sha256 bytes env w with ⟨w', e | r⟩ <;> rw [hr] at hends
  · exact ⟨hends, fun _ h => by cases h⟩
  · exact ⟨hends.1, fun _ h => by cases h; exact hends.2⟩

/-- A method keeps the session usable. -/
theorem Usable.invoke {w : World Session Call.Value Err} (h : Usable sha256 w)
    (env : Partner Call.Value Err) (op : Op) : Usable sha256 (invoke sha256 env w op) := by
  cases op with
  | connect bytes =>
    simp only [Firmware.invoke]
    cases h with
    | idle hidle =>
      have hends : Ends (fun _ w => Holding sha256 .connected w ∧ Ready sha256 w) (Closed sha256)
          (connect sha256 bytes env w) := connect_spec bytes env w hidle
      rcases hr : connect sha256 bytes env w with ⟨w', e | ⟨⟩⟩ <;> rw [hr] at hends
      · exact .closed hends
      · exact .connected hends.1 hends.2
    | connected hc hready =>
      rw [connect_of_ne env bytes (by simp [hc.2])]
      exact .connected hc hready
    | closed hc =>
      rw [connect_of_ne env bytes (by simp [hc.phase])]
      exact .closed hc
  | flash bytes =>
    simp only [Firmware.invoke]
    cases h with
    | idle hidle =>
      rw [flash_of_ne env bytes (by simp [hidle.2])]
      exact .idle hidle
    | connected hc hready => exact .closed (flash_closed bytes hc hready).1
    | closed hc =>
      rw [flash_of_ne env bytes (by simp [hc.phase])]
      exact .closed hc
  | disconnect =>
    simp only [Firmware.invoke]
    cases h with
    | idle hidle => exact .closed (disconnect_closed env ⟨hidle.1.1, by simp [hidle.2]⟩)
    | connected hc _ => exact .closed (disconnect_closed env ⟨hc.1.1, by simp [hc.2]⟩)
    | closed hc =>
      rw [disconnect_of_closed env hc.phase]
      exact .closed hc

/-- Every run leaves the session usable. -/
theorem usable_after (env : Partner Call.Value Err) (ops : List Op) :
    Usable sha256 (after sha256 env ops) := by
  have hrun : ∀ (ops : List Op) (w : World Session Call.Value Err), Usable sha256 w →
      Usable sha256 (ops.foldl (invoke sha256 env) w) := by
    intro ops
    induction ops with
    | nil => exact fun _ h => h
    | cons op ops ih => exact fun w h => ih _ (h.invoke env op)
  exact hrun ops _ usable_new

end Runs

/-- How often an erase was asked for. -/
def erases (log : Log) : ℕ := log.countP fun e =>
  match e.call with
  | .eraseRegion _ _ => true
  | _ => false

/-- An erase finds no earlier one. -/
lemma erases_le {sha256 : Bytes → String} {log : Log} (h : Safe sha256 log) : erases log ≤ 1 := by
  induction log using List.reverseRecOn with
  | nil => exact Nat.zero_le 1
  | append_singleton log e ih =>
    have hlog := ih h.of_append
    have he := h.last
    rcases e with ⟨c, answer⟩
    simp only [erases, List.countP_append, List.countP_singleton] at hlog ⊢
    cases c with
    | eraseRegion offset size =>
      have hnone : log.countP (fun e => match e.call with
          | .eraseRegion _ _ => true
          | _ => false) = 0 := by
        refine List.countP_eq_zero.mpr fun x hx hxc => ?_
        have htouched := List.filter_eq_nil_iff.mp he.1 x hx
        cases hc : x.call <;> rw [hc] at hxc htouched
        case eraseRegion => exact htouched rfl
        all_goals cases hxc
      rw [hnone]
      rfl
    | _ => exact hlog

/-- The digests of the two inputs below. -/
def exampleSha256 (data : Bytes) : String :=
  if data = [0xe9, 1, 2, 3] then
    "48314ba341d50021f3c906e658d737c4713b22fb3582af97f797c30599f85c95"
  else if data = [4, 5, 6] then
    "787c798e39a5bc1910355bae6d0cd87a36b2e10fd0202a83e3bb6b005da83472"
  else ""

/-- An application of four bytes behind a table of three. -/
def exampleImage : Image where
  evMuxVersion := .number 4
  chipFamily := .number 0x3280
  chipRevision := .number 302
  chipRevisionMin := .undefined
  chipRevisionMax := .undefined
  offset := .number 0x10000
  bytes := .number 4
  flashSize := .undefined
  partitionSize := .number 0x700000
  sha256 := .string (exampleSha256 [0xe9, 1, 2, 3])
  bootloader := none
  partitionTable := some ⟨.number 0x8000, .number 3, .string (exampleSha256 [4, 5, 6]), .undefined⟩
  application := none

/-- A loader that does everything but reset the device. -/
def examplePartner : Partner Call.Value Err := fun _ c =>
  match c with
  | .image => .ok exampleImage
  | .mode => .ok none
  | .chip => .ok (.number 0x3280, .number 302)
  | .getSecurityInfo => .ok (some ⟨.number 0, .number 0⟩)
  | .hasMethod _ => .ok true
  | .flashId => .ok .undefined
  | .readFlash offset _ =>
    .ok (some (if offset = .number 0x8000 then [4, 5, 6] else [0xe9, 1, 2, 3]))
  | .flashData _ _ => .ok none
  | .readRegister _ => .ok (.number 0)
  | .reset => .error (.error "Reset failed")
  | .checkAbort | .initLoader | .runStub | .disconnect => .ok ()
  | .eraseRegion _ _ | .onPhase _ | .onProgress _ | .writeRegister _ _ _ => .ok ()

end EspVision.Firmware
