import Mathlib.Data.List.Basic
import Mathlib.Tactic

/-!
# CRC-32, bit by bit and by table

The reflected polynomial `0xedb88320`. One byte is eight bit steps, or one look-up in the
table of the 256 values that eight steps give; both read the same checksum.
-/
namespace EspVision.Crc32

/-- The reflected polynomial. -/
def polynomial : BitVec 32 := 0xedb88320

/-- One bit: shift, and subtract the polynomial when a one falls out. -/
def bitStep (crc : BitVec 32) : BitVec 32 :=
  if crc.getLsbD 0 then (crc >>> 1) ^^^ polynomial else crc >>> 1

/-- `n` bits. -/
def bitSteps : ℕ → BitVec 32 → BitVec 32
  | 0, crc => crc
  | n + 1, crc => bitSteps n (bitStep crc)

/-- One byte, eight bits at a time. -/
def update (crc : BitVec 32) (byte : BitVec 8) : BitVec 32 :=
  bitSteps 8 (crc ^^^ byte.setWidth 32)

/-- The table of the second form. -/
def tableEntry (index : BitVec 8) : BitVec 32 := bitSteps 8 (index.setWidth 32)

/-- One byte, by table. -/
def tableUpdate (crc : BitVec 32) (byte : BitVec 8) : BitVec 32 :=
  tableEntry ((crc ^^^ byte.setWidth 32).setWidth 8) ^^^ (crc >>> 8)

/-- The checksum that `step` computes byte by byte. -/
def checksum (step : BitVec 32 → BitVec 8 → BitVec 32) (bytes : List UInt8) : BitVec 32 :=
  ~~~ bytes.foldl (fun crc byte => step crc byte.toBitVec) (BitVec.allOnes 32)

/-- The branch as a mask of the lowest bit. -/
theorem bitStep_mask (crc : BitVec 32) :
    (crc >>> 1) ^^^ (polynomial &&& (0 - (crc &&& 1))) = bitStep crc := by
  have hbit : crc &&& 1 = if crc.getLsbD 0 then 1 else 0 := by
    ext i hi
    rw [BitVec.getElem_and]
    by_cases h0 : i = 0
    · subst h0
      cases h : crc.getLsbD 0 <;> simp_all
    · cases crc.getLsbD 0 <;> simp [h0]
  rw [hbit, bitStep]
  cases crc.getLsbD 0
  · simp
  · rw [if_pos rfl, if_pos rfl, show polynomial &&& (0 - (1 : BitVec 32)) = polynomial by decide]

theorem bitStep_xor (x y : BitVec 32) : bitStep (x ^^^ y) = bitStep x ^^^ bitStep y := by
  unfold bitStep
  rw [BitVec.getLsbD_xor, BitVec.ushiftRight_xor_distrib]
  cases x.getLsbD 0 <;> cases y.getLsbD 0
  · rfl
  · simp [BitVec.xor_assoc]
  · simp only [Bool.bne_false, if_true, Bool.false_eq_true, if_false]
    ac_rfl
  · simp only [Bool.xor_true, Bool.not_true, Bool.false_eq_true, if_false, if_true]
    ext i
    simp only [BitVec.getElem_xor]
    cases (x >>> 1)[i] <;> cases (y >>> 1)[i] <;> cases polynomial[i] <;> rfl

theorem bitSteps_xor (n : ℕ) (x y : BitVec 32) :
    bitSteps n (x ^^^ y) = bitSteps n x ^^^ bitSteps n y := by
  induction n generalizing x y with
  | zero => rfl
  | succ n ih => rw [bitSteps, bitSteps, bitSteps, bitStep_xor, ih]

/-- Without a one among the low bits the steps only shift. -/
theorem bitSteps_shift {n : ℕ} {x : BitVec 32} (h : ∀ i < n, x.getLsbD i = false) :
    bitSteps n x = x >>> n := by
  induction n generalizing x with
  | zero => simp [bitSteps]
  | succ n ih =>
    have hstep : bitStep x = x >>> 1 := if_neg (by rw [h 0 (by omega)]; decide)
    have hlow : ∀ i < n, (x >>> 1).getLsbD i = false := by
      intro i hi
      rw [BitVec.getLsbD_ushiftRight]
      exact h (1 + i) (by omega)
    rw [bitSteps, hstep, ih hlow, ← BitVec.shiftRight_add, Nat.add_comm 1 n]

/-- A word is its low byte and what is above it. -/
theorem split_byte (x : BitVec 32) :
    x = (x.setWidth 8).setWidth 32 ^^^ ((x >>> 8) <<< 8) := by
  ext i hi
  simp only [BitVec.getElem_xor, BitVec.getElem_setWidth, BitVec.getElem_shiftLeft,
    BitVec.getLsbD_setWidth, BitVec.getElem_ushiftRight]
  by_cases h8 : i < 8
  · simp [h8, BitVec.getLsbD_eq_getElem hi]
  · have hsum : 8 + (i - 8) = i := by omega
    simp [h8, hsum, BitVec.getLsbD_eq_getElem hi]

/-- The two forms of a byte step agree. -/
theorem tableUpdate_eq (crc : BitVec 32) (byte : BitVec 8) :
    tableUpdate crc byte = update crc byte := by
  have hlow : ∀ i < 8, (((crc ^^^ byte.setWidth 32) >>> 8) <<< 8).getLsbD i = false := by
    intro i hi
    simp [BitVec.getLsbD_shiftLeft, hi]
  have hhigh : ((crc ^^^ byte.setWidth 32) >>> 8) <<< 8 >>> 8 = crc >>> 8 := by
    ext i hi
    simp only [BitVec.getElem_ushiftRight, BitVec.getLsbD_shiftLeft, BitVec.getLsbD_ushiftRight,
      BitVec.getLsbD_xor, BitVec.getLsbD_setWidth]
    by_cases h : 8 + i < 32
    · simp [h, show ¬ 8 + i < 8 by omega]
    · simp [h, BitVec.getLsbD_of_ge crc (8 + i) (by omega)]
  rw [update, split_byte (crc ^^^ byte.setWidth 32), bitSteps_xor, bitSteps_shift hlow, hhigh]
  rfl

theorem checksum_table (bytes : List UInt8) : checksum tableUpdate bytes = checksum update bytes := by
  have h : tableUpdate = update := by
    funext crc byte
    exact tableUpdate_eq crc byte
  rw [h]

end EspVision.Crc32
