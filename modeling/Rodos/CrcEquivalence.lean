import Rodos.Crc
import Rodos.ShiftRegister
import Rodos.Topics

namespace Rodos.CrcEquivalence

open Crc ShiftRegister

def polynom : BitVec 16 := 0x1021

/-- The most significant bit comes first. -/
def bitsOf (b : UInt8) : List Bool := (List.range 8).map b.toBitVec.getMsbD

def bitsOfAll (buf : List UInt8) : List Bool := buf.flatMap bitsOf

section Bitwise

theorem crcBit_char (state : UInt8 × UInt16) :
    (crcBit state).1.toBitVec = state.1.toBitVec <<< 1 := rfl

theorem char_mask (c : UInt8) : c &&& (0x80 : UInt8) = if c.toBitVec.msb then 0x80 else 0 := by
  apply UInt8.toBitVec_inj.mp
  rw [BitVec.msb_eq_getLsbD_last]
  refine (BitVec.and_twoPow c.toBitVec 7).trans ?_
  split <;> rfl

theorem value_mask (v : UInt16) :
    ((v &&& (0x8000 : UInt16)) >>> 8).toUInt8 = if v.toBitVec.msb then 0x80 else 0 := by
  have hmask : v &&& (0x8000 : UInt16) = if v.toBitVec.msb then 0x8000 else 0 := by
    apply UInt16.toBitVec_inj.mp
    rw [BitVec.msb_eq_getLsbD_last]
    refine (BitVec.and_twoPow v.toBitVec 15).trans ?_
    split <;> rfl
  rw [hmask]
  split <;> rfl

/-- The test of the source compares the highest bits. -/
theorem crcBit_value (state : UInt8 × UInt16) :
    (crcBit state).2.toBitVec = step polynom state.2.toBitVec state.1.toBitVec.msb := by
  rw [crcBit, step, char_mask, value_mask]
  cases state.1.toBitVec.msb <;> cases state.2.toBitVec.msb <;> rfl

theorem crcBit_iterate (curChar : UInt8) (currentValue : UInt16) (n : Nat) :
    (crcBit^[n] (curChar, currentValue)).1.toBitVec = curChar.toBitVec <<< n ∧
      (crcBit^[n] (curChar, currentValue)).2.toBitVec =
        run polynom currentValue.toBitVec ((List.range n).map curChar.toBitVec.getMsbD) := by
  induction n with
  | zero => exact ⟨(BitVec.shiftLeft_zero _).symm, rfl⟩
  | succ n ih =>
    obtain ⟨hchar, hvalue⟩ := ih
    rw [Function.iterate_succ_apply', crcBit_char, crcBit_value, hchar, hvalue]
    refine ⟨(BitVec.shiftLeft_add _ _ _).symm, ?_⟩
    have hbit : (curChar.toBitVec <<< n).msb = curChar.toBitVec.getMsbD n := by
      simp [BitVec.msb_eq_getMsbD_zero, BitVec.getMsbD_shiftLeft]
    rw [hbit, List.range_succ, List.map_append, run_append]
    rfl

theorem computeCrc_toBitVec (buf : List UInt8) (initialValue : UInt16) :
    (computeCrc buf initialValue).toBitVec =
      run polynom initialValue.toBitVec (bitsOfAll buf) := by
  induction buf generalizing initialValue with
  | nil => rfl
  | cons b buf ih =>
    have hbyte := (crcBit_iterate b initialValue 8).2
    rw [bitsOfAll, List.flatMap_cons, run_append, bitsOf, ← hbyte]
    exact ih _

end Bitwise

section Table

theorem lookUpTable_run : ∀ i : Fin 256,
    (lookUpTable i).toBitVec = run polynom 0#16 (bitsOf (UInt8.ofNat i)) := by
  decide +kernel

theorem lookUpTable_toBitVec (b : UInt8) :
    (lookUpTable b.toNat).toBitVec = run polynom 0#16 (bitsOf b) := by
  have hentry := lookUpTable_run ⟨b.toNat, b.toNat_lt⟩
  rwa [UInt8.ofNat_toNat] at hentry

theorem index_eq (currentValue : UInt16) (data : UInt8) :
    (((currentValue >>> 8) ^^^ data.toUInt16) &&& (0x00FF : UInt16)).toNat =
      ((currentValue >>> 8).toUInt8 ^^^ data).toNat := by
  have hmask : (0x00FF : UInt16).toNat = 2 ^ 8 - 1 := rfl
  have hbyte : data.toNat % 2 ^ 8 = data.toNat := Nat.mod_eq_of_lt data.toNat_lt
  rw [UInt16.toNat_and, UInt16.toNat_xor, hmask, Nat.and_two_pow_sub_one_eq_mod,
    Nat.xor_mod_two_pow, UInt8.toNat_xor, UInt8.toNat_toUInt16, hbyte]
  rfl

theorem shifted_eq (currentValue : UInt16) :
    (currentValue <<< 8) &&& (0xFF00 : UInt16) = currentValue <<< 8 := by
  have hmask : (0xFF00 : BitVec 16) = BitVec.allOnes 16 <<< 8 := rfl
  apply UInt16.toBitVec_inj.mp
  change currentValue.toBitVec <<< 8 &&& (0xFF00 : BitVec 16) = currentValue.toBitVec <<< 8
  rw [hmask, ← BitVec.shiftLeft_and_distrib, BitVec.and_allOnes]

theorem flips_bitsOf (currentValue : UInt16) (data : UInt8) :
    flips ((List.range 8).map currentValue.toBitVec.getMsbD) (bitsOf data) =
      bitsOf ((currentValue >>> 8).toUInt8 ^^^ data) := by
  rw [flips, bitsOf, bitsOf, List.zipWith_map, List.zipWith_self]
  refine List.map_congr_left fun i hi => ?_
  have hlt := List.mem_range.mp hi
  change _ = ((currentValue.toBitVec >>> 8).setWidth 8 ^^^ data.toBitVec).getMsbD i
  rw [BitVec.getMsbD_xor]
  congr 1
  simp only [BitVec.getMsbD_eq_getLsbD, BitVec.getLsbD_setWidth, BitVec.getLsbD_ushiftRight,
    hlt, show i < 16 by omega, show 8 - 1 - i < 8 by omega, decide_true, Bool.true_and]
  congr 1
  omega

theorem crcByte_toBitVec (currentValue : UInt16) (data : UInt8) :
    (crcByte currentValue data).toBitVec = run polynom currentValue.toBitVec (bitsOf data) := by
  have hlength : (bitsOf data).length = 8 := by rw [bitsOf, List.length_map, List.length_range]
  rw [run_eq, hlength, flips_bitsOf, ← lookUpTable_toBitVec, crcByte, index_eq, shifted_eq]
  rfl

theorem computeCRC_toBitVec (buf : List UInt8) (initialValue : UInt16) :
    (computeCRC buf initialValue).toBitVec =
      run polynom initialValue.toBitVec (bitsOfAll buf) := by
  induction buf generalizing initialValue with
  | nil => rfl
  | cons b buf ih =>
    rw [bitsOfAll, List.flatMap_cons, run_append, ← crcByte_toBitVec]
    exact ih _

end Table

theorem computeCRC_eq (buf : List UInt8) (initialValue : UInt16) :
    computeCRC buf initialValue = computeCrc buf initialValue := by
  apply UInt16.toBitVec_inj.mp
  rw [computeCRC_toBitVec, computeCrc_toBitVec]

/-- The table gives the same values as the single bits, and a checksum can be computed piece by
piece. -/
theorem computeCRC_equivalence :
    (∀ (buf : List UInt8) (initialValue : UInt16),
      computeCRC buf initialValue = computeCrc buf initialValue) ∧
    ∀ (a b : List UInt8) (seed : UInt16),
      computeCrc (a ++ b) seed = computeCrc b (computeCrc a seed) ∧
        computeCRC (a ++ b) seed = computeCRC b (computeCRC a seed) := by
  refine ⟨computeCRC_eq, fun a b seed => ⟨?_, ?_⟩⟩
  · exact List.foldl_append
  · exact List.foldl_append

end Rodos.CrcEquivalence
