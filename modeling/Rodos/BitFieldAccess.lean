import Rodos.AccessTrace
import Rodos.BitFields

namespace Rodos.BitFieldAccess

open AccessTrace BitMemory CanFraming

section Functions

variable (buf : Nat → UInt8)

def readByte (i : Nat) : Traced Nat Nat := do
  Traced.touch i
  return (buf i).toNat

def writeByte (i : Nat) (v : Nat) : Traced Nat (Nat → UInt8) := do
  Traced.touch i
  return ByteMemory.write buf i [UInt8.ofNat v]

/-- A byte that the field does not reach is not read. -/
def readByteIf (reached : Prop) [Decidable reached] (i shift word : Nat) : Traced Nat Nat :=
  if reached then do
    let byte ← readByte buf i
    pure (word ||| byte <<< shift)
  else pure word

def writeByteIf (reached : Prop) [Decidable reached] (i v : Nat) : Traced Nat (Nat → UInt8) :=
  if reached then writeByte buf i v else pure buf

def wordAt (byteIndex span : Nat) : Traced Nat Nat := do
  let first ← readByte buf byteIndex
  let word ← readByteIf buf (8 < span) (byteIndex + 1) 8 (first <<< 16)
  readByteIf buf (16 < span) (byteIndex + 2) 0 word

def setBitField (bitPos numOfBits val : Nat) : Traced Nat (Nat → UInt8) := do
  let byteIndex := bitPos / 8
  let bitPos := bitPos % 8
  let shifts := 24 - (bitPos + numOfBits)
  let mask := uint32Ones numOfBits <<< shifts
  let val := (val <<< shifts) % 2 ^ 32
  let word ← wordAt buf byteIndex (bitPos + numOfBits)
  let word := word &&& (uint32Ones 32 ^^^ mask)
  let word := word ||| (mask &&& val)
  let buf ← writeByte buf byteIndex (word >>> 16)
  let buf ← writeByteIf buf (8 < bitPos + numOfBits) (byteIndex + 1) (word >>> 8)
  writeByteIf buf (16 < bitPos + numOfBits) (byteIndex + 2) word

def getBitField (bitPos numOfBits : Nat) : Traced Nat Nat := do
  let byteIndex := bitPos / 8
  let bitPos := bitPos % 8
  let shifts := 24 - (bitPos + numOfBits)
  let mask := uint32Ones numOfBits
  let word ← wordAt buf byteIndex (bitPos + numOfBits)
  return (word >>> shifts) &&& mask

end Functions

def Holds (bitPos n i : Nat) : Prop := ∃ k, bitPos ≤ k ∧ k < bitPos + n ∧ k / 8 = i

section Values

variable (buf : Nat → UInt8)

theorem value_readByteIf (reached : Prop) [Decidable reached] (i shift word : Nat) :
    (readByteIf buf reached i shift word).value =
      if reached then word ||| (buf i).toNat <<< shift else word := by
  rw [readByteIf]
  split <;> rfl

theorem value_writeByteIf (reached : Prop) [Decidable reached] (i v : Nat) :
    (writeByteIf buf reached i v).value =
      if reached then ByteMemory.write buf i [UInt8.ofNat v] else buf := by
  rw [writeByteIf]
  split <;> rfl

theorem value_wordAt (byteIndex span : Nat) :
    (wordAt buf byteIndex span).value = BitFields.wordAt buf byteIndex span := by
  rw [wordAt]
  rw [Traced.value_bind, Traced.value_bind, value_readByteIf, value_readByteIf]
  rfl

theorem value_setBitField (bitPos numOfBits val : Nat) :
    (setBitField buf bitPos numOfBits val).value =
      BitFields.setBitField buf bitPos numOfBits val := by
  rw [setBitField]
  dsimp only
  rw [Traced.value_bind, Traced.value_bind, Traced.value_bind, value_writeByteIf,
    value_writeByteIf, value_wordAt]
  rfl

theorem value_getBitField (bitPos numOfBits : Nat) :
    (getBitField buf bitPos numOfBits).value = BitFields.getBitField buf bitPos numOfBits := by
  unfold getBitField
  dsimp only
  rw [Traced.value_bind, value_wordAt]
  rfl

end Values

section Accesses

variable {buf : Nat → UInt8} {bitPos n : Nat}

theorem holds_first (hn : 0 < n) : Holds bitPos n (bitPos / 8) :=
  ⟨bitPos, Nat.le_refl bitPos, by omega, rfl⟩

theorem holds_later {t : Nat} (ht : 0 < t) (hreached : 8 * t < bitPos % 8 + n) :
    Holds bitPos n (bitPos / 8 + t) :=
  ⟨8 * (bitPos / 8 + t), by omega, by omega, by omega⟩

theorem within_readByte {i : Nat} :
    Traced.Within (Holds bitPos n) (readByte buf i) ↔ Holds bitPos n i := by
  rw [readByte, Traced.within_bind, Traced.within_touch]
  exact and_iff_left (Traced.within_pure _)

theorem within_writeByte {i v : Nat} :
    Traced.Within (Holds bitPos n) (writeByte buf i v) ↔ Holds bitPos n i := by
  rw [writeByte, Traced.within_bind, Traced.within_touch]
  exact and_iff_left (Traced.within_pure _)

theorem within_readByteIf {reached : Prop} [Decidable reached] {i shift word : Nat}
    (h : reached → Holds bitPos n i) :
    Traced.Within (Holds bitPos n) (readByteIf buf reached i shift word) := by
  rw [readByteIf]
  split
  · rename_i hreached
    rw [Traced.within_bind, within_readByte]
    exact ⟨h hreached, Traced.within_pure _⟩
  · exact Traced.within_pure word

theorem within_writeByteIf {reached : Prop} [Decidable reached] {i v : Nat}
    (h : reached → Holds bitPos n i) :
    Traced.Within (Holds bitPos n) (writeByteIf buf reached i v) := by
  rw [writeByteIf]
  split
  · rename_i hreached
    exact within_writeByte.mpr (h hreached)
  · exact Traced.within_pure buf

theorem within_wordAt (hn : 0 < n) :
    Traced.Within (Holds bitPos n) (wordAt buf (bitPos / 8) (bitPos % 8 + n)) := by
  rw [wordAt, Traced.within_bind, Traced.within_bind, within_readByte]
  exact ⟨holds_first hn, within_readByteIf (holds_later Nat.one_pos),
    within_readByteIf (holds_later Nat.two_pos)⟩

theorem within_setBitField (hn : 0 < n) (val : Nat) :
    Traced.Within (Holds bitPos n) (setBitField buf bitPos n val) := by
  rw [setBitField]
  dsimp only
  rw [Traced.within_bind, Traced.within_bind, Traced.within_bind, within_writeByte]
  exact ⟨within_wordAt hn, holds_first hn, within_writeByteIf (holds_later Nat.one_pos),
    within_writeByteIf (holds_later Nat.two_pos)⟩

theorem within_getBitField (hn : 0 < n) :
    Traced.Within (Holds bitPos n) (getBitField buf bitPos n) := by
  unfold getBitField
  dsimp only
  rw [Traced.within_bind]
  exact ⟨within_wordAt hn, Traced.within_pure _⟩

end Accesses

theorem setBits_comm (m : Nat → UInt8) {pos n pos' n' : Nat} (v v' : Nat)
    (h : pos + n ≤ pos' ∨ pos' + n' ≤ pos) :
    setBits (setBits m pos n v) pos' n' v' = setBits (setBits m pos' n' v') pos n v := by
  apply eq_of_bit
  intro k
  simp only [bit_setBits]
  split
  · rw [if_neg (by omega)]
  · rfl

/-- A field is read back, other bits survive, and no other byte is touched. -/
theorem bitField_access (buf : Nat → UInt8) (bitPos n : Nat) (hn : 1 ≤ n) (hmax : n ≤ 16)
    (val : UInt32) :
    (getBitField (setBitField buf bitPos n val.toNat).value bitPos n).value = val.toNat % 2 ^ n ∧
    (∀ k, ¬(bitPos ≤ k ∧ k < bitPos + n) →
      bit (setBitField buf bitPos n val.toNat).value k = bit buf k) ∧
    (∀ bitPos' n' (val' : UInt32), 1 ≤ n' → n' ≤ 16 →
      bitPos + n ≤ bitPos' ∨ bitPos' + n' ≤ bitPos →
        (setBitField (setBitField buf bitPos n val.toNat).value bitPos' n' val'.toNat).value =
          (setBitField (setBitField buf bitPos' n' val'.toNat).value bitPos n val.toNat).value) ∧
    Traced.Within (Holds bitPos n) (setBitField buf bitPos n val.toNat) ∧
    Traced.Within (Holds bitPos n) (getBitField buf bitPos n) := by
  simp only [value_setBitField, value_getBitField]
  refine ⟨?_, ?_, ?_, within_setBitField hn val.toNat, within_getBitField hn⟩
  · rw [BitFields.setBitField_eq buf bitPos val.toNat hmax, BitFields.getBitField_eq _ bitPos hmax,
      getBits_setBits]
  · intro k hk
    rw [BitFields.setBitField_eq buf bitPos val.toNat hmax, bit_setBits, if_neg hk]
  · intro bitPos' n' val' _ hmax' hdisjoint
    rw [BitFields.setBitField_eq _ _ _ hmax, BitFields.setBitField_eq _ _ _ hmax',
      BitFields.setBitField_eq _ _ _ hmax, BitFields.setBitField_eq _ _ _ hmax']
    exact setBits_comm buf val.toNat val'.toNat hdisjoint

/-- A field of twelve bits that begins in the middle of a byte. -/
theorem bitField_access_twelve :
    (getBitField (setBitField (fun _ => 0xff) 6 12 0x1234).value 6 12).value = 0x234 :=
  (bitField_access (fun _ => 0xff) 6 12 (by decide) (by decide) 0x1234).1

end Rodos.BitFieldAccess
