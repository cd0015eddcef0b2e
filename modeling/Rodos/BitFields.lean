import Rodos.BitMemory
import Rodos.CanFraming

namespace Rodos.BitFields

open ByteMemory BitMemory CanFraming

/-- The bytes of a field as a big-endian word. Bytes that the field does not
reach are not read. -/
def wordAt (buf : Nat → UInt8) (byteIndex span : Nat) : Nat :=
  let word := (buf byteIndex).toNat <<< 16
  let word := if 8 < span then word ||| (buf (byteIndex + 1)).toNat <<< 8 else word
  if 16 < span then word ||| (buf (byteIndex + 2)).toNat else word

/-- Fields have at most 16 bits. -/
def setBitField (buf : Nat → UInt8) (bitPos numOfBits val : Nat) : Nat → UInt8 :=
  let byteIndex := bitPos / 8
  let bitPos := bitPos % 8
  let shifts := 24 - (bitPos + numOfBits)
  let mask := uint32Ones numOfBits <<< shifts
  let val := (val <<< shifts) % 2 ^ 32
  let word := wordAt buf byteIndex (bitPos + numOfBits)
  let word := word &&& (uint32Ones 32 ^^^ mask)
  let word := word ||| (mask &&& val)
  let buf := write buf byteIndex [UInt8.ofNat (word >>> 16)]
  let buf := if 8 < bitPos + numOfBits then write buf (byteIndex + 1) [UInt8.ofNat (word >>> 8)]
    else buf
  if 16 < bitPos + numOfBits then write buf (byteIndex + 2) [UInt8.ofNat word] else buf

def getBitField (buf : Nat → UInt8) (bitPos numOfBits : Nat) : Nat :=
  let byteIndex := bitPos / 8
  let bitPos := bitPos % 8
  let shifts := 24 - (bitPos + numOfBits)
  let mask := uint32Ones numOfBits
  (wordAt buf byteIndex (bitPos + numOfBits) >>> shifts) &&& mask

theorem testBit_uint32Ones (n j : Nat) : (uint32Ones n).testBit j = decide (j < n) := by
  rw [uint32Ones, Nat.one_shiftLeft, Nat.testBit_two_pow_sub_one]

theorem testBit_shifted (buf : Nat → UInt8) (i s j : Nat) :
    ((buf i).toNat <<< s).testBit j =
      (decide (s ≤ j ∧ j < s + 8) && bit buf (8 * i + (7 - (j - s)))) := by
  rw [Nat.testBit_shiftLeft, testBit_byte]
  by_cases hs : s ≤ j
  · have hj : j - s < 8 ↔ j < s + 8 := by omega
    simp [hs, hj]
  · simp [hs]

theorem testBit_wordAt (buf : Nat → UInt8) (byteIndex : Nat) {span q : Nat}
    (hq : q < 8 ∨ 8 * (q / 8) < span) (hspan : span ≤ 24) :
    (wordAt buf byteIndex span).testBit (23 - q) = bit buf (8 * byteIndex + q) := by
  have hlast := testBit_shifted buf (byteIndex + 2) 0 (23 - q)
  rw [Nat.shiftLeft_zero] at hlast
  have hword : ∀ a b c : Nat,
      (if 16 < span then (if 8 < span then a ||| b else a) ||| c
        else if 8 < span then a ||| b else a).testBit (23 - q) =
      (a.testBit (23 - q) || (decide (8 < span) && b.testBit (23 - q)) ||
        (decide (16 < span) && c.testBit (23 - q))) := by
    intro a b c
    by_cases h8 : 8 < span <;> by_cases h16 : 16 < span <;> simp [h8, h16]
  rw [wordAt, hword, testBit_shifted, testBit_shifted, hlast]
  obtain hrange | hrange | hrange : q < 8 ∨ (8 ≤ q ∧ q < 16) ∨ (16 ≤ q ∧ q < 24) := by omega
  all_goals grind

theorem testBit_merged {word shifts n v j : Nat} (hj : j < 24) :
    (word &&& (uint32Ones 32 ^^^ uint32Ones n <<< shifts) |||
        (uint32Ones n <<< shifts &&& (v <<< shifts) % 2 ^ 32)).testBit j =
      if shifts ≤ j ∧ j < shifts + n then v.testBit (j - shifts) else word.testBit j := by
  have hlt : j < 32 := by omega
  simp only [Nat.testBit_or, Nat.testBit_and, Nat.testBit_xor, Nat.testBit_shiftLeft,
    Nat.testBit_mod_two_pow, testBit_uint32Ones, hlt, decide_true, Bool.true_and]
  by_cases hs : shifts ≤ j
  · by_cases hn : j - shifts < n
    · simp [hs, hn, show j < shifts + n by omega]
    · simp [hs, hn, show ¬j < shifts + n by omega]
  · simp [hs]

theorem bit_write_byte (m : Nat → UInt8) (i w k : Nat) :
    bit (write m i [UInt8.ofNat w]) k = if k / 8 = i then w.testBit (7 - k % 8) else bit m k := by
  rw [write_byte, bit_setBits]
  by_cases hk : k / 8 = i
  · rw [if_pos (by omega), if_pos hk]
    congr 1
    omega
  · rw [if_neg (by omega), if_neg hk]

theorem testBit_field (buf : Nat → UInt8) (bitPos val : Nat) {n q : Nat}
    (hspan : bitPos % 8 + n ≤ 24) (hq : q < 8 ∨ 8 * (q / 8) < bitPos % 8 + n) :
    (wordAt buf (bitPos / 8) (bitPos % 8 + n) &&&
        (uint32Ones 32 ^^^ uint32Ones n <<< (24 - (bitPos % 8 + n))) |||
      (uint32Ones n <<< (24 - (bitPos % 8 + n)) &&&
        (val <<< (24 - (bitPos % 8 + n))) % 2 ^ 32)).testBit (23 - q) =
      bit (setBits buf bitPos n val) (8 * (bitPos / 8) + q) := by
  rw [testBit_merged (by omega), testBit_wordAt buf (bitPos / 8) hq hspan, bit_setBits]
  by_cases hin : bitPos % 8 ≤ q ∧ q < bitPos % 8 + n
  · rw [if_pos (by omega), if_pos (by omega)]
    congr 1
    omega
  · rw [if_neg (by omega), if_neg (by omega)]

theorem bit_stored (buf : Nat → UInt8) (i span word k : Nat) :
    bit (if 16 < span then
        write (if 8 < span then
            write (write buf i [UInt8.ofNat (word >>> 16)]) (i + 1) [UInt8.ofNat (word >>> 8)]
          else write buf i [UInt8.ofNat (word >>> 16)]) (i + 2) [UInt8.ofNat word]
      else if 8 < span then
        write (write buf i [UInt8.ofNat (word >>> 16)]) (i + 1) [UInt8.ofNat (word >>> 8)]
      else write buf i [UInt8.ofNat (word >>> 16)]) k =
      if k / 8 = i then (word >>> 16).testBit (7 - k % 8)
      else if 8 < span ∧ k / 8 = i + 1 then (word >>> 8).testBit (7 - k % 8)
      else if 16 < span ∧ k / 8 = i + 2 then word.testBit (7 - k % 8)
      else bit buf k := by
  by_cases h16 : 16 < span
  · have h8 : 8 < span := by omega
    simp only [h16, h8, if_true, bit_write_byte, true_and]
    grind
  · by_cases h8 : 8 < span
    · simp only [h16, h8, if_true, if_false, bit_write_byte, true_and, false_and]
      grind
    · simp only [h16, h8, if_false, bit_write_byte, false_and]

/-- The function of the source stores a number in the bits of its field, which may
reach into three bytes. -/
theorem setBitField_eq_of_span (buf : Nat → UInt8) (bitPos val : Nat) {n : Nat}
    (hspan : bitPos % 8 + n ≤ 24) :
    setBitField buf bitPos n val = setBits buf bitPos n val := by
  have hword := @testBit_field buf bitPos val n
  unfold setBitField
  dsimp only
  generalize wordAt buf (bitPos / 8) (bitPos % 8 + n) &&&
      (uint32Ones 32 ^^^ uint32Ones n <<< (24 - (bitPos % 8 + n))) |||
    (uint32Ones n <<< (24 - (bitPos % 8 + n)) &&&
      (val <<< (24 - (bitPos % 8 + n))) % 2 ^ 32) = word at hword
  apply eq_of_bit
  intro k
  have htouched : ∀ t, k / 8 = bitPos / 8 + t → t ≤ 2 → (t = 0 ∨ 8 * t < bitPos % 8 + n) →
      (word >>> (16 - 8 * t)).testBit (7 - k % 8) = bit (setBits buf bitPos n val) k := by
    intro t hk ht hreach
    have hbit := @hword (k - 8 * (bitPos / 8)) hspan (by omega)
    rw [show 8 * (bitPos / 8) + (k - 8 * (bitPos / 8)) = k by omega] at hbit
    rw [Nat.testBit_shiftRight, ← hbit]
    congr 1
    omega
  have houtside : k / 8 ≠ bitPos / 8 → ¬(8 < bitPos % 8 + n ∧ k / 8 = bitPos / 8 + 1) →
      ¬(16 < bitPos % 8 + n ∧ k / 8 = bitPos / 8 + 2) →
      bit buf k = bit (setBits buf bitPos n val) k := by
    intro h0 h1 h2
    rw [bit_setBits, if_neg (by omega)]
  rw [bit_stored]
  split
  · rename_i h0
    exact htouched 0 h0 (by decide) (.inl rfl)
  split
  · rename_i h1
    exact htouched 1 h1.2 (by decide) (.inr h1.1)
  split
  · rename_i h2
    exact htouched 2 h2.2 (by decide) (.inr h2.1)
  · rename_i h0 h1 h2
    exact houtside h0 h1 h2

theorem setBitField_eq (buf : Nat → UInt8) (bitPos val : Nat) {n : Nat} (hn : n ≤ 16) :
    setBitField buf bitPos n val = setBits buf bitPos n val :=
  setBitField_eq_of_span buf bitPos val (by omega)

theorem getBitField_eq_of_span (buf : Nat → UInt8) (bitPos : Nat) {n : Nat}
    (hspan : bitPos % 8 + n ≤ 24) : getBitField buf bitPos n = getBits buf bitPos n := by
  unfold getBitField
  dsimp only
  apply Nat.eq_of_testBit_eq
  intro j
  rw [Nat.testBit_and, Nat.testBit_shiftRight, testBit_uint32Ones, testBit_getBits]
  by_cases hj : j < n
  · have hbit : (wordAt buf (bitPos / 8) (bitPos % 8 + n)).testBit
        (23 - (bitPos % 8 + (n - 1 - j))) = _ :=
      testBit_wordAt buf (bitPos / 8) (by omega) (by omega)
    rw [show 24 - (bitPos % 8 + n) + j = 23 - (bitPos % 8 + (n - 1 - j)) by omega, hbit]
    simp only [hj, decide_true, Bool.and_true, Bool.true_and]
    congr 1
    omega
  · simp [hj]

theorem getBitField_eq (buf : Nat → UInt8) (bitPos : Nat) {n : Nat} (hn : n ≤ 16) :
    getBitField buf bitPos n = getBits buf bitPos n :=
  getBitField_eq_of_span buf bitPos (by omega)

end Rodos.BitFields
