import Rodos.AccessTrace
import Rodos.CcsdsUplink
import Rodos.CcsdsDownlink
import Rodos.PlaceWalk

namespace Rodos.CcsdsCheckout

open ByteMemory BitMemory BitFields CcsdsHeaders CcsdsEnvelop PlaceWalk

/-- From the place of a call of `checkoutNextSP` and the length of the last packet
seen before it to those of the next call. At a place without room for a header no
packet is seen, and the very first byte of the frame stands for the first packet. -/
def look (advance : Nat → Nat) (room len : Nat) (s : Nat × Nat) : Nat × Nat :=
  let last := if s.1 + room ≤ len then advance s.1 else s.2
  (if s.1 = 0 then 6 else (s.1 + last) % 65536, last)

def looked (advance : Nat → Nat) (room len lenOfCurrentSP : Nat) : Nat → Nat × Nat
  | 0 => (6, lenOfCurrentSP)
  | n + 1 => look advance room len (looked advance room len lenOfCurrentSP n)

/-- The length of a packet in 16 bits, as the length field of its header tells it. -/
def reach (lengthField : Nat) : Nat := (lengthField + 7) % 65536

theorem reach_ne_zero_iff {lengthField : Nat} (h : lengthField < 65536) :
    reach lengthField ≠ 0 ↔ lengthField ≠ 0xfff9 := by
  rw [reach]
  omega

namespace Uplink

open CcsdsUplink UplinkEnvelop

def lengthField (m : Nat → UInt8) (place : Nat) : Nat :=
  (UplinkSPHeader.deserialize (pointer m place)).length.toNat

def advance (m : Nat → UInt8) (place : Nat) : Nat := reach (lengthField m place)

/-- A header at which `checkoutNextSP` returns true. -/
def Accepted (m : Nat → UInt8) (len place : Nat) : Prop :=
  place + 12 ≤ len ∧ (UplinkSPHeader.deserialize (pointer m place)).applicationId ≠ 0x7ff ∧
    place + advance m place ≤ len

instance (m : Nat → UInt8) (len place : Nat) : Decidable (Accepted m len place) :=
  inferInstanceAs (Decidable (_ ∧ _ ∧ _))

theorem lengthField_lt (m : Nat → UInt8) (place : Nat) : lengthField m place < 65536 :=
  UInt16.toNat_lt _

structure Called (e e' : UplinkEnvelop) : Prop where
  buf : e'.buf = e.buf
  lenOfCurrentTF : e'.lenOfCurrentTF = e.lenOfCurrentTF
  indexOfCurrentSP : e'.indexOfCurrentSP = next e

structure Measured (e e' : UplinkEnvelop) : Prop where
  lenOfCurrentSP : e'.lenOfCurrentSP = advance e.buf (next e)
  lenOfCurrentUserData : e'.lenOfCurrentUserData = (lengthField e.buf (next e) + 65533) % 65536
  indexOfCurrentUserData : e'.indexOfCurrentUserData = (next e + 10) % 65536

def seen (e : UplinkEnvelop) : UplinkEnvelop :=
  { e with
    indexOfCurrentSP := next e
    spHeader := UplinkSPHeader.deserialize (pointer e.buf (next e))
    lenOfCurrentUserData := (lengthField e.buf (next e) + 65533) % 65536
    lenOfCurrentSP := advance e.buf (next e)
    indexOfCurrentUserData := (next e + 10) % 65536
    userDataBuf := (next e + 10) % 65536 }

theorem uint16_lengths (e : UplinkEnvelop) :
    uint16 (lengthField e.buf (next e) + 1 - (UplinkSPHeader.headerSize - 6)) =
        (lengthField e.buf (next e) + 65533) % 65536 ∧
      uint16 (((lengthField e.buf (next e) + 65533) % 65536 : Nat) + UplinkSPHeader.headerSize) =
        advance e.buf (next e) ∧
      uint16 (next e + UplinkSPHeader.headerSize) = (next e + 10) % 65536 := by
  have hlt := lengthField_lt e.buf (next e)
  simp only [uint16, advance, reach, UplinkSPHeader.headerSize]
  omega

theorem checkoutNextSP_eq (e : UplinkEnvelop) :
    e.checkoutNextSP =
      if next e + 12 ≤ e.lenOfCurrentTF then
        (decide (Accepted e.buf e.lenOfCurrentTF (next e)), seen e)
      else (false, { e with indexOfCurrentSP := next e }) := by
  obtain ⟨hdata, hpacket, hplace⟩ := uint16_lengths e
  have hroom : e.lenOfCurrentTF < next e + UplinkSPHeader.headerSize +
      UplinkTFTrailer.headerSize ↔ ¬next e + 12 ≤ e.lenOfCurrentTF := by
    simp only [UplinkSPHeader.headerSize, UplinkTFTrailer.headerSize]
    omega
  rw [checkoutNextSP]
  simp only [← next.eq_1, ← lengthField.eq_1, hdata, hpacket, hplace, hroom]
  by_cases h : next e + 12 ≤ e.lenOfCurrentTF
  · rw [if_neg (not_not.mpr h), if_pos h]
    split
    · rename_i hreject
      have hnot : ¬Accepted e.buf e.lenOfCurrentTF (next e) := by
        rintro ⟨-, hidle, hend⟩
        exact hreject.elim hidle (Nat.not_lt.mpr hend)
      rw [decide_eq_false hnot]
      rfl
    · rename_i haccept
      rw [not_or, Nat.not_lt] at haccept
      rw [decide_eq_true (show Accepted e.buf e.lenOfCurrentTF (next e) from ⟨h, haccept⟩)]
      rfl
  · rw [if_pos h, if_neg h]

theorem called (e : UplinkEnvelop) : Called e e.checkoutNextSP.2 := by
  rw [checkoutNextSP_eq]
  split <;> exact ⟨rfl, rfl, rfl⟩

theorem checkoutNextSP_fst (e : UplinkEnvelop) :
    e.checkoutNextSP.1 = true ↔ Accepted e.buf e.lenOfCurrentTF (next e) := by
  rw [checkoutNextSP_eq]
  split
  · exact decide_eq_true_iff
  · rename_i hroom
    exact iff_of_false Bool.false_ne_true fun haccepted => hroom haccepted.1

theorem measured {e : UplinkEnvelop} (h : e.checkoutNextSP.1 = true) :
    Measured e e.checkoutNextSP.2 := by
  rw [checkoutNextSP_eq, if_pos ((checkoutNextSP_fst e).mp h).1]
  exact ⟨rfl, rfl, rfl⟩

theorem walk (m : Nat → UInt8) {len : Nat} (hlen : len ≤ tfMaxLen) :
    Walk checkoutNextSP next (Accepted m len) (advance m) len
      (fun e => e.buf = m ∧ e.lenOfCurrentTF = len ∧ 0 < next e) := by
  have hmax : len ≤ 1024 := hlen
  have hnext : ∀ {e : UplinkEnvelop}, e.lenOfCurrentTF = len → 0 < next e →
      Accepted e.buf len (next e) →
      next e.checkoutNextSP.2 = next e + advance e.buf (next e) := by
    rintro e rfl hpos haccepted
    have hmeasured := measured ((checkoutNextSP_fst e).mpr haccepted)
    have hend := haccepted.2.2
    rw [next, (called e).indexOfCurrentSP, if_neg (by omega), hmeasured.lenOfCurrentSP]
    exact uint16_eq rfl (by omega)
  constructor
  · rintro e ⟨rfl, rfl, -⟩
    exact checkoutNextSP_fst e
  · rintro e ⟨rfl, rfl, hpos⟩ haccepted
    refine ⟨(called e).buf, (called e).lenOfCurrentTF, ?_⟩
    rw [hnext rfl hpos haccepted]
    omega
  · rintro e ⟨rfl, rfl, hpos⟩ haccepted
    exact hnext rfl hpos haccepted
  · intro p haccepted
    exact haccepted.2.2

def InFrame (e : UplinkEnvelop) : Prop :=
  e.indexOfCurrentSP + UplinkSPHeader.headerSize ≤ e.indexOfCurrentUserData ∧
    e.indexOfCurrentUserData + e.lenOfCurrentUserData + UplinkTFTrailer.headerSize ≤
      e.lenOfCurrentTF

/-- The packet at a place is at least as long as its headers and ends before
the trailer. -/
def LengthFits (m : Nat → UInt8) (len place : Nat) : Prop :=
  3 ≤ lengthField m place ∧ place + (lengthField m place + 7) + 2 ≤ len

theorem inFrame_iff {e : UplinkEnvelop} (hlen : e.lenOfCurrentTF ≤ tfMaxLen)
    (h : e.checkoutNextSP.1 = true) :
    InFrame e.checkoutNextSP.2 ↔ LengthFits e.buf e.lenOfCurrentTF (next e) := by
  have hmax : e.lenOfCurrentTF ≤ 1024 := hlen
  have hcalled := called e
  have hmeasured := measured h
  have hroom := ((checkoutNextSP_fst e).mp h).1
  have hlt := lengthField_lt e.buf (next e)
  rw [InFrame, LengthFits, hcalled.indexOfCurrentSP, hcalled.lenOfCurrentTF,
    hmeasured.indexOfCurrentUserData, hmeasured.lenOfCurrentUserData]
  simp only [UplinkSPHeader.headerSize, UplinkTFTrailer.headerSize]
  omega

theorem frame_afterCalls (e : UplinkEnvelop) (n : Nat) :
    (afterCalls checkoutNextSP e n).buf = e.buf ∧
      (afterCalls checkoutNextSP e n).lenOfCurrentTF = e.lenOfCurrentTF :=
  ⟨afterCalls_keeps (·.buf) (fun e => (called e).buf) e n,
    afterCalls_keeps (·.lenOfCurrentTF) (fun e => (called e).lenOfCurrentTF) e n⟩

def frameLength (m : Nat → UInt8) : Nat := (UplinkTFHeader.deserialize m).frameLength.toNat

theorem frameLength_lt (m : Nat → UInt8) : frameLength m < 1024 := by
  have hlt : getBitField m 22 10 < 2 ^ 10 := by
    rw [getBitField_eq _ _ (by decide)]
    exact getBits_lt m 22 10
  change (UInt16.ofNat (getBitField m 22 10)).toNat < 1024
  rw [UInt16.toNat_ofNat']
  omega

/-- The frame that `checkoutTF` finds. -/
theorem checkoutTF_snd (e : UplinkEnvelop) :
    e.checkoutTF.2.buf = e.buf ∧ e.checkoutTF.2.indexOfCurrentSP = 0 ∧
      e.checkoutTF.2.lenOfCurrentTF = frameLength e.buf + 1 ∧
      e.checkoutTF.2.lenOfCurrentSP = e.lenOfCurrentSP := by
  have hlt := frameLength_lt e.buf
  have hlen : uint16 (frameLength e.buf + 1) = frameLength e.buf + 1 := uint16_eq rfl (by omega)
  rw [checkoutTF]
  simp only [← frameLength.eq_1, hlen]
  split
  · exact ⟨rfl, rfl, rfl, rfl⟩
  · split
    · exact ⟨rfl, rfl, rfl, rfl⟩
    · exact ⟨rfl, rfl, rfl, rfl⟩

theorem next_checkoutTF (e : UplinkEnvelop) : next e.checkoutTF.2 = 6 :=
  if_pos (checkoutTF_snd e).2.1

/-- The frame is long enough for its header, and its checksum is right. -/
def FrameOk (m : Nat → UInt8) : Prop :=
  6 ≤ frameLength m + 1 ∧
    Crc.computeCRC (read m 0 (frameLength m - 1)) crcSeed =
      (UplinkTFTrailer.deserialize (pointer m (frameLength m - 1))).crc

theorem checkoutTF_fst (e : UplinkEnvelop) : e.checkoutTF.1 = true ↔ FrameOk e.buf := by
  have hlt := frameLength_lt e.buf
  have hlen : uint16 (frameLength e.buf + 1) = frameLength e.buf + 1 := uint16_eq rfl (by omega)
  have hsizes : tfMaxLen = 1024 ∧ UplinkTFHeader.headerSize = 6 ∧ UplinkTFTrailer.headerSize = 2 :=
    ⟨rfl, rfl, rfl⟩
  rw [checkoutTF]
  simp only [← frameLength.eq_1, hlen]
  split
  · omega
  · split
    · exact iff_of_false (by simp) fun h => absurd h.1 (by omega)
    · have htrailer : ((frameLength e.buf + 1 : Nat) - UplinkTFTrailer.headerSize : Int) =
          (frameLength e.buf - 1 : Nat) := by omega
      rw [htrailer, view_eq, decide_eq_true_iff, FrameOk, and_iff_right (by omega)]
      rfl

section Reads

open AccessTrace Traced

/-- The bytes that `getBitField` looks at, by their distance from `buf`. -/
def getBitFieldAt (e : CCSDSEnvelop) (p : Int) (bitPos numOfBits : Nat) : Traced Int Nat := do
  touch (p + (bitPos / 8 : Nat))
  if 8 < bitPos % 8 + numOfBits then touch (p + (bitPos / 8 : Nat) + 1)
  if 16 < bitPos % 8 + numOfBits then touch (p + (bitPos / 8 : Nat) + 2)
  pure (getBitField (e.view p) bitPos numOfBits)

def byteAt (e : CCSDSEnvelop) (p : Int) (off : Nat) : Traced Int UInt8 := do
  touch (p + off)
  pure (e.view p off)

def bigEndianToUint16At (e : CCSDSEnvelop) (p : Int) : Traced Int UInt16 := do
  touch p
  touch (p + 1)
  pure (bigEndianToUint16 (e.view p) 0)

def tfHeaderAt (e : CCSDSEnvelop) (p : Int) : Traced Int UplinkTFHeader := do
  let version ← getBitFieldAt e p 0 2
  let bypassFlag ← getBitFieldAt e p 2 1
  let controllCommandFlag ← getBitFieldAt e p 3 1
  let spare1 ← getBitFieldAt e p 4 2
  let spacecraftID ← getBitFieldAt e p 6 10
  let virtualChannelID ← getBitFieldAt e p 16 6
  let frameLength ← getBitFieldAt e p 22 10
  let frameSequenceNr ← byteAt e p 4
  let sequenceFlags ← getBitFieldAt e p 40 2
  let multiplexAceessPoint ← getBitFieldAt e p 42 6
  pure ⟨.ofNat version, .ofNat bypassFlag, .ofNat controllCommandFlag, .ofNat spare1,
    .ofNat spacecraftID, .ofNat virtualChannelID, .ofNat frameLength, frameSequenceNr,
    .ofNat sequenceFlags, .ofNat multiplexAceessPoint⟩

def computeCRCAt (e : CCSDSEnvelop) (len : Nat) (initialValue : UInt16) : Traced Int UInt16 :=
  forEach (fun (i : Nat) currentValue => do
    touch (i : Int)
    pure (Crc.crcByte currentValue (e.buf i))) (List.range len) initialValue

/-- `checkoutTF` with the bytes that it reads. -/
def checkoutTFAt (e : UplinkEnvelop) : Traced Int (Bool × UplinkEnvelop) := do
  let tfHeader ← tfHeaderAt e.toCCSDSEnvelop 0
  let lenOfCurrentTF := uint16 (tfHeader.frameLength.toNat + 1)
  let crc ← bigEndianToUint16At e.toCCSDSEnvelop (lenOfCurrentTF - UplinkTFTrailer.headerSize)
  let e := { e with
    indexOfCurrentSP := 0
    tfHeader := tfHeader
    lenOfCurrentTF := lenOfCurrentTF
    tfTrailer := ⟨crc⟩ }
  if tfMaxLen < lenOfCurrentTF then pure (false, e)
  else if lenOfCurrentTF < UplinkTFHeader.headerSize then pure (false, e)
  else do
    let myCrc ← computeCRCAt e.toCCSDSEnvelop (lenOfCurrentTF - 2) crcSeed
    pure (myCrc = crc, e)

def InBuf (i : Int) : Prop := 0 ≤ i ∧ i < tfMaxLen

@[simp] theorem value_getBitFieldAt (e : CCSDSEnvelop) (p : Int) (bitPos numOfBits : Nat) :
    (getBitFieldAt e p bitPos numOfBits).value = getBitField (e.view p) bitPos numOfBits := by
  rw [getBitFieldAt]
  by_cases h8 : 8 < bitPos % 8 + numOfBits <;>
    by_cases h16 : 16 < bitPos % 8 + numOfBits <;> simp [h8, h16]

@[simp] theorem value_byteAt (e : CCSDSEnvelop) (p : Int) (off : Nat) :
    (byteAt e p off).value = e.view p off := by
  simp [byteAt]

@[simp] theorem value_bigEndianToUint16At (e : CCSDSEnvelop) (p : Int) :
    (bigEndianToUint16At e p).value = bigEndianToUint16 (e.view p) 0 := by
  simp [bigEndianToUint16At]

@[simp] theorem value_tfHeaderAt (e : CCSDSEnvelop) (p : Int) :
    (tfHeaderAt e p).value = UplinkTFHeader.deserialize (e.view p) := by
  simp [tfHeaderAt, UplinkTFHeader.deserialize]

@[simp] theorem value_computeCRCAt (e : CCSDSEnvelop) (len : Nat) (initialValue : UInt16) :
    (computeCRCAt e len initialValue).value =
      Crc.computeCRC (read e.buf 0 len) initialValue := by
  simp [computeCRCAt, value_forEach_foldl, Crc.computeCRC, ByteMemory.read, List.foldl_map]

theorem view_zero (e : CCSDSEnvelop) : e.view 0 = e.buf := by
  rw [← Nat.cast_zero, view_eq]
  funext i
  rw [pointer, Nat.zero_add]

theorem value_checkoutTFAt (e : UplinkEnvelop) : (checkoutTFAt e).value = e.checkoutTF := by
  have hview := view_zero e.toCCSDSEnvelop
  rw [checkoutTFAt, checkoutTF]
  simp only [value_bind, value_tfHeaderAt, value_bigEndianToUint16At, hview]
  split
  · rfl
  · split
    · rfl
    · simp only [value_bind, value_computeCRCAt, value_pure]
      rfl

theorem within_getBitFieldAt (e : CCSDSEnvelop) (bitPos numOfBits : Nat)
    (h : bitPos / 8 + 2 < tfMaxLen) : Within InBuf (getBitFieldAt e 0 bitPos numOfBits) := by
  have hmax : tfMaxLen = 1024 := rfl
  have h0 : InBuf (0 + (bitPos / 8 : Nat)) := ⟨by omega, by omega⟩
  have h1 : InBuf (0 + (bitPos / 8 : Nat) + 1) := ⟨by omega, by omega⟩
  have h2 : InBuf (0 + (bitPos / 8 : Nat) + 2) := ⟨by omega, by omega⟩
  rw [getBitFieldAt]
  simp only [within_bind, within_ite, within_touch, within_pure, h0, h1, h2, implies_true,
    and_self]

theorem within_tfHeaderAt (e : CCSDSEnvelop) : Within InBuf (tfHeaderAt e 0) := by
  have hbyte : Within InBuf (byteAt e 0 4) := by
    simp [byteAt, InBuf, tfMaxLen]
  have hfield : ∀ bitPos numOfBits, bitPos < 48 →
      Within InBuf (getBitFieldAt e 0 bitPos numOfBits) := fun bitPos numOfBits h =>
    within_getBitFieldAt e bitPos numOfBits (by simp only [tfMaxLen]; omega)
  rw [tfHeaderAt]
  simp only [within_bind, within_pure, hbyte, and_true, true_and]
  refine ⟨?_, ?_, ?_, ?_, ?_, ?_, ?_, ?_, ?_⟩
  all_goals exact hfield _ _ (by decide)

theorem within_computeCRCAt (e : CCSDSEnvelop) {len : Nat} (h : len ≤ tfMaxLen)
    (initialValue : UInt16) : Within InBuf (computeCRCAt e len initialValue) := by
  refine (within_forEach (fun _ => True) (fun _ _ _ _ => trivial) (Q := fun i => i < len) ?_
    trivial).mpr fun i hi => List.mem_range.mp hi
  intro i hi currentValue _
  have hlt := List.mem_range.mp hi
  simp only [within_bind, within_touch, within_pure, and_true, InBuf]
  omega

/-- It stays in the buffer unless the header says that there is a single byte. -/
theorem within_checkoutTFAt (e : UplinkEnvelop) :
    Within InBuf (checkoutTFAt e) ↔ frameLength e.buf ≠ 0 := by
  have hview := view_zero e.toCCSDSEnvelop
  have hlt := frameLength_lt e.buf
  have hlen : uint16 (frameLength e.buf + 1) = frameLength e.buf + 1 := uint16_eq rfl (by omega)
  have htrailer : Within InBuf (bigEndianToUint16At e.toCCSDSEnvelop
      ((frameLength e.buf + 1 : Nat) - UplinkTFTrailer.headerSize)) ↔ frameLength e.buf ≠ 0 := by
    simp only [bigEndianToUint16At, within_bind, within_touch, within_pure, and_true, InBuf,
      tfMaxLen, UplinkTFTrailer.headerSize]
    omega
  rw [checkoutTFAt]
  simp only [within_bind, value_tfHeaderAt, hview, ← frameLength.eq_1, hlen, htrailer,
    within_tfHeaderAt, true_and, within_ite, within_pure, implies_true, and_true]
  refine and_iff_left_of_imp fun hne hmax hmin => ?_
  exact within_computeCRCAt _ (Nat.sub_le_of_le_add (by omega)) _

end Reads

theorem lenOfCurrentSP_call (e : UplinkEnvelop) :
    e.checkoutNextSP.2.lenOfCurrentSP =
      if next e + 12 ≤ e.lenOfCurrentTF then advance e.buf (next e) else e.lenOfCurrentSP := by
  rw [checkoutNextSP_eq]
  split <;> rfl

theorem look_call (e : UplinkEnvelop) :
    (next e.checkoutNextSP.2, e.checkoutNextSP.2.lenOfCurrentSP) =
      look (advance e.buf) 12 e.lenOfCurrentTF (next e, e.lenOfCurrentSP) := by
  have hnext : next e.checkoutNextSP.2 = if next e = 0 then 6 else
      (next e + e.checkoutNextSP.2.lenOfCurrentSP) % 65536 := by
    rw [next, (called e).indexOfCurrentSP]
    rfl
  rw [hnext, lenOfCurrentSP_call]
  rfl

theorem looked_afterCalls {e : UplinkEnvelop} (hnext : next e = 6) (n : Nat) :
    looked (advance e.buf) 12 e.lenOfCurrentTF e.lenOfCurrentSP n =
      (next (afterCalls checkoutNextSP e n), (afterCalls checkoutNextSP e n).lenOfCurrentSP) := by
  induction n with
  | zero => rw [looked, afterCalls, hnext]
  | succ n ih =>
    obtain ⟨hbuf, hlen⟩ := frame_afterCalls e n
    rw [looked, ih, afterCalls, look_call, hbuf, hlen]

/-- `checkoutTF` stays in the buffer, and after it every packet that
`checkoutNextSP` finds lies in the frame. -/
def Bounded (e : UplinkEnvelop) : Prop :=
  AccessTrace.Traced.Within InBuf (checkoutTFAt e) ∧
    (e.checkoutTF.1 = true → ∀ n, (afterCalls checkoutNextSP e.checkoutTF.2 n).checkoutNextSP.1 →
      InFrame (afterCalls checkoutNextSP e.checkoutTF.2 (n + 1)))

/-- The header tells a length of two bytes or more, and a packet that is accepted
where a call looks has a length that fits. -/
def WellFormed (e : UplinkEnvelop) : Prop :=
  let len := frameLength e.buf + 1
  len ≠ 1 ∧ (FrameOk e.buf → ∀ n,
    let place := (looked (advance e.buf) 12 len e.lenOfCurrentSP n).1
    Accepted e.buf len place → LengthFits e.buf len place)

theorem bounded_iff (e : UplinkEnvelop) : Bounded e ↔ WellFormed e := by
  obtain ⟨hbuf, -, hlen, hlast⟩ := checkoutTF_snd e
  have hlt := frameLength_lt e.buf
  have hwithin : AccessTrace.Traced.Within InBuf (checkoutTFAt e) ↔ frameLength e.buf + 1 ≠ 1 :=
    (within_checkoutTFAt e).trans (by omega)
  refine and_congr hwithin (imp_congr (checkoutTF_fst e) (forall_congr' fun n => ?_))
  have hlooked := looked_afterCalls (next_checkoutTF e) n
  obtain ⟨hbuf', hlen'⟩ := frame_afterCalls e.checkoutTF.2 n
  rw [hbuf] at hbuf' hlooked
  rw [hlen] at hlen' hlooked
  rw [hlast] at hlooked
  rw [hlooked, ← hlen', ← hbuf', checkoutNextSP_fst]
  refine imp_congr_right fun haccepted => ?_
  exact inFrame_iff (hlen' ▸ hlt) ((checkoutNextSP_fst _).mpr haccepted)

theorem terminates_iff (e : UplinkEnvelop) :
    Terminates checkoutNextSP (·.indexOfCurrentSP) e.checkoutTF.2 ↔
      ∀ place, Found (Accepted e.buf (frameLength e.buf + 1)) (advance e.buf) 6 place →
        lengthField e.buf place ≠ 0xfff9 := by
  obtain ⟨hbuf, -, hlen, -⟩ := checkoutTF_snd e
  have hnext := next_checkoutTF e
  have hpos : 0 < next e.checkoutTF.2 := by omega
  rw [(walk e.buf (frameLength_lt e.buf)).terminates_iff ⟨hbuf, hlen, hpos⟩ fun e =>
    (called e).indexOfCurrentSP, hnext]
  exact forall₂_congr fun place _ => reach_ne_zero_iff (lengthField_lt e.buf place)

end Uplink

namespace Downlink

open CcsdsDownlink DownlinkEnvelop

def lengthField (m : Nat → UInt8) (place : Nat) : Nat :=
  (DownlinkSPHeader.deserialize (pointer m place)).dataPackLen.toNat

def advance (m : Nat → UInt8) (place : Nat) : Nat := reach (lengthField m place)

/-- A place with room for a header at which `checkoutNextSP` returns true. -/
def AcceptedInRoom (m : Nat → UInt8) (place : Nat) : Prop := place ≤ 978 ∧ Accepted m place

theorem lengthField_lt (m : Nat → UInt8) (place : Nat) : lengthField m place < 65536 :=
  UInt16.toNat_lt _

structure Called (e e' : DownlinkEnvelop) : Prop where
  buf : e'.buf = e.buf
  lenOfCurrentTF : e'.lenOfCurrentTF = e.lenOfCurrentTF
  indexOfCurrentSP : e'.indexOfCurrentSP = next e

structure Measured (e e' : DownlinkEnvelop) : Prop where
  lenOfCurrentSP : e'.lenOfCurrentSP = advance e.buf (next e)
  lenOfCurrentUserData : e'.lenOfCurrentUserData = (advance e.buf (next e) + 65520) % 65536
  indexOfCurrentUserData : e'.indexOfCurrentUserData = (next e + 16) % 65536

def seen (e : DownlinkEnvelop) : DownlinkEnvelop :=
  { e with
    indexOfCurrentSP := next e
    spHeader := DownlinkSPHeader.deserialize (pointer e.buf (next e))
    lenOfCurrentSP := advance e.buf (next e)
    lenOfCurrentUserData := (advance e.buf (next e) + 65520) % 65536
    indexOfCurrentUserData := (next e + 16) % 65536
    userDataBuf := (next e + 16) % 65536 }

theorem uint16_advance (m : Nat → UInt8) (place : Nat) :
    uint16 (lengthField m place + 6 + 1) = advance m place := by
  simp only [uint16, advance, reach]
  omega

theorem uint16_lengths (e : DownlinkEnvelop) :
    uint16 (advance e.buf (next e) - DownlinkSPHeader.headerSize) =
        (advance e.buf (next e) + 65520) % 65536 ∧
      uint16 (next e + DownlinkSPHeader.headerSize) = (next e + 16) % 65536 := by
  simp only [uint16, DownlinkSPHeader.headerSize]
  omega

theorem acceptedInRoom_iff {e : DownlinkEnvelop} (hlen : e.lenOfCurrentTF = downlinkTfLen) :
    e.checkoutNextSP.1 = true ↔ AcceptedInRoom e.buf (next e) :=
  checkoutNextSP_fst hlen

theorem checkoutNextSP_snd (e : DownlinkEnvelop) :
    e.checkoutNextSP.2 =
      if next e + 22 ≤ e.lenOfCurrentTF then seen e else { e with indexOfCurrentSP := next e } := by
  obtain ⟨hdata, hplace⟩ := uint16_lengths e
  have hroom : e.lenOfCurrentTF < next e + DownlinkSPHeader.headerSize +
      DownlinkTFTrailer.headerSize ↔ ¬next e + 22 ≤ e.lenOfCurrentTF := by
    simp only [DownlinkSPHeader.headerSize, DownlinkTFTrailer.headerSize]
    omega
  rw [checkoutNextSP]
  simp only [← next.eq_1, ← lengthField.eq_1, uint16_advance, hdata, hplace, hroom]
  by_cases h : next e + 22 ≤ e.lenOfCurrentTF
  · rw [if_neg (not_not.mpr h), if_pos h]
    split <;> rfl
  · rw [if_pos h, if_neg h]

theorem called (e : DownlinkEnvelop) : Called e e.checkoutNextSP.2 := by
  rw [checkoutNextSP_snd]
  split <;> exact ⟨rfl, rfl, rfl⟩

theorem measured {e : DownlinkEnvelop} (hlen : e.lenOfCurrentTF = downlinkTfLen)
    (h : e.checkoutNextSP.1 = true) : Measured e e.checkoutNextSP.2 := by
  have hmax : e.lenOfCurrentTF = 1000 := hlen
  have hroom := ((acceptedInRoom_iff hlen).mp h).1
  rw [checkoutNextSP_snd, if_pos (by omega)]
  exact ⟨rfl, rfl, rfl⟩

theorem AcceptedInRoom.end_le {m : Nat → UInt8} {place : Nat} (h : AcceptedInRoom m place) :
    place + advance m place ≤ 1000 := by
  rw [← uint16_advance]
  exact h.2.2.2

theorem walk (m : Nat → UInt8) :
    Walk checkoutNextSP next (AcceptedInRoom m) (advance m) 1000
      (fun e => e.buf = m ∧ e.lenOfCurrentTF = downlinkTfLen ∧ 0 < next e) := by
  have hnext : ∀ {e : DownlinkEnvelop}, e.lenOfCurrentTF = downlinkTfLen → 0 < next e →
      AcceptedInRoom e.buf (next e) →
      next e.checkoutNextSP.2 = next e + advance e.buf (next e) := by
    intro e hlen hpos haccepted
    have hmeasured := measured hlen ((acceptedInRoom_iff hlen).mpr haccepted)
    have hend := haccepted.end_le
    rw [next, (called e).indexOfCurrentSP, if_neg (by omega), hmeasured.lenOfCurrentSP]
    exact uint16_eq rfl (by omega)
  constructor
  · rintro e ⟨rfl, hlen, -⟩
    exact acceptedInRoom_iff hlen
  · rintro e ⟨rfl, hlen, hpos⟩ haccepted
    refine ⟨(called e).buf, (called e).lenOfCurrentTF.trans hlen, ?_⟩
    rw [hnext hlen hpos haccepted]
    omega
  · rintro e ⟨rfl, hlen, hpos⟩ haccepted
    exact hnext hlen hpos haccepted
  · intro p haccepted
    exact haccepted.end_le

def InFrame (e : DownlinkEnvelop) : Prop :=
  e.indexOfCurrentSP + DownlinkSPHeader.headerSize ≤ e.indexOfCurrentUserData ∧
    e.indexOfCurrentUserData + e.lenOfCurrentUserData + DownlinkTFTrailer.headerSize ≤
      e.lenOfCurrentTF

/-- The packet at a place is at least as long as its headers and ends before
the trailer. -/
def LengthFits (m : Nat → UInt8) (place : Nat) : Prop :=
  9 ≤ lengthField m place ∧ place + (lengthField m place + 7) + 6 ≤ 1000

theorem inFrame_iff {e : DownlinkEnvelop} (hlen : e.lenOfCurrentTF = downlinkTfLen)
    (h : e.checkoutNextSP.1 = true) :
    InFrame e.checkoutNextSP.2 ↔ LengthFits e.buf (next e) := by
  have hmax : e.lenOfCurrentTF = 1000 := hlen
  have hcalled := called e
  have hmeasured := measured hlen h
  have hroom := ((acceptedInRoom_iff hlen).mp h).1
  have hlt := lengthField_lt e.buf (next e)
  rw [InFrame, LengthFits, hcalled.indexOfCurrentSP, hcalled.lenOfCurrentTF,
    hmeasured.indexOfCurrentUserData, hmeasured.lenOfCurrentUserData, hmax]
  simp only [advance, reach, DownlinkSPHeader.headerSize, DownlinkTFTrailer.headerSize]
  omega

theorem frame_afterCalls (e : DownlinkEnvelop) (n : Nat) :
    (afterCalls checkoutNextSP e n).buf = e.buf ∧
      (afterCalls checkoutNextSP e n).lenOfCurrentTF = e.lenOfCurrentTF :=
  ⟨afterCalls_keeps (·.buf) (fun e => (called e).buf) e n,
    afterCalls_keeps (·.lenOfCurrentTF) (fun e => (called e).lenOfCurrentTF) e n⟩

theorem lenOfCurrentSP_call (e : DownlinkEnvelop) :
    e.checkoutNextSP.2.lenOfCurrentSP =
      if next e + 22 ≤ e.lenOfCurrentTF then advance e.buf (next e) else e.lenOfCurrentSP := by
  rw [checkoutNextSP_snd]
  split <;> rfl

theorem look_call {e : DownlinkEnvelop} (hlen : e.lenOfCurrentTF = downlinkTfLen) :
    (next e.checkoutNextSP.2, e.checkoutNextSP.2.lenOfCurrentSP) =
      look (advance e.buf) 22 1000 (next e, e.lenOfCurrentSP) := by
  have hnext : next e.checkoutNextSP.2 = if next e = 0 then 6 else
      (next e + e.checkoutNextSP.2.lenOfCurrentSP) % 65536 := by
    rw [next, (called e).indexOfCurrentSP]
    rfl
  rw [hnext, lenOfCurrentSP_call, hlen]
  rfl

theorem looked_afterCalls {e : DownlinkEnvelop} (hlen : e.lenOfCurrentTF = downlinkTfLen)
    (hnext : next e = 6) (n : Nat) :
    looked (advance e.buf) 22 1000 e.lenOfCurrentSP n =
      (next (afterCalls checkoutNextSP e n), (afterCalls checkoutNextSP e n).lenOfCurrentSP) := by
  induction n with
  | zero => rw [looked, afterCalls, hnext]
  | succ n ih =>
    obtain ⟨hbuf, hlen'⟩ := frame_afterCalls e n
    rw [looked, ih, afterCalls, look_call (hlen'.trans hlen), hbuf]

def FrameOk (m : Nat → UInt8) : Prop :=
  Crc.computeCRC (read m 0 998) crcSeed = (DownlinkTFTrailer.deserialize (pointer m 994)).crc

theorem checkoutTF_fst (e : DownlinkEnvelop) : e.checkoutTF.1 = true ↔ FrameOk e.buf := by
  simp only [checkoutTF, CCSDSEnvelop.crc, downlinkTfLen, DownlinkTFTrailer.headerSize,
    Nat.reduceSub, FrameOk]
  exact decide_eq_true_iff

/-- After `checkoutTF` every packet that `checkoutNextSP` finds lies in the
frame. -/
def Bounded (e : DownlinkEnvelop) : Prop :=
  e.checkoutTF.1 = true → ∀ n, (afterCalls checkoutNextSP e.checkoutTF.2 n).checkoutNextSP.1 →
    InFrame (afterCalls checkoutNextSP e.checkoutTF.2 (n + 1))

/-- A packet that is accepted where a call looks has a length that fits. -/
def WellFormed (e : DownlinkEnvelop) : Prop :=
  FrameOk e.buf → ∀ n,
    let place := (looked (advance e.buf) 22 1000 e.lenOfCurrentSP n).1
    AcceptedInRoom e.buf place → LengthFits e.buf place

theorem bounded_iff (e : DownlinkEnvelop) : Bounded e ↔ WellFormed e := by
  refine imp_congr (checkoutTF_fst e) (forall_congr' fun n => ?_)
  obtain ⟨hbuf, hlen⟩ := frame_afterCalls e.checkoutTF.2 n
  have hlen' : (afterCalls checkoutNextSP e.checkoutTF.2 n).lenOfCurrentTF = downlinkTfLen := hlen
  have hbuf' : (afterCalls checkoutNextSP e.checkoutTF.2 n).buf = e.buf := hbuf
  have hlooked : looked (advance e.buf) 22 1000 e.lenOfCurrentSP n = _ :=
    looked_afterCalls (e := e.checkoutTF.2) rfl rfl n
  rw [hlooked, ← hbuf', acceptedInRoom_iff hlen']
  refine imp_congr_right fun haccepted => ?_
  exact inFrame_iff hlen' ((acceptedInRoom_iff hlen').mpr haccepted)

theorem terminates_iff (e : DownlinkEnvelop) :
    Terminates checkoutNextSP (·.indexOfCurrentSP) e.checkoutTF.2 ↔
      ∀ place, Found (AcceptedInRoom e.buf) (advance e.buf) 6 place →
        lengthField e.buf place ≠ 0xfff9 := by
  have hnext : next e.checkoutTF.2 = 6 := rfl
  have hframe : e.checkoutTF.2.buf = e.buf ∧ e.checkoutTF.2.lenOfCurrentTF = downlinkTfLen ∧
      0 < next e.checkoutTF.2 := ⟨rfl, rfl, by omega⟩
  rw [(walk e.buf).terminates_iff hframe fun e => (called e).indexOfCurrentSP, hnext]
  exact forall₂_congr fun place _ => reach_ne_zero_iff (lengthField_lt e.buf place)

end Downlink

/-- When `checkoutTF` stays in the buffer and `checkoutNextSP` in the frame. -/
theorem checkout_bounded_iff (u : UplinkEnvelop) (d : DownlinkEnvelop) :
    (Uplink.Bounded u ↔ Uplink.WellFormed u) ∧ (Downlink.Bounded d ↔ Downlink.WellFormed d) :=
  ⟨Uplink.bounded_iff u, Downlink.bounded_iff d⟩

/-- With a frame length of zero the trailer would begin in front of the buffer. -/
theorem not_bounded_empty : ¬Uplink.Bounded CcsdsUplink.empty := by
  intro h
  exact (Uplink.within_checkoutTFAt _).mp h.1 (by decide)

/-- When the loop over the packets of a frame ends. -/
theorem checkout_terminates_iff (u : UplinkEnvelop) (d : DownlinkEnvelop) :
    (Terminates UplinkEnvelop.checkoutNextSP (·.indexOfCurrentSP) u.checkoutTF.2 ↔
      ∀ place, Found (Uplink.Accepted u.buf (Uplink.frameLength u.buf + 1))
        (Uplink.advance u.buf) 6 place → Uplink.lengthField u.buf place ≠ 0xfff9) ∧
    (Terminates DownlinkEnvelop.checkoutNextSP (·.indexOfCurrentSP) d.checkoutTF.2 ↔
      ∀ place, Found (Downlink.AcceptedInRoom d.buf) (Downlink.advance d.buf) 6 place →
        Downlink.lengthField d.buf place ≠ 0xfff9) :=
  ⟨Uplink.terminates_iff u, Downlink.terminates_iff d⟩

/-- A frame with one packet that claims 65536 bytes. -/
def looping : UplinkEnvelop :=
  { CcsdsUplink.empty with
    buf := write CcsdsUplink.empty.buf 0
      [0, 0, 0, 17, 0, 0, 0, 5, 0, 0, 0xff, 0xf9, 0, 0, 0, 0, 0x8d, 0x84] }

/-- It is accepted, and the packet is delivered again and again. -/
theorem not_terminates_looping :
    looping.checkoutTF.1 = true ∧
      ¬Terminates UplinkEnvelop.checkoutNextSP (·.indexOfCurrentSP) looping.checkoutTF.2 := by
  refine ⟨by decide +kernel, fun h => ?_⟩
  exact (Uplink.terminates_iff looping).mp h 6 (.first (by decide +kernel)) (by decide +kernel)

end Rodos.CcsdsCheckout
