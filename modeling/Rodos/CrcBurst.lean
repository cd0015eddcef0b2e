import Rodos.CcsdsEnvelop
import Rodos.CrcEquivalence

namespace Rodos.CrcBurst

open ByteMemory CcsdsHeaders CcsdsEnvelop Crc CrcEquivalence ShiftRegister

/-- Some bits have been flipped, all of them within 16 positions. -/
structure Burst (sent received : List UInt8) : Prop where
  length : received.length = sent.length
  changed : received ≠ sent
  window : ∃ start, ∀ k < 8 * sent.length, (bitsOfAll received)[k]? ≠ (bitsOfAll sent)[k]? →
    start ≤ k ∧ k < start + 16

def Valid (seed : UInt16) (len : Nat) (frame : List UInt8) : Prop :=
  computeCrc (frame.take len) seed = UInt16.ofNat (ofBigEndian (frame.drop len))

section Bits

@[simp] theorem length_bitsOf (b : UInt8) : (bitsOf b).length = 8 := by
  rw [bitsOf, List.length_map, List.length_range]

@[simp] theorem length_bitsOfAll (buf : List UInt8) : (bitsOfAll buf).length = 8 * buf.length := by
  induction buf with
  | nil => rfl
  | cons b buf ih =>
    rw [bitsOfAll, List.flatMap_cons, List.length_append, length_bitsOf, List.length_cons]
    change 8 + (bitsOfAll buf).length = _
    omega

theorem bitsOf_inj {b c : UInt8} (h : bitsOf b = bitsOf c) : b = c := by
  apply UInt8.toBitVec_inj.mp
  apply BitVec.eq_of_getMsbD_eq
  intro i hi
  exact List.map_inj_left.mp h i (List.mem_range.mpr hi)

theorem bitsOfAll_inj {as bs : List UInt8} (h : bitsOfAll as = bitsOfAll bs) : as = bs := by
  induction as generalizing bs with
  | nil =>
    cases bs with
    | nil => rfl
    | cons b bs =>
      have hlength := congrArg List.length h
      rw [length_bitsOfAll, length_bitsOfAll] at hlength
      cases hlength
  | cons a as ih =>
    cases bs with
    | nil =>
      have hlength := congrArg List.length h
      rw [length_bitsOfAll, length_bitsOfAll] at hlength
      cases hlength
    | cons b bs =>
      rw [bitsOfAll, bitsOfAll, List.flatMap_cons, List.flatMap_cons] at h
      obtain ⟨hbyte, hrest⟩ := List.append_inj h (by rw [length_bitsOf, length_bitsOf])
      rw [bitsOf_inj hbyte, ih hrest]

theorem bitsOfAll_pair (high low : UInt8) : bitsOfAll [high, low] =
    (List.range 16).map (UInt16.ofNat (ofBigEndian [high, low])).toBitVec.getMsbD := by
  have hvalue : ofBigEndian [high, low] = high.toNat * 2 ^ 8 + low.toNat := by
    simp [ofBigEndian]
  have happend : (UInt16.ofNat (ofBigEndian [high, low])).toBitVec =
      high.toBitVec ++ low.toBitVec := by
    have hhigh := high.toNat_lt
    have hlow := low.toNat_lt
    apply BitVec.eq_of_toNat_eq
    rw [BitVec.toNat_append, UInt16.toNat_toBitVec, UInt16.toNat_ofNat', hvalue,
      UInt8.toNat_toBitVec, UInt8.toNat_toBitVec, ← Nat.shiftLeft_add_eq_or_of_lt hlow,
      Nat.shiftLeft_eq]
    omega
  have hrange : List.range 16 = List.range 8 ++ (List.range 8).map (8 + ·) := rfl
  rw [happend, hrange, List.map_append, List.map_map]
  change bitsOf high ++ (bitsOf low ++ []) = _
  rw [List.append_nil]
  congr 1
  · refine List.map_congr_left fun i hi => ?_
    have hlt := List.mem_range.mp hi
    rw [BitVec.getMsbD_append, if_neg (by omega)]
  · refine List.map_congr_left fun i _ => ?_
    rw [Function.comp_apply, BitVec.getMsbD_append, if_pos (by omega), Nat.add_sub_cancel_left]

end Bits

theorem Valid.run_eq_zero {seed : UInt16} {len : Nat} {frame : List UInt8}
    (h : Valid seed len frame) (hlength : frame.length = len + 2) :
    run polynom seed.toBitVec (bitsOfAll frame) = 0#16 := by
  obtain ⟨high, low, hdrop⟩ : ∃ high low, frame.drop len = [high, low] := by
    rw [← List.length_eq_two, List.length_drop]
    omega
  have hsplit : bitsOfAll frame = bitsOfAll (frame.take len) ++ bitsOfAll [high, low] := by
    rw [bitsOfAll, bitsOfAll, bitsOfAll, ← hdrop, ← List.flatMap_append, List.take_append_drop]
  rw [Valid, hdrop] at h
  rw [hsplit, run_append, bitsOfAll_pair, ← h, ← computeCrc_toBitVec (frame.take len), run_own]
  exact BitVec.shiftLeft_eq_zero (Nat.le_refl 16)

theorem Burst.not_valid {seed : UInt16} {len : Nat} {sent received : List UInt8}
    (h : Burst sent received) (hlength : sent.length = len + 2) (hsent : Valid seed len sent) :
    ¬Valid seed len received := by
  intro hreceived
  obtain ⟨start, hwindow⟩ := h.window
  refine @run_ne 16 polynom rfl _ _ ?_ (fun hbits => h.changed (bitsOfAll_inj hbits)) start ?_
    seed.toBitVec ?_
  · rw [length_bitsOfAll, length_bitsOfAll, h.length]
  · intro k hk
    refine hwindow k ?_ hk
    by_contra hend
    rw [List.getElem?_eq_none (by rw [length_bitsOfAll, h.length]; omega),
      List.getElem?_eq_none (by rw [length_bitsOfAll]; omega)] at hk
    exact hk rfl
  · rw [hreceived.run_eq_zero (h.length.trans hlength), hsent.run_eq_zero hlength]

section Frames

theorem valid_sent (buf : List UInt8) (seed : UInt16) :
    Valid seed buf.length (buf ++ toBigEndian 2 (computeCrc buf seed).toNat) := by
  have hlt : (computeCrc buf seed).toNat < 256 ^ 2 := (computeCrc buf seed).toNat_lt
  rw [Valid, List.take_left, List.drop_left, ofBigEndian_toBigEndian, Nat.mod_eq_of_lt hlt,
    UInt16.ofNat_toNat]

theorem valid_read (m : Nat → UInt8) (seed : UInt16) (len : Nat) :
    Valid seed len (read m 0 (len + 2)) ↔
      computeCRC (read m 0 len) seed = bigEndianToUint16 m len := by
  rw [Valid, computeCRC_eq, bigEndianToUint16, take_read, drop_read, Nat.zero_add,
    Nat.min_eq_left (Nat.le_add_right len 2), Nat.add_sub_cancel_left]

theorem crc_uplink (m : Nat → UInt8) (p : Nat) :
    (UplinkTFTrailer.deserialize (BitMemory.pointer m p)).crc = bigEndianToUint16 m p :=
  congrArg (fun bytes => UInt16.ofNat (ofBigEndian bytes)) (BitMemory.read_pointer 0 2)

theorem crc_downlink (m : Nat → UInt8) (p : Nat) :
    (DownlinkTFTrailer.deserialize (BitMemory.pointer m p)).crc = bigEndianToUint16 m (p + 4) :=
  congrArg (fun bytes => UInt16.ofNat (ofBigEndian bytes)) (BitMemory.read_pointer 4 2)

theorem lenOfCurrentTF_checkoutTF (e : UplinkEnvelop) :
    e.checkoutTF.2.lenOfCurrentTF =
      uint16 ((UplinkTFHeader.deserialize e.buf).frameLength.toNat + 1) := by
  rw [UplinkEnvelop.checkoutTF]
  dsimp only
  split
  · rfl
  · split <;> rfl

theorem uplink_checkoutTF_iff (e : UplinkEnvelop) {len : Nat}
    (hlen : e.checkoutTF.2.lenOfCurrentTF = len) :
    e.checkoutTF.1 = true ↔ 6 ≤ len ∧ len ≤ 1024 ∧
      Valid crcSeed (len - 2) (read e.buf 0 len) := by
  rw [lenOfCurrentTF_checkoutTF] at hlen
  rw [UplinkEnvelop.checkoutTF]
  simp only [hlen, tfMaxLen, UplinkTFHeader.headerSize, UplinkTFTrailer.headerSize]
  split
  · rename_i hlong
    exact iff_of_false Bool.false_ne_true fun h => by omega
  split
  · rename_i hshort
    exact iff_of_false Bool.false_ne_true fun h => by omega
  · rename_i hlong hshort
    obtain ⟨n, rfl⟩ : ∃ n, len = n + 2 := ⟨len - 2, by omega⟩
    have hview : e.view ((n + 2 : Nat) - (2 : Nat)) = BitMemory.pointer e.buf n := by
      rw [← view_eq]
      congr 1
      omega
    rw [hview, Nat.add_sub_cancel, valid_read, decide_eq_true_iff, ← crc_uplink]
    simp only [CCSDSEnvelop.crc, Nat.add_sub_cancel]
    exact ⟨fun hcrc => ⟨by omega, by omega, hcrc⟩, fun h => h.2.2⟩

theorem downlink_checkoutTF_iff (e : DownlinkEnvelop) :
    e.checkoutTF.1 = true ↔ Valid crcSeed 998 (read e.buf 0 downlinkTfLen) := by
  have hlen : downlinkTfLen = 998 + 2 := rfl
  rw [DownlinkEnvelop.checkoutTF]
  dsimp only
  rw [decide_eq_true_iff, hlen, valid_read, ← crc_downlink]
  rfl

end Frames

/-- Errors within 16 bits are found, also in the frames of both directions. -/
theorem crc_detects_bursts :
    (∀ (buf received : List UInt8) (seed : UInt16),
      (Burst (buf ++ toBigEndian 2 (computeCrc buf seed).toNat) received →
        computeCrc (received.take buf.length) seed ≠
          .ofNat (ofBigEndian (received.drop buf.length))) ∧
      (Burst (buf ++ toBigEndian 2 (computeCRC buf seed).toNat) received →
        computeCRC (received.take buf.length) seed ≠
          .ofNat (ofBigEndian (received.drop buf.length)))) ∧
    (∀ e r : UplinkEnvelop, e.checkoutTF.1 = true →
      r.checkoutTF.2.lenOfCurrentTF = e.checkoutTF.2.lenOfCurrentTF →
      Burst (read e.buf 0 e.checkoutTF.2.lenOfCurrentTF)
        (read r.buf 0 e.checkoutTF.2.lenOfCurrentTF) → r.checkoutTF.1 = false) ∧
    ∀ e r : DownlinkEnvelop, e.checkoutTF.1 = true →
      Burst (read e.buf 0 downlinkTfLen) (read r.buf 0 downlinkTfLen) →
      r.checkoutTF.1 = false := by
  have hbuf : ∀ (buf received : List UInt8) (seed : UInt16),
      Burst (buf ++ toBigEndian 2 (computeCrc buf seed).toNat) received →
        computeCrc (received.take buf.length) seed ≠
          .ofNat (ofBigEndian (received.drop buf.length)) := by
    intro buf received seed hburst
    exact hburst.not_valid (by rw [List.length_append, length_toBigEndian]) (valid_sent buf seed)
  refine ⟨fun buf received seed => ⟨hbuf buf received seed, ?_⟩, ?_, ?_⟩
  · rw [computeCRC_eq, computeCRC_eq]
    exact hbuf buf received seed
  · intro e r haccepted hlen hburst
    obtain ⟨hmin, hmax, hsent⟩ := (uplink_checkoutTF_iff e rfl).mp haccepted
    rw [Bool.eq_false_iff]
    intro hreceived
    obtain ⟨_, _, hvalid⟩ := (uplink_checkoutTF_iff r hlen).mp hreceived
    refine hburst.not_valid ?_ hsent hvalid
    rw [length_read]
    omega
  · intro e r haccepted hburst
    rw [Bool.eq_false_iff]
    intro hreceived
    refine hburst.not_valid ?_ ((downlink_checkoutTF_iff e).mp haccepted)
      ((downlink_checkoutTF_iff r).mp hreceived)
    rw [length_read]
    rfl

/-- Two bits of a telegram and one of its checksum are flipped. -/
theorem crc_detects_bursts_three :
    computeCrc [1, 2, 0x81] 0xffff ≠ .ofNat (ofBigEndian [0xad ^^^ 0x10, 0xad]) := by
  have hsent : [1, 2, 3] ++ toBigEndian 2 (computeCrc [1, 2, 3] 0xffff).toNat =
      [1, 2, 3, 0xad, 0xad] := by
    decide +kernel
  have hburst : Burst ([1, 2, 3] ++ toBigEndian 2 (computeCrc [1, 2, 3] 0xffff).toNat)
      [1, 2, 0x81, 0xad ^^^ 0x10, 0xad] := by
    rw [hsent]
    exact ⟨rfl, by decide, 16, by decide +kernel⟩
  exact (crc_detects_bursts.1 [1, 2, 3] [1, 2, 0x81, 0xad ^^^ 0x10, 0xad] 0xffff).1 hburst

end Rodos.CrcBurst
