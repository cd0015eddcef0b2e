import Rodos.Va41620Receive

namespace Rodos.CanFilters

open Va41620Can Va41620Receive

def bit (value : UInt32) (k : Nat) : Bool := value.toNat.testBit k

def idLength (ide : Bool) : Nat := if ide then 29 else 11

structure CanId (ide : Bool) where
  value : UInt32
  lt : value.toNat < 2 ^ idLength ide

def place (ide : Bool) (k : Nat) : Nat :=
  if ide then if k < 18 then k + 1 else k + 3 else k + 21

theorem place_lt {ide : Bool} {k : Nat} (hk : k < idLength ide) : place ide k < 32 := by
  rw [place]
  cases ide with
  | false => exact Nat.add_lt_add_right hk 21
  | true =>
    have hk : k < 29 := hk
    rw [if_pos rfl]
    split <;> omega

theorem place_cases (ide : Bool) {i : Nat} (hi : i < 32) :
    i = 0 ∨ i = 19 ∨ i = 20 ∨ (ide = false ∧ ∃ k < 18, i = k + 1) ∨
      ∃ k < idLength ide, i = place ide k := by
  cases ide with
  | false =>
    obtain hlow | hhigh := Nat.lt_or_ge i 21
    · have hlow : i = 0 ∨ i = 19 ∨ i = 20 ∨ i - 1 < 18 ∧ i = i - 1 + 1 := by omega
      obtain h | h | h | ⟨hlt, heq⟩ := hlow
      · exact .inl h
      · exact .inr (.inl h)
      · exact .inr (.inr (.inl h))
      · exact .inr (.inr (.inr (.inl ⟨rfl, i - 1, hlt, heq⟩)))
    · refine .inr (.inr (.inr (.inr ⟨i - 21, show i - 21 < 11 by omega, ?_⟩)))
      exact (Nat.sub_add_cancel hhigh).symm
  | true =>
    have hi : i = 0 ∨ i = 19 ∨ i = 20 ∨ i - 1 < 18 ∧ i = i - 1 + 1 ∨
        (¬ i - 3 < 18 ∧ i - 3 < 29 ∧ i = i - 3 + 3) := by omega
    obtain h | h | h | ⟨hlt, heq⟩ | ⟨hge, hlt, heq⟩ := hi
    · exact .inl h
    · exact .inr (.inl h)
    · exact .inr (.inr (.inl h))
    · refine .inr (.inr (.inr (.inr ⟨i - 1, show i - 1 < 29 by omega, ?_⟩)))
      rwa [place, if_pos rfl, if_pos hlt]
    · refine .inr (.inr (.inr (.inr ⟨i - 3, hlt, ?_⟩)))
      rwa [place, if_pos rfl, if_neg hge]

def getId1Value (metadata : UInt32) : UInt16 := (metadata >>> 16).toUInt16

def getId0Value (metadata : UInt32) : UInt16 := metadata.toUInt16

section Bits

variable {value value' : UInt32} {k : Nat}

theorem bit_or : bit (value ||| value') k = (bit value k || bit value' k) := by
  rw [bit, UInt32.toNat_or, Nat.testBit_or, bit, bit]

theorem bit_and : bit (value &&& value') k = (bit value k && bit value' k) := by
  rw [bit, UInt32.toNat_and, Nat.testBit_and, bit, bit]

theorem bit_xor : bit (value ^^^ value') k = (bit value k ^^ bit value' k) := by
  rw [bit, UInt32.toNat_xor, Nat.testBit_xor, bit, bit]

theorem bit_not (hk : k < 32) : bit (~~~value) k = !bit value k := by
  have hnot : (~~~value).toNat = 2 ^ 32 - (value.toNat + 1) := by
    rw [UInt32.toNat_not, Nat.add_comm, ← Nat.sub_sub]
    rfl
  rw [bit, hnot, Nat.testBit_two_pow_sub_succ value.toNat_lt, decide_eq_true hk, Bool.true_and, bit]

theorem bit_of_le (hk : 32 ≤ k) : bit value k = false :=
  Nat.testBit_lt_two_pow (value.toNat_lt.trans_le (Nat.pow_le_pow_right (by decide) hk))

theorem eq_of_bit (h : ∀ k < 32, bit value k = bit value' k) : value = value' := by
  apply UInt32.toNat_inj.mp
  apply Nat.eq_of_testBit_eq
  intro k
  obtain hk | hk := Nat.lt_or_ge k 32
  · exact h k hk
  · exact (bit_of_le hk).trans (bit_of_le hk).symm

section SubValues

variable {offset length : UInt32} (o l : Nat) (ho : offset.toNat = o) (hl : length.toNat = l)
  (hwidth : o + l ≤ 32) (hlength : l < 32) (hoff : o < 32)
include ho hl hwidth hlength hoff

theorem bit_subValue : bit (subValue offset length value) k =
    (decide (o ≤ k ∧ k < o + l) && bit value (k - o)) := by
  subst ho hl
  rw [bit, subValue, UInt32.toNat_and, toNat_mask hwidth hlength hoff, UInt32.toNat_shiftLeft,
    Nat.mod_eq_of_lt hoff, Nat.testBit_and, Nat.testBit_mod_two_pow, Nat.testBit_shiftLeft,
    Nat.testBit_shiftLeft, Nat.testBit_two_pow_sub_one, bit]
  by_cases hlow : offset.toNat ≤ k
  · by_cases hhigh : k < offset.toNat + length.toNat
    · simp [hlow, hhigh, show k < 32 by omega, show k - offset.toNat < length.toNat by omega]
    · simp [hhigh, show ¬ k - offset.toNat < length.toNat by omega]
  · simp [hlow]

theorem bit_readSubValue : bit (readSubValue offset length value) k =
    (decide (k < l) && bit value (k + o)) := by
  subst ho hl
  rw [bit, toNat_readSubValue value hwidth hlength hoff, Nat.testBit_mod_two_pow,
    Nat.testBit_div_two_pow, bit]

end SubValues

theorem bit_flag (b : Bool) : bit (if b then 1 else 0) k = (b && decide (k = 0)) := by
  have hone : ∀ c : Bool, (if c then (1 : UInt32) else 0).toNat = c.toNat := by decide
  rw [bit, hone, Nat.testBit_bool_toNat, Bool.and_comm]

theorem bit_shiftLeft :
    bit (value <<< 18) k = (decide (k < 32) && (decide (18 ≤ k) && bit value (k - 18))) := by
  have hshift : (value <<< 18).toNat = value.toNat <<< 18 % 2 ^ 32 := UInt32.toNat_shiftLeft ..
  rw [bit, hshift, Nat.testBit_mod_two_pow, Nat.testBit_shiftLeft, bit]

theorem bit_low : bit (value &&& 0x3ffff) k = (decide (k < 18) && bit value k) := by
  rw [bit, UInt32.toNat_and, Nat.testBit_and, Bool.and_comm]
  exact congrArg (· && bit value k) (Nat.testBit_two_pow_sub_one 18 k)

theorem bit_high : bit (value >>> 18) k = bit value (k + 18) := by
  rw [bit, UInt32.toNat_shiftRight, Nat.testBit_shiftRight, Nat.add_comm]
  rfl

end Bits

section Layout

def fields (xrtr low ide rtr high : UInt32) : UInt32 :=
  subValue 0 1 xrtr ||| subValue 1 18 low ||| subValue 19 1 ide ||| subValue 20 1 rtr |||
    subValue 21 11 high

theorem bit_fields (xrtr low ide rtr high : UInt32) (k : Nat) :
    bit (fields xrtr low ide rtr high) k =
      (decide (k = 0) && bit xrtr 0 || decide (1 ≤ k ∧ k < 19) && bit low (k - 1) ||
        decide (k = 19) && bit ide 0 || decide (k = 20) && bit rtr 0 ||
        decide (21 ≤ k ∧ k < 32) && bit high (k - 21)) := by
  have hone : ∀ o v, (decide (o ≤ k ∧ k < o + 1) && bit v (k - o)) = (decide (k = o) && bit v 0) := by
    intro o v
    have hwindow : decide (o ≤ k ∧ k < o + 1) = decide (k = o) := decide_eq_decide.mpr (by omega)
    rw [hwindow]
    obtain rfl | hk := eq_or_ne k o
    · rw [Nat.sub_self]
    · simp [hk]
  rw [fields, bit_or, bit_or, bit_or, bit_or,
    bit_subValue 0 1 rfl rfl (by decide) (by decide) (by decide), hone,
    bit_subValue 1 18 rfl rfl (by decide) (by decide) (by decide),
    bit_subValue 19 1 rfl rfl (by decide) (by decide) (by decide), hone,
    bit_subValue 20 1 rfl rfl (by decide) (by decide) (by decide), hone,
    bit_subValue 21 11 rfl rfl (by decide) (by decide) (by decide)]

variable (xrtr low ide rtr high : UInt32)

theorem bit_xrtr : bit (fields xrtr low ide rtr high) 0 = bit xrtr 0 := by
  simp [bit_fields]

theorem bit_ide : bit (fields xrtr low ide rtr high) 19 = bit ide 0 := by
  simp [bit_fields]

theorem bit_rtr : bit (fields xrtr low ide rtr high) 20 = bit rtr 0 := by
  simp [bit_fields]

theorem bit_extended {k : Nat} (hk : k < 18) :
    bit (fields xrtr low ide rtr high) (k + 1) = bit low k := by
  rw [bit_fields]
  simp [show k + 1 < 19 by omega, show k + 1 ≠ 19 by omega, show k + 1 ≠ 20 by omega,
    show ¬ 21 ≤ k + 1 by omega]

theorem bit_basic {k : Nat} (hk : k < 11) :
    bit (fields xrtr low ide rtr high) (k + 21) = bit high k := by
  rw [bit_fields]
  simp [show k + 21 < 32 by omega]

theorem bit_place {id : UInt32} {isExtended : Bool} (hlow : isExtended = true → low = id &&& 0x3ffff)
    {k : Nat} (hk : k < idLength isExtended) :
    bit (fields xrtr low ide rtr (if isExtended then id >>> 18 else id)) (place isExtended k) =
      bit id k := by
  cases isExtended with
  | false => exact bit_basic _ _ _ _ _ hk
  | true =>
    rw [hlow rfl]
    by_cases h18 : k < 18
    · simp only [place, if_true, if_pos h18]
      rw [bit_extended _ _ _ _ _ h18, bit_low, decide_eq_true h18, Bool.true_and]
    · have hhigh : k < 29 := hk
      have hplace : place true k = k - 18 + 21 := by
        simp only [place, if_true, if_neg h18]
        omega
      rw [hplace, bit_basic _ _ _ _ _ (by omega), if_pos rfl, bit_high, Nat.sub_add_cancel (by omega)]

end Layout

section Matching

variable {O : Type} {data : UInt32} {k : Nat}

theorem matches_iff_bits (f : CanFilter O) (data : UInt32) : f.matches data = true ↔
    ∀ k < 32, bit f.mask k = false → bit data k = bit f.value k := by
  have hbit : ∀ k < 32, bit ((data ^^^ f.value) &&& ~~~f.mask) k = false ↔
      (bit f.mask k = false → bit data k = bit f.value k) := by
    intro k hk
    rw [bit_and, bit_xor, bit_not hk]
    cases bit f.mask k <;> cases bit data k <;> cases bit f.value k <;> decide
  rw [CanFilter.matches, beq_iff_eq]
  constructor
  · intro hzero k hk
    rw [← hbit k hk, hzero]
    exact Nat.zero_testBit k
  · intro h
    apply eq_of_bit
    intro k hk
    rw [(hbit k hk).mpr (h k hk)]
    exact (Nat.zero_testBit k).symm

theorem getIde_eq (data : UInt32) : getIde data = bit data 19 := by
  rw [getIde, readSubValue_ne_zero data (by decide), bit, Nat.testBit_eq_decide_div_mod_eq]
  rfl

theorem getRTR_eq (data : UInt32) : getRTR data = bit data (if getIde data then 0 else 20) := by
  rw [getRTR, readSubValue_ne_zero data (by decide), readSubValue_ne_zero data (by decide), bit,
    Nat.testBit_eq_decide_div_mod_eq]
  split <;> rfl

theorem bit_getId (data : UInt32) (k : Nat) : bit (getId data) k =
    (decide (k < idLength (getIde data)) && bit data (place (getIde data) k)) := by
  rw [getId]
  cases getIde data with
  | false => exact bit_readSubValue 21 11 rfl rfl (by decide) (by decide) (by decide)
  | true =>
    rw [if_pos rfl, bit_or, bit_shiftLeft,
      bit_readSubValue 21 11 rfl rfl (by decide) (by decide) (by decide),
      bit_readSubValue 1 18 rfl rfl (by decide) (by decide) (by decide)]
    by_cases hlow : k < 18
    · simp [place, idLength, hlow, show ¬ 18 ≤ k by omega, show k < 29 by omega]
    · by_cases hhigh : k < 29
      · simp [place, idLength, hlow, hhigh, show 18 ≤ k by omega, show k - 18 < 11 by omega,
          show k < 32 by omega, show k - 18 + 21 = k + 3 by omega]
      · simp [idLength, hlow, hhigh, show ¬ k - 18 < 11 by omega]

theorem CanId.bit_eq_false {ide : Bool} (id : CanId ide) (hk : idLength ide ≤ k) :
    bit id.value k = false :=
  Nat.testBit_lt_two_pow (id.lt.trans_le (Nat.pow_le_pow_right (by decide) hk))

theorem getIde_frameMetadata (id : UInt32) (ide rtr : Bool) :
    getIde (frameMetadata id ide rtr) = ide := by
  have hbit : bit (frameMetadata id ide rtr) 19 = bit (if ide then 1 else 0) 0 := bit_ide ..
  rw [getIde_eq, hbit, bit_flag, decide_eq_true rfl, Bool.and_true]

theorem bit_frameMetadata_xrtr (id : UInt32) (ide rtr : Bool) :
    bit (frameMetadata id ide rtr) 0 = (ide && rtr) := by
  have hbit : bit (frameMetadata id ide rtr) 0 = bit (if ide && rtr then 1 else 0) 0 := bit_xrtr ..
  rw [hbit, bit_flag, decide_eq_true rfl, Bool.and_true]

theorem bit_frameMetadata_rtr (id : UInt32) (ide rtr : Bool) :
    bit (frameMetadata id ide rtr) 20 = (ide || rtr) := by
  have hbit : bit (frameMetadata id ide rtr) 20 = bit (if ide || rtr then 1 else 0) 0 := bit_rtr ..
  rw [hbit, bit_flag, decide_eq_true rfl, Bool.and_true]

theorem bit_frameMetadata_place (id : UInt32) {ide : Bool} (rtr : Bool) (hk : k < idLength ide) :
    bit (frameMetadata id ide rtr) (place ide k) = bit id k :=
  bit_place _ _ _ _ (fun h => if_pos h) hk

theorem getRTR_frameMetadata (id : UInt32) (ide rtr : Bool) :
    getRTR (frameMetadata id ide rtr) = rtr := by
  rw [getRTR_eq, getIde_frameMetadata]
  cases ide with
  | false => exact bit_frameMetadata_rtr id false rtr
  | true => exact bit_frameMetadata_xrtr id true rtr

theorem getId_frameMetadata {ide : Bool} (id : CanId ide) (rtr : Bool) :
    getId (frameMetadata id.value ide rtr) = id.value := by
  apply eq_of_bit
  intro k _
  rw [bit_getId, getIde_frameMetadata]
  by_cases hk : k < idLength ide
  · rw [decide_eq_true hk, Bool.true_and, bit_frameMetadata_place _ _ hk]
  · rw [decide_eq_false hk, Bool.false_and, id.bit_eq_false (Nat.not_lt.mp hk)]

/-- What the mask of a filter compares: the flags, and the bits of the id that are not set. -/
theorem bit_generateForMask (idMask : UInt32) (ide : Bool) :
    bit (generateForMask idMask ide) 19 = false ∧ bit (generateForMask idMask ide) 20 = false ∧
      bit (generateForMask idMask ide) 0 = !ide ∧
      (∀ k < idLength ide, bit (generateForMask idMask ide) (place ide k) = bit idMask k) ∧
      (ide = false → ∀ k < 18, bit (generateForMask idMask ide) (k + 1) = true) := by
  have hxrtr : bit (generateForMask idMask ide) 0 = bit (if ide then 0 else 1) 0 := bit_xrtr ..
  refine ⟨bit_ide .., bit_rtr .., ?_, ?_, ?_⟩
  · rw [hxrtr]
    cases ide <;> rfl
  · intro k hk
    exact bit_place _ _ _ _ (fun h => if_pos h) hk
  · rintro rfl k hk
    have hlow : bit (generateForMask idMask false) (k + 1) = bit 0x3ffff k := bit_extended _ _ _ _ _ hk
    rw [hlow]
    exact (Nat.testBit_two_pow_sub_one 18 k).trans (decide_eq_true hk)

/-- A filter for any metadata, where the bit that replaces RTR in an extended frame must be
set as it is on the bus. -/
theorem matches_iff {ide : Bool} (id mask : CanId ide) (rtr : Bool) (owner : O)
    (hsrr : getIde data = true → bit data 20 = true) :
    (canFilter id.value mask.value ide rtr owner).matches data = true ↔
      ide = getIde data ∧ rtr = getRTR data ∧
        ∀ k, bit mask.value k = false → bit id.value k = bit (getId data) k := by
  obtain ⟨hmaskIde, hmaskRtr, hmaskXrtr, hmaskId, hmaskLow⟩ := bit_generateForMask mask.value ide
  rw [matches_iff_bits]
  show (∀ k < 32, bit (generateForMask mask.value ide) k = false →
    bit data k = bit (frameMetadata id.value ide rtr) k) ↔ _
  constructor
  · intro h
    have hide : getIde data = ide := by
      rw [getIde_eq, h 19 (by decide) hmaskIde, ← getIde_eq, getIde_frameMetadata]
    refine ⟨hide.symm, ?_, ?_⟩
    · rw [getRTR_eq, hide]
      cases ide with
      | false => exact ((h 20 (by decide) hmaskRtr).trans (bit_frameMetadata_rtr ..)).symm
      | true => exact ((h 0 (by decide) hmaskXrtr).trans (bit_frameMetadata_xrtr ..)).symm
    · intro k hk
      rw [bit_getId, hide]
      by_cases hlength : k < idLength ide
      · rw [decide_eq_true hlength, Bool.true_and,
          h _ (place_lt hlength) ((hmaskId k hlength).trans hk), bit_frameMetadata_place _ _ hlength]
      · rw [decide_eq_false hlength, Bool.false_and, id.bit_eq_false (Nat.not_lt.mp hlength)]
  · rintro ⟨rfl, rfl, hid⟩ i hi hmask
    obtain rfl | rfl | rfl | ⟨hbasic, k, hk, rfl⟩ | ⟨k, hk, rfl⟩ := place_cases (getIde data) hi
    · have hide : getIde data = true := by
        rw [hmask] at hmaskXrtr
        simpa using hmaskXrtr.symm
      rw [bit_frameMetadata_xrtr, getRTR_eq, hide]
      rfl
    · rw [← getIde_eq, ← getIde_eq, getIde_frameMetadata]
    · rw [bit_frameMetadata_rtr]
      cases hide : getIde data with
      | false =>
        rw [getRTR_eq, hide]
        rfl
      | true => exact hsrr hide
    · rw [hmaskLow hbasic k hk] at hmask
      cases hmask
    · have hbit := hid k ((hmaskId k hk).symm.trans hmask)
      rw [bit_getId, decide_eq_true hk, Bool.true_and] at hbit
      rw [bit_frameMetadata_place _ _ hk, hbit]

theorem registers_eq (metadata : UInt32) :
    registerMetadata (getId0Value metadata) (getId1Value metadata) = metadata := by
  apply UInt32.toNat_inj.mp
  have hlt := metadata.toNat_lt
  have hshift : (metadata >>> 16).toNat = metadata.toNat >>> 16 := UInt32.toNat_shiftRight ..
  rw [toNat_registerMetadata, getId1Value, getId0Value, UInt32.toNat_toUInt16, UInt32.toNat_toUInt16,
    hshift, Nat.shiftRight_eq_div_pow]
  omega

end Matching

/-- A filter matches a frame exactly if the flags are the same and the ids agree in all bits
that its mask does not set. From its metadata, and from the two registers that this is written
to, everything is read back as it has been put in. -/
theorem filter_semantics {O : Type} (owner : O) {ide ide' : Bool} (id mask : CanId ide)
    (id' : CanId ide') (rtr rtr' : Bool) :
    registerMetadata (getId0Value (frameMetadata id'.value ide' rtr'))
        (getId1Value (frameMetadata id'.value ide' rtr')) = frameMetadata id'.value ide' rtr' ∧
      ((canFilter id.value mask.value ide rtr owner).matches (frameMetadata id'.value ide' rtr') = true ↔
        ide = ide' ∧ rtr = rtr' ∧
          ∀ k, bit mask.value k = false → bit id.value k = bit id'.value k) ∧
      getId (frameMetadata id'.value ide' rtr') = id'.value ∧
      getIde (frameMetadata id'.value ide' rtr') = ide' ∧
      getRTR (frameMetadata id'.value ide' rtr') = rtr' := by
  have hsrr : getIde (frameMetadata id'.value ide' rtr') = true →
      bit (frameMetadata id'.value ide' rtr') 20 = true := by
    intro hide
    rw [getIde_frameMetadata] at hide
    rw [bit_frameMetadata_rtr, hide, Bool.true_or]
  have hmatches := matches_iff id mask rtr owner hsrr
  rw [getId_frameMetadata, getIde_frameMetadata, getRTR_frameMetadata] at hmatches
  exact ⟨registers_eq _, hmatches, getId_frameMetadata id' rtr', getIde_frameMetadata ..,
    getRTR_frameMetadata ..⟩

example : (canFilter 0x120 0x00f true false ()).matches (frameMetadata 0x12c true false) = true ∧
    (canFilter 0x120 0x00f true false ()).matches (frameMetadata 0x130 true false) = false := by
  decide

end Rodos.CanFilters
