import Rodos.BitFields

namespace Rodos.BitFieldGenerator

open ByteMemory BitMemory

def maxFields : Nat := 200

/-- A line of the generated functions, by what it accesses in the buffer. -/
inductive Line
  | byte (index : Nat)
  | uint16 (index : Nat)
  | uint32 (index : Nat)
  | bitField (bitPos numOfBits : Nat)

def line (bitCnt numOfBits : Nat) : Line :=
  if numOfBits = 8 ∧ bitCnt % 8 = 0 then .byte (bitCnt / 8)
  else if numOfBits = 16 ∧ bitCnt % 8 = 0 then .uint16 (bitCnt / 8)
  else if numOfBits = 32 ∧ bitCnt % 8 = 0 then .uint32 (bitCnt / 8)
  else .bitField bitCnt numOfBits

def memberBits (numOfBits : Nat) : Nat :=
  if numOfBits ≤ 8 then 8 else if numOfBits ≤ 16 then 16 else 32

def lines : Nat → List Nat → List (Line × Nat)
  | _, [] => []
  | bitCnt, numOfBits :: fields =>
    (line bitCnt numOfBits, memberBits numOfBits) :: lines (bitCnt + numOfBits) fields

/-- The generated class. Both functions access the same places in the same order. -/
structure Generated where
  headerSize : Nat
  lines : List (Line × Nat)
  returned : Nat

def generate (fields : List Nat) : Generated :=
  let field := fields.take maxFields
  let totalLen := field.sum
  ⟨totalLen / 8, lines 0 field, (totalLen + 7) / 8⟩

def shifts (bitPos numOfBits : Nat) : Nat := (24 + 256 - (bitPos % 8 + numOfBits)) % 256

/-- An uint32 can be shifted by less than 32 only. -/
def setBitField (buf : Nat → UInt8) (bitPos numOfBits val : Nat) : Option (Nat → UInt8) :=
  if shifts bitPos numOfBits < 32 then some (BitFields.setBitField buf bitPos numOfBits val) else none

def getBitField (buf : Nat → UInt8) (bitPos numOfBits : Nat) : Option Nat :=
  if shifts bitPos numOfBits < 32 then some (BitFields.getBitField buf bitPos numOfBits) else none

def store (buf : Nat → UInt8) (val : Nat) : Line → Option (Nat → UInt8)
  | .byte index => some (write buf index [UInt8.ofNat val])
  | .uint16 index => some (write buf index (toBigEndian 2 val))
  | .uint32 index => some (write buf index (toBigEndian 4 val))
  | .bitField bitPos numOfBits => setBitField buf bitPos numOfBits val

def load (buf : Nat → UInt8) (member : Nat) : Line → Option Nat
  | .byte index => some (buf index).toNat
  | .uint16 index => some (ofBigEndian (read buf index 2))
  | .uint32 index => some (ofBigEndian (read buf index 4))
  | .bitField bitPos numOfBits => (getBitField buf bitPos numOfBits).map (· % 2 ^ member)

/-- Execute the generated lines. There is no result if one of them is not defined. -/
def serialize : List (Line × Nat) → List Nat → (Nat → UInt8) → Option (Nat → UInt8)
  | (line, _) :: lines, val :: values, buf => (store buf val line).bind (serialize lines values)
  | _, _, buf => some buf

def deserialize : List (Line × Nat) → (Nat → UInt8) → Option (List Nat)
  | [], _ => some []
  | (line, member) :: lines, buf => do
    let val ← load buf member line
    let values ← deserialize lines buf
    pure (val :: values)

structure Serialized (fields values : List Nat) (buf buf' : Nat → UInt8) : Prop where
  roundTrip : deserialize (generate fields).lines buf' =
    some (fields.zipWith (fun numOfBits val => val % 2 ^ numOfBits) values)
  layout : getFields buf' 0 fields =
    fields.zipWith (fun numOfBits val => val % 2 ^ numOfBits) values
  outside : ∀ i, (generate fields).headerSize ≤ i → buf' i = buf i
  returned : (generate fields).returned = (generate fields).headerSize

def RoundTrips (fields : List Nat) : Prop :=
  ∀ (values : List Nat) (buf : Nat → UInt8), values.length = fields.length →
    ∃ buf', serialize (generate fields).lines values buf = some buf' ∧
      Serialized fields values buf buf'

/-- The field is a whole word, or it ends in the third byte that it touches at the latest. -/
def Fits (bitCnt numOfBits : Nat) : Prop :=
  bitCnt % 8 = 0 ∧ numOfBits = 32 ∨ bitCnt % 8 + numOfBits ≤ 24

instance (bitCnt numOfBits : Nat) : Decidable (Fits bitCnt numOfBits) :=
  inferInstanceAs (Decidable (_ ∨ _))

def AllFit : Nat → List Nat → Prop
  | _, [] => True
  | bitCnt, numOfBits :: fields => Fits bitCnt numOfBits ∧ AllFit (bitCnt + numOfBits) fields

def decidableAllFit : (bitCnt : Nat) → (fields : List Nat) → Decidable (AllFit bitCnt fields)
  | _, [] => .isTrue trivial
  | bitCnt, numOfBits :: fields =>
    have := decidableAllFit (bitCnt + numOfBits) fields
    inferInstanceAs (Decidable (Fits bitCnt numOfBits ∧ AllFit (bitCnt + numOfBits) fields))

instance (bitCnt : Nat) (fields : List Nat) : Decidable (AllFit bitCnt fields) :=
  decidableAllFit bitCnt fields

section Lines

variable {bitCnt numOfBits : Nat}

theorem shifts_lt (h : numOfBits ≤ 32) :
    shifts bitCnt numOfBits < 32 ↔ bitCnt % 8 + numOfBits ≤ 24 := by
  rw [shifts]
  omega

theorem le_memberBits (h : numOfBits ≤ 32) : numOfBits ≤ memberBits numOfBits := by
  rw [memberBits]
  split_ifs <;> omega

theorem eight_mul_div (haligned : bitCnt % 8 = 0) : 8 * (bitCnt / 8) = bitCnt := by omega

theorem store_line (h : numOfBits ≤ 32) (buf : Nat → UInt8) (val : Nat) :
    store buf val (line bitCnt numOfBits) =
      if Fits bitCnt numOfBits then some (setBits buf bitCnt numOfBits val) else none := by
  rw [line]
  split
  · rename_i hbyte
    obtain ⟨rfl, haligned⟩ := hbyte
    rw [if_pos (.inr (by omega)), store, write_byte, eight_mul_div haligned]
  split
  · rename_i hword
    obtain ⟨rfl, haligned⟩ := hword
    rw [if_pos (.inr (by omega)), store, write_toBigEndian, eight_mul_div haligned]
  split
  · rename_i hlong
    obtain ⟨rfl, haligned⟩ := hlong
    rw [if_pos (.inl ⟨haligned, rfl⟩), store, write_toBigEndian, eight_mul_div haligned]
  · rename_i hlong
    rw [store, setBitField]
    by_cases hspan : bitCnt % 8 + numOfBits ≤ 24
    · rw [if_pos ((shifts_lt h).mpr hspan), if_pos (.inr hspan),
        BitFields.setBitField_eq_of_span buf bitCnt val hspan]
    · have hfits : ¬Fits bitCnt numOfBits := by
        rintro (⟨haligned, hwhole⟩ | hends)
        · exact hlong ⟨hwhole, haligned⟩
        · exact hspan hends
      rw [if_neg ((shifts_lt h).not.mpr hspan), if_neg hfits]

theorem load_line (h : numOfBits ≤ 32) (hfits : Fits bitCnt numOfBits) (buf : Nat → UInt8) :
    load buf (memberBits numOfBits) (line bitCnt numOfBits) = some (getBits buf bitCnt numOfBits) := by
  rw [line]
  split_ifs with hbyte hword hlong
  · obtain ⟨rfl, haligned⟩ := hbyte
    have hone := ofBigEndian_read buf (bitCnt / 8) 1
    rw [eight_mul_div haligned] at hone
    rw [load, ← hone]
    simp [ByteMemory.read, ofBigEndian]
  · obtain ⟨rfl, haligned⟩ := hword
    rw [load, ofBigEndian_read, eight_mul_div haligned]
  · obtain ⟨rfl, haligned⟩ := hlong
    rw [load, ofBigEndian_read, eight_mul_div haligned]
  · have hspan : bitCnt % 8 + numOfBits ≤ 24 := hfits.resolve_left fun hw => hlong ⟨hw.2, hw.1⟩
    have hlt : getBits buf bitCnt numOfBits < 2 ^ memberBits numOfBits :=
      (getBits_lt buf bitCnt numOfBits).trans_le
        (Nat.pow_le_pow_right (by decide) (le_memberBits h))
    rw [load, getBitField, if_pos ((shifts_lt h).mpr hspan), Option.map_some,
      BitFields.getBitField_eq_of_span buf bitCnt hspan, Nat.mod_eq_of_lt hlt]

end Lines

section Functions

variable {bitCnt : Nat} {fields values : List Nat}

theorem serialize_lines (hbits : ∀ n ∈ fields, n ≤ 32) (hfit : AllFit bitCnt fields)
    (hlength : values.length = fields.length) (buf : Nat → UInt8) :
    serialize (lines bitCnt fields) values buf =
      some (setFields buf bitCnt (fields.zip values)) := by
  induction fields generalizing bitCnt values buf with
  | nil => rfl
  | cons n fields ih =>
    rw [List.forall_mem_cons] at hbits
    cases values with
    | nil => cases hlength
    | cons val values =>
      rw [lines, serialize, store_line hbits.1, if_pos hfit.1, Option.bind_some,
        ih hbits.2 hfit.2 (Nat.succ.inj hlength)]
      rfl

theorem allFit_of_serialize (hbits : ∀ n ∈ fields, n ≤ 32)
    (hlength : values.length = fields.length) {buf buf' : Nat → UInt8}
    (h : serialize (lines bitCnt fields) values buf = some buf') : AllFit bitCnt fields := by
  induction fields generalizing bitCnt values buf with
  | nil => trivial
  | cons n fields ih =>
    rw [List.forall_mem_cons] at hbits
    cases values with
    | nil => cases hlength
    | cons val values =>
      rw [lines, serialize, store_line hbits.1] at h
      by_cases hfits : Fits bitCnt n
      · rw [if_pos hfits, Option.bind_some] at h
        exact ⟨hfits, ih hbits.2 (Nat.succ.inj hlength) h⟩
      · rw [if_neg hfits] at h
        cases h

theorem deserialize_lines (hbits : ∀ n ∈ fields, n ≤ 32) (hfit : AllFit bitCnt fields)
    (buf : Nat → UInt8) :
    deserialize (lines bitCnt fields) buf = some (getFields buf bitCnt fields) := by
  induction fields generalizing bitCnt with
  | nil => rfl
  | cons n fields ih =>
    rw [List.forall_mem_cons] at hbits
    rw [lines, deserialize, load_line hbits.1 hfit.1, ih hbits.2 hfit.2]
    rfl

end Functions

/-- The generated functions work if and only if each field is a whole word or ends in the
third byte that it touches at the latest. -/
theorem generated_roundTrips_iff {fields : List Nat} (hcount : fields.length ≤ maxFields)
    (hbits : ∀ n ∈ fields, 1 ≤ n ∧ n ≤ 32) (hsum : 8 ∣ fields.sum) :
    RoundTrips fields ↔ AllFit 0 fields := by
  have hle : ∀ n ∈ fields, n ≤ 32 := fun n hn => (hbits n hn).2
  have hlines : (generate fields).lines = lines 0 fields := by
    rw [generate, List.take_of_length_le hcount]
  have hsize : (generate fields).headerSize = fields.sum / 8 := by
    rw [generate, List.take_of_length_le hcount]
  have hreturned : (generate fields).returned = (fields.sum + 7) / 8 := by
    rw [generate, List.take_of_length_le hcount]
  constructor
  · intro hround
    obtain ⟨buf', hserialize, _⟩ :=
      hround (List.replicate fields.length 0) (fun _ => 0) List.length_replicate
    rw [hlines] at hserialize
    exact allFit_of_serialize hle List.length_replicate hserialize
  · intro hfit values buf hlength
    have hwidths : (fields.zip values).map Prod.fst = fields := List.map_fst_zip hlength.ge
    have hlayout := getFields_setFields buf 0 (fields.zip values)
    rw [hwidths] at hlayout
    have htrimmed : ((fields.zip values).map fun field => field.2 % 2 ^ field.1) =
        fields.zipWith (fun n val => val % 2 ^ n) values := by
      rw [← List.map_uncurry_zip_eq_zipWith]
      rfl
    rw [htrimmed] at hlayout
    refine ⟨setFields buf 0 (fields.zip values), ?_, ?_, hlayout, ?_, ?_⟩
    · rw [hlines]
      exact serialize_lines hle hfit hlength buf
    · rw [hlines, deserialize_lines hle hfit, hlayout]
    · intro i hi
      rw [hsize] at hi
      refine byte_eq fun k hk => bit_setFields_outside buf (.inr ?_)
      rw [hwidths]
      omega
    · rw [hreturned, hsize]
      omega

/-- Fields of all four kinds. -/
theorem generated_roundTrips_iff_mixed : RoundTrips [3, 13, 8, 32, 17, 7] :=
  (generated_roundTrips_iff (by decide) (by decide) (by decide)).mpr (by decide)

/-- A field of 25 bits reaches into a fourth byte. -/
theorem not_roundTrips_long :
    (∀ n ∈ [25, 7], 1 ≤ n ∧ n ≤ 32) ∧ 8 ∣ [25, 7].sum ∧ ¬RoundTrips [25, 7] := by
  refine ⟨by decide, by decide, fun hround => ?_⟩
  obtain ⟨buf', hserialize, _⟩ := hround [0, 0] (fun _ => 0) rfl
  have hnone : serialize (generate [25, 7]).lines [0, 0] (fun _ => 0) = none := rfl
  rw [hnone] at hserialize
  cases hserialize

end Rodos.BitFieldGenerator
