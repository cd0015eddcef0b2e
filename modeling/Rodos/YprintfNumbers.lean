import Rodos.Yprintf

namespace Rodos.Yprintf

open AccessTrace Traced CString MachineInt

section Numerals

def glyphs : List Char :=
  ['0', '1', '2', '3', '4', '5', '6', '7', '8', '9', 'A', 'B', 'C', 'D', 'E', 'F']

def glyph (digit : Nat) : Char := glyphs.getD digit nul

theorem digitChar_eq {digit : Nat} (h : digit < 16) : digitChar digit = glyph digit := by
  revert digit
  decide

theorem glyph_ne_nul {digit : Nat} (h : digit < 16) : glyph digit ≠ nul := by
  revert digit
  decide

def digits (base n : Nat) : List Nat := if n = 0 then [0] else (Nat.digits base n).reverse

/-- The characters are digits in the base, from the highest one, they have got this value, and
a zero is the first only if it is all. -/
def Denotes (base : Nat) (s : List Char) (n : Nat) : Prop :=
  ∃ ds : List Nat, s = ds.map glyph ∧ ds ≠ [] ∧ (∀ d ∈ ds, d < base) ∧
    Nat.ofDigits base ds.reverse = n ∧ (ds.head? = some 0 → ds = [0])

variable {base : Nat} (hbase : 2 ≤ base) (n : Nat)
include hbase

theorem digits_succ : digits base n =
    (if n / base = 0 then [] else digits base (n / base)) ++ [n % base] := by
  obtain rfl | hn := Nat.eq_zero_or_pos n
  · simp [digits]
  · rw [digits, if_neg hn.ne', Nat.digits_def' hbase hn, List.reverse_cons]
    split
    · next hdiv => rw [hdiv, Nat.digits_zero, List.reverse_nil]
    · next hdiv => rw [digits, if_neg hdiv]

theorem lt_of_mem_digits {d : Nat} (hd : d ∈ digits base n) : d < base := by
  rw [digits] at hd
  split at hd
  · rw [List.mem_singleton.mp hd]
    exact Nat.lt_of_lt_of_le Nat.two_pos hbase
  · exact Nat.digits_lt_base hbase (List.mem_reverse.mp hd)

theorem length_digits_le_iff {k : Nat} (hk : 0 < k) :
    (digits base n).length ≤ k ↔ n < base ^ k := by
  rw [digits]
  split
  · next hn =>
    rw [hn]
    exact iff_of_true hk (Nat.pow_pos (Nat.lt_of_lt_of_le Nat.two_pos hbase))
  · rw [List.length_reverse, Nat.digits_length_le_iff hbase]

theorem length_digits_pos : 0 < (digits base n).length := by
  rw [digits_succ hbase, List.length_append]
  exact Nat.succ_pos _

theorem denotes_digits : Denotes base ((digits base n).map glyph) n := by
  refine ⟨digits base n, rfl, ?_, fun d hd => lt_of_mem_digits hbase n hd, ?_, ?_⟩
  · exact List.ne_nil_of_length_pos (length_digits_pos hbase n)
  · rw [digits]
    split
    · next hn => rw [hn, List.reverse_singleton, Nat.ofDigits_singleton]
    · rw [List.reverse_reverse, Nat.ofDigits_digits]
  · rw [digits]
    split
    · exact fun _ => rfl
    · next hn =>
      rw [List.head?_reverse]
      intro hlast
      have hne : Nat.digits base n ≠ [] := Nat.digits_ne_nil_iff_ne_zero.mpr hn
      rw [List.getLast?_eq_getLast_of_ne_nil hne] at hlast
      exact absurd (Option.some.inj hlast) (Nat.getLast_digit_ne_zero base hn)

end Numerals

section Loops

/-- From the pointer on there are these characters and a zero, which is the last cell. -/
structure Holds (size : Int) (scratch : Scratch) (out : List Char) : Prop where
  ptr : scratch.ptr = size - 1 - out.length
  chars : ∀ k, k ≤ out.length → (out ++ [nul])[k]? = some (scratch.chars (scratch.ptr + k))

def InArray (size i : Int) : Prop := 0 ≤ i ∧ i < size

def InScratch (i : Int) : Prop := 0 ≤ i ∧ i < SCRATCH_SIZE

variable {size : Int} {scratch : Scratch} {out : List Char}

theorem holds_init (size : Int) (memory : Int → Char) :
    Holds size (Scratch.push nul ⟨memory, size⟩).value [] := by
  constructor
  · rw [List.length_nil, Nat.cast_zero, Int.sub_zero]
    rfl
  · intro k hk
    obtain rfl := Nat.le_zero.mp hk
    simp [Scratch.push]

theorem holds_push (h : Holds size scratch out) (c : Char) :
    Holds size (scratch.push c).value (c :: out) := by
  have hptr : (scratch.push c).value.ptr = scratch.ptr - 1 := rfl
  refine ⟨?_, ?_⟩
  · rw [hptr, h.ptr, List.length_cons]
    omega
  · intro k hk
    rw [hptr]
    show _ = some (Function.update scratch.chars (scratch.ptr - 1) c _)
    cases k with
    | zero => simp
    | succ k =>
      have hk := h.chars k (Nat.le_of_succ_le_succ hk)
      rw [List.cons_append, List.getElem?_cons_succ, hk, Function.update_of_ne (by omega)]
      congr 2
      omega

theorem within_push (h : Holds size scratch out) (c : Char) :
    Within (InArray size) (scratch.push c) ↔ (out.length : Int) + 1 < size := by
  simp only [Scratch.push, within_bind, within_touch, within_pure, and_true, InArray, h.ptr]
  omega

theorem digitLoop_spec (conversion : Conversion) (u_val width : Nat) (h : Holds size scratch out) :
    (digitLoop conversion u_val width scratch).value.1 =
        width - (digits conversion.base u_val).length ∧
      Holds size (digitLoop conversion u_val width scratch).value.2
        ((digits conversion.base u_val).map glyph ++ out) ∧
      (Within (InArray size) (digitLoop conversion u_val width scratch) ↔
        ((digits conversion.base u_val).length : Int) + out.length < size) := by
  induction u_val using Nat.strong_induction_on generalizing width scratch out with
  | h u_val ih =>
    have hbase := conversion.two_le_base
    have hchar : digitChar (u_val % conversion.base) = glyph (u_val % conversion.base) :=
      digitChar_eq ((Nat.mod_lt _ (by omega)).trans_le conversion.base_le)
    have hpush := holds_push h (glyph (u_val % conversion.base))
    have hwithin := within_push h (glyph (u_val % conversion.base))
    have hwidth : (if width ≠ 0 then width - 1 else width) = width - 1 := by
      split <;> omega
    rw [digitLoop, digits_succ hbase u_val, hchar]
    simp only [value_bind, within_bind, hwithin, hwidth]
    by_cases hdiv : u_val / conversion.base = 0
    · simp only [hdiv, if_true, ne_eq, not_true_eq_false, if_false, value_pure, within_pure,
        and_true, List.nil_append, List.map_singleton, List.length_singleton]
      exact ⟨trivial, hpush, by omega⟩
    · have hlt : u_val / conversion.base < u_val := by
        apply Nat.div_lt_self _ hbase
        exact Nat.pos_of_ne_zero fun hzero => hdiv (by rw [hzero, Nat.zero_div])
      obtain ⟨hwidth', hholds, hrest⟩ := ih _ hlt (width - 1) hpush
      simp only [hdiv, if_false, ne_eq, not_false_eq_true, if_true, hwidth', hrest,
        List.length_append, List.length_nil, List.length_cons, List.map_append,
        List.map_singleton, List.append_assoc]
      exact ⟨by omega, hholds, by omega⟩

theorem padLoop_spec (fill : Char) (width : Nat) (h : Holds size scratch out) :
    Holds size (padLoop fill width scratch).value (List.replicate width fill ++ out) ∧
      (Within (InArray size) (padLoop fill width scratch) ↔
        width = 0 ∨ (width : Int) + out.length < size) := by
  induction width generalizing scratch out with
  | zero => exact ⟨h, iff_of_true (within_pure _) (.inl rfl)⟩
  | succ width ih =>
    obtain ⟨hholds, hwithin⟩ := ih (holds_push h fill)
    refine ⟨?_, ?_⟩
    · rw [padLoop, value_bind, List.replicate_succ', List.append_assoc]
      exact hholds
    · rw [padLoop, within_bind, within_push h, hwithin, List.length_cons]
      omega

theorem Holds.cell (h : Holds size scratch out) {front rest : List Char} (hout : out = front ++ rest) :
    (rest ++ [nul]).head? = some (scratch.chars (scratch.ptr + front.length)) := by
  have hcell := h.chars front.length (by rw [hout, List.length_append]; omega)
  rw [hout, List.append_assoc, List.getElem?_append_right le_rfl, Nat.sub_self] at hcell
  rw [List.head?_eq_getElem?, hcell]

theorem Holds.inArray (h : Holds size scratch out) {front rest : List Char} (hout : out = front ++ rest) :
    InArray size (scratch.ptr + front.length) ↔ (rest.length : Int) < size := by
  rw [h.ptr, hout, List.length_append, InArray]
  omega

theorem output_run (h : Holds size scratch out) (hnul : nul ∉ out) {front rest : List Char}
    (hout : out = front ++ rest) :
    (output scratch.chars (rest.length + 1) (scratch.ptr + front.length)).value = some rest ∧
      (Within (InArray size) (output scratch.chars (rest.length + 1) (scratch.ptr + front.length)) ↔
        (rest.length : Int) < size) := by
  have hcell := h.cell hout
  induction rest generalizing front with
  | nil =>
    have hzero : scratch.chars (scratch.ptr + front.length) = nul := (Option.some.inj hcell).symm
    simp only [output, value_bind, within_bind, within_touch, hzero, if_true, value_pure,
      within_pure, and_true, h.inArray hout]
  | cons c rest ih =>
    have hc : scratch.chars (scratch.ptr + front.length) = c := (Option.some.inj hcell).symm
    have hne : c ≠ nul := by
      rintro rfl
      exact hnul (hout ▸ List.mem_append_right _ List.mem_cons_self)
    have hstep : scratch.ptr + front.length + 1 = scratch.ptr + (front ++ [c]).length := by
      rw [List.length_append, List.length_singleton]
      omega
    have hout' : out = (front ++ [c]) ++ rest := by
      rw [hout, List.append_assoc, List.singleton_append]
    obtain ⟨hvalue, hwithin⟩ := ih hout' (h.cell hout')
    rw [List.length_cons, output]
    simp only [value_bind, within_bind, within_touch, h.inArray hout, List.length_cons, hc, if_neg hne, hstep, hvalue,
      hwithin, value_pure, within_pure, Option.map_some, and_true, true_and]
    omega

theorem Holds.length (h : Holds size scratch out) : (size - scratch.ptr).toNat = out.length + 1 := by
  rw [h.ptr]
  omega

theorem output_spec (h : Holds size scratch out) (hnul : nul ∉ out) :
    (output scratch.chars (size - scratch.ptr).toNat scratch.ptr).value = some out ∧
      (Within (InArray size) (output scratch.chars (size - scratch.ptr).toNat scratch.ptr) ↔
        (out.length : Int) < size) := by
  have hrun := output_run h hnul (List.nil_append out).symm
  rw [List.length_nil, Nat.cast_zero, Int.add_zero] at hrun
  rw [h.length]
  exact hrun

end Loops

section Numbers

variable {model : DataModel}

theorem Length.bits_le (length : Length) : length.bits model ≤ 64 := by
  cases length <;> cases model <;> decide

theorem is_signed_iff (conversion : Conversion) : conversion.is_signed = true ↔ conversion = .d := by
  cases conversion <;> decide

def magnitude (conversion : Conversion) {w : Nat} (v : BitVec w) : Nat :=
  if conversion.is_signed then v.toInt.natAbs else v.toNat

def sign (conversion : Conversion) (arg : Int) : List Char :=
  if conversion.is_signed && arg < 0 then ['-'] else []

theorem toInt_emod {w : Nat} (v : BitVec w) : v.toInt % 2 ^ w = v.toNat := by
  have hmod : Int.bmod v.toNat (2 ^ w) % (2 ^ w : Nat) = v.toNat % (2 ^ w : Nat) := Int.bmod_emod
  rw [← BitVec.toInt_eq_toNat_bmod, ← Int.natCast_mod, Nat.mod_eq_of_lt v.isLt] at hmod
  exact_mod_cast hmod

theorem int64_emod (x : Int) {w : Nat} (hw : w ≤ 64) : int64 x % 2 ^ w = x % 2 ^ w := by
  have hdvd : (2 ^ w : Int) ∣ 2 ^ 64 := pow_dvd_pow 2 hw
  rw [int64, ← Int.emod_emod_of_dvd _ hdvd, ← Int.emod_emod_of_dvd x hdvd]
  congr 1
  exact_mod_cast Int.bmod_emod

/-- Also for the lowest number of each type, which has got no positive counterpart. -/
theorem magnitude_eq (conversion : Conversion) {w : Nat} (hw : w ≤ 64) (v : BitVec w) :
    ((if conversion.is_signed && decide (v.toInt < 0) then int64 (-v.toInt) else v.toInt) %
      2 ^ w).toNat = magnitude conversion v := by
  rw [magnitude]
  cases hsigned : conversion.is_signed with
  | false => simp [toInt_emod]
  | true =>
    by_cases hneg : v.toInt < 0
    · have hlow : -2 ^ w ≤ 2 * v.toInt := BitVec.le_two_mul_toInt
      have habs : (v.toInt.natAbs : Int) = -v.toInt := Int.ofNat_natAbs_of_nonpos hneg.le
      simp only [hneg, decide_true, Bool.and_true, if_true]
      rw [int64_emod _ hw, ← habs, Int.emod_eq_of_lt (by omega) (by omega), Int.toNat_natCast]
    · have hnonneg := Int.not_lt.mp hneg
      have hhigh : 2 * v.toInt < 2 ^ w := BitVec.two_mul_toInt_lt
      simp only [hneg, decide_false, Bool.and_false, Bool.false_eq_true, if_false, if_true]
      rw [Int.emod_eq_of_lt hnonneg (by omega)]
      omega

theorem magnitude_lt (conversion : Conversion) {w : Nat} (hw : w ≤ 64) (v : BitVec w) :
    magnitude conversion v < 2 ^ 64 := by
  have hpow : 2 ^ w ≤ 2 ^ 64 := Nat.pow_le_pow_right Nat.two_pos hw
  have hunsigned := v.isLt
  rw [magnitude]
  split
  · have hlow : -2 ^ w ≤ 2 * v.toInt := BitVec.le_two_mul_toInt
    have hhigh : 2 * v.toInt < 2 ^ w := BitVec.two_mul_toInt_lt
    have hpow' : (2 ^ w : Int) ≤ 2 ^ 64 := by exact_mod_cast hpow
    omega
  · omega

/-- The digits have got room, except those of the base 2 from the 26th on. -/
theorem length_digits_le (conversion : Conversion) {n : Nat} (hn : n < 2 ^ 64) :
    (digits conversion.base n).length ≤ 25 ↔ (conversion = .b → n < 2 ^ 25) := by
  rw [length_digits_le_iff conversion.two_le_base n (by decide)]
  cases conversion <;> simp only [Conversion.base, reduceCtorEq, false_imp_iff, iff_true, true_imp_iff] <;>
    omega

def formatted (flags : Flags) (conversion : Conversion) {w : Nat} (v : BitVec w) : List Char :=
  sign conversion v.toInt ++
    (List.replicate (flags.width - (sign conversion v.toInt).length -
      (digits conversion.base (magnitude conversion v)).length) flags.fill ++
    (digits conversion.base (magnitude conversion v)).map glyph)

theorem nul_notMem {fill : Char} (hfill : fill ≠ nul) (k : Nat) (conversion : Conversion) (n : Nat) :
    nul ∉ List.replicate k fill ++ (digits conversion.base n).map glyph := by
  intro hmem
  obtain hmem | hmem := List.mem_append.mp hmem
  · exact hfill (List.eq_of_mem_replicate hmem).symm
  · obtain ⟨digit, hdigit, heq⟩ := List.mem_map.mp hmem
    have hlt := lt_of_mem_digits conversion.two_le_base n hdigit
    exact glyph_ne_nul (hlt.trans_le conversion.base_le) heq

variable (memory : Int → Char)

theorem number_spec (flags : Flags) (hfill : flags.fill ≠ nul) (hwidth : flags.width ≤ 9)
    {length : Length} (hlength : flags.length = length) (conversion : Conversion)
    (v : BitVec (length.bits model)) :
    (number model memory flags conversion v.toInt).value = some (formatted flags conversion v) ∧
      (Within InScratch (number model memory flags conversion v.toInt) ↔
        (conversion = .b → magnitude conversion v < 2 ^ 25)) := by
  subst hlength
  have hsign : (if (conversion.is_signed && decide (v.toInt < 0) && flags.width ≠ 0) = true then
      flags.width - 1 else flags.width) = flags.width - (sign conversion v.toInt).length := by
    rw [sign]
    split <;> split <;> simp_all
  have hscratch : InScratch = InArray SCRATCH_SIZE := rfl
  have hinit : Within (InArray SCRATCH_SIZE) (Scratch.push nul ⟨memory, SCRATCH_SIZE⟩) := by
    simp [Scratch.push, InArray, SCRATCH_SIZE]
  have hpos := length_digits_pos conversion.two_le_base (magnitude conversion v)
  have hlength := length_digits_le conversion (magnitude_lt conversion (Length.bits_le _) v)
  obtain ⟨hleft, hdigits, hloop⟩ := digitLoop_spec conversion (magnitude conversion v)
    (flags.width - (sign conversion v.toInt).length) (holds_init SCRATCH_SIZE memory)
  rw [List.append_nil] at hdigits
  obtain ⟨hholds, hpad⟩ := padLoop_spec flags.fill (flags.width - (sign conversion v.toInt).length -
    (digits conversion.base (magnitude conversion v)).length) hdigits
  obtain ⟨hvalue, hread⟩ := output_spec hholds (nul_notMem hfill _ _ _)
  rw [number, hscratch]
  simp only [value_bind, within_bind, magnitude_eq conversion (Length.bits_le _) v, hsign, hleft,
    hvalue, hinit, hloop, hpad, hread, value_pure, within_pure, true_and, and_true]
  refine ⟨rfl, ?_⟩
  rw [← hlength, SCRATCH_SIZE]
  simp only [List.length_append, List.length_replicate, List.length_map, List.length_nil]
  omega

end Numbers

end Rodos.Yprintf
