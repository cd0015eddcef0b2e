import Mathlib

namespace Rodos.ShiftRegister

variable {w : Nat}

/-- One bit comes into a register that is fed back where the generator has a bit. -/
def step (generator v : BitVec w) (b : Bool) : BitVec w :=
  if v.msb ^^ b then v <<< 1 ^^^ generator else v <<< 1

def run (generator v : BitVec w) (bits : List Bool) : BitVec w := bits.foldl (step generator) v

def flips (as bs : List Bool) : List Bool := List.zipWith xor as bs

section Linear

variable (generator : BitVec w)

theorem step_xor (u v : BitVec w) (a b : Bool) :
    step generator (u ^^^ v) (a ^^ b) = step generator u a ^^^ step generator v b := by
  have hbit : ((u ^^^ v).msb ^^ (a ^^ b)) = ((u.msb ^^ a) ^^ (v.msb ^^ b)) := by
    rw [BitVec.msb_xor]
    cases u.msb <;> cases v.msb <;> cases a <;> cases b <;> rfl
  have hself : generator ^^^ generator = 0#w := BitVec.xor_self
  unfold step
  rw [hbit, BitVec.shiftLeft_xor_distrib]
  cases u.msb ^^ a <;> cases v.msb ^^ b
  · rfl
  · exact BitVec.xor_assoc _ _ _
  · simp only [Bool.xor_false, if_true, Bool.false_eq_true, if_false]
    rw [BitVec.xor_assoc, BitVec.xor_assoc, BitVec.xor_comm generator]
  · simp only [Bool.xor_self, Bool.false_eq_true, if_false, if_true]
    rw [BitVec.xor_assoc, BitVec.xor_comm generator, BitVec.xor_assoc, hself, BitVec.xor_zero]

theorem run_append (v : BitVec w) (as bs : List Bool) :
    run generator v (as ++ bs) = run generator (run generator v as) bs := List.foldl_append

theorem run_flips (u v : BitVec w) {as bs : List Bool} (hlength : as.length = bs.length) :
    run generator (u ^^^ v) (flips as bs) = run generator u as ^^^ run generator v bs := by
  induction as generalizing u v bs with
  | nil =>
    cases bs with
    | nil => rfl
    | cons b bs => cases hlength
  | cons a as ih =>
    cases bs with
    | nil => cases hlength
    | cons b bs =>
      have hrest := ih (step generator u a) (step generator v b) (Nat.succ.inj hlength)
      rw [← step_xor] at hrest
      exact hrest

theorem run_zero (n : Nat) : run generator 0#w (List.replicate n false) = 0#w := by
  induction n with
  | zero => rfl
  | succ n ih =>
    have hstep : step generator 0#w false = 0#w := by simp [step]
    rw [List.replicate_succ, run, List.foldl_cons, hstep]
    exact ih

/-- The bits that go out of a register, if they also come in, leave it without feedback. -/
theorem run_own (v : BitVec w) (n : Nat) :
    run generator v ((List.range n).map v.getMsbD) = v <<< n := by
  induction n with
  | zero => exact (BitVec.shiftLeft_zero v).symm
  | succ n ih =>
    have hbit : ((v <<< n).msb ^^ v.getMsbD n) = false := by
      simp [BitVec.msb_eq_getMsbD_zero, BitVec.getMsbD_shiftLeft]
    rw [List.range_succ, List.map_append, run_append, ih]
    change step generator (v <<< n) (v.getMsbD n) = _
    rw [step, hbit, if_neg Bool.false_ne_true, BitVec.shiftLeft_add]

theorem flips_flips {as bs : List Bool} (hlength : as.length = bs.length) :
    flips as (flips as bs) = bs := by
  induction as generalizing bs with
  | nil =>
    cases bs with
    | nil => rfl
    | cons b bs => cases hlength
  | cons a as ih =>
    cases bs with
    | nil => cases hlength
    | cons b bs =>
      change (a ^^ (a ^^ b)) :: flips as (flips as bs) = b :: bs
      rw [ih (Nat.succ.inj hlength), ← Bool.xor_assoc, Bool.xor_self, Bool.false_xor]

/-- Several steps at once: a shift, and what a register of zeros makes of the bits that are fed
back. -/
theorem run_eq (v : BitVec w) (bits : List Bool) :
    run generator v bits = v <<< bits.length ^^^
      run generator 0#w (flips ((List.range bits.length).map v.getMsbD) bits) := by
  have hown : ((List.range bits.length).map v.getMsbD).length = bits.length := by
    rw [List.length_map, List.length_range]
  have hlength : ((List.range bits.length).map v.getMsbD).length =
      (flips ((List.range bits.length).map v.getMsbD) bits).length := by
    rw [flips, List.length_zipWith, hown, Nat.min_self]
  have hsplit := run_flips generator v 0#w hlength
  rwa [flips_flips hown, BitVec.xor_zero, run_own] at hsplit

end Linear

theorem eq_zeros {bits : List Bool} (h : true ∉ bits) :
    bits = List.replicate bits.length false := by
  refine List.eq_replicate_iff.mpr ⟨rfl, fun b hb => ?_⟩
  cases b with
  | false => rfl
  | true => exact absurd hb h

section Detection

variable {generator : BitVec w} (hlow : generator.getLsbD 0 = true)
include hlow

theorem getLsbD_step (v : BitVec w) (b : Bool) :
    (step generator v b).getLsbD 0 = (v.msb ^^ b) := by
  have hw : 0 < w := by
    by_contra hzero
    rw [BitVec.getLsbD_of_ge _ _ (by omega)] at hlow
    cases hlow
  rw [step]
  cases hbit : v.msb ^^ b with
  | true => simp [hlow]
  | false => simp

theorem step_ne_zero {v : BitVec w} (hv : v ≠ 0#w) : step generator v false ≠ 0#w := by
  intro hstep
  have hbit := getLsbD_step hlow v false
  rw [hstep, BitVec.getLsbD_zero, Bool.xor_false] at hbit
  rw [step, ← hbit] at hstep
  apply hv
  apply BitVec.eq_of_getLsbD_eq
  intro i hi
  by_cases hlast : i + 1 < w
  · have hshift := congrArg (fun u : BitVec w => u.getLsbD (i + 1)) hstep
    simpa [hlast, hi] using hshift
  · have hmsb : v.msb = v.getLsbD i := by
      rw [BitVec.msb_eq_getLsbD_last, show w - 1 = i by omega]
    rw [← hmsb, ← hbit, BitVec.getLsbD_zero]

/-- Bits without errors do not hide those before them. -/
theorem run_ne_zero {v : BitVec w} (hv : v ≠ 0#w) (n : Nat) :
    run generator v (List.replicate n false) ≠ 0#w := by
  induction n generalizing v with
  | zero => exact hv
  | succ n ih => exact ih (step_ne_zero hlow hv)

/-- If the register ends with zeros in its low places, then it has not been fed back, and what
came in is what went out. -/
theorem run_low {bits : List Bool} (hwidth : bits.length ≤ w) (v : BitVec w)
    (hzero : ∀ i < bits.length, (run generator v bits).getLsbD i = false) :
    run generator v bits = v <<< bits.length ∧
      ∀ i, (h : i < bits.length) → bits[i] = v.getMsbD i := by
  induction bits generalizing v with
  | nil => exact ⟨(BitVec.shiftLeft_zero v).symm, fun i h => absurd h (Nat.not_lt_zero i)⟩
  | cons b bits ih =>
    rw [List.length_cons] at hwidth hzero
    obtain ⟨hrun, hbits⟩ := ih (Nat.le_of_succ_le hwidth) (step generator v b)
      fun i hi => hzero i (Nat.lt_succ_of_lt hi)
    have hfirst : (v.msb ^^ b) = false := by
      rw [← getLsbD_step hlow v b, ← hzero bits.length (Nat.lt_succ_self _)]
      change _ = (run generator (step generator v b) bits).getLsbD bits.length
      rw [hrun]
      simp [show bits.length < w by omega, BitVec.getLsbD_eq_getElem (show 0 < w by omega)]
    have hstep : step generator v b = v <<< 1 := by rw [step, hfirst, if_neg Bool.false_ne_true]
    rw [hstep] at hrun hbits
    refine ⟨?_, fun i hi => ?_⟩
    · change run generator (step generator v b) bits = _
      rw [hstep, hrun, ← BitVec.shiftLeft_add, Nat.add_comm, List.length_cons]
    · cases i with
      | zero =>
        rw [List.getElem_cons_zero]
        have hmsb : v.getMsbD 0 = v.msb := rfl
        rw [hmsb]
        cases hb : b <;> cases hv : v.msb <;> simp [hb, hv] at hfirst ⊢
      | succ i =>
        rw [List.getElem_cons_succ, hbits i (Nat.lt_of_succ_lt_succ hi)]
        simp [BitVec.getMsbD_shiftLeft]

theorem burst_ne_zero {bits : List Bool} (hwidth : bits.length ≤ w) (herror : true ∈ bits) :
    run generator 0#w bits ≠ 0#w := by
  intro hzero
  obtain ⟨i, hi, hbit⟩ := List.getElem_of_mem herror
  have hnone := (run_low hlow hwidth 0#w fun k _ => by rw [hzero, BitVec.getLsbD_zero]).2 i hi
  rw [hbit, BitVec.getMsbD_zero] at hnone
  cases hnone

theorem run_errors_ne_zero {before burst after : List Bool} (hbefore : true ∉ before)
    (hwidth : burst.length ≤ w) (herror : true ∈ burst) (hafter : true ∉ after) :
    run generator 0#w (before ++ (burst ++ after)) ≠ 0#w := by
  rw [eq_zeros hbefore, eq_zeros hafter, run_append, run_zero, run_append]
  exact run_ne_zero hlow (burst_ne_zero hlow hwidth herror) after.length

theorem run_ne {as bs : List Bool} (hlength : as.length = bs.length) (hne : as ≠ bs) {start : Nat}
    (hburst : ∀ i, as[i]? ≠ bs[i]? → start ≤ i ∧ i < start + w) (v : BitVec w) :
    run generator v as ≠ run generator v bs := by
  have hflips : (flips as bs).length = as.length := by
    rw [flips, List.length_zipWith, hlength, Nat.min_self]
  have hflip : ∀ i (hi : i < (flips as bs).length), (flips as bs)[i] = true ↔ as[i]? ≠ bs[i]? := by
    intro i hi
    have has : i < as.length := hflips ▸ hi
    have hbs : i < bs.length := hlength ▸ has
    simp only [flips, List.getElem_zipWith, List.getElem?_eq_getElem has,
      List.getElem?_eq_getElem hbs, ne_eq, Option.some.injEq]
    cases as[i] <;> cases bs[i] <;> simp
  have hbefore : true ∉ (flips as bs).take start := by
    intro hmem
    obtain ⟨i, hi, hbit⟩ := List.getElem_of_mem hmem
    rw [List.length_take, Nat.lt_min] at hi
    rw [List.getElem_take, hflip i hi.2] at hbit
    exact absurd hi.1 (Nat.not_lt.mpr (hburst i hbit).1)
  have hafter : true ∉ ((flips as bs).drop start).drop w := by
    rw [List.drop_drop]
    intro hmem
    obtain ⟨i, hi, hbit⟩ := List.getElem_of_mem hmem
    rw [List.length_drop] at hi
    rw [List.getElem_drop, hflip _ (by omega)] at hbit
    have hend := (hburst _ hbit).2
    omega
  have herror : true ∈ ((flips as bs).drop start).take w := by
    obtain ⟨i, hi⟩ : ∃ i, as[i]? ≠ bs[i]? := by
      by_contra hsame
      exact hne (List.ext_getElem? fun i => not_not.mp (not_exists.mp hsame i))
    have hlt : i < (flips as bs).length := by
      by_contra hend
      rw [List.getElem?_eq_none (by omega), List.getElem?_eq_none (by omega)] at hi
      exact hi rfl
    obtain ⟨hstart, hend⟩ := hburst i hi
    refine List.mem_iff_getElem.mpr ⟨i - start, ?_, ?_⟩
    · rw [List.length_take, List.length_drop]
      omega
    · rw [List.getElem_take, List.getElem_drop, hflip _ (by omega), Nat.add_sub_cancel' hstart]
      exact hi
  intro hsame
  have hxor := run_flips generator v v hlength
  rw [hsame, BitVec.xor_self, BitVec.xor_self, ← List.take_append_drop start (flips as bs),
    ← List.take_append_drop w ((flips as bs).drop start)] at hxor
  exact run_errors_ne_zero hlow hbefore (List.length_take_le _ _) herror hafter hxor

end Detection

end Rodos.ShiftRegister
