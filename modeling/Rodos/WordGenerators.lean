import Mathlib

namespace Rodos.WordGenerators

open Function

theorem injective_of_minimalPeriod_pos {S : Type*} {f : S → S} (h : ∀ s, 0 < minimalPeriod f s) :
    Injective f := by
  intro s t hst
  have hperiodic : ∀ s, s ∈ periodicPts f := fun s =>
    minimalPeriod_pos_iff_mem_periodicPts.mp (h s)
  exact (bijOn_periodicPts f).injOn (hperiodic s) (hperiodic t) hst

section LinearCongruential

variable {R : Type*} [CommRing R]

def congruential (a c x : R) : R := a * x + c

/-- What `2 ^ n` steps add is `2 ^ n` times something odd. -/
theorem iterate_two_pow (p q : R) (n : Nat) :
    ∃ k m : R, ∀ x, (congruential (1 + 4 * p) (1 + 2 * q))^[2 ^ n] x =
      x + 2 ^ n * (4 * k * x + (1 + 2 * m)) := by
  induction n with
  | zero =>
    refine ⟨p, q, ?_⟩
    intro x
    rw [pow_zero, iterate_one, congruential]
    ring
  | succ n ih =>
    obtain ⟨k, m, h⟩ := ih
    refine ⟨k + 2 ^ (n + 1) * k ^ 2, m + 2 ^ n * k * (1 + 2 * m), ?_⟩
    intro x
    rw [pow_succ 2 n, mul_two, iterate_add_apply, h, h]
    ring

variable {n : Nat}

/-- The period is as long as it can be if two to the power of the word length is the first
power that vanishes. -/
theorem minimalPeriod_congruential (hn : (2 : R) ^ n ≠ 0) (hzero : (2 : R) ^ (n + 1) = 0)
    (p q x : R) :
    minimalPeriod (congruential (1 + 4 * p) (1 + 2 * q)) x = 2 ^ (n + 1) := by
  have hprime : Fact (Nat.Prime 2) := ⟨Nat.prime_two⟩
  apply minimalPeriod_eq_prime_pow
  · intro hperiodic
    obtain ⟨k, m, h⟩ := iterate_two_pow p q n
    have hfixed := (h x).symm.trans hperiodic
    rw [pow_succ] at hzero
    apply hn
    linear_combination hfixed - (2 * k * x + m) * hzero
  · obtain ⟨k, m, h⟩ := iterate_two_pow p q (n + 1)
    refine (h x).trans ?_
    rw [hzero, zero_mul, add_zero]

end LinearCongruential

section XorShift

variable {w k : Nat}

theorem xor_shiftLeft_injective (hk : 0 < k) :
    Injective (fun y : BitVec w => y ^^^ y <<< k) := by
  intro y y' h
  have hbit : ∀ i < w, y.getLsbD i = y'.getLsbD i := by
    intro i
    induction i using Nat.strong_induction_on with
    | _ i ih =>
      intro hi
      have hi' := congrArg (fun v : BitVec w => v.getLsbD i) h
      simp only [BitVec.getLsbD_xor, BitVec.getLsbD_shiftLeft, hi, decide_true,
        Bool.true_and] at hi'
      by_cases hlow : i < k
      · simpa [hlow] using hi'
      · have hback := ih (i - k) (by omega) (by omega)
        rw [hback] at hi'
        exact Bool.xor_left_inj.mp hi'
  apply BitVec.eq_of_getLsbD_eq
  exact hbit

theorem xor_ushiftRight_injective (hk : 0 < k) :
    Injective (fun y : BitVec w => y ^^^ y >>> k) := by
  intro y y' h
  have hbit : ∀ d i, w ≤ i + d → y.getLsbD i = y'.getLsbD i := by
    intro d
    induction d with
    | zero =>
      intro i hi
      rw [BitVec.getLsbD_of_ge y i hi, BitVec.getLsbD_of_ge y' i hi]
    | succ d ih =>
      intro i hi
      have hi' := congrArg (fun v : BitVec w => v.getLsbD i) h
      simp only [BitVec.getLsbD_xor, BitVec.getLsbD_ushiftRight] at hi'
      rw [ih (k + i) (by omega)] at hi'
      exact Bool.xor_left_inj.mp hi'
  apply BitVec.eq_of_getLsbD_eq
  intro i _
  exact hbit w i (Nat.le_add_left w i)

end XorShift

section MultiplyWithCarry

def multiplyWithCarry (a b : Nat) (s : Nat × Nat) : Nat × Nat :=
  ((a * s.1 + s.2) % b, (a * s.1 + s.2) / b)

def Carried (a b : Nat) (s : Nat × Nat) : Prop := s.1 < b ∧ s.2 < a

variable {a b : Nat} {s : Nat × Nat}

theorem Carried.next (h : Carried a b s) : Carried a b (multiplyWithCarry a b s) := by
  obtain ⟨hz, hc⟩ := h
  have hpos : 0 < b := Nat.zero_lt_of_lt hz
  refine ⟨Nat.mod_lt _ hpos, ?_⟩
  apply Nat.div_lt_of_lt_mul
  have hz' : a * s.1 + a ≤ a * b := by
    rw [← Nat.mul_succ]
    exact Nat.mul_le_mul_left a hz
  rw [Nat.mul_comm b a]
  omega

theorem multiplyWithCarry_injOn (a b : Nat) :
    Set.InjOn (multiplyWithCarry a b) {s | Carried a b s} := by
  intro s hs t ht h
  obtain ⟨hmod, hdiv⟩ := Prod.mk.inj h
  have hsum : a * s.1 + s.2 = a * t.1 + t.2 := by
    rw [← Nat.mod_add_div (a * s.1 + s.2) b, hmod, hdiv, Nat.mod_add_div]
  have hword : s.1 = t.1 := by
    have hs' := Nat.mul_add_div (Nat.zero_lt_of_lt hs.2) s.1 s.2
    have ht' := Nat.mul_add_div (Nat.zero_lt_of_lt ht.2) t.1 t.2
    rw [Nat.div_eq_of_lt hs.2] at hs'
    rw [Nat.div_eq_of_lt ht.2] at ht'
    rw [hsum, ht'] at hs'
    omega
  rw [hword] at hsum
  exact Prod.ext hword (Nat.add_left_cancel hsum)

end MultiplyWithCarry

end Rodos.WordGenerators
