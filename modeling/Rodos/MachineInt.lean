import Mathlib

namespace Rodos.MachineInt

def int8 (x : Int) : Int := Int.bmod x (2 ^ 8)

def int32 (x : Int) : Int := Int.bmod x (2 ^ 32)

def int64 (x : Int) : Int := Int.bmod x (2 ^ 64)

theorem int8_eq {x : Int} (hlow : -2 ^ 7 ≤ x) (hhigh : x < 2 ^ 7) : int8 x = x :=
  Int.bmod_eq_of_le hlow hhigh

theorem int32_eq {x : Int} (hlow : -2 ^ 31 ≤ x) (hhigh : x < 2 ^ 31) : int32 x = x :=
  Int.bmod_eq_of_le hlow hhigh

theorem int64_lt (x : Int) : int64 x < 2 ^ 63 := Int.bmod_lt (by decide)

theorem int64_eq {x : Int} (hlow : -2 ^ 63 ≤ x) (hhigh : x < 2 ^ 63) : int64 x = x :=
  Int.bmod_eq_of_le hlow hhigh

theorem int64_add (x y : Int) : int64 (int64 x + y) = int64 (x + y) := Int.bmod_add_bmod

theorem int64_le {x : Int} (hx : 0 ≤ x) : int64 x ≤ x := by
  have hdiv := Int.bmod_add_bdiv x (2 ^ 64)
  have hhigh := int64_lt x
  unfold int64 at *
  omega

theorem int64_mod (n : Nat) : int64 ((n % 2 ^ 64 : Nat) : Int) = int64 n := by
  rw [int64, Int.natCast_mod, Int.emod_bmod, int64]

/-- An int64 operation with this result, if it does not overflow. -/
def checked64 (x : Int) : Option Int := if -2 ^ 63 ≤ x ∧ x < 2 ^ 63 then some x else none

section

variable {x y : Int}

theorem checked64_eq (hlow : -2 ^ 63 ≤ x) (hhigh : x < 2 ^ 63) : checked64 x = some x :=
  if_pos ⟨hlow, hhigh⟩

theorem checked64_some (h : checked64 x = some y) : x = y ∧ -2 ^ 63 ≤ x ∧ x < 2 ^ 63 := by
  rw [checked64] at h
  split at h
  · rename_i hfits
    exact ⟨Option.some.inj h, hfits⟩
  · cases h

theorem checked64_overflow (hhigh : 2 ^ 63 ≤ x) : checked64 x = none :=
  if_neg fun hfits => Int.not_lt.mpr hhigh hfits.2

theorem checked64_bind {β : Type} {f : Int → Option β} (hlow : -2 ^ 63 ≤ x) (hhigh : x < 2 ^ 63) :
    (checked64 x >>= f) = f x := by
  rw [checked64_eq hlow hhigh]
  rfl

theorem checked64_overflow_bind {β : Type} {f : Int → Option β} (hhigh : 2 ^ 63 ≤ x) :
    (checked64 x >>= f) = none := by
  rw [checked64_overflow hhigh]
  rfl

end

end Rodos.MachineInt
