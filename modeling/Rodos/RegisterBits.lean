import Mathlib

namespace Rodos.RegisterBits

variable {w : Nat}

def clearAndSet (clearMask setMask value : BitVec w) : BitVec w :=
  (value &&& ~~~clearMask) ||| setMask

variable {clearMask setMask mask : BitVec w} (value : BitVec w)

theorem clearAndSet_and_of_disjoint (hclear : clearMask &&& mask = 0)
    (hset : setMask &&& mask = 0) :
    clearAndSet clearMask setMask value &&& mask = value &&& mask := by
  ext i hi
  have hclear : (clearMask[i] && mask[i]) = false := by
    rw [← BitVec.getElem_and, hclear]
    exact BitVec.getElem_zero hi
  have hset : (setMask[i] && mask[i]) = false := by
    rw [← BitVec.getElem_and, hset]
    exact BitVec.getElem_zero hi
  simp only [clearAndSet, BitVec.getElem_and, BitVec.getElem_or, BitVec.getElem_not]
  cases hmask : mask[i] with
  | false => simp
  | true =>
    rw [hmask, Bool.and_true] at hclear hset
    simp [hclear, hset]

theorem clearAndSet_and_of_subset (hclear : clearMask &&& mask = mask) :
    clearAndSet clearMask setMask value &&& mask = setMask &&& mask := by
  ext i hi
  have hclear : (clearMask[i] && mask[i]) = mask[i] := by
    rw [← BitVec.getElem_and]
    exact congrArg (fun v => v[i]) hclear
  simp only [clearAndSet, BitVec.getElem_and, BitVec.getElem_or, BitVec.getElem_not]
  cases hmask : mask[i] with
  | false => simp
  | true =>
    rw [hmask, Bool.and_true] at hclear
    simp [hclear]

end Rodos.RegisterBits
