import Rodos.AccessTrace
import Rodos.SharedPointers

namespace Rodos.PoolIndex

open AccessTrace Traced SharedPointers

section Methods

-- An item is given by its distance from `buffer`, whatever the pointer leads to.
variable (LENGTH : UInt32) (pool : AllocableObjects) (item : Int)

def indexOf : Result Nat :=
  let index := UInt32.ofNat (item % 2 ^ 32).toNat
  if index > LENGTH then ⟨.BAD_POINTER, 0⟩ else ⟨.OK, index.toNat⟩

/-- `free` with the counters that it reads and writes. -/
def free : Traced Nat (Bool × AllocableObjects) :=
  let index := indexOf LENGTH item
  if index.err ≠ .OK then pure (false, pool)
  else do
    touch index.val
    if pool.referenceCnt index.val < 1 then pure (false, pool)
    else do
      let cnt := pool.referenceCnt index.val - 1
      touch index.val
      pure (true, ⟨Function.update pool.referenceCnt index.val cnt,
        if cnt = 0 then pool.freeCnt + 1 else pool.freeCnt⟩)

/-- The same for `copyReference`, where `none` is the null pointer. -/
def copyReference : Traced Nat (Option Int × AllocableObjects) :=
  let index := indexOf LENGTH item
  if index.err ≠ .OK then pure (none, pool)
  else do
    touch index.val
    if pool.referenceCnt index.val = 0 then pure (none, pool)
    else do
      touch index.val
      pure (some item, { pool with
        referenceCnt := Function.update pool.referenceCnt index.val
          (pool.referenceCnt index.val + 1) })

end Methods

def InBuffer (LENGTH : UInt32) (item : Int) : Prop := 0 ≤ item ∧ item < LENGTH.toNat

/-- Only counters of the pool are accessed, and an item that is none of the pool is refused. -/
structure Checked (LENGTH : UInt32) (item : Int) : Prop where
  index : (indexOf LENGTH item).err = .OK → InBuffer LENGTH item
  free_within : ∀ pool, Within (· < LENGTH.toNat) (free LENGTH pool item)
  copy_within : ∀ pool, Within (· < LENGTH.toNat) (copyReference LENGTH pool item)
  free_refuses : ¬ InBuffer LENGTH item → ∀ pool, (free LENGTH pool item).value = (false, pool)
  copy_refuses : ¬ InBuffer LENGTH item →
    ∀ pool, (copyReference LENGTH pool item).value = (none, pool)

section Items

variable {LENGTH : UInt32} {item : Int}

theorem toNat_index (item : Int) :
    ((UInt32.ofNat (item % 2 ^ 32).toNat).toNat : Int) = item % 2 ^ 32 := by
  have hnonneg : 0 ≤ item % 2 ^ 32 := Int.emod_nonneg item (by decide)
  have hlt : item % 2 ^ 32 < 2 ^ 32 := Int.emod_lt_of_pos item (by decide)
  have htoNat : (item % 2 ^ 32).toNat < 2 ^ 32 := by omega
  have hindex : (UInt32.ofNat (item % 2 ^ 32).toNat).toNat = (item % 2 ^ 32).toNat :=
    UInt32.toNat_ofNat_of_lt' htoNat
  rw [hindex, Int.toNat_of_nonneg hnonneg]

/-- The upper bits of the distance are lost, and the limit itself passes the check. -/
theorem indexOf_ok_iff : (indexOf LENGTH item).err = .OK ↔ item % 2 ^ 32 ≤ LENGTH.toNat := by
  have hindex := toNat_index item
  rw [indexOf]
  split
  · next hgt =>
    rw [gt_iff_lt, UInt32.lt_iff_toNat_lt] at hgt
    exact iff_of_false nofun (by omega)
  · next hle =>
    rw [gt_iff_lt, UInt32.lt_iff_toNat_lt] at hle
    exact iff_of_true rfl (by omega)

theorem free_of_bad (h : (indexOf LENGTH item).err ≠ .OK) (pool : AllocableObjects) :
    free LENGTH pool item = pure (false, pool) :=
  if_pos h

theorem copyReference_of_bad (h : (indexOf LENGTH item).err ≠ .OK) (pool : AllocableObjects) :
    copyReference LENGTH pool item = pure (none, pool) :=
  if_pos h

theorem within_free {P : Nat → Prop} (h : P (indexOf LENGTH item).val) (pool : AllocableObjects) :
    Within P (free LENGTH pool item) := by
  simp only [free, within_ite, within_bind, within_touch, within_pure, h, implies_true, and_self]

theorem within_copyReference {P : Nat → Prop} (h : P (indexOf LENGTH item).val)
    (pool : AllocableObjects) : Within P (copyReference LENGTH pool item) := by
  simp only [copyReference, within_ite, within_bind, within_touch, within_pure, h, implies_true,
    and_self]

section Pool

variable {i : Nat} (pool : AllocableObjects)

theorem indexOf_natCast (i : Nat) : indexOf LENGTH i = AllocableObjects.indexOf LENGTH i := by
  have hindex : UInt32.ofNat ((i : Int) % 2 ^ 32).toNat = UInt32.ofNat i := by
    apply UInt32.toNat_inj.mp
    have htoNat := toNat_index (i : Int)
    have hmod : (UInt32.ofNat i).toNat = i % 2 ^ 32 := UInt32.toNat_ofNat'
    omega
  rw [indexOf, hindex, AllocableObjects.indexOf]

theorem value_free (i : Nat) : (free LENGTH pool i).value = pool.free LENGTH i := by
  rw [free, AllocableObjects.free, indexOf_natCast]
  split
  · rfl
  · rw [value_bind]
    split <;> rfl

theorem value_copyReference (i : Nat) : (copyReference LENGTH pool i).value =
    ((pool.copyReference LENGTH i).1.map Int.ofNat, (pool.copyReference LENGTH i).2) := by
  rw [copyReference, AllocableObjects.copyReference, indexOf_natCast]
  split
  · rfl
  · rw [value_bind]
    split <;> rfl

end Pool

end Items

/-- The check is right exactly for the items of the pool and for those that are so far away,
in the lower 32 bits, that they are refused. -/
theorem checked_iff (LENGTH : UInt32) (item : Int) : Checked LENGTH item ↔
    (0 ≤ item ∧ item < LENGTH.toNat) ∨ LENGTH.toNat < item % 2 ^ 32 := by
  constructor
  · intro h
    by_cases hok : (indexOf LENGTH item).err = .OK
    · exact .inl (h.index hok)
    · exact .inr (Int.not_le.mp fun hle => hok (indexOf_ok_iff.mpr hle))
  · rintro (hin | hbad)
    · obtain ⟨i, rfl⟩ := Int.eq_ofNat_of_zero_le hin.1
      have hi : i < LENGTH.toNat := by omega
      have hval : (indexOf LENGTH i).val < LENGTH.toNat := by
        rw [indexOf_natCast, indexOf_eq hi]
        exact hi
      exact ⟨fun _ => hin, within_free hval, within_copyReference hval, absurd hin, absurd hin⟩
    · have herr : (indexOf LENGTH item).err ≠ .OK := fun hok =>
        absurd (indexOf_ok_iff.mp hok) (Int.not_le.mpr hbad)
      constructor
      · exact fun hok => absurd hok herr
      · intro pool
        rw [free_of_bad herr]
        exact within_pure _
      · intro pool
        rw [copyReference_of_bad herr]
        exact within_pure _
      · intro _ pool
        rw [free_of_bad herr]
        rfl
      · intro _ pool
        rw [copyReference_of_bad herr]
        rfl

/-- The place behind the last item, and one that is 2 to the power of 32 items away -/
theorem index_unchecked : ¬ Checked 20 20 ∧ ¬ Checked 20 (2 ^ 32) := by
  constructor
  · intro h
    exact absurd (h.index (by decide)).2 (by decide)
  · intro h
    exact absurd (h.index (by decide)).2 (by decide)

end Rodos.PoolIndex
