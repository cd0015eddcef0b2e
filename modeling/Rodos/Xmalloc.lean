import Mathlib

namespace Rodos.Xmalloc

/-- `xmallocBuf`, which is aligned for a `uint64_t`. Its size is an int. -/
structure Buffer where
  address : Nat
  xmallocSize : Nat
  aligned : address % 8 = 0
  size_lt : xmallocSize < 2 ^ 31

/-- The mask has only the 32 bits of an unsigned int. -/
def rounded (len : UInt64) : UInt64 := (len + 7) &&& (~~~(7 : UInt32)).toUInt64

/-- The pointer returned, `none` if it is null, and the index after the call. -/
def xmalloc (b : Buffer) (schedulerRunning : Bool) (len index : UInt64) : Option Nat × UInt64 :=
  let len := rounded len
  if ¬ len.toNat ≤ b.xmallocSize then (none, index)
  else if schedulerRunning then (none, index)
  else if ¬ (index + len).toNat < b.xmallocSize then (none, index)
  else (some (b.address + index.toNat), index + len)

structure Block where
  address : Nat
  len : Nat
  deriving DecidableEq

def Block.bytes (x : Block) : Set Nat := Set.Ico x.address (x.address + x.len)

def blocks (b : Buffer) : List UInt64 → UInt64 → List Block
  | [], _ => []
  | len :: lens, index =>
    let r := xmalloc b false len index
    (r.1.map fun p => ⟨p, len.toNat⟩).toList ++ blocks b lens r.2

structure Sound (b : Buffer) (l : List Block) : Prop where
  aligned : ∀ x ∈ l, x.address % 8 = 0
  disjoint : l.Pairwise fun x y => Disjoint x.bytes y.bytes
  inside : ∀ x ∈ l, b.address ≤ x.address ∧ x.address + x.len ≤ b.address + b.xmallocSize

/-- Each length keeps its value under the mask, or there is no room for what is left of
it. -/
def Allowed (b : Buffer) : List UInt64 → UInt64 → Prop
  | [], _ => True
  | len :: lens, index =>
    (len.toNat + 7 < 2 ^ 32 ∨ b.xmallocSize ≤ index.toNat + (rounded len).toNat) ∧
      Allowed b lens (xmalloc b false len index).2

theorem and_mask (x : Nat) : x &&& 0xFFFFFFF8 = x / 8 % 2 ^ 29 * 8 := by
  apply Nat.eq_of_testBit_eq
  intro i
  rw [show (0xFFFFFFF8 : Nat) = (2 ^ 29 - 1) * 2 ^ 3 by rfl, show x / 8 = x / 2 ^ 3 by rfl,
    show (8 : Nat) = 2 ^ 3 by rfl, Nat.testBit_and, Nat.testBit_mul_two_pow,
    Nat.testBit_mul_two_pow, Nat.testBit_mod_two_pow, Nat.testBit_div_two_pow,
    Nat.testBit_two_pow_sub_one]
  by_cases hi : 3 ≤ i
  · rw [Nat.sub_add_cancel hi, decide_eq_true hi, Bool.true_and, Bool.true_and, Bool.and_comm]
  · rw [decide_eq_false hi, Bool.false_and, Bool.false_and, Bool.and_false]

theorem toNat_rounded (len : UInt64) :
    (rounded len).toNat = (len.toNat + 7) % 2 ^ 64 / 8 % 2 ^ 29 * 8 := by
  rw [rounded, UInt64.toNat_and, ← and_mask, UInt64.toNat_add]
  rfl

theorem le_rounded {len : UInt64} (hlen : len.toNat + 7 < 2 ^ 32) :
    len.toNat ≤ (rounded len).toNat := by
  rw [toNat_rounded]
  omega

structure Inv (b : Buffer) (index : UInt64) : Prop where
  aligned : index.toNat % 8 = 0
  le_size : index.toNat ≤ b.xmallocSize

section

variable {b : Buffer} {len index : UInt64} {lens : List UInt64}

theorem inv_start (b : Buffer) : Inv b 0 := ⟨rfl, Nat.zero_le _⟩

theorem toNat_advance (h : Inv b index) :
    (index + rounded len).toNat = index.toNat + (rounded len).toNat := by
  have hsize := b.size_lt
  have hle := h.le_size
  rw [UInt64.toNat_add]
  apply Nat.mod_eq_of_lt
  rw [toNat_rounded]
  omega

/-- The last guard is the only one that matters before the scheduler runs. -/
theorem xmalloc_eq (h : Inv b index) (len : UInt64) :
    xmalloc b false len index =
      if index.toNat + (rounded len).toNat < b.xmallocSize then
        (some (b.address + index.toNat), index + rounded len)
      else (none, index) := by
  simp only [xmalloc, toNat_advance h, Bool.false_eq_true, if_false, not_lt]
  by_cases hroom : index.toNat + (rounded len).toNat < b.xmallocSize
  · rw [if_pos hroom, if_neg (by omega), if_neg (by omega)]
  · rw [if_neg hroom, if_pos (not_lt.mp hroom), ite_self]

theorem xmalloc_null (b : Buffer) (schedulerRunning : Bool) (len index : UInt64)
    (hnull : (xmalloc b schedulerRunning len index).1 = none) :
    (xmalloc b schedulerRunning len index).2 = index := by
  simp only [xmalloc] at hnull ⊢
  split_ifs at hnull ⊢ <;> rfl

theorem Inv.next (h : Inv b index) (len : UInt64) : Inv b (xmalloc b false len index).2 := by
  rw [xmalloc_eq h]
  split
  · rename_i hroom
    have haligned := h.aligned
    refine ⟨?_, ?_⟩ <;> rw [toNat_advance h]
    · rw [toNat_rounded]
      omega
    · exact hroom.le
  · exact h

theorem sound_blocks (h : Inv b index) (hall : Allowed b lens index) :
    Sound b (blocks b lens index) ∧
      ∀ x ∈ blocks b lens index, b.address + index.toNat ≤ x.address := by
  induction lens generalizing index with
  | nil => exact ⟨⟨by simp [blocks], by simp [blocks], by simp [blocks]⟩, by simp [blocks]⟩
  | cons len lens ih =>
    obtain ⟨hlen, hrest⟩ := hall
    obtain ⟨hsound, hlater⟩ := ih (h.next len) hrest
    rw [blocks]
    rw [xmalloc_eq h] at hsound hlater ⊢
    by_cases hroom : index.toNat + (rounded len).toNat < b.xmallocSize
    · rw [if_pos hroom] at hsound hlater ⊢
      have hle := le_rounded (hlen.resolve_right (Nat.not_le.mpr hroom))
      have hbase := b.aligned
      have haligned := h.aligned
      rw [toNat_advance h] at hlater
      refine ⟨⟨?_, ?_, ?_⟩, ?_⟩
      · refine List.forall_mem_cons.mpr ⟨?_, hsound.aligned⟩
        dsimp only
        omega
      · refine List.pairwise_cons.mpr ⟨fun x hx => ?_, hsound.disjoint⟩
        have hx := hlater x hx
        apply Set.disjoint_left.mpr
        rintro a ⟨-, hend⟩ ⟨hbegin, -⟩
        dsimp only at hend
        omega
      · refine List.forall_mem_cons.mpr ⟨?_, hsound.inside⟩
        dsimp only
        omega
      · refine List.forall_mem_cons.mpr ⟨Nat.le_refl _, fun x hx => ?_⟩
        have hx := hlater x hx
        omega
    · rw [if_neg hroom] at hsound hlater ⊢
      exact ⟨hsound, hlater⟩

theorem Sound.of_append {l l' : List Block} (h : Sound b (l ++ l')) : Sound b l' where
  aligned x hx := h.aligned x (List.mem_append_right l hx)
  disjoint := (List.pairwise_append.mp h.disjoint).2.1
  inside x hx := h.inside x (List.mem_append_right l hx)

/-- A block whose length has been cut is longer than the buffer. -/
theorem allowed_of_sound (h : Inv b index) (hsound : Sound b (blocks b lens index)) :
    Allowed b lens index := by
  induction lens generalizing index with
  | nil => trivial
  | cons len lens ih =>
    rw [blocks] at hsound
    refine ⟨?_, ih (h.next len) hsound.of_append⟩
    by_contra hcut
    obtain ⟨hlen, hroom⟩ := not_or.mp hcut
    rw [xmalloc_eq h, if_pos (Nat.not_le.mp hroom)] at hsound
    have hinside := (hsound.inside _ List.mem_cons_self).2
    have hsize := b.size_lt
    dsimp only at hinside
    omega

end

/-- The blocks of a run are sound exactly if its lengths are allowed, and null is returned
without any effect. -/
theorem xmalloc_sound_iff (b : Buffer) (lens : List UInt64) :
    (Sound b (blocks b lens 0) ↔ Allowed b lens 0) ∧
    ∀ schedulerRunning len index, (xmalloc b schedulerRunning len index).1 = none →
      (xmalloc b schedulerRunning len index).2 = index :=
  ⟨⟨allowed_of_sound (inv_start b), fun hall => (sound_blocks (inv_start b) hall).1⟩,
    xmalloc_null b⟩

def defaultBuffer : Buffer := ⟨0, 2000000, rfl, by decide⟩

/-- A request of 4 GiB is met with 8 bytes. -/
theorem xmalloc_unsound : ¬ Sound defaultBuffer (blocks defaultBuffer [2 ^ 32 + 1] 0) := by
  intro h
  have hinside := (h.inside ⟨0, 2 ^ 32 + 1⟩ (by decide)).2
  exact absurd hinside (by decide)

end Rodos.Xmalloc
