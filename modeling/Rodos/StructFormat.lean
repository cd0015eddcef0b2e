import Rodos.ByteMemory

namespace Rodos.StructFormat

open ByteMemory

/-- The format characters of the `struct` module that are used, with the
standard sizes and the byte order of `!`. -/
inductive Code
  | i
  | I
  | h
  | H
  | Q
  deriving DecidableEq, Repr

def Code.size : Code → Nat
  | .i | .I => 4
  | .h | .H => 2
  | .Q => 8

def Code.signed : Code → Bool
  | .i | .h => true
  | .I | .H | .Q => false

/-- The values that the code can hold. `struct.error` is raised on others. -/
def Code.InRange (c : Code) (v : Int) : Prop :=
  if c.signed then -(256 ^ c.size : Nat) ≤ v * 2 ∧ v * 2 < (256 ^ c.size : Nat)
  else 0 ≤ v ∧ v < (256 ^ c.size : Nat)

instance (c : Code) (v : Int) : Decidable (c.InRange v) := by
  unfold Code.InRange
  infer_instance

def Code.encode (c : Code) (v : Int) : List UInt8 :=
  toBigEndian c.size (v % (256 ^ c.size : Nat)).toNat

def Code.decode (c : Code) (bs : List UInt8) : Int :=
  if c.signed then Int.bmod (ofBigEndian bs) (256 ^ c.size) else ofBigEndian bs

def pack : List Code → List Int → Option (List UInt8)
  | [], [] => some []
  | c :: cs, v :: vs =>
    if c.InRange v then (pack cs vs).map (fun bs => c.encode v ++ bs) else none
  | _, _ => none

/-- The buffer must have exactly the size of the format. -/
def unpack : List Code → List UInt8 → Option (List Int)
  | [], [] => some []
  | [], _ :: _ => none
  | c :: cs, bs =>
    if c.size ≤ bs.length then
      (unpack cs (bs.drop c.size)).map (fun vs => c.decode (bs.take c.size) :: vs)
    else none

theorem Code.length_encode (c : Code) (v : Int) : (c.encode v).length = c.size :=
  length_toBigEndian _ _

theorem Code.decode_encode {c : Code} {v : Int} (h : c.InRange v) : c.decode (c.encode v) = v := by
  have hpos : (0 : Int) < (256 ^ c.size : Nat) := by positivity
  have hlt : (v % (256 ^ c.size : Nat)).toNat < 256 ^ c.size := by
    have := Int.emod_lt_of_pos v hpos
    have := Int.emod_nonneg v hpos.ne'
    omega
  have hcast : ((v % (256 ^ c.size : Nat)).toNat : Int) = v % (256 ^ c.size : Nat) :=
    Int.toNat_of_nonneg (Int.emod_nonneg v hpos.ne')
  rw [Code.decode, Code.encode]
  rw [ofBigEndian_toBigEndian, Nat.mod_eq_of_lt hlt, hcast]
  rw [Code.InRange] at h
  split at h
  · rename_i hs
    rw [if_pos hs, Int.emod_bmod]
    exact Int.bmod_eq_of_le_mul_two h.1 h.2
  · rename_i hs
    rw [if_neg hs]
    exact Int.emod_eq_of_lt h.1 h.2

theorem Code.inRange_decode {c : Code} {bs : List UInt8} (h : bs.length = c.size) :
    c.InRange (c.decode bs) := by
  have hlt := ofBigEndian_lt bs
  rw [h] at hlt
  have hpos : 0 < 256 ^ c.size := by positivity
  have heven : 256 ^ c.size % 2 = 0 := by cases c <;> rfl
  rw [Code.InRange, Code.decode]
  split
  · have h1 := Int.le_bmod (x := (ofBigEndian bs : Int)) hpos
    have h2 := Int.bmod_lt (x := (ofBigEndian bs : Int)) hpos
    omega
  · omega

theorem pack_cons_eq_some {c : Code} {cs : List Code} {v : Int} {vs : List Int} {bs : List UInt8} :
    pack (c :: cs) (v :: vs) = some bs ↔
      c.InRange v ∧ ∃ rest, pack cs vs = some rest ∧ bs = c.encode v ++ rest := by
  have hcons : pack (c :: cs) (v :: vs) =
      if c.InRange v then (pack cs vs).map (fun bs => c.encode v ++ bs) else none := by rw [pack]
  rw [hcons]
  by_cases h : c.InRange v
  · rw [if_pos h, Option.map_eq_some_iff]
    simp only [h, true_and, eq_comm]
  · simp [h]

theorem unpack_pack {cs : List Code} {vs : List Int} {bs : List UInt8} (h : pack cs vs = some bs) :
    unpack cs bs = some vs := by
  induction cs generalizing vs bs with
  | nil =>
    cases vs with
    | nil =>
      obtain rfl := Option.some.inj h
      rfl
    | cons v vs => cases h
  | cons c cs ih =>
    cases vs with
    | nil => cases h
    | cons v vs =>
      obtain ⟨hv, rest, hrest, rfl⟩ := pack_cons_eq_some.mp h
      have hlen := c.length_encode v
      rw [unpack]
      rw [if_pos (by simp [hlen]), List.drop_left' hlen, List.take_left' hlen, ih hrest,
        Option.map_some, Code.decode_encode hv]

theorem pack_unpack {cs : List Code} {vs : List Int} {bs : List UInt8}
    (h : unpack cs bs = some vs) : ∃ bs', pack cs vs = some bs' := by
  induction cs generalizing vs bs with
  | nil =>
    cases bs with
    | nil =>
      obtain rfl := Option.some.inj h
      exact ⟨[], rfl⟩
    | cons b bs => cases h
  | cons c cs ih =>
    rw [unpack] at h
    split at h
    · rename_i hsize
      obtain ⟨ws, hws, rfl⟩ := Option.map_eq_some_iff.mp h
      obtain ⟨rest, hrest⟩ := ih hws
      have hrange : c.InRange (c.decode (bs.take c.size)) :=
        Code.inRange_decode (by simpa using hsize)
      exact ⟨_, pack_cons_eq_some.mpr ⟨hrange, rest, hrest, rfl⟩⟩
    · cases h

def valuesAt (m : Nat → UInt8) : Nat → List Code → List Int
  | _, [] => []
  | off, c :: cs => c.decode (read m off c.size) :: valuesAt m (off + c.size) cs

theorem unpack_read (m : Nat → UInt8) (off : Nat) (cs : List Code) :
    unpack cs (read m off (cs.map Code.size).sum) = some (valuesAt m off cs) := by
  induction cs generalizing off with
  | nil => rfl
  | cons c cs ih =>
    rw [List.map_cons, List.sum_cons, unpack, if_pos (by simp), drop_read, take_read,
      Nat.add_sub_cancel_left, Nat.min_eq_left (Nat.le_add_right _ _), ih, Option.map_some,
      valuesAt]

theorem drop_pack_append {cs ds : List Code} {vs vs' ws : List Int} {bs bs' : List UInt8}
    (h : pack (cs ++ ds) (vs ++ ws) = some bs) (h' : pack (cs ++ ds) (vs' ++ ws) = some bs')
    (hv : vs.length = cs.length) (hv' : vs'.length = cs.length) :
    bs.drop (cs.map Code.size).sum = bs'.drop (cs.map Code.size).sum := by
  induction cs generalizing vs vs' bs bs' with
  | nil =>
    obtain rfl := List.length_eq_zero_iff.mp hv
    obtain rfl := List.length_eq_zero_iff.mp hv'
    rw [Option.some.inj (h.symm.trans h')]
  | cons c cs ih =>
    obtain ⟨v, vs, rfl⟩ := List.exists_cons_of_length_eq_add_one hv
    obtain ⟨v', vs', rfl⟩ := List.exists_cons_of_length_eq_add_one hv'
    obtain ⟨-, rest, hrest, rfl⟩ := pack_cons_eq_some.mp h
    obtain ⟨-, rest', hrest', rfl⟩ := pack_cons_eq_some.mp h'
    have hdrop := ih hrest hrest' (Nat.succ.inj hv) (Nat.succ.inj hv')
    rw [List.map_cons, List.sum_cons, ← List.drop_drop, ← List.drop_drop,
      List.drop_left' (c.length_encode v), List.drop_left' (c.length_encode v'), hdrop]

theorem length_pack {cs : List Code} {vs : List Int} {bs : List UInt8} (h : pack cs vs = some bs) :
    bs.length = (cs.map Code.size).sum := by
  induction cs generalizing vs bs with
  | nil =>
    cases vs with
    | nil =>
      obtain rfl := Option.some.inj h
      rfl
    | cons v vs => cases h
  | cons c cs ih =>
    cases vs with
    | nil => cases h
    | cons v vs =>
      obtain ⟨-, rest, hrest, rfl⟩ := pack_cons_eq_some.mp h
      rw [List.length_append, c.length_encode v, ih hrest, List.map_cons, List.sum_cons]

theorem exists_pack {cs : List Code} {vs : List Int} (h : List.Forall₂ Code.InRange cs vs) :
    ∃ bs, pack cs vs = some bs := by
  induction h with
  | nil => exact ⟨[], rfl⟩
  | cons hv _ ih =>
    obtain ⟨rest, hrest⟩ := ih
    exact ⟨_, pack_cons_eq_some.mpr ⟨hv, rest, hrest, rfl⟩⟩

end Rodos.StructFormat
