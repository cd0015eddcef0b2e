import Mathlib

namespace Rodos.ByteMemory

def read (m : Nat → UInt8) (off n : Nat) : List UInt8 := (List.range n).map (fun i => m (off + i))

def write (m : Nat → UInt8) (off : Nat) (bs : List UInt8) : Nat → UInt8 :=
  fun i => if off ≤ i then (bs[i - off]?).getD (m i) else m i

def toBigEndian : Nat → Nat → List UInt8
  | 0, _ => []
  | n + 1, v => toBigEndian n (v / 256) ++ [UInt8.ofNat v]

def ofBigEndian (bs : List UInt8) : Nat := bs.foldl (fun acc b => acc * 256 + b.toNat) 0

@[simp] theorem length_read (m : Nat → UInt8) (off n : Nat) : (read m off n).length = n := by
  simp [read]

@[simp] theorem length_toBigEndian (n v : Nat) : (toBigEndian n v).length = n := by
  induction n generalizing v with
  | zero => rfl
  | succ n ih => simp [toBigEndian, ih]

@[simp] theorem getElem_read (m : Nat → UInt8) (off n k : Nat) (h : k < (read m off n).length) :
    (read m off n)[k] = m (off + k) := by
  simp [read]

theorem read_add (m : Nat → UInt8) (off a b : Nat) :
    read m off (a + b) = read m off a ++ read m (off + a) b := by
  simp [read, List.range_add, Nat.add_assoc, Function.comp_def]

theorem read_eq_iff (m m' : Nat → UInt8) (off n : Nat) :
    read m off n = read m' off n ↔ ∀ i < n, m (off + i) = m' (off + i) := by
  simp [read, List.map_inj_left]

theorem take_read (m : Nat → UInt8) (off n k : Nat) :
    (read m off n).take k = read m off (min k n) := by
  simp [read, ← List.map_take, List.take_range]

theorem drop_read (m : Nat → UInt8) (off n k : Nat) :
    (read m off n).drop k = read m (off + k) (n - k) := by
  apply List.ext_getElem
  · simp
  · intro i h1 h2
    simp [read, Nat.add_assoc]

theorem write_outside (m : Nat → UInt8) (off : Nat) (bs : List UInt8) (i : Nat)
    (h : i < off ∨ off + bs.length ≤ i) : write m off bs i = m i := by
  rw [write]
  split
  · rw [List.getElem?_eq_none (by omega), Option.getD_none]
  · rfl

theorem write_congr {m m' : Nat → UInt8} (off : Nat) (bs : List UInt8) {i : Nat}
    (h : m i = m' i) : write m off bs i = write m' off bs i := by
  unfold write
  rw [h]

theorem read_write (m : Nat → UInt8) (off : Nat) (bs : List UInt8) :
    read (write m off bs) off bs.length = bs := by
  apply List.ext_getElem
  · simp
  · intro i h1 h2
    simp [read, write, h2]

theorem write_read_of_lt (m m' : Nat → UInt8) {n i : Nat} (h : i < n) :
    write m 0 (read m' 0 n) i = m' i := by
  simp [read, write, h]

theorem read_write_of_disjoint (m : Nat → UInt8) (off : Nat) (bs : List UInt8) (start n : Nat)
    (h : start + n ≤ off ∨ off + bs.length ≤ start) :
    read (write m off bs) start n = read m start n := by
  apply List.map_congr_left
  intro i hi
  apply write_outside
  have := List.mem_range.mp hi
  omega

theorem write_nil (m : Nat → UInt8) (off : Nat) : write m off [] = m := by
  funext i
  exact write_outside m off [] i (by simp; omega)

theorem write_cons (m : Nat → UInt8) (off : Nat) (b : UInt8) (bs : List UInt8) :
    write m off (b :: bs) = write (write m off [b]) (off + 1) bs := by
  funext i
  obtain hi | rfl | hi := lt_trichotomy i off
  · rw [write_outside m off (b :: bs) i (.inl hi),
      write_outside _ (off + 1) bs i (.inl (by omega)), write_outside m off [b] i (.inl hi)]
  · rw [write_outside _ (i + 1) bs i (.inl (by omega))]
    simp [write]
  · have hsub : i - off = i - (off + 1) + 1 := by omega
    have hleft : write m off (b :: bs) i = ((b :: bs)[i - off]?).getD (m i) := if_pos (by omega)
    have hright : write (write m off [b]) (off + 1) bs i =
        (bs[i - (off + 1)]?).getD (write m off [b] i) := if_pos (by omega)
    rw [hleft, hright, hsub, List.getElem?_cons_succ,
      write_outside m off [b] i (.inr (by simp; omega))]

theorem ofBigEndian_concat (bs : List UInt8) (b : UInt8) :
    ofBigEndian (bs ++ [b]) = ofBigEndian bs * 256 + b.toNat := by
  simp [ofBigEndian]

theorem ofBigEndian_lt (bs : List UInt8) : ofBigEndian bs < 256 ^ bs.length := by
  induction bs using List.reverseRecOn with
  | nil => simp [ofBigEndian]
  | append_singleton bs b ih =>
    have hb : b.toNat < 256 := b.toNat_lt
    rw [ofBigEndian_concat, List.length_append, List.length_singleton, Nat.pow_succ]
    omega

theorem ofBigEndian_toBigEndian (n v : Nat) : ofBigEndian (toBigEndian n v) = v % 256 ^ n := by
  induction n generalizing v with
  | zero => simp [toBigEndian, ofBigEndian, Nat.mod_one]
  | succ n ih =>
    rw [toBigEndian, ofBigEndian_concat, ih, Nat.pow_succ', Nat.mod_mul]
    simp
    ring

theorem toBigEndian_ofBigEndian (bs : List UInt8) : toBigEndian bs.length (ofBigEndian bs) = bs := by
  induction bs using List.reverseRecOn with
  | nil => rfl
  | append_singleton bs b ih =>
    have hlt : b.toNat < 256 := b.toNat_lt
    have hbyte : UInt8.ofNat (ofBigEndian bs * 256 + b.toNat) = b := by
      apply UInt8.toNat_inj.mp
      rw [UInt8.toNat_ofNat']
      omega
    rw [List.length_append, List.length_singleton, toBigEndian, ofBigEndian_concat, hbyte,
      Nat.mul_comm, Nat.mul_add_div (by decide), Nat.div_eq_of_lt hlt, Nat.add_zero, ih]

theorem ofBigEndian_read_write (m : Nat → UInt8) (off n v : Nat) :
    ofBigEndian (read (write m off (toBigEndian n v)) off n) = v % 256 ^ n := by
  have h := read_write m off (toBigEndian n v)
  rw [length_toBigEndian] at h
  rw [h, ofBigEndian_toBigEndian]

end Rodos.ByteMemory
