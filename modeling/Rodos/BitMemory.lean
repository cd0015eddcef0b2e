import Rodos.ByteMemory

namespace Rodos.BitMemory

open ByteMemory

/-- The bits of a memory are counted from the most significant one of the first
byte. -/
def bit (m : Nat → UInt8) (k : Nat) : Bool := (m (k / 8)).toNat.testBit (7 - k % 8)

/-- The number in the bits from a position on, its most significant bit first. -/
def getBits (m : Nat → UInt8) (pos n : Nat) : Nat :=
  Nat.ofBits fun j : Fin n => bit m (pos + (n - 1 - j))

def setBits (m : Nat → UInt8) (pos n v : Nat) : Nat → UInt8 := fun i =>
  UInt8.ofNat (Nat.ofBits fun j : Fin 8 =>
    if pos ≤ 8 * i + (7 - j) ∧ 8 * i + (7 - j) < pos + n then
      v.testBit (n - 1 - (8 * i + (7 - j) - pos))
    else bit m (8 * i + (7 - j)))

section

variable {m m' : Nat → UInt8}

theorem bit_byte (m : Nat → UInt8) (i : Nat) {j : Nat} (hj : j < 8) :
    bit m (8 * i + (7 - j)) = (m i).toNat.testBit j := by
  rw [bit]
  congr 2
  · congr 1
    omega
  · omega

theorem testBit_byte (m : Nat → UInt8) (i j : Nat) :
    (m i).toNat.testBit j = (decide (j < 8) && bit m (8 * i + (7 - j))) := by
  by_cases hj : j < 8
  · rw [bit_byte m i hj]
    simp [hj]
  · have hlt : (m i).toNat < 2 ^ j :=
      (m i).toNat_lt.trans_le (Nat.pow_le_pow_right (by decide) (by omega : 8 ≤ j))
    rw [Nat.testBit_lt_two_pow hlt]
    simp [hj]

theorem byte_eq {i : Nat} (h : ∀ k, k / 8 = i → bit m k = bit m' k) : m i = m' i := by
  apply UInt8.toNat_inj.mp
  apply Nat.eq_of_testBit_eq
  intro j
  rw [testBit_byte, testBit_byte]
  by_cases hj : j < 8
  · rw [h _ (by omega)]
  · simp [hj]

theorem eq_of_bit (h : ∀ k, bit m k = bit m' k) : m = m' := by
  funext i
  exact byte_eq fun k _ => h k

theorem bit_congr {k : Nat} (h : m (k / 8) = m' (k / 8)) : bit m k = bit m' k := by
  unfold bit
  rw [h]

theorem testBit_getBits (m : Nat → UInt8) (pos n j : Nat) :
    (getBits m pos n).testBit j = (decide (j < n) && bit m (pos + (n - 1 - j))) := by
  rw [getBits, Nat.testBit_ofBits]
  by_cases hj : j < n
  · simp [hj]
  · simp [hj]

theorem getBits_lt (m : Nat → UInt8) (pos n : Nat) : getBits m pos n < 2 ^ n :=
  Nat.ofBits_lt_two_pow _

theorem bit_setBits (m : Nat → UInt8) (pos n v k : Nat) :
    bit (setBits m pos n v) k =
      if pos ≤ k ∧ k < pos + n then v.testBit (n - 1 - (k - pos)) else bit m k := by
  have hk : 8 * (k / 8) + (7 - (7 - k % 8)) = k := by omega
  have hj : 7 - k % 8 < 8 := by omega
  rw [bit, setBits, UInt8.toNat_ofNat', Nat.testBit_mod_two_pow, Nat.testBit_ofBits, dif_pos hj]
  simp only [hk, hj, decide_true, Bool.true_and]

theorem getBits_congr {pos n : Nat} (h : ∀ k, pos ≤ k → k < pos + n → bit m k = bit m' k) :
    getBits m pos n = getBits m' pos n := by
  apply Nat.eq_of_testBit_eq
  intro j
  rw [testBit_getBits, testBit_getBits]
  by_cases hj : j < n
  · rw [h _ (by omega) (by omega)]
  · simp [hj]

end

section

variable (m : Nat → UInt8)

theorem getBits_setBits (pos n v : Nat) : getBits (setBits m pos n v) pos n = v % 2 ^ n := by
  apply Nat.eq_of_testBit_eq
  intro j
  rw [testBit_getBits, bit_setBits, Nat.testBit_mod_two_pow]
  by_cases hj : j < n
  · rw [if_pos (by omega)]
    congr 2
    omega
  · simp [hj]

theorem ofBigEndian_read (off n : Nat) :
    ofBigEndian (read m off n) = getBits m (8 * off) (8 * n) := by
  induction n with
  | zero => simp [ByteMemory.read, ofBigEndian, getBits]
  | succ n ih =>
    apply Nat.eq_of_testBit_eq
    intro j
    have hone : read m (off + n) 1 = [m (off + n)] := rfl
    have hbyte : (m (off + n)).toNat < 2 ^ 8 := (m (off + n)).toNat_lt
    have hpow : 256 * getBits m (8 * off) (8 * n) = 2 ^ 8 * getBits m (8 * off) (8 * n) := rfl
    rw [read_add, hone, ofBigEndian_concat, ih, Nat.mul_comm _ 256, hpow,
      Nat.testBit_two_pow_mul_add _ hbyte, testBit_getBits, testBit_getBits]
    by_cases hj : j < 8
    · rw [if_pos hj, testBit_byte]
      simp only [hj, decide_true, Bool.true_and, show j < 8 * (n + 1) by omega]
      congr 1
      omega
    · rw [if_neg hj]
      congr 1
      · simp only [decide_eq_decide]
        omega
      · congr 1
        omega

theorem write_append (off : Nat) (as bs : List UInt8) :
    write m off (as ++ bs) = write (write m off as) (off + as.length) bs := by
  induction as generalizing m off with
  | nil => simp [write_nil]
  | cons a as ih =>
    rw [List.cons_append, write_cons, ih, write_cons m off a as, List.length_cons]
    congr 1
    omega

theorem write_byte (off v : Nat) : write m off [UInt8.ofNat v] = setBits m (8 * off) 8 v := by
  apply eq_of_bit
  intro k
  rw [bit_setBits]
  by_cases hk : k / 8 = off
  · rw [if_pos (by omega), bit, hk]
    simp only [write, le_refl, if_true, Nat.sub_self, List.getElem?_cons_zero, Option.getD_some,
      UInt8.toNat_ofNat', Nat.testBit_mod_two_pow]
    rw [show 8 - 1 - (k - 8 * off) = 7 - k % 8 by omega]
    simp only [show 7 - k % 8 < 8 by omega, decide_true, Bool.true_and]
  · rw [if_neg (by omega)]
    apply bit_congr
    exact write_outside m off _ _ (by simp only [List.length_singleton]; omega)

theorem write_toBigEndian (off n v : Nat) :
    write m off (toBigEndian n v) = setBits m (8 * off) (8 * n) v := by
  induction n generalizing v with
  | zero =>
    apply eq_of_bit
    intro k
    rw [toBigEndian, write_nil, bit_setBits, if_neg (by omega)]
  | succ n ih =>
    rw [toBigEndian, write_append, ih, length_toBigEndian, write_byte]
    apply eq_of_bit
    intro k
    have hpow : v / 256 = v / 2 ^ 8 := rfl
    simp only [bit_setBits, hpow, Nat.testBit_div_two_pow]
    split
    · rw [if_pos (by omega)]
      congr 1
      omega
    · split
      · rw [if_pos (by omega)]
        congr 1
        omega
      · rw [if_neg (by omega)]

theorem write_single (off : Nat) (b : UInt8) : write m off [b] = setBits m (8 * off) 8 b.toNat := by
  rw [← write_byte, UInt8.ofNat_toNat]

theorem byte_getBits (i : Nat) : m i = UInt8.ofNat (getBits m (8 * i) 8) := by
  have hread : ofBigEndian (read m i 1) = (m i).toNat := by
    simp [ByteMemory.read, ofBigEndian]
  rw [← ofBigEndian_read m i 1, hread, UInt8.ofNat_toNat]

end

section Fields

def getFields (m : Nat → UInt8) : Nat → List Nat → List Nat
  | _, [] => []
  | pos, n :: widths => getBits m pos n :: getFields m (pos + n) widths

def setFields (m : Nat → UInt8) : Nat → List (Nat × Nat) → Nat → UInt8
  | _, [] => m
  | pos, (n, v) :: fields => setFields (setBits m pos n v) (pos + n) fields

variable {m m' : Nat → UInt8}

theorem getFields_congr {pos : Nat} {widths : List Nat}
    (h : ∀ k, pos ≤ k → k < pos + widths.sum → bit m k = bit m' k) :
    getFields m pos widths = getFields m' pos widths := by
  induction widths generalizing pos with
  | nil => rfl
  | cons n widths ih =>
    rw [List.sum_cons] at h
    rw [getFields, getFields, getBits_congr fun k h1 h2 => h k h1 (by omega),
      ih fun k h1 h2 => h k (by omega) (by omega)]

theorem bit_setFields_outside (m : Nat → UInt8) {pos : Nat} {fields : List (Nat × Nat)} {k : Nat}
    (h : k < pos ∨ pos + (fields.map Prod.fst).sum ≤ k) : bit (setFields m pos fields) k = bit m k := by
  induction fields generalizing m pos with
  | nil => rfl
  | cons field fields ih =>
    obtain ⟨n, v⟩ := field
    rw [List.map_cons, List.sum_cons] at h
    rw [setFields, ih _ (by omega), bit_setBits, if_neg (by omega)]

theorem bit_setFields_inside (m m' : Nat → UInt8) {pos : Nat} {fields : List (Nat × Nat)} {k : Nat}
    (hpos : pos ≤ k) (hk : k < pos + (fields.map Prod.fst).sum) :
    bit (setFields m pos fields) k = bit (setFields m' pos fields) k := by
  induction fields generalizing m m' pos with
  | nil => exact absurd hk (Nat.not_lt.mpr hpos)
  | cons field fields ih =>
    obtain ⟨n, v⟩ := field
    rw [List.map_cons, List.sum_cons] at hk
    by_cases hfirst : k < pos + n
    · rw [setFields, setFields, bit_setFields_outside _ (.inl hfirst),
        bit_setFields_outside _ (.inl hfirst), bit_setBits, bit_setBits, if_pos ⟨hpos, hfirst⟩,
        if_pos ⟨hpos, hfirst⟩]
    · exact ih _ _ (by omega) (by omega)

theorem setFields_append (m : Nat → UInt8) (pos : Nat) (fields fields' : List (Nat × Nat)) :
    setFields m pos (fields ++ fields') =
      setFields (setFields m pos fields) (pos + (fields.map Prod.fst).sum) fields' := by
  induction fields generalizing m pos with
  | nil => rfl
  | cons field fields ih =>
    obtain ⟨n, v⟩ := field
    rw [List.cons_append, setFields, setFields, ih, List.map_cons, List.sum_cons, Nat.add_assoc]

theorem getFields_setFields (m : Nat → UInt8) (pos : Nat) (fields : List (Nat × Nat)) :
    getFields (setFields m pos fields) pos (fields.map Prod.fst) =
      fields.map fun field => field.2 % 2 ^ field.1 := by
  induction fields generalizing m pos with
  | nil => rfl
  | cons field fields ih =>
    obtain ⟨n, v⟩ := field
    have hfirst : getBits (setFields (setBits m pos n v) (pos + n) fields) pos n = v % 2 ^ n := by
      rw [← getBits_setBits m pos n v]
      exact getBits_congr fun k _ hk => bit_setFields_outside _ (.inl hk)
    simp only [List.map_cons, setFields, getFields, hfirst, ih]

/-- A record whose values are kept in fields one behind the other that fill
whole bytes. -/
structure Codec (H : Type) where
  widths : List Nat
  values : H → List Nat
  build : List Nat → H
  size : Nat
  serialize : H → (Nat → UInt8) → Nat → UInt8
  deserialize : (Nat → UInt8) → H
  sum_widths : widths.sum = 8 * size
  length_values : ∀ h, (values h).length = widths.length
  build_values : ∀ h, build (values h) = h
  serialize_eq : ∀ h m, serialize h m = setFields m 0 (widths.zip (values h))
  deserialize_eq : ∀ m, deserialize m = build (getFields m 0 widths)

namespace Codec

variable {H : Type} (c : Codec H)

def trimmed (h : H) : H := c.build (c.widths.zipWith (fun n v => v % 2 ^ n) (c.values h))

def InWidths (h : H) : Prop := ∀ field ∈ c.widths.zip (c.values h), field.2 < 2 ^ field.1

instance (h : H) : Decidable (c.InWidths h) :=
  inferInstanceAs (Decidable (∀ field ∈ c.widths.zip (c.values h), field.2 < 2 ^ field.1))

theorem trimmed_eq {h : H} (hw : c.InWidths h) : c.trimmed h = h := by
  have hvalues : c.widths.zipWith (fun n v => v % 2 ^ n) (c.values h) = c.values h := by
    calc c.widths.zipWith (fun n v => v % 2 ^ n) (c.values h)
        = (c.widths.zip (c.values h)).map fun field => field.2 % 2 ^ field.1 :=
          List.map_uncurry_zip_eq_zipWith.symm
      _ = (c.widths.zip (c.values h)).map Prod.snd :=
          List.map_congr_left fun field hfield => Nat.mod_eq_of_lt (hw field hfield)
      _ = c.values h := List.map_snd_zip (c.length_values h).le
  rw [trimmed, hvalues, c.build_values]

theorem map_fst_zip (h : H) : (c.widths.zip (c.values h)).map Prod.fst = c.widths :=
  List.map_fst_zip (c.length_values h).ge

theorem deserialize_serialize (h : H) (m : Nat → UInt8) :
    c.deserialize (c.serialize h m) = c.trimmed h := by
  have hfields := getFields_setFields m 0 (c.widths.zip (c.values h))
  rw [c.map_fst_zip] at hfields
  rw [c.deserialize_eq, c.serialize_eq, hfields, trimmed, ← List.map_uncurry_zip_eq_zipWith]
  rfl

theorem serialize_outside (h : H) (m : Nat → UInt8) {i : Nat} (hi : c.size ≤ i) :
    c.serialize h m i = m i := by
  rw [c.serialize_eq]
  apply byte_eq
  intro k hk
  apply bit_setFields_outside
  rw [c.map_fst_zip, c.sum_widths]
  omega

/-- Records that agree in their first fields agree in the bytes of these. -/
theorem serialize_front {h h' : H} (m m' : Nat → UInt8) (front back back' : List (Nat × Nat))
    (hh : c.widths.zip (c.values h) = front ++ back)
    (hh' : c.widths.zip (c.values h') = front ++ back') {i : Nat}
    (hi : 8 * i + 8 ≤ (front.map Prod.fst).sum) : c.serialize h m i = c.serialize h' m' i := by
  rw [c.serialize_eq, c.serialize_eq, hh, hh', setFields_append, setFields_append]
  apply byte_eq
  intro k hk
  have hfront : k < 0 + (front.map Prod.fst).sum := by omega
  rw [bit_setFields_outside _ (.inl hfront), bit_setFields_outside _ (.inl hfront)]
  exact bit_setFields_inside m m' (Nat.zero_le k) hfront

theorem deserialize_congr {m m' : Nat → UInt8} (h : ∀ i < c.size, m i = m' i) :
    c.deserialize m = c.deserialize m' := by
  rw [c.deserialize_eq, c.deserialize_eq]
  congr 1
  apply getFields_congr
  intro k _ hk
  rw [c.sum_widths] at hk
  exact bit_congr (h _ (by omega))

end Codec

end Fields

section Pointers

/-- A pointer into a memory: the bytes from it on. -/
def pointer (m : Nat → UInt8) (p : Nat) : Nat → UInt8 := fun i => m (p + i)

def through (m : Nat → UInt8) (p : Nat) (store : (Nat → UInt8) → Nat → UInt8) : Nat → UInt8 :=
  fun i => if p ≤ i then store (pointer m p) (i - p) else m i

variable {m m' : Nat → UInt8} {p : Nat} {store : (Nat → UInt8) → Nat → UInt8}

theorem pointer_through : pointer (through m p store) p = store (pointer m p) := by
  funext i
  simp [pointer, through]

theorem through_before {i : Nat} (h : i < p) : through m p store i = m i := by
  simp [through, show ¬p ≤ i by omega]

theorem read_pointer (off n : Nat) : read (pointer m p) off n = read m (p + off) n := by
  simp [ByteMemory.read, pointer, Nat.add_assoc]

end Pointers

section Chains

variable {P : Type} (size : P → Nat) (Holds : (Nat → UInt8) → P → Prop)

inductive Chain (m : Nat → UInt8) : Nat → List P → Nat → Prop
  | nil (start : Nat) : Chain m start [] start
  | cons {start stop : Nat} {x : P} {xs : List P} :
      Holds (pointer m start) x → Chain m (start + size x) xs stop → Chain m start (x :: xs) stop

variable {size Holds} {m m' : Nat → UInt8} {start stop : Nat} {xs : List P}

theorem Chain.le (h : Chain size Holds m start xs stop) : start ≤ stop := by
  induction h with
  | nil => exact le_rfl
  | cons _ _ ih => omega

theorem Chain.concat (h : Chain size Holds m start xs stop) {x : P}
    (hx : Holds (pointer m stop) x) : Chain size Holds m start (xs ++ [x]) (stop + size x) := by
  induction h with
  | nil => exact .cons hx (.nil _)
  | cons hfirst _ ih => exact .cons hfirst (ih hx)

theorem Chain.congr (hlocal : ∀ v v' x, (∀ i < size x, v i = v' i) → Holds v x → Holds v' x)
    (h : Chain size Holds m start xs stop)
    (hm : ∀ i, start ≤ i → i < stop → m i = m' i) : Chain size Holds m' start xs stop := by
  induction h with
  | nil => exact .nil _
  | @cons start stop x xs hfirst hrest ih =>
    have hle := hrest.le
    refine .cons (hlocal _ _ _ (fun i hi => ?_) hfirst) (ih fun i h1 h2 => hm i (by omega) h2)
    exact hm _ (by omega) (by omega)

end Chains

end Rodos.BitMemory
