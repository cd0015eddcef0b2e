import Rodos.NetworkMessage

namespace Rodos.ChecksumErrors

open ByteMemory NetworkMessage

structure OneChanged {B : Type} (as bs : List B) : Prop where
  length : as.length = bs.length
  letter : ∃ i : Nat, as[i]? ≠ bs[i]? ∧ ∀ j ≠ i, as[j]? = bs[j]?

section Fold

variable {S B : Type} {step : S → B → S}

theorem foldl_injective (hstate : ∀ b, Function.Injective (step · b)) (bs : List B) :
    Function.Injective (bs.foldl step) := by
  induction bs with
  | nil => exact Function.injective_id
  | cons b bs ih =>
    intro s t h
    exact hstate b (ih h)

/-- A machine that confuses neither states nor letters notices a changed letter. -/
theorem foldl_ne (hstate : ∀ b, Function.Injective (step · b))
    (hletter : ∀ s, Function.Injective (step s)) {as bs : List B} (h : OneChanged as bs) (s : S) :
    as.foldl step s ≠ bs.foldl step s := by
  induction as generalizing bs s with
  | nil =>
    obtain ⟨i, hi, _⟩ := h.letter
    have hbs : bs = [] := List.eq_nil_of_length_eq_zero h.length.symm
    exact absurd (by rw [hbs]) hi
  | cons a as ih =>
    cases bs with
    | nil => cases h.length
    | cons b bs =>
      have hlength : as.length = bs.length := Nat.succ.inj h.length
      obtain ⟨i, hi, hsame⟩ := h.letter
      cases i with
      | zero =>
        have hrest : as = bs := by
          apply List.ext_getElem?
          intro j
          exact hsame (j + 1) (Nat.succ_ne_zero j)
        rw [List.foldl_cons, List.foldl_cons, hrest]
        intro heq
        exact hi (congrArg some (hletter s (foldl_injective hstate bs heq)))
      | succ i =>
        have hfirst : a = b := Option.some.inj (hsame 0 (Nat.succ_ne_zero i).symm)
        rw [List.foldl_cons, List.foldl_cons, hfirst]
        refine ih ⟨hlength, i, hi, ?_⟩ (step s b)
        intro j hj
        exact hsame (j + 1) fun h => hj (Nat.succ.inj h)

end Fold

section CheckSum

theorem toNat_rotateRight (c : UInt16) :
    (rotateRight c).toNat = c.toNat / 2 + 2 ^ 15 * (c.toNat % 2) := by
  have hlt : c.toNat < 65536 := c.toNat_lt
  have hbit : c &&& 1 = 1 ↔ c.toNat % 2 = 1 := by
    rw [← UInt16.toNat_inj, UInt16.toNat_and]
    change c.toNat &&& 1 = 1 ↔ _
    rw [Nat.and_one_is_mod]
  have hshift : (c >>> 1).toNat = c.toNat / 2 := by
    rw [UInt16.toNat_shiftRight]
    exact Nat.shiftRight_eq_div_pow c.toNat 1
  rw [rotateRight]
  split
  · rename_i hodd
    have hor := Nat.shiftLeft_add_eq_or_of_lt (show c.toNat / 2 < 2 ^ 15 by omega) 1
    rw [UInt16.toNat_or, hshift, hbit.mp hodd, Nat.or_comm]
    change (1 <<< 15) ||| _ = _
    rw [← hor]
    omega
  · rename_i heven
    rw [hbit] at heven
    rw [hshift]
    omega

theorem rotateRight_injective : Function.Injective rotateRight := by
  intro c d h
  have hvalue := congrArg UInt16.toNat h
  rw [toNat_rotateRight, toNat_rotateRight] at hvalue
  have hc : c.toNat < 65536 := c.toNat_lt
  have hd : d.toNat < 65536 := d.toNat_lt
  apply UInt16.toNat_inj.mp
  omega

theorem checkSum_ne {as bs : List UInt8} (h : OneChanged as bs) : checkSum as ≠ checkSum bs := by
  apply foldl_ne _ _ h
  · intro b c d hsum
    exact rotateRight_injective (add_right_cancel hsum)
  · intro c a b hsum
    have hvalue := congrArg UInt16.toNat (add_left_cancel hsum)
    rw [UInt8.toNat_toUInt16, UInt8.toNat_toUInt16] at hvalue
    exact UInt8.toNat_inj.mp hvalue

end CheckSum

section Message

theorem oneChanged_read {m m' : Nat → UInt8} {off n i : Nat} (hoff : off ≤ i) (hi : i < off + n)
    (hchanged : m' i ≠ m i) (hsame : ∀ j ≠ i, m' j = m j) :
    OneChanged (read m' off n) (read m off n) where
  length := by rw [length_read, length_read]
  letter := by
    refine ⟨i - off, ?_, ?_⟩
    · rw [List.getElem?_eq_getElem (by rw [length_read]; omega),
        List.getElem?_eq_getElem (by rw [length_read]; omega), getElem_read, getElem_read,
        Nat.add_sub_cancel' hoff]
      exact fun h => hchanged (Option.some.inj h)
    · intro j hj
      rcases Nat.lt_or_ge j n with hlt | hge
      · rw [List.getElem?_eq_getElem (by rwa [length_read]),
          List.getElem?_eq_getElem (by rwa [length_read]), getElem_read, getElem_read,
          hsame (off + j) (by omega)]
      · rw [List.getElem?_eq_none (by rwa [length_read]),
          List.getElem?_eq_none (by rwa [length_read])]

theorem ofBigEndian_ne {as bs : List UInt8} (h : OneChanged as bs) :
    ofBigEndian as ≠ ofBigEndian bs := by
  apply foldl_ne _ _ h
  · intro b x y hsum
    dsimp only at hsum
    omega
  · intro x a b hsum
    exact UInt8.toNat_inj.mp (Nat.add_left_cancel hsum)

/-- The bytes of the checksum, those that it covers in the header without the length, and
the user data. -/
def Covered (len i : Nat) : Prop :=
  (10 ≤ i ∧ i < 12) ∨ (12 ≤ i ∧ i < headerSize ∧ i ≠ 14 ∧ i ≠ 15) ∨
    (headerSize ≤ i ∧ i < headerSize + len)

variable {msg msg' : NetworkMessage} {i : Nat}

theorem not_isCheckSumOk (hok : isCheckSumOk msg) (hcovered : Covered (getLen msg) i)
    (hchanged : msg'.bytes i ≠ msg.bytes i) (hsame : ∀ j ≠ i, msg'.bytes j = msg.bytes j) :
    ¬isCheckSumOk msg' := by
  have hsize : headerSize = 36 := rfl
  have hfield (off n : Nat) (h : i < off ∨ off + n ≤ i) :
      read msg'.bytes off n = read msg.bytes off n := by
    rw [read_eq_iff]
    intro j hj
    exact hsame (off + j) (by omega)
  have hlen : getLen msg' = getLen msg :=
    congrArg ofBigEndian (hfield 14 2 (by unfold Covered at hcovered; omega))
  unfold isCheckSumOk at *
  rcases hcovered with ⟨hlow, hhigh⟩ | hcovered
  · have hsum : calculateCheckSum msg' = calculateCheckSum msg := by
      rw [calculateCheckSum, hlen, hfield 12 _ (.inl hhigh), calculateCheckSum]
    have hne : getCheckSum msg' ≠ getCheckSum msg :=
      ofBigEndian_ne (oneChanged_read hlow (by omega) hchanged hsame)
    rw [hsum, hok]
    exact hne.symm
  · have hsum : calculateCheckSum msg' ≠ calculateCheckSum msg := by
      rw [calculateCheckSum, hlen, calculateCheckSum]
      exact checkSum_ne (oneChanged_read (by omega) (by omega) hchanged hsame)
    have hstored : getCheckSum msg' = getCheckSum msg :=
      congrArg ofBigEndian (hfield 10 2 (.inr (by omega)))
    rw [hstored, ← hok]
    exact fun heq => hsum (UInt16.toNat_inj.mp heq)

end Message

/-- A changed byte changes the checksum, and a message with one is not valid. -/
theorem checkSum_detects_byte :
    (∀ as bs : List UInt8, OneChanged as bs → checkSum as ≠ checkSum bs) ∧
    ∀ (msg msg' : NetworkMessage) (i : Nat), isCheckSumOk msg →
      getLen msg ≤ maxNetworkMessageLength → Covered (getLen msg) i →
        msg'.bytes i ≠ msg.bytes i → (∀ j ≠ i, msg'.bytes j = msg.bytes j) →
          ¬isCheckSumOk msg' := by
  constructor
  · intro as bs h
    exact checkSum_ne h
  · intro msg msg' i hok _ hcovered hchanged hsame
    exact not_isCheckSumOk hok hcovered hchanged hsame

/-- A telegram with a wrong second byte, and an empty message with a wrong send time. -/
theorem checkSum_detects_byte_second : checkSum [1, 2, 3] ≠ checkSum [1, 6, 3] ∧
    ¬isCheckSumOk ⟨fun i => if i = 20 then 1 else 0⟩ := by
  constructor
  · refine checkSum_detects_byte.1 [1, 2, 3] [1, 6, 3] ⟨rfl, 1, by decide, ?_⟩
    intro j hj
    match j with
    | 0 => rfl
    | 1 => exact absurd rfl hj
    | 2 => rfl
    | j + 3 => rfl
  · refine checkSum_detects_byte.2 ⟨fun _ => 0⟩ _ 20 ?_ (by decide +kernel) ?_ (by decide) ?_
    · rw [isCheckSumOk]
      decide +kernel
    · rw [Covered]
      decide +kernel
    · intro j hj
      exact if_neg hj

end Rodos.ChecksumErrors
