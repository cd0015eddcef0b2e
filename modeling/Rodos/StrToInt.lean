import Rodos.CString
import Rodos.MachineInt

namespace Rodos.StrToInt

open CString MachineInt

def INT32_MIN : Int := -2 ^ 31
def INT32_MAX : Int := 2 ^ 31 - 1

def isspace (c : Char) : Bool := (0x09 ≤ c.toNat && c.toNat ≤ 0x0D) || c.toNat == 0x20

def isdigit (c : Char) : Bool := '0' ≤ c && c ≤ '9'

def isalpha (c : Char) : Bool := ('a' ≤ c && c ≤ 'z') || ('A' ≤ c && c ≤ 'Z')

def isupper (c : Char) : Bool := 'A' ≤ c && c ≤ 'Z'

def skipSpace : List Char → Option (Char × List Char)
  | [] => none
  | c :: s => if isspace c then skipSpace s else some (c, s)

def sign (c : Char) (s : List Char) : Option (Bool × Char × List Char) :=
  if c = '-' then (next s).map (true, ·)
  else if c = '+' then (next s).map (false, ·)
  else some (false, c, s)

def hexPrefix (base : Nat) (c : Char) (s : List Char) : Option (Nat × Char × List Char) :=
  if (base = 0 ∨ base = 16) ∧ c = '0' then do
    let x ← s[0]?
    if x = 'x' ∨ x = 'X' then
      let c ← s[1]?
      return (16, c, s.drop 2)
    return (base, c, s)
  else some (base, c, s)

def digit (c : Char) : Option Nat :=
  if isdigit c then some (c.toNat - '0'.toNat)
  else if isalpha c then some (c.toNat - (if isupper c then 'A'.toNat - 10 else 'a'.toNat - 10))
  else none

def accumulate (base : Nat) (cutoff cutlim : Int) (state : Int × Int) (c : Nat) : Int × Int :=
  if state.2 < 0 ∨ state.1 > cutoff ∨ (state.1 = cutoff ∧ c > cutlim) then (state.1, -1)
  else (int32 (int32 (state.1 * base) + c), 1)

def convert (base : Nat) (cutoff cutlim : Int) (state : Int × Int) (c : Char) (s : List Char) :
    Option ((Int × Int) × List Char) :=
  match digit c with
  | none => some (state, s)
  | some d =>
    if d ≥ base then some (state, s)
    else
      match s with
      | [] => none
      | c :: s => convert base cutoff cutlim (accumulate base cutoff cutlim state d) c s

/-- The number with the distance of `*endptr` from the start. -/
def strToInt32_t (nptr : List Char) (base : Nat) : Option (Int × Nat) := do
  let (c, s) ← skipSpace nptr
  let (neg, c, s) ← sign c s
  let (base, c, s) ← hexPrefix base c s
  let base := if base = 0 then (if c = '0' then 8 else 10) else base
  let cutoff : Nat := if neg then 2 ^ 32 - 2 ^ 31 else 2 ^ 31 - 1
  let cutlim : Nat := cutoff % base % 2 ^ 8
  let cutoff : Nat := cutoff / base
  let ((acc, any), s) ← convert base (int32 cutoff) (int8 cutlim) (0, 0) c s
  let acc := if any < 0 then (if neg then INT32_MIN else INT32_MAX) else if neg then int32 (-acc) else acc
  return (acc, if any ≠ 0 then nptr.length - s.length - 1 else 0)

section Numerals

/-- The digits of the longest run that a string begins with. -/
def digitRun (base : Nat) : List Char → List Nat
  | [] => []
  | c :: rest =>
    match digit c with
    | none => []
    | some d => if d < base then d :: digitRun base rest else []

def value (base : Nat) (digits : List Nat) : Nat := Nat.ofDigits base digits.reverse

structure Numeral where
  negative : Bool
  base : Nat
  start : Nat
  digits : List Nat

def afterSign (str : List Char) : List Char :=
  if str[0]? = some '-' ∨ str[0]? = some '+' then str.tail else str

def HasPrefix (base : Nat) (str : List Char) : Prop :=
  (base = 0 ∨ base = 16) ∧ str[0]? = some '0' ∧ (str[1]? = some 'x' ∨ str[1]? = some 'X')

instance (base : Nat) (str : List Char) : Decidable (HasPrefix base str) :=
  inferInstanceAs (Decidable (_ ∧ _))

def afterPrefix (base : Nat) (str : List Char) : List Char :=
  if HasPrefix base str then str.drop 2 else str

def effectiveBase (base : Nat) (str : List Char) : Nat :=
  if HasPrefix base str then 16
  else if base = 0 then (if str[0]? = some '0' then 8 else 10)
  else base

/-- The number that a string means: behind white space, a sign and a prefix there are its
digits. -/
def numeral (base : Nat) (str : List Char) : Numeral where
  negative := (str.dropWhile isspace)[0]? = some '-'
  base := effectiveBase base (afterSign (str.dropWhile isspace))
  start := str.length - (afterPrefix base (afterSign (str.dropWhile isspace))).length
  digits := digitRun (effectiveBase base (afterSign (str.dropWhile isspace)))
    (afterPrefix base (afterSign (str.dropWhile isspace)))

namespace Numeral

variable (n : Numeral)

def magnitude : Nat := value n.base n.digits

/-- The largest magnitude in range. -/
def limit : Nat := if n.negative then 2 ^ 31 else 2 ^ 31 - 1

def clamped : Int :=
  max INT32_MIN (min INT32_MAX (if n.negative then -n.magnitude else n.magnitude))

def endptr : Nat := if n.digits = [] then 0 else n.start + n.digits.length

end Numeral

/-- With the value of the digits before it, as an int32, a digit exceeds the limit. -/
def Noticed (limit base : Nat) (digits : List Nat) : Prop :=
  ∃ (front : List Nat) (d : Nat) (back : List Nat), digits = front ++ d :: back ∧
    (limit : Int) < int32 (value base front) * base + d

end Numerals

section Parsing

/-! Between two steps `c` and `s` hold the cells of what is left of the string. -/

variable {c : Char} {s rest : List Char}

theorem head_iff (h : c :: s = rest ++ [nul]) {x : Char} (hx : x ≠ nul) :
    rest[0]? = some x ↔ c = x := by
  cases rest with
  | nil =>
    obtain ⟨rfl, -⟩ := List.cons.inj h
    simp [hx.symm]
  | cons y rest =>
    obtain ⟨rfl, -⟩ := List.cons.inj h
    simp

theorem skipSpace_spec (str : List Char) :
    ∃ c s, skipSpace (str ++ [nul]) = some (c, s) ∧ c :: s = str.dropWhile isspace ++ [nul] := by
  induction str with
  | nil => exact ⟨nul, [], rfl, rfl⟩
  | cons x str ih =>
    rw [List.cons_append, skipSpace, List.dropWhile_cons]
    split
    · exact ih
    · exact ⟨x, str ++ [nul], rfl, rfl⟩

theorem sign_spec (h : c :: s = rest ++ [nul]) :
    ∃ c' s', sign c s = some (decide (rest[0]? = some '-'), c', s') ∧
      c' :: s' = afterSign rest ++ [nul] := by
  have hminus : rest[0]? = some '-' ↔ c = '-' := head_iff h (by decide)
  have hplus : rest[0]? = some '+' ↔ c = '+' := head_iff h (by decide)
  by_cases hsign : c = '-' ∨ c = '+'
  · have htail : s = rest.tail ++ [nul] := by
      cases rest with
      | nil =>
        obtain ⟨rfl, -⟩ := List.cons.inj h
        exact absurd hsign (by decide)
      | cons x rest => exact (List.cons.inj h).2
    obtain ⟨c', s', hnext, hcells⟩ := next_spec rest.tail
    refine ⟨c', s', ?_, ?_⟩
    · simp only [sign, htail, hnext, hminus]
      obtain rfl | rfl := hsign <;> rfl
    · simp only [afterSign, hminus, hplus, if_pos hsign]
      exact hcells
  · obtain ⟨hc, hc'⟩ := not_or.mp hsign
    refine ⟨c, s, ?_, ?_⟩
    · simp only [sign, if_neg hc, if_neg hc', hminus, decide_eq_false hc]
    · simp only [afterSign, hminus, hplus, if_neg hsign]
      exact h

theorem hexPrefix_spec (base : Nat) (h : c :: s = rest ++ [nul]) :
    ∃ c' s', hexPrefix base c s = some (if HasPrefix base rest then 16 else base, c', s') ∧
      c' :: s' = afterPrefix base rest ++ [nul] := by
  have hzero : rest[0]? = some '0' ↔ c = '0' := head_iff h (by decide)
  by_cases hc : (base = 0 ∨ base = 16) ∧ c = '0'
  · obtain ⟨hbase, rfl⟩ := hc
    cases rest with
    | nil => cases h
    | cons y rest =>
      obtain ⟨rfl, hs⟩ : '0' = y ∧ s = rest ++ [nul] := List.cons.inj h
      obtain ⟨x, t, -, hcells⟩ := next_spec rest
      obtain rfl : s = x :: t := hs.trans hcells.symm
      have hx : x = 'x' ∨ x = 'X' ↔ HasPrefix base ('0' :: rest) := by
        rw [HasPrefix, List.getElem?_cons_succ, head_iff hcells (by decide),
          head_iff hcells (by decide)]
        simp [hbase]
      rw [hexPrefix, if_pos ⟨hbase, rfl⟩, List.getElem?_cons_zero, Option.bind_eq_bind,
        Option.bind_some]
      by_cases hhex : x = 'x' ∨ x = 'X'
      · cases rest with
        | nil =>
          obtain ⟨rfl, -⟩ := List.cons.inj hcells
          exact absurd hhex (by decide)
        | cons z rest =>
          obtain ⟨rfl, ht⟩ : x = z ∧ t = rest ++ [nul] := List.cons.inj hcells
          obtain ⟨c', s', -, hcells'⟩ := next_spec rest
          obtain rfl : t = c' :: s' := ht.trans hcells'.symm
          refine ⟨c', s', ?_, ?_⟩
          · rw [if_pos hhex, if_pos (hx.mp hhex)]
            rfl
          · rw [afterPrefix, if_pos (hx.mp hhex)]
            exact hcells'
      · refine ⟨'0', x :: t, ?_, ?_⟩
        · rw [if_neg hhex, if_neg (mt hx.mpr hhex)]
          rfl
        · rw [afterPrefix, if_neg (mt hx.mpr hhex), hcells]
          rfl
  · have hhex : ¬ HasPrefix base rest := by
      rintro ⟨hbase, hhead, -⟩
      exact hc ⟨hbase, hzero.mp hhead⟩
    refine ⟨c, s, ?_, ?_⟩
    · rw [hexPrefix, if_neg hc, if_neg hhex]
    · rw [afterPrefix, if_neg hhex]
      exact h

theorem digit_nul : digit nul = none := rfl

/-- The loop takes the digits of the run and leaves `s` behind the character that ends it. -/
theorem convert_spec (base : Nat) (cutoff cutlim : Int) (state : Int × Int)
    (h : c :: s = rest ++ [nul]) :
    ∃ s', convert base cutoff cutlim state c s =
        some ((digitRun base rest).foldl (accumulate base cutoff cutlim) state, s') ∧
      (digitRun base rest).length + s'.length = rest.length := by
  induction rest generalizing c s state with
  | nil =>
    obtain ⟨rfl, rfl⟩ := List.cons.inj h
    exact ⟨[], by rw [convert, digit_nul]; rfl, rfl⟩
  | cons x rest ih =>
    obtain ⟨rfl, hs⟩ : c = x ∧ s = rest ++ [nul] := List.cons.inj h
    obtain ⟨c', s', -, hcells⟩ := next_spec rest
    obtain rfl : s = c' :: s' := hs.trans hcells.symm
    cases hdigit : digit c with
    | none =>
      refine ⟨c' :: s', ?_, ?_⟩
      · rw [convert, digitRun, hdigit]
        rfl
      · rw [digitRun, hdigit, hcells, List.length_append, List.length_cons]
        exact Nat.zero_add _
    | some d =>
      by_cases hlt : d < base
      · obtain ⟨t, hconvert, hlength⟩ := ih (accumulate base cutoff cutlim state d) hcells
        refine ⟨t, ?_, ?_⟩
        · rw [digitRun, hdigit, convert.eq_def, hdigit]
          simp only [if_neg (Nat.not_le.mpr hlt), if_pos hlt, List.foldl_cons]
          exact hconvert
        · simp only [digitRun, hdigit, if_pos hlt, List.length_cons]
          omega
      · refine ⟨c' :: s', ?_, ?_⟩
        · rw [digitRun, hdigit, convert.eq_def, hdigit]
          simp only [if_pos (Nat.not_lt.mp hlt), if_neg hlt, List.foldl_nil]
        · simp only [digitRun, hdigit, if_neg hlt, hcells, List.length_append, List.length_cons,
            List.length_nil, Nat.zero_add]

theorem lt_of_mem_digitRun {base d : Nat} {str : List Char} (hd : d ∈ digitRun base str) :
    d < base := by
  induction str with
  | nil => cases hd
  | cons c str ih =>
    rw [digitRun] at hd
    split at hd
    · cases hd
    · split at hd
      · obtain rfl | hd := List.mem_cons.mp hd
        · assumption
        · exact ih hd
      · cases hd

end Parsing

section Values

variable {limit base d : Nat} {digits : List Nat}

theorem value_concat (base : Nat) (digits : List Nat) (d : Nat) :
    value base (digits ++ [d]) = value base digits * base + d := by
  rw [value, List.reverse_append, List.reverse_singleton, List.singleton_append, Nat.ofDigits_cons,
    value, Nat.add_comm, Nat.mul_comm]

theorem value_le_append (hbase : 0 < base) (front back : List Nat) :
    value base front ≤ value base (front ++ back) := by
  induction back using List.reverseRecOn with
  | nil => rw [List.append_nil]
  | append_singleton back d ih =>
    rw [← List.append_assoc, value_concat]
    apply ih.trans
    exact (Nat.le_mul_of_pos_right _ hbase).trans (Nat.le_add_right _ _)

theorem noticed_concat : Noticed limit base (digits ++ [d]) ↔
    Noticed limit base digits ∨ (limit : Int) < int32 (value base digits) * base + d := by
  constructor
  · rintro ⟨front, x, back, heq, hlt⟩
    obtain rfl | ⟨back, y, rfl⟩ := List.eq_nil_or_concat back
    · obtain ⟨rfl, hlast⟩ := List.append_inj' heq rfl
      obtain rfl : d = x := List.singleton_inj.mp hlast
      exact .inr hlt
    · rw [List.concat_eq_append, ← List.cons_append, ← List.append_assoc] at heq
      exact .inl ⟨front, x, back, (List.append_inj' heq rfl).1, hlt⟩
  · rintro (⟨front, x, back, rfl, hlt⟩ | hlt)
    · exact ⟨front, x, back ++ [d], by simp, hlt⟩
    · exact ⟨digits, d, [], rfl, hlt⟩

theorem int32_le {x : Int} (hx : 0 ≤ x) : int32 x ≤ x := by
  have hdiv := Int.bmod_add_bdiv x (2 ^ 32)
  have hlt : int32 x < 2 ^ 31 := Int.bmod_lt (by decide)
  unfold int32 at *
  omega

theorem Noticed.ne_nil (h : Noticed limit base digits) : digits ≠ [] := by
  obtain ⟨front, d, back, rfl, -⟩ := h
  exact List.append_ne_nil_of_right_ne_nil _ (List.cons_ne_nil _ _)

theorem lt_value_of_noticed (hbase : 0 < base) (h : Noticed limit base digits) :
    limit < value base digits := by
  obtain ⟨front, d, back, rfl, hlt⟩ := h
  have hwrapped : int32 (value base front) * base ≤ value base front * base :=
    Int.mul_le_mul_of_nonneg_right (int32_le (Int.natCast_nonneg _)) (Int.natCast_nonneg _)
  have hfront : limit < value base (front ++ [d]) := by
    rw [value_concat]
    omega
  have hle := value_le_append hbase (front ++ [d]) back
  rw [List.append_assoc, List.singleton_append] at hle
  exact Nat.lt_of_lt_of_le hfront hle

/-- Below the highest int32 nothing escapes. -/
theorem noticed_iff_of_lt (hbase : 0 < base) (hlimit : limit < 2 ^ 31) :
    Noticed limit base digits ↔ limit < value base digits := by
  refine ⟨lt_value_of_noticed hbase, ?_⟩
  induction digits using List.reverseRecOn with
  | nil => nofun
  | append_singleton digits d ih =>
    intro hlt
    apply noticed_concat.mpr
    by_cases hdigits : limit < value base digits
    · exact .inl (ih hdigits)
    · right
      rw [int32_eq (by omega) (by omega)]
      rw [value_concat] at hlt
      exact_mod_cast hlt

theorem exceeds_iff (acc : Int) (hd : d < base) :
    (acc > (limit / base : Nat) ∨ acc = (limit / base : Nat) ∧ (d : Int) > (limit % base : Nat)) ↔
      (limit : Int) < acc * base + d := by
  have hdiv : (limit : Int) = (limit / base : Nat) * base + (limit % base : Nat) := by
    exact_mod_cast (Nat.div_add_mod' limit base).symm
  have hmod : limit % base < base := Nat.mod_lt _ (Nat.zero_lt_of_lt hd)
  obtain hlt | heq | hgt := lt_trichotomy acc (limit / base : Nat)
  · have hstep : (acc + 1) * base ≤ (limit / base : Nat) * base :=
      Int.mul_le_mul_of_nonneg_right hlt (Int.natCast_nonneg _)
    rw [Int.add_mul] at hstep
    omega
  · rw [heq]
    omega
  · have hstep : ((limit / base : Nat) + 1) * base ≤ acc * base :=
      Int.mul_le_mul_of_nonneg_right hgt (Int.natCast_nonneg _)
    rw [Int.add_mul] at hstep
    omega

theorem int32_horner (v : Nat) :
    int32 (int32 (int32 v * base) + d) = int32 (v * base + d : Nat) := by
  rw [int32, int32, int32, Int.bmod_mul_bmod, Int.bmod_add_bmod]
  rfl

theorem accumulate_eq {state : Int × Int} (hany : 0 ≤ state.2) (hd : d < base) :
    accumulate base (limit / base : Nat) (limit % base : Nat) state d =
      if (limit : Int) < state.1 * base + d then (state.1, -1)
      else (int32 (int32 (state.1 * base) + d), 1) := by
  rw [accumulate]
  apply if_congr _ rfl rfl
  rw [← exceeds_iff state.1 hd]
  exact or_iff_right (Int.not_lt.mpr hany)

theorem accumulated (limit : Nat) (hdigits : ∀ d ∈ digits, d < base) :
    ∃ state, digits.foldl (accumulate base (limit / base : Nat) (limit % base : Nat)) (0, 0) = state ∧
      (Noticed limit base digits ∧ state.2 = -1 ∨ ¬ Noticed limit base digits ∧
        state = (int32 (value base digits), if digits = [] then 0 else 1)) := by
  induction digits using List.reverseRecOn with
  | nil =>
    exact ⟨(0, 0), rfl, .inr ⟨fun h => h.ne_nil rfl, by simp [value, int32]⟩⟩
  | append_singleton digits d ih =>
    obtain ⟨state, hstate, hih⟩ := ih fun x hx => hdigits x (List.mem_append_left _ hx)
    have hd : d < base := hdigits d (List.mem_append_right _ (List.mem_singleton_self d))
    refine ⟨_, rfl, ?_⟩
    rw [List.foldl_concat, hstate, noticed_concat]
    obtain ⟨hnoticed, hany⟩ | ⟨hnot, rfl⟩ := hih
    · left
      rw [accumulate, if_pos (.inl (by omega))]
      exact ⟨.inl hnoticed, rfl⟩
    · have hany : 0 ≤ if digits = [] then (0 : Int) else 1 := by
        split <;> decide
      rw [accumulate_eq hany hd]
      by_cases hlt : (limit : Int) < int32 (value base digits) * base + d
      · rw [if_pos hlt]
        exact .inl ⟨.inr hlt, rfl⟩
      · rw [if_neg hlt, int32_horner, value_concat,
          if_neg (List.append_ne_nil_of_right_ne_nil _ (List.cons_ne_nil _ _))]
        exact .inr ⟨not_or.mpr ⟨hnot, hlt⟩, rfl⟩

end Values

section Results

variable {base : Nat}

theorem effectiveBase_range (hbase : base = 0 ∨ 2 ≤ base ∧ base ≤ 36) (rest : List Char) :
    2 ≤ effectiveBase base rest ∧ effectiveBase base rest ≤ 36 := by
  rw [effectiveBase]
  split_ifs <;> omega

/-- The base after the steps that look for a prefix. -/
theorem effectiveBase_eq {c : Char} {s rest : List Char}
    (h : c :: s = afterPrefix base rest ++ [nul]) :
    (if (if HasPrefix base rest then 16 else base) = 0 then (if c = '0' then 8 else 10)
      else if HasPrefix base rest then 16 else base) = effectiveBase base rest := by
  rw [effectiveBase]
  by_cases hhex : HasPrefix base rest
  · simp only [if_pos hhex]
    rfl
  · rw [afterPrefix, if_neg hhex] at h
    simp only [if_neg hhex, head_iff h (show '0' ≠ nul by decide)]

theorem length_afterPrefix_le (base : Nat) (str : List Char) :
    (afterPrefix base (afterSign (str.dropWhile isspace))).length ≤ str.length := by
  have hspace : (str.dropWhile isspace).length ≤ str.length := List.length_dropWhile_le _ _
  have hsign : (afterSign (str.dropWhile isspace)).length ≤ (str.dropWhile isspace).length := by
    rw [afterSign]
    split
    · exact List.length_tail.le.trans (Nat.sub_le _ _)
    · exact le_rfl
  apply le_trans _ (hsign.trans hspace)
  rw [afterPrefix]
  split
  · exact List.length_drop.le.trans (Nat.sub_le _ _)
  · exact le_rfl

theorem Numeral.limit_le (n : Numeral) : n.limit ≤ 2 ^ 31 := by
  rw [limit]
  split <;> decide

theorem Numeral.int32_cutoff {n : Numeral} (hbase : 2 ≤ n.base) :
    int32 (n.limit / n.base : Nat) = (n.limit / n.base : Nat) := by
  have hle : n.limit / n.base ≤ 2 ^ 31 / 2 := Nat.div_le_div n.limit_le hbase (by decide)
  generalize n.limit / n.base = cutoff at hle
  apply int32_eq <;> omega

theorem Numeral.int8_cutlim {n : Numeral} (hbase : 2 ≤ n.base) (hbase' : n.base ≤ 36) :
    int8 (n.limit % n.base % 2 ^ 8 : Nat) = (n.limit % n.base : Nat) := by
  have hlt : n.limit % n.base < n.base := Nat.mod_lt _ (by omega)
  rw [Nat.mod_eq_of_lt (by omega : n.limit % n.base < 2 ^ 8)]
  apply int8_eq <;> omega

theorem strToInt32_t_spec (hbase : base = 0 ∨ 2 ≤ base ∧ base ≤ 36) (str : CString)
    {n : Numeral} (hn : n = numeral base str.chars) :
    ∃ acc, strToInt32_t str.cells base = some (acc, n.endptr) ∧
      (Noticed n.limit n.base n.digits ∧ acc = (if n.negative then INT32_MIN else INT32_MAX) ∨
        ¬ Noticed n.limit n.base n.digits ∧
          acc = if n.negative then int32 (-int32 n.magnitude) else int32 n.magnitude) := by
  obtain ⟨c, s, hspace, hcells⟩ := skipSpace_spec str.chars
  obtain ⟨c, s, hsign, hcells⟩ := sign_spec hcells
  obtain ⟨c, s, hhex, hcells⟩ := hexPrefix_spec base hcells
  obtain ⟨s', hconvert, hlength⟩ := convert_spec n.base (n.limit / n.base : Nat)
    (n.limit % n.base : Nat) (0, 0) hcells
  have hrange : 2 ≤ n.base ∧ n.base ≤ 36 := by
    rw [hn]
    exact effectiveBase_range hbase _
  have hneg : decide ((str.chars.dropWhile isspace)[0]? = some '-') = n.negative := by rw [hn]; rfl
  have hbase' : effectiveBase base (afterSign (str.chars.dropWhile isspace)) = n.base := by
    rw [hn]
    rfl
  have hrun : digitRun n.base (afterPrefix base (afterSign (str.chars.dropWhile isspace))) =
      n.digits := by
    rw [hn]
    rfl
  have hstart : n.start = str.chars.length -
      (afterPrefix base (afterSign (str.chars.dropWhile isspace))).length := by
    rw [hn]
    rfl
  have hlimit : (if n.negative = true then 2 ^ 32 - 2 ^ 31 else 2 ^ 31 - 1) = n.limit := by
    rw [Numeral.limit]
    split <;> rfl
  have hle := length_afterPrefix_le base str.chars
  rw [hrun] at hconvert hlength
  have hend : str.cells.length - s'.length - 1 = n.start + n.digits.length := by
    rw [CString.length_cells]
    omega
  simp only [strToInt32_t, CString.cells, hspace, hsign, hhex, Option.bind_eq_bind,
    Option.bind_some, effectiveBase_eq hcells, hneg, hbase', hlimit, Numeral.int32_cutoff hrange.1,
    Numeral.int8_cutlim hrange.1 hrange.2, hconvert]
  have hdigits : ∀ d ∈ n.digits, d < n.base := by
    rw [← hrun]
    exact fun d hd => lt_of_mem_digitRun hd
  obtain ⟨state, hstate, hloop⟩ := accumulated n.limit hdigits
  rw [CString.cells] at hend
  rw [hstate, hend]
  obtain ⟨hnoticed, hany⟩ | ⟨hnot, rfl⟩ := hloop
  · refine ⟨_, ?_, .inl ⟨hnoticed, rfl⟩⟩
    rw [hany, Numeral.endptr, if_neg hnoticed.ne_nil, if_pos (show (-1 : Int) < 0 by decide),
      if_pos (show (-1 : Int) ≠ 0 by decide)]
    rfl
  · refine ⟨_, ?_, .inr ⟨hnot, rfl⟩⟩
    rw [Numeral.endptr, Numeral.magnitude]
    by_cases hnil : n.digits = []
    · simp only [if_pos hnil, lt_irrefl, ne_eq, not_true_eq_false, if_false]
      rfl
    · simp only [if_neg hnil, Int.not_lt.mpr Int.one_nonneg, ne_eq, one_ne_zero, not_false_eq_true,
        if_false, if_true]
      rfl

theorem int32_neg (x : Int) : int32 (-int32 x) = int32 (-x) := by
  rw [← Int.zero_sub, ← Int.zero_sub, int32, int32, Int.sub_bmod_bmod, int32]

theorem int32_neg_eq_iff (m : Nat) : int32 (-m) = max INT32_MIN (min INT32_MAX (-m)) ↔
    m ≤ 2 ^ 31 ∨ m % 2 ^ 32 = 2 ^ 31 := by
  have hdiv := Int.bmod_add_bdiv (-m : Int) (2 ^ 32)
  have hlt : int32 (-m) < 2 ^ 31 := Int.bmod_lt (by decide)
  have hle : -2 ^ 31 ≤ int32 (-m) := Int.le_bmod (by decide)
  unfold int32 INT32_MIN INT32_MAX at *
  omega

section Range

variable {n : Numeral}

theorem Numeral.clamped_of_lt (hlt : n.limit < n.magnitude) :
    n.clamped = if n.negative then INT32_MIN else INT32_MAX := by
  unfold clamped limit INT32_MIN INT32_MAX at *
  split_ifs at * <;> omega

theorem Numeral.clamped_of_le (hle : n.magnitude ≤ 2 ^ 31 - 1) (hneg : n.negative = false) :
    n.clamped = n.magnitude := by
  simp only [clamped, hneg, INT32_MIN, INT32_MAX, Bool.false_eq_true, if_false]
  omega

end Range

section

variable {n : Numeral} {acc : Int}

/-- The number that the loop ends with is the clamped one, unless digits of a negative number
escape the comparison with the limit. -/
theorem Numeral.clamped_iff (hpos : 0 < n.base)
    (hacc : Noticed n.limit n.base n.digits ∧ acc = (if n.negative then INT32_MIN else INT32_MAX) ∨
      ¬ Noticed n.limit n.base n.digits ∧
        acc = if n.negative then int32 (-int32 n.magnitude) else int32 n.magnitude) :
    acc = n.clamped ↔ n.negative = false ∨ n.magnitude ≤ 2 ^ 31 ∨ n.magnitude % 2 ^ 32 = 2 ^ 31 ∨
      Noticed (2 ^ 31) n.base n.digits := by
  obtain ⟨hnoticed, rfl⟩ | ⟨hnot, rfl⟩ := hacc
  · rw [clamped_of_lt (lt_value_of_noticed hpos hnoticed)]
    cases hneg : n.negative with
    | false => exact iff_of_true rfl (.inl rfl)
    | true =>
      rw [limit, if_pos hneg] at hnoticed
      exact iff_of_true rfl (.inr (.inr (.inr hnoticed)))
  · cases hneg : n.negative with
    | false =>
      rw [limit, hneg, if_neg Bool.false_ne_true, noticed_iff_of_lt hpos (by decide)] at hnot
      have hle : n.magnitude ≤ 2 ^ 31 - 1 := by
        rw [magnitude]
        omega
      rw [clamped_of_le hle hneg]
      have hfits : int32 n.magnitude = n.magnitude := int32_eq (by omega) (by omega)
      simp only [Bool.false_eq_true, if_false, hfits, true_or]
    | true =>
      rw [limit, if_pos hneg] at hnot
      simp only [hnot, or_false, clamped, hneg, if_true, int32_neg, int32_neg_eq_iff,
        Bool.true_eq_false, false_or]

end

theorem numeral_base_pos (hbase : base = 0 ∨ 2 ≤ base ∧ base ≤ 36) (str : List Char) :
    0 < (numeral base str).base :=
  Nat.lt_of_lt_of_le Nat.two_pos (effectiveBase_range hbase _).1

/-- The function returns the clamped number and the place behind its digits exactly if no
digits escape. -/
theorem strToInt32_t_iff (hbase : base = 0 ∨ 2 ≤ base ∧ base ≤ 36) (str : CString) :
    strToInt32_t str.cells base =
        some ((numeral base str.chars).clamped, (numeral base str.chars).endptr) ↔
      (numeral base str.chars).negative = false ∨
      (numeral base str.chars).magnitude ≤ 2 ^ 31 ∨
      (numeral base str.chars).magnitude % 2 ^ 32 = 2 ^ 31 ∨
      Noticed (2 ^ 31) (numeral base str.chars).base (numeral base str.chars).digits := by
  obtain ⟨acc, hresult, hacc⟩ := strToInt32_t_spec hbase str rfl
  rw [hresult, Option.some_inj, Prod.mk_inj, and_iff_left rfl]
  exact Numeral.clamped_iff (numeral_base_pos hbase _) hacc

def minusTwelve : CString := ⟨[' ', '-', '1', '2'], by decide⟩

theorem strToInt32_t_minusTwelve : strToInt32_t minusTwelve.cells 10 = some (-12, 4) := by
  have hnumeral : ((numeral 10 minusTwelve.chars).clamped, (numeral 10 minusTwelve.chars).endptr) =
      (-12, 4) := by
    decide +kernel
  rw [← hnumeral]
  exact (strToInt32_t_iff (.inr (by decide)) minusTwelve).mpr (.inr (.inl (by decide +kernel)))

/-- "-21474836480": the digits before the last one have got the limit as their value. -/
def crossing : CString := ⟨"-21474836480".toList, by decide⟩

theorem strToInt32_t_wraps : ¬ ∀ (base : Nat) (str : CString), base = 0 ∨ 2 ≤ base ∧ base ≤ 36 →
    strToInt32_t str.cells base =
      some ((numeral base str.chars).clamped, (numeral base str.chars).endptr) := by
  intro h
  exact absurd (h 10 crossing (.inr (by decide))) (by decide +kernel)

theorem noticed_of_prefixes {digits : List Nat}
    (hparts : ∀ front back, digits = front ++ back → back ≠ [] → value base front ≠ 2 ^ 31)
    (hlt : 2 ^ 31 < value base digits) : Noticed (2 ^ 31) base digits := by
  induction digits using List.reverseRecOn with
  | nil => cases hlt
  | append_singleton digits d ih =>
    apply noticed_concat.mpr
    obtain hsmall | heq | hlarge := lt_trichotomy (value base digits) (2 ^ 31)
    · right
      rw [int32_eq (by omega) (by omega)]
      rw [value_concat] at hlt
      exact_mod_cast hlt
    · exact absurd heq (hparts digits [d] rfl (List.cons_ne_nil _ _))
    · left
      apply ih _ hlarge
      intro front back heq hne
      apply hparts front (back ++ [d]) _ (List.append_ne_nil_of_left_ne_nil hne _)
      rw [heq, List.append_assoc]

theorem strToInt32_t_of_prefixes (hbase : base = 0 ∨ 2 ≤ base ∧ base ≤ 36) (str : CString)
    (hparts : ∀ front back, (numeral base str.chars).digits = front ++ back → back ≠ [] →
      value (numeral base str.chars).base front ≠ 2 ^ 31) :
    strToInt32_t str.cells base =
      some ((numeral base str.chars).clamped, (numeral base str.chars).endptr) := by
  obtain ⟨acc, hresult, hacc⟩ := strToInt32_t_spec hbase str rfl
  have hclamped : acc = (numeral base str.chars).clamped := by
    apply (Numeral.clamped_iff (numeral_base_pos hbase _) hacc).mpr
    obtain hle | hlt := le_or_gt (numeral base str.chars).magnitude (2 ^ 31)
    · exact .inr (.inl hle)
    · exact .inr (.inr (.inr (noticed_of_prefixes hparts hlt)))
  rw [hresult, hclamped]

end Results

end Rodos.StrToInt
