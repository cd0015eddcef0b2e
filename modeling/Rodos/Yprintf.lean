import Rodos.AccessTrace
import Rodos.CString
import Rodos.MachineInt

namespace Rodos.Yprintf

open AccessTrace Traced CString MachineInt

inductive DataModel
  | ilp32
  | lp64

def DataModel.longBits : DataModel → Nat
  | ilp32 => 32
  | lp64 => 64

inductive Length
  | int
  | long
  | longlong
deriving DecidableEq

def Length.bits (model : DataModel) : Length → Nat
  | int => 32
  | long => model.longBits
  | longlong => 64

/-- An argument behind the format. A character is passed as an int. -/
inductive Arg (model : DataModel)
  | number (length : Length) (v : BitVec (length.bits model))
  | string (s : CString)

/-- The conversions of integers, with the base and the characters for them. -/
inductive Conversion
  | d
  | i
  | u
  | x
  | o
  | b
deriving DecidableEq

namespace Conversion

def char : Conversion → Char
  | d => 'd'
  | i => 'i'
  | u => 'u'
  | x => 'x'
  | o => 'o'
  | b => 'b'

def base : Conversion → Nat
  | d => 10
  | i => 10
  | u => 10
  | x => 16
  | o => 8
  | b => 2

def is_signed : Conversion → Bool
  | d => true
  | _ => false

def ofChar (c : Char) : Option Conversion :=
  [d, i, u, x, o, b].find? (fun conversion => conversion.char == c)

theorem two_le_base (conversion : Conversion) : 2 ≤ conversion.base := by
  cases conversion <;> decide

theorem base_le (conversion : Conversion) : conversion.base ≤ 16 := by
  cases conversion <;> decide

end Conversion

section Parsing

/-- What stands between the percent sign and the character of the conversion. -/
structure Flags where
  fill : Char
  width : Nat
  is_long : Bool
  is_longlong : Bool

def Flags.length (flags : Flags) : Length :=
  if flags.is_longlong then .longlong else if flags.is_long then .long else .int

def skipIf (p : Char → Bool) (c : Char) (fmt : List Char) : Option (Bool × Char × List Char) :=
  if p c then (next fmt).map (true, ·) else some (false, c, fmt)

def isDigit (c : Char) : Bool := '0' ≤ c && c ≤ '9'

def skipDigits (c : Char) (fmt : List Char) : Option (Char × List Char) :=
  if isDigit c then
    match fmt with
    | [] => none
    | c :: fmt => skipDigits c fmt
  else some (c, fmt)

/-- The decimals of floating point numbers. If the format ends here, it is the zero that is
returned. -/
def decimals (c : Char) (fmt : List Char) : Option (Char × List Char) :=
  if c = '.' then do
    let (c, fmt) ← next fmt
    if c = nul then return (c, fmt)
    let (c, fmt) ← next fmt
    if c = nul then return (c, fmt)
    skipDigits c fmt
  else some (c, fmt)

def parse (fmt : List Char) : Option (Flags × Char × List Char) := do
  let (c, fmt) ← next fmt
  let (zero, c, fmt) ← skipIf (· == '0') c fmt
  let digit := c
  let (width, c, fmt) ← skipIf isDigit c fmt
  let (c, fmt) ← decimals c fmt
  let (is_long, c, fmt) ← skipIf (· == 'l') c fmt
  let (is_longlong, c, fmt) ← skipIf (· == 'l') c fmt
  return ({ fill := if zero then '0' else ' '
            width := if width then digit.toNat - '0'.toNat else 0
            is_long, is_longlong }, c, fmt)

theorem next_length {fmt rest : List Char} {c : Char} (h : next fmt = some (c, rest)) :
    rest.length < fmt.length := by
  cases fmt with
  | nil => cases h
  | cons x fmt =>
    obtain ⟨-, rfl⟩ := Prod.mk_inj.mp (Option.some.inj h)
    exact Nat.lt_succ_self _

theorem skipIf_length {p : Char → Bool} {fmt rest : List Char} {c c' : Char} {found : Bool}
    (h : skipIf p c fmt = some (found, c', rest)) : rest.length ≤ fmt.length := by
  rw [skipIf] at h
  split at h
  · obtain ⟨⟨c₁, fmt₁⟩, hnext, heq⟩ := Option.map_eq_some_iff.mp h
    obtain ⟨-, -, rfl⟩ := heq
    exact (next_length hnext).le
  · obtain ⟨-, -, rfl⟩ := Option.some.inj h
    exact le_rfl

theorem skipDigits_length {fmt rest : List Char} {c c' : Char}
    (h : skipDigits c fmt = some (c', rest)) : rest.length ≤ fmt.length := by
  induction fmt generalizing c with
  | nil =>
    rw [skipDigits] at h
    split at h
    · cases h
    · obtain ⟨-, rfl⟩ := Prod.mk_inj.mp (Option.some.inj h)
      exact le_rfl
  | cons x fmt ih =>
    rw [skipDigits] at h
    split at h
    · exact (ih h).trans (Nat.le_succ _)
    · obtain ⟨-, rfl⟩ := Prod.mk_inj.mp (Option.some.inj h)
      exact le_rfl

theorem decimals_length {fmt rest : List Char} {c c' : Char}
    (h : decimals c fmt = some (c', rest)) : rest.length ≤ fmt.length := by
  rw [decimals] at h
  split at h
  · obtain ⟨⟨c₁, fmt₁⟩, hnext, h⟩ := Option.bind_eq_some_iff.mp h
    have hlt := next_length hnext
    dsimp only at h
    split at h
    · obtain ⟨-, rfl⟩ := Prod.mk_inj.mp (Option.some.inj h)
      exact hlt.le
    · obtain ⟨⟨c₂, fmt₂⟩, hnext', h⟩ := Option.bind_eq_some_iff.mp h
      have hlt' := next_length hnext'
      dsimp only at h
      split at h
      · obtain ⟨-, rfl⟩ := Prod.mk_inj.mp (Option.some.inj h)
        omega
      · have hle := skipDigits_length h
        omega
  · obtain ⟨-, rfl⟩ := Prod.mk_inj.mp (Option.some.inj h)
    exact le_rfl

theorem parse_length {fmt rest : List Char} {flags : Flags} {c : Char}
    (h : parse fmt = some (flags, c, rest)) : rest.length < fmt.length := by
  obtain ⟨⟨c₁, fmt₁⟩, h₁, h⟩ := Option.bind_eq_some_iff.mp h
  obtain ⟨⟨zero, c₂, fmt₂⟩, h₂, h⟩ := Option.bind_eq_some_iff.mp h
  obtain ⟨⟨width, c₃, fmt₃⟩, h₃, h⟩ := Option.bind_eq_some_iff.mp h
  obtain ⟨⟨c₄, fmt₄⟩, h₄, h⟩ := Option.bind_eq_some_iff.mp h
  obtain ⟨⟨long, c₅, fmt₅⟩, h₅, h⟩ := Option.bind_eq_some_iff.mp h
  obtain ⟨⟨longlong, c₆, fmt₆⟩, h₆, h⟩ := Option.bind_eq_some_iff.mp h
  obtain ⟨-, -, rfl⟩ := Option.some.inj h
  have h₁ := next_length h₁
  have h₂ := skipIf_length h₂
  have h₃ := skipIf_length h₃
  have h₄ := decimals_length h₄
  have h₅ := skipIf_length h₅
  have h₆ := skipIf_length h₆
  omega

end Parsing

section Scratch

def SCRATCH_SIZE : Int := 26

/-- The memory around `scratch`, by the index of a character in it. -/
structure Scratch where
  chars : Int → Char
  ptr : Int

/-- `*--ptr = c` -/
def Scratch.push (c : Char) (scratch : Scratch) : Traced Int Scratch := do
  touch (scratch.ptr - 1)
  pure ⟨Function.update scratch.chars (scratch.ptr - 1) c, scratch.ptr - 1⟩

def digitChar (digit : Nat) : Char :=
  let ch := digit + '0'.toNat
  if ch > '9'.toNat then Char.ofNat (ch + 'A'.toNat - '9'.toNat - 1) else Char.ofNat ch

def digitLoop (conversion : Conversion) (u_val width : Nat) (scratch : Scratch) :
    Traced Int (Nat × Scratch) := do
  let scratch ← scratch.push (digitChar (u_val % conversion.base))
  let width := if width ≠ 0 then width - 1 else width
  if u_val / conversion.base ≠ 0 then
    digitLoop conversion (u_val / conversion.base) width scratch
  else pure (width, scratch)
termination_by u_val
decreasing_by
  have hbase := conversion.two_le_base
  apply Nat.div_lt_self _ (by omega)
  apply Nat.pos_of_ne_zero
  rintro rfl
  simp at *

def padLoop (fill : Char) : Nat → Scratch → Traced Int Scratch
  | 0, scratch => pure scratch
  | width + 1, scratch => scratch.push fill >>= padLoop fill width

/-- The characters from `ptr` to the zero, if there is one in so many cells. -/
def output (chars : Int → Char) : Nat → Int → Traced Int (Option (List Char))
  | 0, _ => pure none
  | n + 1, ptr => do
    touch ptr
    if chars ptr = nul then pure (some [])
    else do
      let out ← output chars n (ptr + 1)
      pure (out.map (chars ptr :: ·))

end Scratch

section Methods

-- What the memory around `scratch` holds before a conversion.
variable (model : DataModel) (memory : Int → Char)

/-- `va_arg`, which has no result for an argument of another type. -/
def va_arg (length : Length) : List (Arg model) → Option (Int × List (Arg model))
  | .number length' v :: ap => if length' = length then some (v.toInt, ap) else none
  | _ => none

def number (flags : Flags) (conversion : Conversion) (arg : Int) :
    Traced Int (Option (List Char)) := do
  let negative := conversion.is_signed && arg < 0
  let s_val := if negative then int64 (-arg) else arg
  let width := if negative && flags.width ≠ 0 then flags.width - 1 else flags.width
  let u_val := (s_val % 2 ^ flags.length.bits model).toNat
  let scratch ← Scratch.push nul ⟨memory, SCRATCH_SIZE⟩
  let (width, scratch) ← digitLoop conversion u_val width scratch
  let scratch ← padLoop flags.fill width scratch
  let out ← output scratch.chars (SCRATCH_SIZE - scratch.ptr).toNat scratch.ptr
  pure (out.map ((if negative then ['-'] else []) ++ ·))

/-- The characters for one directive and the arguments left. Floating point numbers are not
modelled and have no result. -/
def directive (flags : Flags) (c : Char) (ap : List (Arg model)) :
    Traced Int (Option (List Char × List (Arg model))) :=
  match Conversion.ofChar c with
  | some conversion =>
    match va_arg model flags.length ap with
    | none => pure none
    | some (arg, ap) => do
      let out ← number model memory flags conversion arg
      pure (out.map fun out => ((if conversion = .o then ['0'] else []) ++ out, ap))
  | none =>
    if c = 's' then
      match ap with
      | .string s :: ap => pure (some (s.chars, ap))
      | _ => pure none
    else if c = 'e' ∨ c = 'f' then pure none
    else if c = 'c' then
      pure ((va_arg model .int ap).map fun (arg, ap) => ([Char.ofNat (arg % 2 ^ 8).toNat], ap))
    else pure (some ([c], ap))

/-- The characters put out. An access outside of the format has no result. -/
def vaprintf (ap : List (Arg model)) : List Char → Traced Int (Option (List Char))
  | [] => pure none
  | c :: fmt =>
    if c = nul then pure (some [])
    else if c ≠ '%' then do
      let out ← vaprintf ap fmt
      pure (out.map (c :: ·))
    else
      match _hparse : parse fmt with
      | none => pure none
      | some (flags, c, rest) =>
        -- the format ends in the middle of a directive
        if c = nul then pure (some [])
        else do
          let r ← directive model memory flags c ap
          match r with
          | none => pure none
          | some (out, ap) => do
            let more ← vaprintf ap rest
            pure (more.map (out ++ ·))
termination_by fmt => fmt.length
decreasing_by
  · exact Nat.lt_succ_self _
  · exact (parse_length _hparse).trans (Nat.lt_succ_self _)

end Methods

end Rodos.Yprintf
