import Rodos.Receiver
import Rodos.YprintfNumbers

namespace Rodos.Vaprintf

open AccessTrace Traced CString MachineInt Receiver
open Yprintf (InArray DataModel Length Conversion Scratch SCRATCH_SIZE digitLoop padLoop isDigit skipIf)

/-- What is different from one machine to another: how wide the type `long` is, what the memory
around `scratch` holds before a conversion and, as C++ leaves it open, what becomes of a `double`
that is converted to a `long long` outside of the range of that type. -/
structure Machine where
  model : DataModel
  memory : Int → Char
  overflow : Float → Int64

inductive Arg (model : DataModel)
  | number (length : Length) (v : BitVec (length.bits model))
  | double (f_val : Float)
  | string (s : CString)

section Parsing

structure Flags extends Yprintf.Flags where
  decimalPos : UInt8

/-- `c - '0'` as a char -/
def digitValue (c : Char) : UInt8 := UInt8.ofNat c.toNat - 48

def decimalDigits (decimalPos : UInt8) (c : Char) (fmt : List Char) :
    Option (UInt8 × Char × List Char) :=
  if isDigit c then
    match fmt with
    | [] => none
    | next :: fmt => decimalDigits (decimalPos * 10 + digitValue c) next fmt
  else some (decimalPos, c, fmt)

/-- How many decimals there are. If the format ends here, it is the zero that is returned. -/
def decimals (c : Char) (fmt : List Char) : Option (UInt8 × Char × List Char) :=
  if c = '.' then do
    let (c, fmt) ← next fmt
    if c = nul then return (3, c, fmt)
    let decimalPos := digitValue c
    let (c, fmt) ← next fmt
    if c = nul then return (decimalPos, c, fmt)
    decimalDigits decimalPos c fmt
  else some (3, c, fmt)

def parse (fmt : List Char) : Option (Flags × Char × List Char) := do
  let (c, fmt) ← next fmt
  let (zero, c, fmt) ← skipIf (· == '0') c fmt
  let digit := c
  let (width, c, fmt) ← skipIf isDigit c fmt
  let (decimalPos, c, fmt) ← decimals c fmt
  let (is_long, c, fmt) ← skipIf (· == 'l') c fmt
  let (is_longlong, c, fmt) ← skipIf (· == 'l') c fmt
  return ({ fill := if zero then '0' else ' '
            width := if width then digit.toNat - '0'.toNat else 0
            is_long, is_longlong, decimalPos }, c, fmt)

theorem skipDigits_eq (decimalPos : UInt8) (c : Char) (fmt : List Char) :
    Yprintf.skipDigits c fmt = (decimalDigits decimalPos c fmt).map Prod.snd := by
  induction fmt generalizing decimalPos c with
  | nil =>
    rw [Yprintf.skipDigits, decimalDigits]
    split <;> rfl
  | cons x fmt ih =>
    rw [Yprintf.skipDigits, decimalDigits]
    split
    · exact ih _ _
    · rfl

theorem decimals_eq (c : Char) (fmt : List Char) :
    Yprintf.decimals c fmt = (decimals c fmt).map Prod.snd := by
  rw [Yprintf.decimals, decimals]
  split
  · cases next fmt with
    | none => rfl
    | some r =>
      obtain ⟨c, fmt⟩ := r
      simp only [Option.bind_eq_bind, Option.bind_some]
      split
      · rfl
      · cases next fmt with
        | none => rfl
        | some r =>
          obtain ⟨c', fmt⟩ := r
          simp only [Option.bind_some]
          split
          · rfl
          · exact skipDigits_eq _ _ _
  · rfl

theorem parse_eq (fmt : List Char) :
    Yprintf.parse fmt = (parse fmt).map fun r => (r.1.toFlags, r.2) := by
  simp only [Yprintf.parse, parse, decimals_eq, Option.bind_eq_bind, Option.map_bind,
    Option.bind_map, Function.comp_def, Option.pure_def, Option.map_some]

theorem parse_length {fmt rest : List Char} {flags : Flags} {c : Char}
    (h : parse fmt = some (flags, c, rest)) : rest.length < fmt.length := by
  have heq := parse_eq fmt
  rw [h] at heq
  exact Yprintf.parse_length heq

end Parsing

section Doubles

/-- `(long long) f_val` -/
def longlong (overflow : Float → Int64) (f_val : Float) : Int :=
  if -9223372036854775808.0 ≤ f_val ∧ f_val < 9223372036854775808.0 then f_val.toInt64.toInt
  else (overflow f_val).toInt

def scaleUp (sign tmp f_val : Float) (e_val : Int) : Float × Int :=
  if sign * f_val < tmp ∧ f_val != 0 ∧ -306 ≤ e_val then
    scaleUp sign tmp (f_val * 10) (e_val - 1)
  else (f_val, e_val)
termination_by (e_val + 307).toNat
decreasing_by omega

def scaleDown (sign tmp f_val : Float) (e_val : Int) : Float × Int :=
  if tmp ≤ sign * f_val ∧ e_val ≤ 306 then scaleDown sign tmp (f_val / 10) (e_val + 1)
  else (f_val, e_val)
termination_by (307 - e_val).toNat
decreasing_by omega

/-- The number with as many digits before the point as the width allows, and the exponent. -/
def scale (width : Nat) (f_val : Float) : Float × Int :=
  let sign : Float := if f_val < 0 then -1 else 1
  let pow := width - 1
  let pow := if f_val < 0 ∧ 0 < pow then pow - 1 else pow
  let tmp := (fun tmp => tmp * 10)^[pow] 1
  if sign * f_val < tmp then scaleUp sign tmp f_val 0
  else
    let (f_val, e_val) := scaleDown sign tmp f_val 0
    (f_val * 10, e_val - 1)

end Doubles

section Methods

/-- A cell of an array `scratch`, which there are two of, by the size of the array. -/
structure Cell where
  size : Int
  index : Int

def Cell.Inside (cell : Cell) : Prop := InArray cell.size cell.index

variable (machine : Machine) {σ : Type} (yputc : Char → σ → σ)

/-- `while ((c = *ptr++)) yputc(c);` -/
def putString : List Char → Sender Cell σ Unit
  | [] => failure
  | c :: cells => if c = nul then pure () else do
    put yputc c
    putString cells

def putIf (p : Prop) [Decidable p] (c : Char) : Sender Cell σ Unit :=
  if p then put yputc c else pure ()

/-- What is done in an array `scratch` with so many cells. -/
def inScratch {α : Type} (size : Int) (x : Traced Int α) : Sender Cell σ α :=
  access (x.spread fun index => [⟨size, index⟩])

/-- The same loop in `scratch`, where so many cells are left. -/
def putScratch (size : Int) (chars : Int → Char) : Nat → Int → Sender Cell σ Unit
  | 0, _ => failure
  | n + 1, ptr => do
    inScratch size (touch ptr)
    if chars ptr = nul then pure () else do
      put yputc (chars ptr)
      putScratch size chars n (ptr + 1)

def putConverted (size : Int) (conversion : Conversion) (u_val width : Nat) (fill : Char) :
    Sender Cell σ Unit := do
  let scratch ← inScratch size (Scratch.push nul ⟨machine.memory, size⟩)
  let r ← inScratch size (digitLoop conversion u_val width scratch)
  let scratch ← inScratch size (padLoop fill r.1 r.2)
  putScratch yputc size scratch.chars (size - scratch.ptr).toNat scratch.ptr

/-- The sign and the integer part. The value is positive here, if it is signed. -/
def putInteger (flags : Flags) (conversion : Conversion) (negative : Bool) (s_val : Int) :
    Sender Cell σ Unit := do
  putIf yputc (negative = true) '-'
  let width := if negative && flags.width ≠ 0 then flags.width - 1 else flags.width
  let u_val := (s_val % 2 ^ flags.length.bits machine.model).toNat
  putConverted machine yputc SCRATCH_SIZE conversion u_val width flags.fill

/-- An integer, for which `f_val` is zero. -/
def putNumber (flags : Flags) (conversion : Conversion) (s_val : Int) : Sender Cell σ Unit :=
  let negative := conversion.is_signed && s_val < 0
  putInteger machine yputc flags conversion negative (if negative then int64 (-s_val) else s_val)

def putDecimals : Nat → Float → Int → Sender Cell σ Unit
  | 0, _, _ => pure ()
  | decimalPos + 1, f_val, s_val => do
    let f_val := (f_val - Float.ofInt s_val) * 10
    let s_val := longlong machine.overflow f_val
    put yputc (Char.ofNat ((s_val + '0'.toNat) % 2 ^ 8).toNat)
    putDecimals decimalPos f_val s_val

def putReal (flags : Flags) (s_val : Int) (f_val : Float) : Sender Cell σ Unit := do
  let negative := decide (s_val < 0) || decide (f_val < 0)
  let s_val := if negative then int64 (-s_val) else s_val
  let f_val := if negative then -f_val else f_val
  putInteger machine yputc flags .d negative s_val
  put yputc '.'
  putDecimals machine yputc flags.decimalPos.toNat f_val s_val

def putExponent (e_val : Int) : Sender Cell σ Unit := do
  put yputc 'e'
  putIf yputc (e_val < 0) '-'
  putConverted machine yputc 6 .d e_val.natAbs 0 ' '

def putDouble (flags : Flags) (is_exp : Bool) (f_val : Float) : Sender Cell σ Unit :=
  if f_val != f_val then putString yputc ['n', 'a', 'n', nul]
  else if is_exp then
    let (scaled, e_val) := scale flags.width f_val
    if e_val ≤ -306 then do
      putReal machine yputc flags 0 0
      putExponent machine yputc 0
    else if 306 ≤ e_val then do
      putIf yputc (f_val < 0) '-'
      putString yputc ['i', 'n', 'f', nul]
    else do
      putReal machine yputc flags (longlong machine.overflow scaled) scaled
      putExponent machine yputc e_val
  else putReal machine yputc flags (longlong machine.overflow f_val) f_val

/-- `va_arg` for an integer, without a result for an argument of another type. -/
def va_arg (length : Length) : List (Arg machine.model) → Sender Cell σ (Int × List (Arg machine.model))
  | .number length' v :: ap => if length' = length then pure (v.toInt, ap) else failure
  | _ => failure

/-- A directive is put out. The arguments left are returned. -/
def directive (flags : Flags) (c : Char) (ap : List (Arg machine.model)) :
    Sender Cell σ (List (Arg machine.model)) :=
  match Conversion.ofChar c with
  | some conversion => do
    putIf yputc (conversion = .o) '0'
    let (s_val, ap) ← va_arg machine flags.length ap
    putNumber machine yputc flags conversion s_val
    pure ap
  | none =>
    if c = 's' then
      match ap with
      | .string s :: ap => do
        putString yputc s.cells
        pure ap
      | _ => failure
    else if c = 'e' ∨ c = 'f' then
      match ap with
      | .double f_val :: ap => do
        putDouble machine yputc flags (c = 'e') f_val
        pure ap
      | _ => failure
    else if c = 'c' then do
      let (arg, ap) ← va_arg machine .int ap
      put yputc (Char.ofNat (arg % 2 ^ 8).toNat)
      pure ap
    else do
      put yputc c
      pure ap

/-- Every character goes through the virtual `yputc` of the object. -/
def vaprintf (ap : List (Arg machine.model)) : List Char → Sender Cell σ Unit
  | [] => failure
  | c :: fmt =>
    if c = nul then pure ()
    else if c ≠ '%' then do
      put yputc c
      vaprintf ap fmt
    else
      match _hparse : parse fmt with
      | none => failure
      | some (flags, c, rest) =>
        -- the format ends in the middle of a directive
        if c = nul then pure ()
        else do
          let ap ← directive machine yputc flags c ap
          vaprintf ap rest
termination_by fmt => fmt.length
decreasing_by
  · exact Nat.lt_succ_self _
  · exact (parse_length _hparse).trans (Nat.lt_succ_self _)

end Methods

end Rodos.Vaprintf
