import Rodos.VaprintfEmission

namespace Rodos.Vaprintf

open AccessTrace Traced CString Receiver
open Yprintf (DataModel Length Conversion Scratch SCRATCH_SIZE Holds InArray digitLoop padLoop digits
  glyph isDigit skipIf)

section Formats

inductive ArgType
  | number (length : Length)
  | double
  | string
deriving DecidableEq

def Arg.type {model : DataModel} : Arg model → ArgType
  | number length _ => .number length
  | double _ => .double
  | string _ => .string

def argument (flags : Flags) (c : Char) : Option ArgType :=
  match Conversion.ofChar c with
  | some _ => some (.number flags.length)
  | none =>
    if c = 's' then some .string
    else if c = 'e' ∨ c = 'f' then some .double
    else if c = 'c' then some (.number .int)
    else none

/-- The arguments of a format. An access outside of the format has no result. -/
def arguments : List Char → Option (List ArgType)
  | [] => none
  | c :: fmt =>
    if c = nul then some []
    else if c ≠ '%' then arguments fmt
    else
      match _hparse : parse fmt with
      | none => none
      | some (flags, c, rest) =>
        if c = nul then some [] else (arguments rest).map ((argument flags c).toList ++ ·)
termination_by fmt => fmt.length
decreasing_by
  · exact Nat.lt_succ_self _
  · exact (parse_length _hparse).trans (Nat.lt_succ_self _)

theorem arguments_unended {fmt : List Char} (hparse : parse fmt = none) :
    arguments ('%' :: fmt) = none := by
  rw [arguments, if_neg (by decide), if_neg (by decide)]
  split
  · rfl
  · next h =>
    rw [hparse] at h
    cases h

theorem arguments_parsed {fmt rest : List Char} {flags : Flags} {c : Char}
    (hparse : parse fmt = some (flags, c, rest)) : arguments ('%' :: fmt) =
      if c = nul then some [] else (arguments rest).map ((argument flags c).toList ++ ·) := by
  rw [arguments, if_neg (by decide), if_neg (by decide)]
  split
  · next h =>
    rw [hparse] at h
    cases h
  · next h =>
    rw [hparse] at h
    obtain ⟨rfl, rfl, rfl⟩ := Option.some.inj h
    rfl

def Ended (fmt : List Char) : Prop := fmt.getLast? = some nul

theorem ended_cells (s : CString) : Ended s.cells := List.getLast?_concat

theorem Ended.tail {c : Char} {fmt : List Char} (h : Ended (c :: fmt)) (hc : c ≠ nul) :
    Ended fmt := by
  cases fmt with
  | nil => exact absurd (Option.some.inj h) hc
  | cons x fmt => exact h

theorem Ended.next {fmt : List Char} (h : Ended fmt) :
    ∃ c rest, next fmt = some (c, rest) ∧ Ended (c :: rest) := by
  cases fmt with
  | nil => cases h
  | cons c fmt => exact ⟨c, fmt, rfl, h⟩

theorem Ended.skipIf {c : Char} {fmt : List Char} (h : Ended (c :: fmt)) (p : Char → Bool)
    (hp : p nul = false) :
    ∃ found c' rest, skipIf p c fmt = some (found, c', rest) ∧ Ended (c' :: rest) := by
  rw [Yprintf.skipIf]
  by_cases hc : p c = true
  · have hne : c ≠ nul := by
      rintro rfl
      exact absurd hc (Bool.eq_false_iff.mp hp)
    obtain ⟨c', rest, hnext, hrest⟩ := (h.tail hne).next
    rw [if_pos hc, hnext]
    exact ⟨true, c', rest, rfl, hrest⟩
  · rw [if_neg hc]
    exact ⟨false, c, fmt, rfl, h⟩

theorem Ended.decimalDigits {c : Char} {fmt : List Char} (h : Ended (c :: fmt))
    (decimalPos : UInt8) :
    ∃ pos c' rest, decimalDigits decimalPos c fmt = some (pos, c', rest) ∧ Ended (c' :: rest) := by
  induction fmt generalizing decimalPos c with
  | nil =>
    obtain rfl := Option.some.inj h
    exact ⟨decimalPos, nul, [], rfl, h⟩
  | cons x fmt ih =>
    rw [Vaprintf.decimalDigits]
    by_cases hc : isDigit c = true
    · rw [if_pos hc]
      exact ih h _
    · rw [if_neg hc]
      exact ⟨decimalPos, c, x :: fmt, rfl, h⟩

theorem Ended.decimals {c : Char} {fmt : List Char} (h : Ended (c :: fmt)) :
    ∃ pos c' rest, decimals c fmt = some (pos, c', rest) ∧ Ended (c' :: rest) := by
  rw [Vaprintf.decimals]
  by_cases hc : c = '.'
  · obtain ⟨c₁, fmt₁, hnext, h⟩ := (h.tail (hc ▸ by decide)).next
    simp only [if_pos hc, hnext, Option.bind_eq_bind, Option.bind_some]
    by_cases hc₁ : c₁ = nul
    · rw [if_pos hc₁]
      exact ⟨3, c₁, fmt₁, rfl, h⟩
    obtain ⟨c₂, fmt₂, hnext, h⟩ := (h.tail hc₁).next
    simp only [if_neg hc₁, hnext, Option.bind_some]
    by_cases hc₂ : c₂ = nul
    · rw [if_pos hc₂]
      exact ⟨_, c₂, fmt₂, rfl, h⟩
    · rw [if_neg hc₂]
      exact h.decimalDigits _
  · rw [if_neg hc]
    exact ⟨3, c, fmt, rfl, h⟩

theorem Ended.parse {fmt : List Char} (h : Ended fmt) :
    ∃ flags c rest, parse fmt = some (flags, c, rest) ∧ Ended (c :: rest) := by
  obtain ⟨c₁, fmt₁, h₁, h⟩ := h.next
  obtain ⟨zero, c₂, fmt₂, h₂, h⟩ := h.skipIf (· == '0') (by decide)
  obtain ⟨width, c₃, fmt₃, h₃, h⟩ := h.skipIf isDigit (by decide)
  obtain ⟨pos, c₄, fmt₄, h₄, h⟩ := h.decimals
  obtain ⟨long, c₅, fmt₅, h₅, h⟩ := h.skipIf (· == 'l') (by decide)
  obtain ⟨longlong, c₆, fmt₆, h₆, h⟩ := h.skipIf (· == 'l') (by decide)
  simp only [Vaprintf.parse, h₁, h₂, h₃, h₄, h₅, h₆, Option.bind_eq_bind, Option.bind_some]
  exact ⟨_, c₆, fmt₆, rfl, h⟩

theorem Ended.arguments {fmt : List Char} (h : Ended fmt) :
    ∃ types, arguments fmt = some types := by
  induction fmt using arguments.induct with
  | case1 => cases h
  | case2 fmt =>
    rw [Vaprintf.arguments, if_pos rfl]
    exact ⟨[], rfl⟩
  | case3 c fmt hnul hpercent ih =>
    rw [Vaprintf.arguments, if_neg hnul, if_pos hpercent]
    exact ih (h.tail hnul)
  | case4 c fmt hnul hpercent hparse =>
    obtain ⟨flags, c', rest, heq, -⟩ := (h.tail hnul).parse
    rw [hparse] at heq
    cases heq
  | case5 c fmt hnul hpercent flags rest hparse =>
    obtain rfl := not_not.mp hpercent
    rw [arguments_parsed hparse]
    exact ⟨[], rfl⟩
  | case6 c fmt hnul hpercent flags c' rest hparse hc ih =>
    obtain rfl := not_not.mp hpercent
    obtain ⟨flags', c'', rest', heq, hrest⟩ := (h.tail hnul).parse
    rw [hparse] at heq
    obtain ⟨rfl, rfl, rfl⟩ := Option.some.inj heq
    obtain ⟨types, htypes⟩ := ih (hrest.tail hc)
    rw [arguments_parsed hparse, if_neg hc, htypes]
    exact ⟨_, rfl⟩

end Formats

section Flags

structure Legal (flags : Flags) : Prop where
  fill : flags.fill ≠ nul
  width : flags.width ≤ 9

theorem width_le_of_skipIf {found : Bool} {c c' : Char} {fmt rest : List Char}
    (h : skipIf isDigit c fmt = some (found, c', rest)) :
    (if found = true then c.toNat - '0'.toNat else 0) ≤ 9 := by
  rw [skipIf] at h
  split at h
  · next hdigit =>
    obtain ⟨r, -, heq⟩ := Option.map_eq_some_iff.mp h
    obtain rfl : true = found := congrArg Prod.fst heq
    rw [isDigit, Bool.and_eq_true, decide_eq_true_eq, decide_eq_true_eq] at hdigit
    have hle : c.toNat ≤ '9'.toNat := hdigit.2
    have hnine : '9'.toNat = 57 := rfl
    have hzero : '0'.toNat = 48 := rfl
    rw [if_pos rfl]
    omega
  · obtain rfl : false = found := congrArg Prod.fst (Option.some.inj h)
    exact Nat.zero_le _

theorem legal_of_parse {fmt rest : List Char} {flags : Flags} {c : Char}
    (h : parse fmt = some (flags, c, rest)) : Legal flags := by
  simp only [parse, Option.bind_eq_bind, Option.bind_eq_some_iff] at h
  obtain ⟨_, -, ⟨zero, c₁, fmt₁⟩, -, ⟨width, c₂, fmt₂⟩, hwidth, _, -, _, -, _, -, heq⟩ := h
  obtain rfl := congrArg Prod.fst (Option.some.inj heq)
  constructor
  · show (if zero = true then '0' else ' ') ≠ nul
    split <;> decide
  · exact width_le_of_skipIf hwidth

end Flags

section Results

variable {machine : Machine} {σ : Type} (yputc : Char → σ → σ)

theorem returns_inScratch {α : Type} (size : Int) (x : Traced Int α) :
    Returns (inScratch size x : Sender Cell σ α) (some x.value) := returns_access _

theorem permits_inScratch {α : Type} (size : Int) (x : Traced Int α) :
    Permits Cell.Inside (inScratch size x : Sender Cell σ α) (Within (InArray size) x) := by
  apply (permits_access _).congr
  rw [within_spread]
  apply forall₂_congr
  intro i _
  exact List.forall_mem_singleton

theorem permits_inScratch_bind {α β : Type} {size : Int} {x : Traced Int α} {p q : Prop}
    {g : α → Sender Cell σ β} (hx : Within (InArray size) x ↔ p)
    (hg : Permits Cell.Inside (g x.value) q) :
    Permits Cell.Inside (inScratch size x >>= g) (p ∧ q) :=
  ((permits_inScratch size x).congr hx).bind (returns_inScratch size x) hg

theorem returns_putString {cells : List Char} (hcells : nul ∈ cells) :
    Returns (putString yputc cells) (some ()) := by
  induction cells with
  | nil => exact absurd hcells List.not_mem_nil
  | cons c cells ih =>
    rw [putString]
    split
    · exact returns_pure ()
    · next hc => exact (returns_put yputc c).bind (ih (List.mem_of_ne_of_mem (Ne.symm hc) hcells))

theorem permits_putString (cells : List Char) :
    Permits Cell.Inside (putString yputc cells) True := by
  induction cells with
  | nil => exact permits_failure
  | cons c cells ih =>
    rw [putString]
    split
    · exact permits_pure ()
    · exact (permits_put yputc c).andThen (returns_put yputc c) ih

theorem returns_putIf (p : Prop) [Decidable p] (c : Char) : Returns (putIf yputc p c) (some ()) := by
  rw [putIf]
  split
  · exact returns_put yputc c
  · exact returns_pure ()

theorem permits_putIf (p : Prop) [Decidable p] (c : Char) :
    Permits Cell.Inside (putIf yputc p c) True := by
  rw [putIf]
  split
  · exact permits_put yputc c
  · exact permits_pure ()

theorem returns_putScratch (size : Int) {chars : Int → Char} {n : Nat} {ptr : Int}
    {out : List Char} (h : (Yprintf.output chars n ptr).value = some out) :
    Returns (putScratch yputc size chars n ptr) (some ()) := by
  induction n generalizing ptr out with
  | zero => cases h
  | succ n ih =>
    rw [Yprintf.output, value_bind] at h
    apply (returns_inScratch size _).bind
    split at h
    · next hnul =>
      rw [if_pos hnul]
      exact returns_pure ()
    · next hnul =>
      rw [value_bind, value_pure] at h
      obtain ⟨out, hout, -⟩ := Option.map_eq_some_iff.mp h
      rw [if_neg hnul]
      exact (returns_put yputc _).bind (ih hout)

theorem permits_putScratch (size : Int) (chars : Int → Char) (n : Nat) (ptr : Int) :
    Permits Cell.Inside (putScratch yputc size chars n ptr)
      (Within (InArray size) (Yprintf.output chars n ptr)) := by
  induction n generalizing ptr with
  | zero => exact permits_failure.congr (iff_of_true trivial (within_pure _))
  | succ n ih =>
    rw [putScratch, Yprintf.output, within_bind]
    apply (permits_inScratch size _).bind (returns_inScratch size _)
    split
    · exact (permits_pure ()).congr (iff_of_true trivial (within_pure _))
    · rw [within_bind, and_iff_left (within_pure _)]
      exact (permits_put yputc _).andThen (returns_put yputc _) (ih _)

section Conversion

variable (size : Int) (conversion : Conversion) (u_val width : Nat) {fill : Char}
  (hfill : fill ≠ nul)
include hfill

theorem holds_converted (memory : Int → Char) :
    Holds size
      (padLoop fill
        (digitLoop conversion u_val width (Scratch.push nul ⟨memory, size⟩).value).value.1
        (digitLoop conversion u_val width (Scratch.push nul ⟨memory, size⟩).value).value.2).value
      (List.replicate (width - (digits conversion.base u_val).length) fill ++
        (digits conversion.base u_val).map glyph) ∧
      nul ∉ List.replicate (width - (digits conversion.base u_val).length) fill ++
        (digits conversion.base u_val).map glyph := by
  obtain ⟨hleft, hdigits, -⟩ :=
    Yprintf.digitLoop_spec conversion u_val width (Yprintf.holds_init size memory)
  rw [List.append_nil] at hdigits
  rw [hleft]
  exact ⟨(Yprintf.padLoop_spec fill _ hdigits).1, Yprintf.nul_notMem hfill _ _ _⟩

theorem returns_putConverted :
    Returns (putConverted machine yputc size conversion u_val width fill) (some ()) := by
  obtain ⟨hholds, hnul⟩ := holds_converted size conversion u_val width hfill machine.memory
  apply (returns_inScratch size _).bind
  apply (returns_inScratch size _).bind
  apply (returns_inScratch size _).bind
  exact returns_putScratch yputc size (Yprintf.output_spec hholds hnul).1

/-- The digits and the fill need an array that has got room for them and the zero. -/
theorem permits_putConverted :
    Permits Cell.Inside (putConverted machine yputc size conversion u_val width fill)
      ((max width (digits conversion.base u_val).length : Nat) < size) := by
  obtain ⟨hholds, hnul⟩ := holds_converted size conversion u_val width hfill machine.memory
  obtain ⟨hleft, hdigits, hloop⟩ :=
    Yprintf.digitLoop_spec conversion u_val width (Yprintf.holds_init size machine.memory)
  have hpad := (Yprintf.padLoop_spec fill
    (digitLoop conversion u_val width (Scratch.push nul ⟨machine.memory, size⟩).value).value.1
    hdigits).2
  have hread := (Yprintf.output_spec hholds hnul).2
  have hinit : Within (InArray size) (Scratch.push nul ⟨machine.memory, size⟩) ↔ 0 < size := by
    simp only [Scratch.push, within_bind, within_touch, within_pure, and_true, InArray]
    omega
  have hpos := Yprintf.length_digits_pos conversion.two_le_base u_val
  have hloops : Permits Cell.Inside (putConverted machine yputc size conversion u_val width fill) _ :=
    permits_inScratch_bind hinit (permits_inScratch_bind hloop (permits_inScratch_bind hpad
      ((permits_putScratch yputc size _ _ _).congr hread)))
  apply hloops.congr
  rw [hleft]
  simp only [List.length_append, List.length_replicate, List.length_map, List.length_nil]
  omega

end Conversion

section Numbers

variable {flags : Flags} (hflags : Legal flags) (conversion : Conversion) (negative : Bool)
  (s_val : Int)
include hflags

theorem returns_putInteger :
    Returns (putInteger machine yputc flags conversion negative s_val) (some ()) :=
  (returns_putIf yputc _ _).bind (returns_putConverted yputc _ _ _ _ hflags.fill)

theorem permits_putInteger :
    Permits Cell.Inside (putInteger machine yputc flags conversion negative s_val)
      (conversion = .b → (s_val % 2 ^ flags.length.bits machine.model).toNat < 2 ^ 25) := by
  have hbits : (2 : Int) ^ flags.length.bits machine.model ≤ 2 ^ 64 :=
    pow_le_pow_right₀ (by decide) (Yprintf.Length.bits_le flags.length)
  have hlt : s_val % 2 ^ flags.length.bits machine.model < 2 ^ 64 :=
    (Int.emod_lt_of_pos _ (by positivity)).trans_le hbits
  have hdigits := Yprintf.length_digits_le conversion
    (show (s_val % 2 ^ flags.length.bits machine.model).toNat < 2 ^ 64 by omega)
  have hwidth := hflags.width
  apply (permits_putIf yputc _ _).andThen (returns_putIf yputc _ _)
  apply (permits_putConverted yputc _ _ _ _ hflags.fill).congr
  rw [← hdigits, SCRATCH_SIZE]
  split <;> omega

end Numbers

theorem returns_putDecimals (decimalPos : Nat) (f_val : Float) (s_val : Int) :
    Returns (putDecimals machine yputc decimalPos f_val s_val) (some ()) := by
  induction decimalPos generalizing f_val s_val with
  | zero => exact returns_pure ()
  | succ decimalPos ih => exact (returns_put yputc _).bind (ih _ _)

theorem permits_putDecimals (decimalPos : Nat) (f_val : Float) (s_val : Int) :
    Permits Cell.Inside (putDecimals machine yputc decimalPos f_val s_val) True := by
  induction decimalPos generalizing f_val s_val with
  | zero => exact permits_pure ()
  | succ decimalPos ih => exact (permits_put yputc _).andThen (returns_put yputc _) (ih _ _)

theorem returns_putExponent (e_val : Int) :
    Returns (putExponent machine yputc e_val) (some ()) := by
  apply (returns_put yputc _).bind
  apply (returns_putIf yputc _ _).bind
  exact returns_putConverted yputc _ _ _ _ (by decide)

theorem permits_putExponent {e_val : Int} (h : e_val.natAbs < 10 ^ 5) :
    Permits Cell.Inside (putExponent machine yputc e_val) True := by
  have hdigits : (digits 10 e_val.natAbs).length ≤ 5 :=
    (Yprintf.length_digits_le_iff (by decide) _ (by decide)).mpr h
  apply (permits_put yputc _).andThen (returns_put yputc _)
  apply (permits_putIf yputc _ _).andThen (returns_putIf yputc _ _)
  apply (permits_putConverted yputc 6 .d e_val.natAbs 0 (by decide)).congr
  apply iff_of_true _ trivial
  show ((max 0 (digits 10 e_val.natAbs).length : Nat) : Int) < 6
  omega

section Doubles

variable {flags : Flags} (hflags : Legal flags)
include hflags

theorem returns_putReal (s_val : Int) (f_val : Float) :
    Returns (putReal machine yputc flags s_val f_val) (some ()) := by
  apply (returns_putInteger yputc hflags _ _ _).bind
  apply (returns_put yputc _).bind
  exact returns_putDecimals yputc _ _ _

theorem permits_putReal (s_val : Int) (f_val : Float) :
    Permits Cell.Inside (putReal machine yputc flags s_val f_val) True := by
  have hdecimal (negative : Bool) (s_val : Int) :
      Permits Cell.Inside (putInteger machine yputc flags .d negative s_val) True := by
    apply (permits_putInteger yputc hflags .d negative s_val).congr
    exact iff_of_true (fun h => absurd h (by decide)) trivial
  apply (hdecimal _ _).andThen (returns_putInteger yputc hflags .d _ _)
  apply (permits_put yputc _).andThen (returns_put yputc _)
  exact permits_putDecimals yputc _ _ _

theorem returns_putDouble (is_exp : Bool) (f_val : Float) :
    Returns (putDouble machine yputc flags is_exp f_val) (some ()) := by
  rw [putDouble]
  split
  · exact returns_putString yputc (by decide)
  · split
    · dsimp only
      split
      · exact (returns_putReal yputc hflags _ _).bind (returns_putExponent yputc _)
      · split
        · exact (returns_putIf yputc _ _).bind (returns_putString yputc (by decide))
        · exact (returns_putReal yputc hflags _ _).bind (returns_putExponent yputc _)
    · exact returns_putReal yputc hflags _ _

theorem permits_putDouble (is_exp : Bool) (f_val : Float) :
    Permits Cell.Inside (putDouble machine yputc flags is_exp f_val) True := by
  rw [putDouble]
  split
  · exact permits_putString yputc _
  · split
    · dsimp only
      split
      · exact (permits_putReal yputc hflags _ _).andThen (returns_putReal yputc hflags _ _)
          (permits_putExponent yputc (by decide))
      · split
        · exact (permits_putIf yputc _ _).andThen (returns_putIf yputc _ _)
            (permits_putString yputc _)
        · exact (permits_putReal yputc hflags _ _).andThen (returns_putReal yputc hflags _ _)
            (permits_putExponent yputc (by omega))
    · exact permits_putReal yputc hflags _ _

end Doubles

def takes {model : DataModel} : Option ArgType → List (Arg model) → Option (List (Arg model))
  | none, ap => some ap
  | some type, arg :: ap => if arg.type = type then some ap else none
  | some _, [] => none

theorem append_prefix_iff {model : DataModel} (type : Option ArgType) (types : List ArgType)
    (ap : List (Arg model)) : type.toList ++ types <+: ap.map Arg.type ↔
      ∃ left, takes type ap = some left ∧ types <+: left.map Arg.type := by
  cases type with
  | none =>
    constructor
    · exact fun h => ⟨ap, rfl, h⟩
    · rintro ⟨left, heq, h⟩
      obtain rfl := Option.some.inj heq
      exact h
  | some type =>
    cases ap with
    | nil => simp [takes]
    | cons arg ap =>
      rw [Option.toList_some, List.singleton_append, List.map_cons, List.cons_prefix_cons, takes]
      by_cases heq : arg.type = type
      · rw [if_pos heq, and_iff_right heq.symm]
        constructor
        · exact fun h => ⟨ap, rfl, h⟩
        · rintro ⟨left, hleft, h⟩
          obtain rfl := Option.some.inj hleft
          exact h
      · rw [if_neg heq]
        apply iff_of_false
        · exact fun h => heq h.1.symm
        · rintro ⟨left, hleft, -⟩
          cases hleft

def Accepted {model : DataModel} (fmt : List Char) (ap : List (Arg model)) : Prop :=
  ∃ types, arguments fmt = some types ∧ types <+: ap.map Arg.type

theorem not_accepted_of_none {model : DataModel} {fmt : List Char} (h : arguments fmt = none)
    (ap : List (Arg model)) : ¬ Accepted fmt ap := by
  rintro ⟨types, htypes, -⟩
  rw [h] at htypes
  cases htypes

theorem accepted_nil {model : DataModel} {fmt : List Char} (h : arguments fmt = some [])
    (ap : List (Arg model)) : Accepted fmt ap := ⟨[], h, List.nil_prefix⟩

theorem accepted_parsed {model : DataModel} {fmt rest : List Char} {flags : Flags} {c : Char}
    (hparse : parse fmt = some (flags, c, rest)) (hc : c ≠ nul) (ap : List (Arg model)) :
    Accepted ('%' :: fmt) ap ↔
      ∃ left, takes (argument flags c) ap = some left ∧ Accepted rest left := by
  rw [Accepted, arguments_parsed hparse, if_neg hc]
  constructor
  · rintro ⟨types, htypes, hle⟩
    obtain ⟨types, hrest, rfl⟩ := Option.map_eq_some_iff.mp htypes
    obtain ⟨left, hleft, hle⟩ := (append_prefix_iff _ types ap).mp hle
    exact ⟨left, hleft, types, hrest, hle⟩
  · rintro ⟨left, hleft, types, hrest, hle⟩
    exact ⟨_, congrArg _ hrest, (append_prefix_iff _ types ap).mpr ⟨left, hleft, hle⟩⟩

/-- What goes on with an integer argument does not have to know it. -/
theorem returns_va_arg (length : Length) (ap : List (Arg machine.model))
    {g : Int × List (Arg machine.model) → Sender Cell σ (List (Arg machine.model))}
    (hg : ∀ arg left, Returns (g (arg, left)) (some left)) :
    Returns (va_arg machine length ap >>= g) (takes (some (.number length)) ap) := by
  cases ap with
  | nil => exact returns_failure.bind_none
  | cons arg ap =>
    cases arg with
    | number length' v =>
      rw [va_arg, takes, Arg.type]
      by_cases heq : length' = length
      · rw [if_pos heq, if_pos (congrArg _ heq)]
        exact (returns_pure _).bind (hg v.toInt ap)
      · rw [if_neg heq, if_neg fun h => heq (ArgType.number.inj h)]
        exact returns_failure.bind_none
    | double f_val => exact returns_failure.bind_none
    | string s => exact returns_failure.bind_none

theorem returns_directive {flags : Flags} (hflags : Legal flags) (c : Char) (ap : List (Arg machine.model)) :
    Returns (directive machine yputc flags c ap) (takes (argument flags c) ap) := by
  rw [directive.eq_def, argument]
  cases hconversion : Conversion.ofChar c with
  | some conversion =>
    apply (returns_putIf yputc _ _).bind
    apply returns_va_arg
    intro arg left
    exact (returns_putInteger yputc hflags _ _ _).bind (returns_pure left)
  | none =>
    dsimp only
    by_cases hs : c = 's'
    · rw [if_pos hs, if_pos hs]
      cases ap with
      | nil => exact returns_failure
      | cons arg ap =>
        cases arg with
        | string s =>
          exact (returns_putString yputc (List.mem_append_right _ (List.mem_singleton_self nul))).bind
            (returns_pure ap)
        | number length v => exact returns_failure
        | double f_val => exact returns_failure
    rw [if_neg hs, if_neg hs]
    by_cases hef : c = 'e' ∨ c = 'f'
    · rw [if_pos hef, if_pos hef]
      cases ap with
      | nil => exact returns_failure
      | cons arg ap =>
        cases arg with
        | double f_val => exact (returns_putDouble yputc hflags _ _).bind (returns_pure ap)
        | number length v => exact returns_failure
        | string s => exact returns_failure
    rw [if_neg hef, if_neg hef]
    by_cases hc : c = 'c'
    · rw [if_pos hc, if_pos hc]
      apply returns_va_arg
      intro arg left
      exact (returns_put yputc _).bind (returns_pure left)
    · rw [if_neg hc, if_neg hc]
      exact (returns_put yputc c).bind (returns_pure ap)

theorem permits_va_arg (length : Length) (ap : List (Arg machine.model))
    {g : Int × List (Arg machine.model) → Sender Cell σ (List (Arg machine.model))} {q : Prop}
    (hg : ∀ v left, ap = .number length v :: left → Permits Cell.Inside (g (v.toInt, left)) q)
    (hq : takes (some (.number length)) ap = none → q) :
    Permits Cell.Inside (va_arg machine length ap >>= g) q := by
  have hfailure (h : takes (some (.number length)) ap = none) :
      Permits Cell.Inside (failure >>= g : Sender Cell σ _) q :=
    (permits_failure.bind_none returns_failure).congr (iff_of_true trivial (hq h))
  cases ap with
  | nil => exact hfailure rfl
  | cons arg ap =>
    cases arg with
    | number length' v =>
      rw [va_arg]
      by_cases heq : length' = length
      · subst heq
        rw [if_pos rfl]
        exact (permits_pure _).andThen (returns_pure _) (hg v ap rfl)
      · rw [if_neg heq]
        exact hfailure (if_neg fun h => heq (ArgType.number.inj h))
    | double f_val => exact hfailure rfl
    | string s => exact hfailure rfl

def binary {model : DataModel} (c : Char) : List (Arg model) → List Nat
  | .number _ v :: _ => if c = 'b' then [v.toNat] else []
  | _ => []

theorem ofChar_eq_b {c : Char} {conversion : Conversion} (h : Conversion.ofChar c = some conversion) :
    conversion = .b ↔ c = 'b' := by
  rw [Conversion.ofChar] at h
  have hchar := List.find?_some h
  rw [← beq_iff_eq.mp hchar]
  cases conversion <;> decide

theorem permits_number {flags : Flags} (hflags : Legal flags) {c : Char} {conversion : Conversion}
    (hconversion : Conversion.ofChar c = some conversion)
    (v : BitVec (flags.length.bits machine.model)) (left : List (Arg machine.model)) :
    Permits Cell.Inside (putNumber machine yputc flags conversion v.toInt)
      (∀ n ∈ binary c (.number flags.length v :: left), n < 2 ^ 25) := by
  apply (permits_putInteger yputc hflags conversion _ _).congr
  rw [binary]
  by_cases hb : conversion = .b
  · rw [if_pos ((ofChar_eq_b hconversion).mp hb)]
    subst hb
    rw [List.forall_mem_singleton]
    apply (imp_iff_right rfl).trans
    show (v.toInt % 2 ^ flags.length.bits machine.model).toNat < 2 ^ 25 ↔ _
    rw [Yprintf.toInt_emod, Int.toNat_natCast]
  · rw [if_neg fun hc => hb ((ofChar_eq_b hconversion).mpr hc)]
    exact iff_of_true (fun h => absurd h hb) (List.forall_mem_nil _)

theorem binary_of_ne {model : DataModel} {c : Char} (hc : c ≠ 'b') (ap : List (Arg model)) :
    binary c ap = [] := by
  match ap with
  | [] => rfl
  | .number _ _ :: _ => exact if_neg hc
  | .double _ :: _ => rfl
  | .string _ :: _ => rfl

theorem permits_directive {flags : Flags} (hflags : Legal flags) (c : Char)
    (ap : List (Arg machine.model)) :
    Permits Cell.Inside (directive machine yputc flags c ap)
      ((takes (argument flags c) ap).isSome = true → ∀ n ∈ binary c ap, n < 2 ^ 25) := by
  rw [directive.eq_def, argument]
  cases hconversion : Conversion.ofChar c with
  | some conversion =>
    apply (permits_putIf yputc _ _).andThen (returns_putIf yputc _ _)
    apply permits_va_arg
    · intro v left heq
      subst heq
      have hsome : (takes (some (.number flags.length)) (.number flags.length v :: left)).isSome =
          true := by
        rw [takes, Arg.type, if_pos rfl]
        rfl
      apply ((permits_number yputc hflags hconversion v left).bind
        (returns_putInteger yputc hflags _ _ _) (permits_pure left)).congr
      rw [and_true]
      exact (imp_iff_right hsome).symm
    · intro hnone hsome
      rw [hnone] at hsome
      cases hsome
  | none =>
    have hb : c ≠ 'b' := by
      rintro rfl
      cases hconversion
    have htrue (p : Prop) : True ↔ (p → ∀ n ∈ binary c ap, n < 2 ^ 25) := by
      rw [binary_of_ne hb]
      exact iff_of_true trivial fun _ => List.forall_mem_nil _
    apply Permits.congr _ (htrue _)
    dsimp only
    by_cases hs : c = 's'
    · rw [if_pos hs]
      cases ap with
      | nil => exact permits_failure
      | cons arg ap =>
        cases arg with
        | string s =>
          exact (permits_putString yputc _).andThen
            (returns_putString yputc (List.mem_append_right _ (List.mem_singleton_self nul)))
            (permits_pure ap)
        | number length v => exact permits_failure
        | double f_val => exact permits_failure
    rw [if_neg hs]
    by_cases hef : c = 'e' ∨ c = 'f'
    · rw [if_pos hef]
      cases ap with
      | nil => exact permits_failure
      | cons arg ap =>
        cases arg with
        | double f_val =>
          exact (permits_putDouble yputc hflags _ _).andThen (returns_putDouble yputc hflags _ _)
            (permits_pure ap)
        | number length v => exact permits_failure
        | string s => exact permits_failure
    rw [if_neg hef]
    by_cases hc : c = 'c'
    · rw [if_pos hc]
      apply permits_va_arg
      · intro v left _
        exact (permits_put yputc _).andThen (returns_put yputc _) (permits_pure left)
      · exact fun _ => trivial
    · rw [if_neg hc]
      exact (permits_put yputc c).andThen (returns_put yputc c) (permits_pure ap)

theorem returns_vaprintf (ap : List (Arg machine.model)) (fmt : List Char) :
    ∃ r, Returns (vaprintf machine yputc ap fmt) r ∧ (r.isSome = true ↔ Accepted fmt ap) := by
  induction ap, fmt using vaprintf.induct machine with
  | case1 ap =>
    have harguments : arguments [] = none := by
      rw [arguments]
    rw [vaprintf]
    exact ⟨none, returns_failure, iff_of_false Bool.false_ne_true (not_accepted_of_none harguments ap)⟩
  | case2 ap fmt =>
    have harguments : arguments (nul :: fmt) = some [] := by
      rw [arguments, if_pos rfl]
    rw [vaprintf_nul]
    exact ⟨some (), returns_pure _, iff_of_true rfl (accepted_nil harguments ap)⟩
  | case3 ap c fmt hnul hpercent ih =>
    obtain ⟨r, hr, hiff⟩ := ih
    rw [vaprintf_char ap hnul hpercent, Accepted, arguments, if_neg hnul, if_pos hpercent]
    exact ⟨r, (returns_put yputc c).bind hr, hiff⟩
  | case4 ap c fmt hnul hpercent hparse =>
    obtain rfl := not_not.mp hpercent
    have hnot := not_accepted_of_none (arguments_unended hparse) ap
    rw [vaprintf_unended ap hparse]
    exact ⟨none, returns_failure, iff_of_false Bool.false_ne_true hnot⟩
  | case5 ap c fmt hnul hpercent flags rest hparse =>
    obtain rfl := not_not.mp hpercent
    have harguments : arguments ('%' :: fmt) = some [] := (arguments_parsed hparse).trans (if_pos rfl)
    rw [vaprintf_parsed ap hparse]
    exact ⟨some (), returns_pure _, iff_of_true rfl (accepted_nil harguments ap)⟩
  | case6 ap c fmt hnul hpercent flags c' rest hparse hc ih =>
    obtain rfl := not_not.mp hpercent
    have hdirective := returns_directive yputc (legal_of_parse hparse) c' ap
    rw [vaprintf_parsed ap hparse, if_neg hc, accepted_parsed hparse hc]
    cases htakes : takes (argument flags c') ap with
    | none =>
      rw [htakes] at hdirective
      refine ⟨none, hdirective.bind_none, iff_of_false Bool.false_ne_true ?_⟩
      rintro ⟨left, hleft, -⟩
      cases hleft
    | some left =>
      rw [htakes] at hdirective
      obtain ⟨r, hr, hiff⟩ := ih left
      refine ⟨r, hdirective.bind hr, hiff.trans ?_⟩
      constructor
      · exact fun h => ⟨left, rfl, h⟩
      · rintro ⟨left', hleft, h⟩
        obtain rfl := Option.some.inj hleft
        exact h

theorem emitted_isSome_iff (ap : List (Arg machine.model)) (fmt : List Char) :
    (emitted machine ap fmt).isSome = true ↔ Accepted fmt ap := by
  obtain ⟨r, hr, hiff⟩ := returns_vaprintf record ap fmt
  rw [← hiff, ← hr [], emitted, Option.isSome_map, Option.isSome_map]

end Results

section Binaries

/-- The arguments that are printed by `%b`, up to an argument of another type than the format
needs. -/
def binaries {model : DataModel} (ap : List (Arg model)) : List Char → List Nat
  | [] => []
  | c :: fmt =>
    if c = nul then []
    else if c ≠ '%' then binaries ap fmt
    else
      match _hparse : parse fmt with
      | none => []
      | some (flags, c, rest) =>
        if c = nul then []
        else
          match takes (argument flags c) ap with
          | none => []
          | some left => binary c ap ++ binaries left rest
termination_by fmt => fmt.length
decreasing_by
  · exact Nat.lt_succ_self _
  · exact (parse_length _hparse).trans (Nat.lt_succ_self _)

theorem binaries_unended {model : DataModel} (ap : List (Arg model)) {fmt : List Char}
    (hparse : parse fmt = none) : binaries ap ('%' :: fmt) = [] := by
  rw [binaries, if_neg (by decide), if_neg (by decide)]
  split
  · rfl
  · next h =>
    rw [hparse] at h
    cases h

theorem binaries_parsed {model : DataModel} (ap : List (Arg model)) {fmt rest : List Char}
    {flags : Flags} {c : Char} (hparse : parse fmt = some (flags, c, rest)) :
    binaries ap ('%' :: fmt) = if c = nul then [] else
      (takes (argument flags c) ap).elim [] fun left => binary c ap ++ binaries left rest := by
  rw [binaries, if_neg (by decide), if_neg (by decide)]
  split
  · next h =>
    rw [hparse] at h
    cases h
  · next h =>
    rw [hparse] at h
    obtain ⟨rfl, rfl, rfl⟩ := Option.some.inj h
    cases takes (argument flags c) ap <;> rfl

variable {machine : Machine} {σ : Type} (yputc : Char → σ → σ)

theorem permits_vaprintf (ap : List (Arg machine.model)) (fmt : List Char) :
    Permits Cell.Inside (vaprintf machine yputc ap fmt) (∀ n ∈ binaries ap fmt, n < 2 ^ 25) := by
  have hnone : True ↔ ∀ n ∈ ([] : List Nat), n < 2 ^ 25 :=
    iff_of_true trivial (List.forall_mem_nil _)
  induction ap, fmt using vaprintf.induct machine with
  | case1 ap =>
    rw [vaprintf, binaries]
    exact permits_failure.congr hnone
  | case2 ap fmt =>
    rw [vaprintf_nul, binaries, if_pos rfl]
    exact (permits_pure _).congr hnone
  | case3 ap c fmt hnul hpercent ih =>
    rw [vaprintf_char ap hnul hpercent, binaries, if_neg hnul, if_pos hpercent]
    exact (permits_put yputc c).andThen (returns_put yputc c) ih
  | case4 ap c fmt hnul hpercent hparse =>
    obtain rfl := not_not.mp hpercent
    rw [vaprintf_unended ap hparse, binaries_unended ap hparse]
    exact permits_failure.congr hnone
  | case5 ap c fmt hnul hpercent flags rest hparse =>
    obtain rfl := not_not.mp hpercent
    rw [vaprintf_parsed ap hparse, binaries_parsed ap hparse, if_pos rfl, if_pos rfl]
    exact (permits_pure _).congr hnone
  | case6 ap c fmt hnul hpercent flags c' rest hparse hc ih =>
    obtain rfl := not_not.mp hpercent
    have hlegal := legal_of_parse hparse
    have hreturns := returns_directive yputc hlegal c' ap
    have hpermits := permits_directive yputc hlegal c' ap
    rw [vaprintf_parsed ap hparse, binaries_parsed ap hparse, if_neg hc, if_neg hc]
    cases htakes : takes (argument flags c') ap with
    | none =>
      rw [htakes] at hreturns hpermits
      apply (hpermits.bind_none hreturns).congr
      exact iff_of_true (fun h => absurd h Bool.false_ne_true) (List.forall_mem_nil _)
    | some left =>
      rw [htakes] at hreturns hpermits
      apply (hpermits.bind hreturns (ih left)).congr
      rw [Option.elim_some, List.forall_mem_append]
      exact and_congr_left fun _ => imp_iff_right rfl

end Binaries

end Rodos.Vaprintf
