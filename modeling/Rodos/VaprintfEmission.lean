import Rodos.Vaprintf
import Rodos.YprintfFormats

namespace Rodos.Vaprintf

open AccessTrace Traced CString MachineInt Receiver
open Yprintf (DataModel Length Conversion Scratch SCRATCH_SIZE digitLoop padLoop)

section Receivers

variable {machine : Machine} {σ τ : Type} {f : σ → τ} {yputc : Char → σ → σ}
  {yputc' : Char → τ → τ}

theorem follows_inScratch {α : Type} (f : σ → τ) (size : Int) (x : Traced Int α) :
    Follows f (inScratch size x) (inScratch size x) := follows_access f _

theorem follows_va_arg (length : Length) (ap : List (Arg machine.model)) :
    Follows f (va_arg machine length ap) (va_arg machine length ap) := by
  cases ap with
  | nil => exact follows_failure f
  | cons arg ap =>
    cases arg with
    | number length' v => exact (follows_pure f _).ite (follows_failure f)
    | double f_val => exact follows_failure f
    | string s => exact follows_failure f

variable (hput : ∀ c s, f (yputc c s) = yputc' c (f s))
include hput

theorem follows_putString (cells : List Char) :
    Follows f (putString yputc cells) (putString yputc' cells) := by
  induction cells with
  | nil => exact follows_failure f
  | cons c cells ih =>
    apply (follows_pure f _).ite
    exact (follows_put (hput c)).bind fun _ => ih

theorem follows_putIf (p : Prop) [Decidable p] (c : Char) :
    Follows f (putIf yputc p c) (putIf yputc' p c) :=
  (follows_put (hput c)).ite (follows_pure f _)

theorem follows_putScratch (size : Int) (chars : Int → Char) (n : Nat) (ptr : Int) :
    Follows f (putScratch yputc size chars n ptr) (putScratch yputc' size chars n ptr) := by
  induction n generalizing ptr with
  | zero => exact follows_failure f
  | succ n ih =>
    apply (follows_inScratch f _ _).bind
    intro _
    apply (follows_pure f _).ite
    exact (follows_put (hput _)).bind fun _ => ih _

theorem follows_putConverted (size : Int) (conversion : Conversion) (u_val width : Nat)
    (fill : Char) : Follows f (putConverted machine yputc size conversion u_val width fill)
      (putConverted machine yputc' size conversion u_val width fill) := by
  apply (follows_inScratch f _ _).bind
  intro _
  apply (follows_inScratch f _ _).bind
  intro _
  apply (follows_inScratch f _ _).bind
  intro _
  exact follows_putScratch hput _ _ _ _

theorem follows_putInteger (flags : Flags) (conversion : Conversion) (negative : Bool)
    (s_val : Int) : Follows f (putInteger machine yputc flags conversion negative s_val)
      (putInteger machine yputc' flags conversion negative s_val) :=
  (follows_putIf hput _ _).bind fun _ => follows_putConverted hput _ _ _ _ _

theorem follows_putDecimals (decimalPos : Nat) (f_val : Float) (s_val : Int) :
    Follows f (putDecimals machine yputc decimalPos f_val s_val)
      (putDecimals machine yputc' decimalPos f_val s_val) := by
  induction decimalPos generalizing f_val s_val with
  | zero => exact follows_pure f _
  | succ decimalPos ih => exact (follows_put (hput _)).bind fun _ => ih _ _

theorem follows_putReal (flags : Flags) (s_val : Int) (f_val : Float) :
    Follows f (putReal machine yputc flags s_val f_val)
      (putReal machine yputc' flags s_val f_val) := by
  apply (follows_putInteger hput _ _ _ _).bind
  intro _
  apply (follows_put (hput _)).bind
  intro _
  exact follows_putDecimals hput _ _ _

theorem follows_putExponent (e_val : Int) :
    Follows f (putExponent machine yputc e_val) (putExponent machine yputc' e_val) := by
  apply (follows_put (hput _)).bind
  intro _
  exact (follows_putIf hput _ _).bind fun _ => follows_putConverted hput _ _ _ _ _

theorem follows_putDouble (flags : Flags) (is_exp : Bool) (f_val : Float) :
    Follows f (putDouble machine yputc flags is_exp f_val)
      (putDouble machine yputc' flags is_exp f_val) := by
  apply (follows_putString hput _).ite
  apply Follows.ite _ (follows_putReal hput _ _ _)
  apply Follows.ite
  · exact (follows_putReal hput _ _ _).bind fun _ => follows_putExponent hput _
  · apply Follows.ite
    · exact (follows_putIf hput _ _).bind fun _ => follows_putString hput _
    · exact (follows_putReal hput _ _ _).bind fun _ => follows_putExponent hput _

theorem follows_directive (flags : Flags) (c : Char) (ap : List (Arg machine.model)) :
    Follows f (directive machine yputc flags c ap) (directive machine yputc' flags c ap) := by
  rw [directive.eq_def, directive.eq_def]
  split
  · apply (follows_putIf hput _ _).bind
    intro _
    apply (follows_va_arg _ _).bind
    intro r
    exact (follows_putInteger hput _ _ _ _).bind fun _ => follows_pure f _
  · apply Follows.ite
    · split
      · exact (follows_putString hput _).bind fun _ => follows_pure f _
      · exact follows_failure f
    apply Follows.ite
    · split
      · exact (follows_putDouble hput _ _ _).bind fun _ => follows_pure f _
      · exact follows_failure f
    apply Follows.ite
    · apply (follows_va_arg _ _).bind
      intro r
      exact (follows_put (hput _)).bind fun _ => follows_pure f _
    · exact (follows_put (hput _)).bind fun _ => follows_pure f _

end Receivers

section Steps

variable {machine : Machine} {σ : Type} {yputc : Char → σ → σ} (ap : List (Arg machine.model))
  {fmt rest : List Char} {flags : Flags} {c : Char}

theorem vaprintf_nul (fmt : List Char) : vaprintf machine yputc ap (nul :: fmt) = pure () := by
  rw [vaprintf, if_pos rfl]

theorem vaprintf_char (hnul : c ≠ nul) (hpercent : c ≠ '%') (fmt : List Char) :
    vaprintf machine yputc ap (c :: fmt) = (do
      put yputc c
      vaprintf machine yputc ap fmt) := by
  rw [vaprintf, if_neg hnul, if_pos hpercent]

theorem vaprintf_unended (hparse : parse fmt = none) :
    vaprintf machine yputc ap ('%' :: fmt) = failure := by
  rw [vaprintf, if_neg (by decide), if_neg (by decide)]
  split
  · rfl
  · next h =>
    rw [hparse] at h
    cases h

theorem vaprintf_parsed (hparse : parse fmt = some (flags, c, rest)) :
    vaprintf machine yputc ap ('%' :: fmt) = if c = nul then pure () else (do
      let ap ← directive machine yputc flags c ap
      vaprintf machine yputc ap rest) := by
  rw [vaprintf, if_neg (by decide), if_neg (by decide)]
  split
  · next h =>
    rw [hparse] at h
    cases h
  · next h =>
    rw [hparse] at h
    obtain ⟨rfl, rfl, rfl⟩ := Option.some.inj h
    rfl

end Steps

section Emission

variable (machine : Machine) {σ τ : Type}

/-- The formatter does not look at what `yputc` does. -/
theorem follows_vaprintf {f : σ → τ} {yputc : Char → σ → σ} {yputc' : Char → τ → τ}
    (hput : ∀ c s, f (yputc c s) = yputc' c (f s)) (ap : List (Arg machine.model))
    (fmt : List Char) :
    Follows f (vaprintf machine yputc ap fmt) (vaprintf machine yputc' ap fmt) := by
  induction ap, fmt using vaprintf.induct machine with
  | case1 ap =>
    rw [vaprintf, vaprintf]
    exact follows_failure f
  | case2 ap fmt =>
    rw [vaprintf_nul, vaprintf_nul]
    exact follows_pure f _
  | case3 ap c fmt hnul hpercent ih =>
    rw [vaprintf_char ap hnul hpercent, vaprintf_char ap hnul hpercent]
    exact (follows_put (hput c)).bind fun _ => ih
  | case4 ap c fmt hnul hpercent hparse =>
    obtain rfl := not_not.mp hpercent
    rw [vaprintf_unended ap hparse, vaprintf_unended ap hparse]
    exact follows_failure f
  | case5 ap c fmt hnul hpercent flags rest hparse =>
    obtain rfl := not_not.mp hpercent
    rw [vaprintf_parsed ap hparse, vaprintf_parsed ap hparse]
    exact follows_pure f _
  | case6 ap c fmt hnul hpercent flags c' rest hparse hc ih =>
    obtain rfl := not_not.mp hpercent
    rw [vaprintf_parsed ap hparse, vaprintf_parsed ap hparse, if_neg hc, if_neg hc]
    exact (follows_directive hput flags c' ap).bind ih

def emitted (ap : List (Arg machine.model)) (fmt : List Char) : Option (List Char) :=
  (outcome (vaprintf machine record ap fmt) []).map Prod.snd

theorem outcome_vaprintf (yputc : Char → σ → σ) (ap : List (Arg machine.model)) (fmt : List Char)
    (s : σ) : outcome (vaprintf machine yputc ap fmt) s =
      (emitted machine ap fmt).map fun out => ((), replay yputc s out) := by
  have hfollows : Follows (replay yputc s) (vaprintf machine record ap fmt)
      (vaprintf machine yputc ap fmt) :=
    follows_vaprintf machine (fun c out => replay_record yputc s c out) ap fmt
  rw [emitted, Option.map_map]
  exact hfollows.outcome []

end Emission

section Integers

variable (machine : Machine)

def Arg.ofYprintf {model : DataModel} : Yprintf.Arg model → Arg model
  | .number length v => .number length v
  | .string s => .string s

theorem emits_putIf (p : Prop) [Decidable p] (c : Char) :
    Emits (putIf record p c) (some ((), if p then [c] else [])) := by
  rw [putIf]
  split
  · exact emits_put c
  · exact emits_pure ()

theorem emits_putScratch (size : Int) (chars : Int → Char) (n : Nat) (ptr : Int) :
    Emits (putScratch record size chars n ptr)
      ((Yprintf.output chars n ptr).value.map ((), ·)) := by
  induction n generalizing ptr with
  | zero => exact emits_failure
  | succ n ih =>
    rw [putScratch, Yprintf.output, value_bind]
    apply Emits.access_bind
    by_cases hnul : chars ptr = nul
    · rw [if_pos hnul, if_pos hnul]
      exact emits_pure ()
    · rw [if_neg hnul, if_neg hnul, value_bind]
      have hrest := (emits_put (chars ptr)).andThen (ih (ptr + 1))
      rw [Option.map_map] at hrest
      rw [value_pure, Option.map_map]
      exact hrest

theorem emits_putNumber (flags : Flags) (conversion : Conversion) (arg : Int) :
    Emits (putNumber machine record flags conversion arg)
      ((Yprintf.number machine.model machine.memory flags.toFlags conversion arg).value.map
        ((), ·)) := by
  have hsign := emits_putIf ((conversion.is_signed && decide (arg < 0)) = true) '-'
  have hrest : Emits (putNumber machine record flags conversion arg) _ :=
    hsign.andThen (.access_bind (.access_bind (.access_bind (emits_putScratch _ _ _ _))))
  rw [Option.map_map] at hrest
  rw [Yprintf.number]
  simp only [value_bind, value_pure]
  rw [Option.map_map]
  exact hrest

theorem va_arg_ofYprintf (length : Length) (ap : List (Yprintf.Arg machine.model)) :
    (va_arg machine length (ap.map Arg.ofYprintf) : Sender Cell (List Char) _) =
      (Yprintf.va_arg machine.model length ap).elim failure
        fun r => pure (r.1, r.2.map Arg.ofYprintf) := by
  cases ap with
  | nil => rfl
  | cons arg ap =>
    cases arg with
    | number length' v =>
      rw [List.map_cons, Arg.ofYprintf, va_arg, Yprintf.va_arg]
      split <;> rfl
    | string s => rfl

theorem emits_string (s : CString) :
    Emits (putString record s.cells) ((some s.chars).map ((), ·)) := by
  obtain ⟨chars, hnul⟩ := s
  induction chars with
  | nil => exact emits_pure ()
  | cons c chars ih =>
    have hc : c ≠ nul := fun heq => hnul (heq ▸ List.mem_cons_self)
    have hchars : nul ∉ chars := fun hmem => hnul (List.mem_cons_of_mem c hmem)
    show Emits (putString record (c :: (chars ++ [nul]))) _
    rw [putString, if_neg hc]
    exact (emits_put c).andThen (ih hchars)

theorem emits_directive (flags : Flags) (c : Char) (ap : List (Yprintf.Arg machine.model)) :
    Emits (directive machine record flags c (ap.map Arg.ofYprintf))
      ((Yprintf.directive machine.model machine.memory flags.toFlags c ap).value.map
        fun r => (r.2.map Arg.ofYprintf, r.1)) := by
  rw [directive.eq_def, Yprintf.directive.eq_def]
  cases hconversion : Conversion.ofChar c with
  | some conversion =>
    have hzero := emits_putIf (conversion = Conversion.o) '0'
    dsimp only
    rw [va_arg_ofYprintf]
    cases Yprintf.va_arg machine.model flags.length ap with
    | none => exact hzero.andThen emits_failure
    | some r =>
      have hnumber := emits_putNumber machine flags conversion r.1
      have hrest := hzero.andThen (hnumber.thenPure (r.2.map Arg.ofYprintf))
      rw [Option.map_map] at hrest
      dsimp only
      rw [value_bind, value_pure, Option.map_map]
      exact hrest
  | none =>
    dsimp only
    by_cases hs : c = 's'
    · rw [if_pos hs, if_pos hs]
      cases ap with
      | nil => exact emits_failure
      | cons arg ap =>
        cases arg with
        | number length v => exact emits_failure
        | string s => exact (emits_string s).thenPure _
    rw [if_neg hs, if_neg hs]
    by_cases hef : c = 'e' ∨ c = 'f'
    · rw [if_pos hef, if_pos hef]
      cases ap with
      | nil => exact emits_failure
      | cons arg ap =>
        cases arg with
        | number length v => exact emits_failure
        | string s => exact emits_failure
    rw [if_neg hef, if_neg hef]
    by_cases hc : c = 'c'
    · rw [if_pos hc, if_pos hc, va_arg_ofYprintf]
      cases Yprintf.va_arg machine.model .int ap with
      | none => exact emits_failure
      | some r => exact (emits_put _).andThen (emits_pure _)
    · rw [if_neg hc, if_neg hc]
      exact (emits_put c).andThen (emits_pure _)

theorem emits_vaprintf (ap : List (Yprintf.Arg machine.model)) (fmt : List Char) :
    Emits (vaprintf machine record (ap.map Arg.ofYprintf) fmt)
      ((Yprintf.vaprintf machine.model machine.memory ap fmt).value.map ((), ·)) := by
  induction ap, fmt using Yprintf.vaprintf.induct machine.model with
  | case1 ap =>
    rw [vaprintf, Yprintf.vaprintf]
    exact emits_failure
  | case2 ap fmt =>
    rw [vaprintf_nul, Yprintf.vaprintf, if_pos rfl]
    exact emits_pure ()
  | case3 ap c fmt hnul hpercent ih =>
    have hrest := (emits_put c).andThen ih
    rw [Option.map_map] at hrest
    rw [vaprintf_char _ hnul hpercent, Yprintf.vaprintf_char hnul hpercent, value_bind, value_pure,
      Option.map_map]
    exact hrest
  | case4 ap c fmt hnul hpercent hparse =>
    obtain rfl := not_not.mp hpercent
    have hnone : parse fmt = none := Option.map_eq_none_iff.mp ((parse_eq fmt).symm.trans hparse)
    rw [vaprintf_unended _ hnone, Yprintf.vaprintf_unended hparse]
    exact emits_failure
  | case5 ap c fmt hnul hpercent flags rest hparse =>
    obtain rfl := not_not.mp hpercent
    obtain ⟨⟨flags, c', rest⟩, hsome, heq⟩ :=
      Option.map_eq_some_iff.mp ((parse_eq fmt).symm.trans hparse)
    cases heq
    rw [vaprintf_parsed _ hsome, if_pos rfl, Yprintf.vaprintf_parsed hparse, if_pos rfl]
    exact emits_pure ()
  | case6 ap c fmt hnul hpercent flags c' rest hparse hc ih =>
    obtain rfl := not_not.mp hpercent
    obtain ⟨⟨flags, c', rest⟩, hsome, heq⟩ :=
      Option.map_eq_some_iff.mp ((parse_eq fmt).symm.trans hparse)
    cases heq
    have hdirective := emits_directive machine flags c' ap
    rw [vaprintf_parsed _ hsome, if_neg hc, Yprintf.vaprintf_directive hparse hc, value_bind]
    cases hvalue : (Yprintf.directive machine.model machine.memory flags.toFlags c' ap).value with
    | none =>
      rw [hvalue] at hdirective
      exact hdirective.bind_none
    | some r =>
      rw [hvalue] at hdirective
      have hrest : Emits (do
          let ap ← directive machine record flags c' (ap.map Arg.ofYprintf)
          vaprintf machine record ap rest) _ := hdirective.bind (ih r.2)
      rw [Option.map_map] at hrest
      dsimp only
      rw [value_bind, value_pure, Option.map_map]
      exact hrest

theorem emitted_ofYprintf (ap : List (Yprintf.Arg machine.model)) (fmt : List Char) :
    emitted machine (ap.map Arg.ofYprintf) fmt =
      (Yprintf.vaprintf machine.model machine.memory ap fmt).value := by
  rw [emitted, emits_vaprintf machine ap fmt [], Option.map_map, Option.map_map]
  exact Option.map_id'

end Integers

end Rodos.Vaprintf
