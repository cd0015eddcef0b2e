import Rodos.YprintfNumbers

namespace Rodos.Yprintf

open AccessTrace Traced CString

section Directives

def Length.text : Length → List Char
  | int => []
  | long => ['l']
  | longlong => ['l', 'l']

/-- A directive for an integer. The digit of the width is no zero, unless there is one for the
fill already. -/
structure Directive where
  zero : Bool
  width : Option (Fin 10)
  length : Length
  conversion : Conversion
  width_ne : zero = false → width ≠ some 0

namespace Directive

variable (directive : Directive)

def fill : Char := if directive.zero then '0' else ' '

def minimum : Nat := directive.width.elim 0 Fin.val

def text : List Char :=
  (if directive.zero then ['0'] else []) ++ (directive.width.elim [] (fun digit => [glyph digit]) ++
    (directive.length.text ++ [directive.conversion.char]))

def flags : Flags where
  fill := directive.fill
  width := directive.minimum
  is_long := directive.length ≠ .int
  is_longlong := directive.length = .longlong

end Directive

theorem flags_length (directive : Directive) : directive.flags.length = directive.length := by
  rw [Flags.length, Directive.flags]
  cases directive.length <;> rfl

theorem fill_ne_nul (directive : Directive) : directive.flags.fill ≠ nul := by
  show directive.fill ≠ nul
  rw [Directive.fill]
  split <;> decide

theorem width_le (directive : Directive) : directive.flags.width ≤ 9 := by
  show directive.width.elim 0 Fin.val ≤ 9
  cases directive.width with
  | none => exact Nat.zero_le _
  | some digit => exact Nat.le_of_lt_succ digit.isLt

theorem parse_text (directive : Directive) (fmt : List Char) :
    parse (directive.text ++ fmt) = some (directive.flags, directive.conversion.char, fmt) := by
  obtain ⟨zero, width, length, conversion, hne⟩ := directive
  cases width with
  | none => cases zero <;> cases length <;> cases conversion <;> rfl
  | some digit =>
    cases zero with
    | true => fin_cases digit <;> cases length <;> cases conversion <;> rfl
    | false =>
      fin_cases digit
      · exact absurd rfl (hne rfl)
      all_goals cases length <;> cases conversion <;> rfl

end Directives

section Formats

variable {model : DataModel} {memory : Int → Char}

theorem vaprintf_char {c : Char} (hnul : c ≠ nul) (hpercent : c ≠ '%') (ap : List (Arg model))
    (fmt : List Char) : vaprintf model memory ap (c :: fmt) = (do
      let out ← vaprintf model memory ap fmt
      pure (out.map (c :: ·))) := by
  rw [vaprintf, if_neg hnul, if_pos hpercent]

theorem vaprintf_unended {fmt : List Char} (hparse : parse fmt = none) (ap : List (Arg model)) :
    vaprintf model memory ap ('%' :: fmt) = pure none := by
  rw [vaprintf, if_neg (by decide), if_neg (by decide)]
  split
  · rfl
  · next h =>
    rw [hparse] at h
    cases h

theorem vaprintf_parsed {fmt rest : List Char} {flags : Flags} {c : Char}
    (hparse : parse fmt = some (flags, c, rest)) (ap : List (Arg model)) :
    vaprintf model memory ap ('%' :: fmt) = if c = nul then pure (some []) else (do
      let r ← directive model memory flags c ap
      match r with
      | none => pure none
      | some (out, ap) => do
        let more ← vaprintf model memory ap rest
        pure (more.map (out ++ ·))) := by
  rw [vaprintf, if_neg (by decide), if_neg (by decide)]
  split
  · next h =>
    rw [hparse] at h
    cases h
  · next h =>
    rw [hparse] at h
    obtain ⟨rfl, rfl, rfl⟩ := Option.some.inj h
    rfl

theorem vaprintf_directive {fmt rest : List Char} {flags : Flags} {c : Char}
    (hparse : parse fmt = some (flags, c, rest)) (hc : c ≠ nul) (ap : List (Arg model)) :
    vaprintf model memory ap ('%' :: fmt) = (do
      let r ← directive model memory flags c ap
      match r with
      | none => pure none
      | some (out, ap) => do
        let more ← vaprintf model memory ap rest
        pure (more.map (out ++ ·))) :=
  (vaprintf_parsed hparse ap).trans (if_neg hc)

def Directive.output (directive : Directive) {w : Nat} (v : BitVec w) : List Char :=
  (if directive.conversion = .o then ['0'] else []) ++
    formatted directive.flags directive.conversion v

theorem directive_spec (memory : Int → Char) (directive : Directive)
    (v : BitVec (directive.length.bits model)) (ap : List (Arg model)) :
    (Yprintf.directive model memory directive.flags directive.conversion.char
        (.number directive.length v :: ap)).value = some (directive.output v, ap) ∧
      (Within InScratch (Yprintf.directive model memory directive.flags directive.conversion.char
        (.number directive.length v :: ap)) ↔
        (directive.conversion = .b → magnitude directive.conversion v < 2 ^ 25)) := by
  have hconversion : Conversion.ofChar directive.conversion.char = some directive.conversion := by
    cases directive.conversion <;> rfl
  have harg : va_arg model directive.flags.length (.number directive.length v :: ap) =
      some (v.toInt, ap) := by
    rw [flags_length]
    exact if_pos rfl
  obtain ⟨hvalue, hwithin⟩ := number_spec memory directive.flags (fill_ne_nul directive)
    (width_le directive) (flags_length directive) directive.conversion v
  rw [Yprintf.directive.eq_def, hconversion]
  simp only [harg, value_bind, hvalue, value_pure, Option.map_some, within_bind, hwithin,
    within_pure, and_true]
  rfl

inductive Piece (model : DataModel)
  | char (c : Char) (hne : c ≠ nul ∧ c ≠ '%')
  | string (s : CString)
  | character (v : BitVec 32)
  | number (directive : Directive) (v : BitVec (directive.length.bits model))

namespace Piece

def text : Piece model → List Char
  | char c _ => [c]
  | string _ => ['%', 's']
  | character _ => ['%', 'c']
  | number directive _ => '%' :: directive.text

def args : Piece model → List (Arg model)
  | char _ _ => []
  | string s => [.string s]
  | character v => [.number .int v]
  | number directive v => [.number directive.length v]

def output : Piece model → List Char
  | char c _ => [c]
  | string s => s.chars
  | character v => [Char.ofNat (v.toInt % 2 ^ 8).toNat]
  | number directive v => directive.output v

def Fits : Piece model → Prop
  | number directive v => directive.conversion = .b → v.toNat < 2 ^ 25
  | _ => True

end Piece

variable (model memory) in
/-- A piece is printed, and what is left is printed as before. -/
structure Prints (ap : List (Arg model)) (fmt : List Char) (out : List Char) (fits : Prop)
    (ap' : List (Arg model)) (fmt' : List Char) : Prop where
  value : (vaprintf model memory ap fmt).value = (vaprintf model memory ap' fmt').value.map (out ++ ·)
  within : Within InScratch (vaprintf model memory ap fmt) ↔
    fits ∧ Within InScratch (vaprintf model memory ap' fmt')

theorem prints_directive {fmt rest : List Char} {flags : Flags} {c : Char}
    {ap ap' : List (Arg model)} {out : List Char} {fits : Prop}
    (hparse : parse fmt = some (flags, c, rest)) (hc : c ≠ nul)
    (hvalue : (directive model memory flags c ap).value = some (out, ap'))
    (hwithin : Within InScratch (directive model memory flags c ap) ↔ fits) :
    Prints model memory ap ('%' :: fmt) out fits ap' rest := by
  constructor
  · rw [vaprintf_directive hparse hc, value_bind, hvalue]
    rfl
  · rw [vaprintf_directive hparse hc, within_bind, hvalue, hwithin, within_bind]
    exact and_congr_right fun _ => and_iff_left (within_pure _)

theorem prints_number (memory : Int → Char) (directive : Directive)
    (v : BitVec (directive.length.bits model)) (ap : List (Arg model)) (fmt : List Char) :
    Prints model memory (.number directive.length v :: ap) ('%' :: (directive.text ++ fmt))
      (directive.output v) (directive.conversion = .b → v.toNat < 2 ^ 25) ap fmt := by
  obtain ⟨hvalue, hwithin⟩ := directive_spec memory directive v ap
  apply prints_directive (parse_text directive fmt) _ hvalue
  · apply hwithin.trans
    apply imp_congr_right
    intro hb
    rw [magnitude, hb]
    rfl
  · cases directive.conversion <;> decide

theorem prints_piece (memory : Int → Char) (piece : Piece model) (ap : List (Arg model))
    (fmt : List Char) :
    Prints model memory (piece.args ++ ap) (piece.text ++ fmt) piece.output piece.Fits ap fmt := by
  cases piece with
  | char c hne =>
    constructor
    · rw [Piece.text, List.singleton_append, vaprintf_char hne.1 hne.2]
      rfl
    · rw [Piece.text, List.singleton_append, vaprintf_char hne.1 hne.2, within_bind,
        and_iff_left (within_pure _)]
      exact (and_iff_right trivial).symm
  | string s => exact prints_directive rfl (by decide) rfl (iff_of_true (within_pure _) trivial)
  | character v => exact prints_directive rfl (by decide) rfl (iff_of_true (within_pure _) trivial)
  | number directive v => exact prints_number memory directive v ap fmt

theorem prints_pieces (memory : Int → Char) (pieces : List (Piece model)) :
    (vaprintf model memory (pieces.flatMap Piece.args) (pieces.flatMap Piece.text ++ [nul])).value =
        some (pieces.flatMap Piece.output) ∧
      (Within InScratch (vaprintf model memory (pieces.flatMap Piece.args)
        (pieces.flatMap Piece.text ++ [nul])) ↔ ∀ piece ∈ pieces, piece.Fits) := by
  induction pieces with
  | nil =>
    rw [List.flatMap_nil, List.flatMap_nil, List.nil_append, vaprintf, if_pos rfl]
    exact ⟨rfl, iff_of_true (within_pure _) (List.forall_mem_nil _)⟩
  | cons piece pieces ih =>
    obtain ⟨hvalue, hwithin⟩ := ih
    have hprints := prints_piece memory piece (pieces.flatMap Piece.args)
      (pieces.flatMap Piece.text ++ [nul])
    rw [List.flatMap_cons, List.flatMap_cons, List.append_assoc]
    constructor
    · rw [hprints.value, hvalue]
      rfl
    · rw [hprints.within, hwithin, List.forall_mem_cons]

/-- Whatever is printed, the accesses to `scratch` stay in it exactly if no binary number has
got more than 25 digits. -/
theorem scratch_within_iff (model : DataModel) (memory : Int → Char) (pieces : List (Piece model)) :
    (vaprintf model memory (pieces.flatMap Piece.args)
        (pieces.flatMap Piece.text ++ [nul])).value.isSome = true ∧
      (Within InScratch (vaprintf model memory (pieces.flatMap Piece.args)
        (pieces.flatMap Piece.text ++ [nul])) ↔ ∀ piece ∈ pieces, piece.Fits) := by
  obtain ⟨hvalue, hwithin⟩ := prints_pieces memory pieces
  rw [hvalue]
  exact ⟨rfl, hwithin⟩

def binary : Piece .lp64 :=
  .number ⟨false, none, .int, .b, fun _ => nofun⟩ (BitVec.ofNat 32 (2 ^ 25))

theorem scratch_overflows : ¬ ∀ (model : DataModel) (memory : Int → Char)
    (pieces : List (Piece model)), Within InScratch (vaprintf model memory
      (pieces.flatMap Piece.args) (pieces.flatMap Piece.text ++ [nul])) := by
  intro h
  have hwithin := h .lp64 (fun _ => nul) [binary]
  rw [(prints_pieces _ [binary]).2, List.forall_mem_singleton] at hwithin
  exact absurd (hwithin rfl) (by decide)

/-- A decimal, unsigned or hexadecimal number is printed as a sign, the fill and its digits. -/
theorem number_faithful (memory : Int → Char) (directive : Directive)
    (hconversion : directive.conversion ∈ [Conversion.d, .u, .x])
    (v : BitVec (directive.length.bits model)) (ap : List (Arg model)) (fmt : List Char) :
    ∃ minus padding number : List Char,
      (vaprintf model memory (.number directive.length v :: ap)
          ('%' :: (directive.text ++ fmt))).value =
        (vaprintf model memory ap fmt).value.map (minus ++ (padding ++ number) ++ ·) ∧
      minus = (if directive.conversion = .d ∧ v.toInt < 0 then ['-'] else []) ∧
      (∀ c ∈ padding, c = directive.fill) ∧
      Denotes directive.conversion.base number
        (if directive.conversion = .d then v.toInt.natAbs else v.toNat) ∧
      (minus ++ (padding ++ number)).length = max directive.minimum (minus.length + number.length) := by
  have hsigned := is_signed_iff directive.conversion
  have hno : directive.conversion ≠ .o := by
    intro ho
    rw [ho] at hconversion
    exact absurd hconversion (by decide)
  have hprints := (prints_number memory directive v ap fmt).value
  rw [Directive.output, if_neg hno, List.nil_append] at hprints
  refine ⟨_, _, _, hprints, ?_, ?_, ?_, ?_⟩
  · simp only [sign, Bool.and_eq_true, decide_eq_true_eq, hsigned]
  · exact fun c hc => List.eq_of_mem_replicate hc
  · have hdenotes := denotes_digits directive.conversion.two_le_base
      (magnitude directive.conversion v)
    simp only [magnitude, hsigned] at hdenotes ⊢
    exact hdenotes
  · show _ = max directive.flags.width _
    simp only [List.length_append, List.length_replicate, List.length_map]
    omega

/-- "%03d" for -7 -/
theorem number_faithful_minusSeven : ∃ padding number : List Char,
    (vaprintf .lp64 (fun _ => nul) [.number .int (BitVec.ofInt 32 (-7))]
      ['%', '0', '3', 'd', nul]).value = some ('-' :: (padding ++ number)) ∧
      (∀ c ∈ padding, c = '0') ∧ Denotes 10 number 7 ∧
      (padding ++ number).length + 1 = max 3 (number.length + 1) := by
  obtain ⟨minus, padding, number, hvalue, hminus, hpadding, hdenotes, hlength⟩ :=
    number_faithful (fun _ => nul) ⟨true, some 3, .int, .d, nofun⟩ (by decide)
      (BitVec.ofInt 32 (-7)) ([] : List (Arg .lp64)) [nul]
  have hend : (vaprintf .lp64 (fun _ => nul) [] [nul]).value = some [] := by
    rw [vaprintf, if_pos rfl]
    rfl
  obtain rfl : minus = ['-'] := hminus.trans (if_pos (by decide))
  rw [hend, Option.map_some, List.append_nil] at hvalue
  rw [List.length_append, List.length_singleton, Nat.add_comm, Nat.add_comm 1] at hlength
  exact ⟨padding, number, hvalue, hpadding, hdenotes, hlength⟩

end Formats

end Rodos.Yprintf
