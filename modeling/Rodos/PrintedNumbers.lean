import Rodos.Snprintf
import Rodos.StrToInt

namespace Rodos.PrintedNumbers

open CString StrToInt
open Yprintf (DataModel Conversion Directive Piece glyph digits)

section Items

/-- A number with the directive that it is printed by. -/
structure Item (model : DataModel) where
  directive : Directive
  v : BitVec (directive.length.bits model)

namespace Item

variable {model : DataModel} (item : Item model)

def pieces : List (Piece model) :=
  [.char ' ' (by decide), .number item.directive item.v]

def conversion : Conversion := item.directive.conversion

def value : Int := if item.conversion.is_signed then item.v.toInt else item.v.toNat

def sign : List Char := Yprintf.sign item.conversion item.v.toInt

/-- What stands before the fill: the minus sign of a number, or the zero of an octal one. -/
def front : List Char := (if item.conversion = .o then ['0'] else []) ++ item.sign

def places : List Nat :=
  digits item.conversion.base (Yprintf.magnitude item.conversion item.v)

def padding : Nat := item.directive.minimum - item.sign.length - item.places.length

def output : List Char := item.directive.output item.v

/-- The number is one of the reader's type, and has got room in the memory of the formatter. -/
structure InRange : Prop where
  min : INT32_MIN ≤ item.value
  max : item.value ≤ INT32_MAX
  scratch : item.conversion = .b → item.v.toNat < 2 ^ 25

/-- No blanks come between the front and the digits. -/
def Joined : Prop := item.front = [] ∨ item.padding = 0 ∨ item.directive.zero = true

instance : Decidable item.Joined := inferInstanceAs (Decidable (_ ∨ _))

def result : Int × Nat := (item.value, item.output.length + 1)

end Item

/-- Number after number, each from where the reader has stopped before. -/
def readNumbers : List Nat → List Char → Option (List (Int × Nat))
  | [], _ => some []
  | base :: bases, cells => do
    let r ← strToInt32_t cells base
    let more ← readNumbers bases (cells.drop r.2)
    return r :: more

end Items

section Digits

variable {base : Nat} {ds : List Nat} {rest : List Char}

/-- The text behind a number: nothing, or the blank before the next one. -/
def Ended (rest : List Char) : Prop := rest = [] ∨ ∃ more, rest = ' ' :: more

theorem digit_glyph {d : Nat} (h : d < 16) : digit (glyph d) = some d := by
  revert d
  decide

theorem glyph_notMem {d : Nat} (h : d < 16) : glyph d ∉ [' ', '-', '+', 'x', 'X'] := by
  revert d
  decide

theorem glyph_ne {d : Nat} (h : d < 16) {c : Char} (hc : c ∈ [' ', '-', '+', 'x', 'X']) :
    glyph d ≠ c := by
  rintro rfl
  exact glyph_notMem h hc

theorem isspace_glyph {d : Nat} (h : d < 16) : isspace (glyph d) = false := by
  revert d
  decide

theorem digitRun_map_glyph (hbase : base ≤ 16) (hds : ∀ d ∈ ds, d < base) (hrest : Ended rest) :
    digitRun base (ds.map glyph ++ rest) = ds := by
  induction ds with
  | nil => obtain rfl | ⟨more, rfl⟩ := hrest <;> rfl
  | cons d ds ih =>
    obtain ⟨hd, hds⟩ := List.forall_mem_cons.mp hds
    rw [List.map_cons, List.cons_append, digitRun, digit_glyph (Nat.lt_of_lt_of_le hd hbase)]
    dsimp only
    rw [if_pos hd, ih hds]

/-- A number is not taken for the prefix of a hexadecimal one. -/
theorem not_hasPrefix (hbase : base ≤ 16) (hds : ∀ d ∈ ds, d < base) (hne : ds ≠ [])
    (hrest : Ended rest) : ¬HasPrefix base (ds.map glyph ++ rest) := by
  have hletter : ∀ c, (ds.map glyph ++ rest)[1]? = some c → c ≠ 'x' ∧ c ≠ 'X' := by
    intro c hc
    match ds with
    | [] => exact absurd rfl hne
    | [d] =>
      obtain rfl | ⟨more, rfl⟩ := hrest
      · cases hc
      · obtain rfl : ' ' = c := Option.some.inj hc
        decide
    | d :: d' :: ds =>
      obtain rfl : glyph d' = c := Option.some.inj hc
      have hd' : d' < base := hds d' (List.mem_cons_of_mem _ List.mem_cons_self)
      constructor
      · exact glyph_ne (Nat.lt_of_lt_of_le hd' hbase) (by decide)
      · exact glyph_ne (Nat.lt_of_lt_of_le hd' hbase) (by decide)
  rintro ⟨-, -, hx | hx⟩
  · exact (hletter 'x' hx).1 rfl
  · exact (hletter 'X' hx).2 rfl

theorem value_replicate_zero (base k n : Nat) :
    value base (List.replicate k 0 ++ digits base n) = n := by
  rw [value, List.reverse_append, List.reverse_replicate, Nat.ofDigits_append_replicate_zero, digits]
  split
  · next hn => rw [hn, List.reverse_singleton, Nat.ofDigits_singleton]
  · rw [List.reverse_reverse, Nat.ofDigits_digits]

section Signs

variable {d : Nat} (hd : d < 16) (blanks : Nat) (negative : Bool) (tail : List Char)
include hd

theorem dropWhile_blanks : (List.replicate blanks ' ' ++
    ((if negative then ['-'] else []) ++ glyph d :: tail)).dropWhile isspace =
      (if negative then ['-'] else []) ++ glyph d :: tail := by
  rw [List.dropWhile_append_of_pos]
  · cases negative with
    | true => rfl
    | false =>
      apply List.dropWhile_cons_of_neg
      rw [isspace_glyph hd]
      exact Bool.false_ne_true
  · intro c hc
    rw [List.eq_of_mem_replicate hc]
    rfl

theorem afterSign_text :
    afterSign ((if negative then ['-'] else []) ++ glyph d :: tail) = glyph d :: tail := by
  cases negative with
  | true => rfl
  | false =>
    apply if_neg
    rintro (hc | hc)
    · exact glyph_ne hd (by decide) (Option.some.inj hc)
    · exact glyph_ne hd (by decide) (Option.some.inj hc)

theorem negative_text :
    decide (((if negative then ['-'] else []) ++ glyph d :: tail)[0]? = some '-') = negative := by
  cases negative with
  | true => rfl
  | false =>
    apply decide_eq_false
    intro hc
    exact glyph_ne hd (by decide) (Option.some.inj hc)

end Signs

theorem numeral_text (hpos : 2 ≤ base) (hbase : base ≤ 16) (hds : ∀ d ∈ ds, d < base)
    (hne : ds ≠ []) (hrest : Ended rest) (blanks : Nat) (negative : Bool) :
    numeral base (List.replicate blanks ' ' ++
        ((if negative then ['-'] else []) ++ (ds.map glyph ++ rest))) =
      ⟨negative, base, blanks + (if negative then ['-'] else []).length, ds⟩ := by
  obtain ⟨d, hd, hhead⟩ : ∃ d, d < 16 ∧ (ds.map glyph ++ rest).head? = some (glyph d) := by
    obtain ⟨d, ds, rfl⟩ := List.exists_cons_of_ne_nil hne
    exact ⟨d, Nat.lt_of_lt_of_le (hds d List.mem_cons_self) hbase, rfl⟩
  have hprefix : ¬HasPrefix base (ds.map glyph ++ rest) := not_hasPrefix hbase hds hne hrest
  have hrun : digitRun base (ds.map glyph ++ rest) = ds := digitRun_map_glyph hbase hds hrest
  generalize ds.map glyph ++ rest = number at *
  obtain ⟨tail, rfl⟩ := List.head?_eq_some_iff.mp hhead
  have heffective : effectiveBase base (glyph d :: tail) = base := by
    rw [effectiveBase, if_neg hprefix, if_neg (by omega)]
  rw [numeral, dropWhile_blanks hd, afterSign_text hd, afterPrefix, if_neg hprefix, heffective,
    hrun, negative_text hd]
  congr 1
  simp only [List.length_append, List.length_replicate]
  omega

theorem strToInt32_t_text (hpos : 2 ≤ base) (hbase : base ≤ 16) (hds : ∀ d ∈ ds, d < base)
    (hne : ds ≠ []) (hrest : Ended rest) (blanks : Nat) (negative : Bool) {str : CString}
    (hstr : str.chars = List.replicate blanks ' ' ++
      ((if negative then ['-'] else []) ++ (ds.map glyph ++ rest))) {x : Int}
    (hx : x = if negative then -(value base ds : Int) else value base ds)
    (hmin : INT32_MIN ≤ x) (hmax : x ≤ INT32_MAX) :
    strToInt32_t str.cells base = some (x,
      (List.replicate blanks ' ' ++ ((if negative then ['-'] else []) ++ ds.map glyph)).length) := by
  obtain ⟨acc, hresult, hacc⟩ := strToInt32_t_spec (.inr ⟨hpos, by omega⟩) str
    (hstr ▸ (numeral_text hpos hbase hds hne hrest blanks negative).symm)
  have hmagnitude : negative = false ∨ value base ds ≤ 2 ^ 31 := by
    cases negative with
    | false => exact .inl rfl
    | true =>
      right
      rw [INT32_MIN, hx, if_pos rfl] at hmin
      omega
  have hclamped := (Numeral.clamped_iff (Nat.lt_of_lt_of_le Nat.two_pos hpos) hacc).mpr
    (hmagnitude.imp_right .inl)
  have heq : acc = x := by
    rw [hclamped, Numeral.clamped, Numeral.magnitude]
    dsimp only
    rw [← hx, min_eq_right hmax, max_eq_right hmin]
  rw [hresult, heq, Numeral.endptr]
  dsimp only
  rw [if_neg hne]
  simp only [List.length_append, List.length_replicate, List.length_map, Nat.add_assoc]

/-- A blank behind what stands before the fill stops the reader. -/
theorem endptr_le (hpos : 2 ≤ base) {c : Char} (hc : c = '0' ∨ c = '-') (more : List Char) :
    (numeral base (' ' :: c :: ' ' :: more)).endptr ≤ 2 := by
  obtain rfl | rfl := hc
  · have hprefix : ¬HasPrefix base ('0' :: ' ' :: more) := by
      rintro ⟨-, -, hx | hx⟩ <;> exact absurd (Option.some.inj hx) (by decide)
    have hdigits : (numeral base (' ' :: '0' :: ' ' :: more)).digits = [0] := by
      show digitRun (effectiveBase base ('0' :: ' ' :: more))
        (afterPrefix base ('0' :: ' ' :: more)) = [0]
      rw [effectiveBase, afterPrefix, if_neg hprefix, if_neg hprefix, if_neg (by omega)]
      exact if_pos (Nat.lt_of_lt_of_le Nat.two_pos hpos)
    have hstart : (numeral base (' ' :: '0' :: ' ' :: more)).start = 1 := by
      show (more.length + 1 + 1 + 1) - (afterPrefix base ('0' :: ' ' :: more)).length = 1
      rw [afterPrefix, if_neg hprefix, List.length_cons, List.length_cons]
      omega
    rw [Numeral.endptr, hdigits, hstart]
    decide
  · have hprefix : ¬HasPrefix base (' ' :: more) := by
      rintro ⟨-, hhead, -⟩
      exact absurd (Option.some.inj hhead) (by decide)
    have hdigits : (numeral base (' ' :: '-' :: ' ' :: more)).digits = [] := by
      show digitRun _ (afterPrefix base (' ' :: more)) = []
      rw [afterPrefix, if_neg hprefix]
      rfl
    rw [Numeral.endptr, if_pos hdigits]
    exact Nat.zero_le _

end Digits

section Reading

variable {model : DataModel} {item : Item model} {rest : List Char}

namespace Item

variable (item) in
def negative : Bool := item.conversion.is_signed && item.v.toInt < 0

theorem output_eq : item.output = item.front ++
    (List.replicate item.padding item.directive.fill ++ item.places.map glyph) :=
  (List.append_assoc ..).symm

theorem sign_eq : item.sign = if item.negative then ['-'] else [] := rfl

theorem places_ne_nil : item.places ≠ [] :=
  List.ne_nil_of_length_pos (Yprintf.length_digits_pos item.conversion.two_le_base _)

theorem value_places (zeros : Nat) : item.value =
    if item.negative then
      -(StrToInt.value item.conversion.base (List.replicate zeros 0 ++ item.places) : Int)
    else StrToInt.value item.conversion.base (List.replicate zeros 0 ++ item.places) := by
  rw [places, value_replicate_zero, value, negative, Yprintf.magnitude]
  cases item.conversion.is_signed with
  | false => rfl
  | true =>
    by_cases hneg : item.v.toInt < 0
    · simp only [hneg, if_true, decide_true, Bool.and_self]
      omega
    · simp only [hneg, if_true, decide_false, Bool.and_false, Bool.false_eq_true, if_false]
      omega

theorem sign_octal (h : item.conversion = .o) : item.sign = [] := by
  rw [sign, h]
  rfl

theorem Joined.output (h : item.Joined) : ∃ blanks zeros, item.output =
    List.replicate blanks ' ' ++
      (item.sign ++ (List.replicate zeros 0 ++ item.places).map glyph) := by
  by_cases hfill : item.padding = 0 ∨ item.directive.zero = true
  · have hpad : List.replicate item.padding item.directive.fill =
        List.replicate item.padding '0' := by
      obtain hzero | hzero := hfill
      · rw [hzero]
        rfl
      · rw [Directive.fill, if_pos hzero]
    by_cases ho : item.conversion = .o
    · refine ⟨0, item.padding + 1, ?_⟩
      rw [output_eq, front, if_pos ho, sign_octal ho, hpad, List.map_append, List.map_replicate]
      rfl
    · refine ⟨0, item.padding, ?_⟩
      rw [output_eq, front, if_neg ho, hpad, List.map_append, List.map_replicate]
      rfl
  · obtain ⟨hpad, hzero⟩ := not_or.mp hfill
    have hfront : item.front = [] := (h.resolve_right hfill)
    have hsign : item.sign = [] := (List.append_eq_nil_iff.mp hfront).2
    refine ⟨item.padding, 0, ?_⟩
    rw [output_eq, hfront, hsign, Directive.fill, if_neg hzero]
    rfl

theorem not_joined_output (h : ¬item.Joined) : ∃ c more, (c = '0' ∨ c = '-') ∧ 0 < more.length ∧
    item.output = c :: ' ' :: more := by
  obtain ⟨hfront, h⟩ := not_or.mp h
  obtain ⟨hpad, hzero⟩ := not_or.mp h
  obtain ⟨k, hk⟩ := Nat.exists_eq_succ_of_ne_zero hpad
  obtain ⟨c, hc, hsingle⟩ : ∃ c, (c = '0' ∨ c = '-') ∧ item.front = [c] := by
    by_cases ho : item.conversion = .o
    · refine ⟨'0', .inl rfl, ?_⟩
      rw [front, if_pos ho, sign_octal ho]
      rfl
    · rw [front, if_neg ho, List.nil_append, sign_eq] at hfront ⊢
      split at hfront
      · next hneg => exact ⟨'-', .inr rfl, if_pos hneg⟩
      · exact absurd rfl hfront
  have hplaces : 0 < item.places.length := List.length_pos_of_ne_nil places_ne_nil
  refine ⟨c, List.replicate k ' ' ++ item.places.map glyph, hc, ?_, ?_⟩
  · rw [List.length_append, List.length_map]
    omega
  · rw [output_eq, hsingle, hk, Directive.fill, if_neg hzero, List.replicate_succ]
    rfl

theorem strToInt32_t_iff_joined (hrange : item.InRange) (hrest : Ended rest) (str : CString)
    (hstr : str.chars = ' ' :: (item.output ++ rest)) :
    strToInt32_t str.cells item.conversion.base = some item.result ↔ item.Joined := by
  have hpos := item.conversion.two_le_base
  have hbase := item.conversion.base_le
  constructor
  · intro hread
    by_contra hjoined
    obtain ⟨c, more, hc, hlength, houtput⟩ := not_joined_output hjoined
    obtain ⟨acc, hresult, -⟩ := strToInt32_t_spec (.inr ⟨hpos, by omega⟩) str rfl
    have hend : item.output.length + 1 = (numeral item.conversion.base str.chars).endptr :=
      congrArg Prod.snd (Option.some.inj (hread.symm.trans hresult))
    have hle := endptr_le hpos hc (more ++ rest)
    rw [hstr, houtput] at hend
    rw [← List.cons_append, ← List.cons_append, ← hend] at hle
    simp only [List.length_cons] at hle
    omega
  · intro hjoined
    obtain ⟨blanks, zeros, houtput⟩ := hjoined.output
    have hds : ∀ d ∈ List.replicate zeros 0 ++ item.places, d < item.conversion.base := by
      intro d hd
      obtain hd | hd := List.mem_append.mp hd
      · rw [List.eq_of_mem_replicate hd]
        omega
      · exact Yprintf.lt_of_mem_digits hpos _ hd
    have hne : List.replicate zeros 0 ++ item.places ≠ [] :=
      List.append_ne_nil_of_right_ne_nil _ places_ne_nil
    have htext : str.chars = List.replicate (blanks + 1) ' ' ++
        ((if item.negative then ['-'] else []) ++
          ((List.replicate zeros 0 ++ item.places).map glyph ++ rest)) := by
      rw [hstr, houtput, List.replicate_succ, ← sign_eq]
      simp only [List.append_assoc, List.cons_append]
    rw [strToInt32_t_text hpos hbase hds hne hrest (blanks + 1) item.negative htext
      (value_places zeros) hrange.min hrange.max, result, houtput]
    rfl

theorem nul_notMem_output : nul ∉ item.output := by
  have hfill : item.directive.fill ≠ nul := Yprintf.fill_ne_nul item.directive
  have hnumber : nul ∉ List.replicate item.padding item.directive.fill ++ item.places.map glyph :=
    Yprintf.nul_notMem hfill _ _ _
  have hfront : nul ∉ item.front := by
    rw [front, sign_eq]
    split <;> split <;> decide
  rw [output_eq]
  intro hmem
  obtain hmem | hmem := List.mem_append.mp hmem
  · exact hfront hmem
  · exact hnumber hmem

end Item

def text (items : List (Item model)) : List Char := items.flatMap fun item => ' ' :: item.output

theorem ended_text (items : List (Item model)) : Ended (text items) := by
  cases items with
  | nil => exact .inl rfl
  | cons item items => exact .inr ⟨_, rfl⟩

theorem nul_notMem_text (items : List (Item model)) : nul ∉ text items := by
  intro hmem
  obtain ⟨item, -, hmem⟩ := List.mem_flatMap.mp hmem
  obtain heq | hmem := List.mem_cons.mp hmem
  · exact absurd heq (by decide)
  · exact Item.nul_notMem_output hmem

theorem readNumbers_text {items : List (Item model)} (hrange : ∀ item ∈ items, item.InRange) :
    readNumbers (items.map fun item => item.conversion.base) (text items ++ [nul]) =
        some (items.map Item.result) ↔ ∀ item ∈ items, item.Joined := by
  induction items with
  | nil => exact iff_of_true rfl (List.forall_mem_nil _)
  | cons item items ih =>
    obtain ⟨hitem, hrange⟩ := List.forall_mem_cons.mp hrange
    have htext : text (item :: items) = ' ' :: (item.output ++ text items) := rfl
    have hread := Item.strToInt32_t_iff_joined hitem (ended_text items)
      ⟨text (item :: items), nul_notMem_text _⟩ htext
    have hdrop : (text (item :: items) ++ [nul]).drop item.result.2 = text items ++ [nul] := by
      rw [htext, List.cons_append, List.append_assoc, Item.result, List.drop_succ_cons,
        List.drop_left]
    rw [CString.cells] at hread
    dsimp only at hread
    rw [List.forall_mem_cons, ← hread, ← ih hrange, List.map_cons, List.map_cons, readNumbers]
    cases strToInt32_t (text (item :: items) ++ [nul]) item.conversion.base with
    | none =>
      apply iff_of_false
      · intro heq
        cases heq
      · rintro ⟨heq, -⟩
        cases heq
    | some r =>
      rw [Option.bind_eq_bind, Option.bind_some, Option.some_inj]
      by_cases hr : r = item.result
      · rw [hr, hdrop]
        cases readNumbers (items.map fun item => item.conversion.base) (text items ++ [nul]) with
        | none =>
          apply iff_of_false
          · intro heq
            cases heq
          · rintro ⟨-, heq⟩
            cases heq
        | some more =>
          rw [Option.bind_eq_bind, Option.bind_some, Option.pure_def, Option.some_inj,
            Option.some_inj, List.cons_inj_right]
          exact (and_iff_right rfl).symm
      · apply iff_of_false
        · cases readNumbers (items.map fun item => item.conversion.base)
            ((text (item :: items) ++ [nul]).drop r.2) with
          | none =>
            intro heq
            cases heq
          | some more =>
            intro heq
            exact hr (List.cons.inj (Option.some.inj heq)).1
        · exact fun h => hr h.1

end Reading

section Printing

open AccessTrace Traced
open Vaprintf (Machine Cell emitted binaries)

variable (machine : Machine) (items : List (Item machine.model))

def format : List Char := (items.flatMap Item.pieces).flatMap Piece.text

def args : List (Vaprintf.Arg machine.model) :=
  ((items.flatMap Item.pieces).flatMap Piece.args).map Vaprintf.Arg.ofYprintf

theorem emitted_format {fmt : CString} (hfmt : fmt.chars = format machine items) :
    emitted machine (args machine items) fmt.cells = some (text items) := by
  rw [args, Vaprintf.emitted_ofYprintf, CString.cells, hfmt, format,
    (Yprintf.prints_pieces machine.memory _).1, List.flatMap_assoc]
  apply congrArg some
  apply List.flatMap_congr
  intro item _
  show ' ' :: (item.output ++ []) = _
  rw [List.append_nil]

theorem binaries_item (item : Item machine.model) (ap : List (Vaprintf.Arg machine.model))
    (fmt : List Char) :
    binaries (.number item.directive.length item.v :: ap) ('%' :: (item.directive.text ++ fmt)) =
      (if item.conversion = .b then [item.v.toNat] else []) ++ binaries ap fmt := by
  obtain ⟨⟨flags, c, rest⟩, hparse, heq⟩ := Option.map_eq_some_iff.mp
    ((Vaprintf.parse_eq _).symm.trans (Yprintf.parse_text item.directive fmt))
  obtain ⟨hflags, hchar⟩ := Prod.mk.inj heq
  obtain ⟨rfl, rfl⟩ := Prod.mk.inj hchar
  have hlength : flags.length = item.directive.length :=
    (congrArg Yprintf.Flags.length hflags).trans (Yprintf.flags_length item.directive)
  have hconversion : Conversion.ofChar item.directive.conversion.char =
      some item.directive.conversion := by
    cases item.directive.conversion <;> rfl
  have hnul : item.directive.conversion.char ≠ nul := by
    cases item.directive.conversion <;> decide
  have htakes : Vaprintf.takes (Vaprintf.argument flags item.directive.conversion.char)
      (.number item.directive.length item.v :: ap) = some ap := by
    rw [Vaprintf.argument, hconversion]
    exact if_pos (congrArg _ hlength.symm)
  rw [Vaprintf.binaries_parsed _ hparse, if_neg hnul, htakes, Option.elim_some, Vaprintf.binary]
  congr 1
  by_cases hb : item.conversion = .b
  · rw [if_pos hb, if_pos ((Vaprintf.ofChar_eq_b hconversion).mp hb)]
  · rw [if_neg hb, if_neg fun hc => hb ((Vaprintf.ofChar_eq_b hconversion).mpr hc)]

theorem binaries_format {items : List (Item machine.model)} (hrange : ∀ item ∈ items, item.InRange) :
    ∀ n ∈ binaries (args machine items) (format machine items ++ [nul]), n < 2 ^ 25 := by
  induction items with
  | nil =>
    show ∀ n ∈ binaries [] [nul], n < 2 ^ 25
    rw [binaries, if_pos rfl]
    exact List.forall_mem_nil _
  | cons item items ih =>
    obtain ⟨hitem, hrange⟩ := List.forall_mem_cons.mp hrange
    have hformat : format machine (item :: items) ++ [nul] =
        ' ' :: '%' :: (item.directive.text ++ (format machine items ++ [nul])) := by
      show ' ' :: '%' :: (item.directive.text ++ format machine items) ++ [nul] = _
      rw [List.cons_append, List.cons_append, List.append_assoc]
    rw [hformat, binaries, if_neg (by decide), if_pos (by decide)]
    show ∀ n ∈ binaries (.number item.directive.length item.v :: args machine items) _, n < 2 ^ 25
    rw [binaries_item, List.forall_mem_append]
    refine ⟨?_, ih hrange⟩
    split
    · next hb => exact List.forall_mem_singleton.mpr (hitem.scratch hb)
    · exact List.forall_mem_nil _

/-- Numbers that are printed into memory are read back from there, in any of the bases, each up
to the blank before the next one, exactly if no blanks are put between a sign or the zero of an
octal number and its digits. -/
theorem numbers_read_back (dest : StringBuffer) (size : BitVec machine.model.longBits)
    (fmt : CString) (hfmt : fmt.chars = format machine items)
    (hrange : ∀ item ∈ items, item.InRange) (hsize : (text items).length < size.toNat) :
    ∃ n memory,
      (Snprintf.SNPRINTF machine dest size fmt (args machine items)).value = some (n, memory) ∧
      Within Cell.Inside (Snprintf.SNPRINTF machine dest size fmt (args machine items)) ∧
      n.toNat = (text items).length ∧
      (readNumbers (items.map fun item => item.conversion.base)
          ((List.range (n.toNat + 1)).map memory.chars) = some (items.map Item.result) ↔
        ∀ item ∈ items, item.Joined) := by
  obtain ⟨r, hprint, hbounded⟩ :
      ∃ r, (Snprintf.SNPRINTF machine dest size fmt (args machine items)).value = some r ∧
        Snprintf.Bounded dest size (text items) r := by
    refine ⟨_, ?_, (Snprintf.printed_replay dest size (text items)).bounded⟩
    rw [Snprintf.SNPRINTF, Snprintf.value_vsnprintf, emitted_format machine items hfmt]
    rfl
  have hwithin : Within Cell.Inside (Snprintf.SNPRINTF machine dest size fmt (args machine items)) := by
    apply (Snprintf.within_vsnprintf machine dest size fmt (args machine items)).mpr
    rw [CString.cells, hfmt]
    exact binaries_format machine hrange
  have hkept : (text items).take (size.toNat - 1) = text items :=
    List.take_of_length_le (Nat.le_sub_one_of_lt hsize)
  have hreturned := hbounded.returned
  have hchars := hbounded.chars (Nat.zero_lt_of_lt hsize)
  have hnul := hbounded.nul (Nat.zero_lt_of_lt hsize)
  rw [hkept] at hreturned hchars
  refine ⟨r.1, r.2, hprint, hwithin, hreturned, ?_⟩
  rw [List.range_succ, List.map_append, hchars, List.map_singleton, hnul]
  exact readNumbers_text hrange

theorem nine_ne_zero (zero : Bool) : zero = false → some (Fin.last 9) ≠ some 0 := by
  cases zero <;> decide

def threeNumbers : List (Item .lp64) :=
  [⟨⟨true, some (Fin.last 9), .int, .d, nine_ne_zero true⟩, BitVec.ofInt 32 (-12)⟩,
    ⟨⟨false, some (Fin.last 9), .int, .x, nine_ne_zero false⟩, 255⟩,
    ⟨⟨true, some (Fin.last 9), .long, .o, nine_ne_zero true⟩, 8⟩]

theorem numbers_read_back_three : ∃ n memory,
    (Snprintf.SNPRINTF ⟨.lp64, fun _ => nul, fun _ => 0⟩ ⟨fun _ => 'z', ∅⟩ 40
        ⟨" %09d %9x %09lo".toList, by decide⟩
        (args ⟨.lp64, fun _ => nul, fun _ => 0⟩ threeNumbers)).value = some (n, memory) ∧
      readNumbers [10, 16, 8] ((List.range (n.toNat + 1)).map memory.chars) =
        some [(-12, 10), (255, 10), (8, 11)] := by
  have hrange : ∀ item ∈ threeNumbers, item.InRange := by
    simp only [threeNumbers, List.forall_mem_cons]
    exact ⟨⟨by decide, by decide, by decide⟩, ⟨by decide, by decide, by decide⟩,
      ⟨by decide, by decide, by decide⟩, List.forall_mem_nil _⟩
  obtain ⟨n, memory, hprint, -, -, hread⟩ :=
    numbers_read_back ⟨.lp64, fun _ => nul, fun _ => 0⟩ threeNumbers ⟨fun _ => 'z', ∅⟩ 40
      ⟨" %09d %9x %09lo".toList, by decide⟩ (by decide +kernel) hrange (by decide +kernel)
  refine ⟨n, memory, hprint, (hread.mpr (by decide +kernel)).trans ?_⟩
  decide +kernel

end Printing

end Rodos.PrintedNumbers
