import Rodos.StringBuffer
import Rodos.VaprintfArguments

namespace Rodos.Snprintf

open AccessTrace Traced CString Receiver Vaprintf

/-- The object that puts the characters into memory, with `dest` as an index from the destination
that it has been constructed with. -/
structure SNYprintf (w : Nat) where
  dest : Nat
  max_size : BitVec w
  cur_size : BitVec w
  memory : StringBuffer

namespace SNYprintf

variable {w : Nat}

def construct (size : BitVec w) (memory : StringBuffer) : SNYprintf w := ⟨0, size, 0, memory⟩

def yputc (c : Char) (printer : SNYprintf w) : SNYprintf w :=
  if printer.cur_size + 1 < printer.max_size then
    { printer with
      dest := printer.dest + 1
      cur_size := printer.cur_size + 1
      memory := printer.memory.store printer.dest c }
  else printer

/-- `~SNYprintf` -/
def destruct (printer : SNYprintf w) : StringBuffer :=
  if printer.max_size ≠ 0 then printer.memory.store printer.dest nul else printer.memory

end SNYprintf

section Functions

-- The type `size_t` is as wide as `long`.
variable (machine : Machine) (dest : StringBuffer) (size : BitVec machine.model.longBits)
  (fmt : CString) (args : List (Arg machine.model))

/-- The size that is returned and the memory behind the call. The object is destructed after the
size has been read. -/
def vsnprintf : Traced Cell (Option (BitVec machine.model.longBits × StringBuffer)) := do
  let r ← ((vaprintf machine SNYprintf.yputc args fmt.cells).run (SNYprintf.construct size dest)).run
  pure (r.map fun r => (r.2.cur_size, r.2.destruct))

def SNPRINTF : Traced Cell (Option (BitVec machine.model.longBits × StringBuffer)) :=
  vsnprintf machine dest size fmt args

end Functions

section Truncation

variable {w : Nat} {before : StringBuffer} {size : BitVec w} {out : List Char}

theorem toNat_succ (x : BitVec w) : (x + 1).toNat = (x.toNat + 1) % 2 ^ w := by
  rw [BitVec.toNat_add]
  exact Nat.add_mod_mod ..

def kept (size : BitVec w) (out : List Char) : List Char := out.take (size.toNat - 1)

structure Printed (before : StringBuffer) (size : BitVec w) (out : List Char)
    (printer : SNYprintf w) : Prop where
  dest : printer.dest = (kept size out).length
  max_size : printer.max_size = size
  cur_size : printer.cur_size.toNat = (kept size out).length
  memory : StringBuffer.Wrote before printer.memory (kept size out)

theorem length_kept_le (size : BitVec w) (out : List Char) :
    (kept size out).length ≤ size.toNat - 1 := List.length_take_le ..

theorem printed_construct (before : StringBuffer) (size : BitVec w) :
    Printed before size [] (SNYprintf.construct size before) := by
  have hkept : kept size [] = [] := List.take_nil
  constructor
  · rw [hkept]
    rfl
  · rfl
  · rw [hkept]
    rfl
  · rw [hkept]
    exact StringBuffer.wrote_nil before

theorem Printed.of_kept_eq {out' : List Char} {printer : SNYprintf w}
    (h : Printed before size out printer) (heq : kept size out' = kept size out) :
    Printed before size out' printer := by
  constructor
  · rw [heq]
    exact h.dest
  · exact h.max_size
  · rw [heq]
    exact h.cur_size
  · rw [heq]
    exact h.memory

theorem kept_concat_of_lt (h : out.length < size.toNat - 1) (c : Char) :
    kept size (out ++ [c]) = kept size out ++ [c] := by
  rw [kept, kept, List.take_of_length_le h.le, List.take_of_length_le]
  rw [List.length_append, List.length_singleton]
  exact h

theorem kept_concat_of_le (h : size.toNat - 1 ≤ out.length) (c : Char) :
    kept size (out ++ [c]) = kept size out := List.take_append_of_le_length h

theorem length_kept_of_le (h : size.toNat - 1 ≤ out.length) :
    (kept size out).length = size.toNat - 1 := List.length_take_of_le h

/-- The sum does not wrap, as the zero has got room, too. -/
theorem Printed.room_iff {printer : SNYprintf w} (h : Printed before size out printer) :
    printer.cur_size + 1 < printer.max_size ↔ out.length < size.toNat - 1 := by
  have hsize := size.isLt
  have hlength := length_kept_le size out
  rw [BitVec.lt_def, toNat_succ, h.max_size, h.cur_size]
  obtain hlt | hge := Nat.lt_or_ge out.length (size.toNat - 1)
  · have heq : (kept size out).length = out.length := by
      rw [kept, List.take_of_length_le hlt.le]
    rw [heq, Nat.mod_eq_of_lt (by omega)]
    omega
  · rw [length_kept_of_le hge]
    obtain hzero | hpos := Nat.eq_zero_or_pos size.toNat
    · omega
    · rw [Nat.sub_add_cancel hpos, Nat.mod_eq_of_lt hsize]
      omega

theorem Printed.yputc {printer : SNYprintf w} (h : Printed before size out printer) (c : Char) :
    Printed before size (out ++ [c]) (printer.yputc c) := by
  have hlength := length_kept_le size out
  have hsize := size.isLt
  rw [SNYprintf.yputc]
  obtain hlt | hge := Nat.lt_or_ge out.length (size.toNat - 1)
  · have heq : (kept size out).length = out.length := by
      rw [kept, List.take_of_length_le hlt.le]
    have hsucc : (printer.cur_size + 1).toNat = (kept size out).length + 1 := by
      rw [toNat_succ, h.cur_size, Nat.mod_eq_of_lt]
      omega
    rw [if_pos (h.room_iff.mpr hlt)]
    constructor
    · rw [kept_concat_of_lt hlt, List.length_append, List.length_singleton]
      exact congrArg (· + 1) h.dest
    · exact h.max_size
    · rw [kept_concat_of_lt hlt, List.length_append, List.length_singleton]
      exact hsucc
    · rw [kept_concat_of_lt hlt]
      show StringBuffer.Wrote before (printer.memory.store printer.dest c) _
      rw [h.dest]
      exact h.memory.concat c
  · rw [if_neg fun hroom => absurd (h.room_iff.mp hroom) (Nat.not_lt.mpr hge)]
    exact h.of_kept_eq (kept_concat_of_le hge c)

theorem printed_replay (before : StringBuffer) (size : BitVec w) (out : List Char) :
    Printed before size out (replay SNYprintf.yputc (SNYprintf.construct size before) out) := by
  induction out using List.reverseRecOn with
  | nil => exact printed_construct before size
  | append_singleton out c ih =>
    rw [← record, replay_record]
    exact ih.yputc c

variable (before size out) in
structure Bounded (r : BitVec w × StringBuffer) : Prop where
  written : ∀ i ∈ r.2.written, i ∈ before.written ∨ i < size.toNat
  outside : ∀ i, size.toNat ≤ i → r.2.chars i = before.chars i
  returned : r.1.toNat = (out.take (size.toNat - 1)).length
  chars : 0 < size.toNat → (List.range r.1.toNat).map r.2.chars = out.take (size.toNat - 1)
  nul : 0 < size.toNat → r.2.chars r.1.toNat = nul

theorem Printed.bounded {printer : SNYprintf w} (h : Printed before size out printer) :
    Bounded before size out (printer.cur_size, printer.destruct) := by
  have hlength := length_kept_le size out
  have hzero : size = 0 ↔ size.toNat = 0 := BitVec.toNat_inj.symm.trans (by simp)
  rw [SNYprintf.destruct, h.max_size]
  by_cases hsize : size = 0
  · have hnone := hzero.mp hsize
    have hkept : kept size out = [] := by
      rw [kept, hnone]
      rfl
    have hmemory := h.memory
    rw [hkept] at hmemory
    rw [if_neg (not_not.mpr hsize)]
    constructor
    · intro i hi
      exact .inl (((hmemory.written i).mp hi).resolve_right (Nat.not_lt_zero i))
    · exact fun i _ => hmemory.chars i
    · exact h.cur_size
    · exact fun hpos => absurd hnone hpos.ne'
    · exact fun hpos => absurd hnone hpos.ne'
  · have hpos : 0 < size.toNat := Nat.pos_of_ne_zero fun hnone => hsize (hzero.mpr hnone)
    have hmemory := h.memory.concat nul
    rw [← h.dest] at hmemory
    have hwhole : (kept size out ++ [nul]).length ≤ size.toNat := by
      rw [List.length_append, List.length_singleton]
      omega
    obtain ⟨hchars, hnul⟩ := hmemory.read_concat
    rw [if_pos hsize]
    constructor
    · intro i hi
      exact ((hmemory.written i).mp hi).imp_right fun hlt => hlt.trans_le hwhole
    · exact fun i hi => hmemory.outside (hwhole.trans hi)
    · exact h.cur_size
    · intro _
      rw [h.cur_size]
      exact hchars
    · intro _
      rw [h.cur_size]
      exact hnul

end Truncation

section Calls

variable (machine : Machine) (dest : StringBuffer) (size : BitVec machine.model.longBits)
  (fmt : CString) (args : List (Arg machine.model))

theorem value_vsnprintf : (vsnprintf machine dest size fmt args).value =
    (emitted machine args fmt.cells).map fun out =>
      ((replay SNYprintf.yputc (SNYprintf.construct size dest) out).cur_size,
        (replay SNYprintf.yputc (SNYprintf.construct size dest) out).destruct) := by
  rw [vsnprintf, value_bind, value_pure]
  show (outcome _ _).map _ = _
  rw [outcome_vaprintf, Option.map_map]
  rfl

theorem within_vsnprintf : Within Cell.Inside (vsnprintf machine dest size fmt args) ↔
    ∀ n ∈ binaries args fmt.cells, n < 2 ^ 25 := by
  rw [vsnprintf, within_bind, and_iff_left (within_pure _)]
  exact permits_vaprintf SNYprintf.yputc args fmt.cells _

/-- The call leaves the characters that the formatter puts out as far as there is room, and
writes nothing but the destination and its own arrays. -/
structure PrintsWithin {w : Nat} (before : StringBuffer) (size : BitVec w) (out : Option (List Char))
    (call : Traced Cell (Option (BitVec w × StringBuffer))) : Prop where
  result : Option.Rel (Bounded before size) out call.value
  inside : Within Cell.Inside call

theorem rel_vsnprintf : Option.Rel (Bounded dest size) (emitted machine args fmt.cells)
    (vsnprintf machine dest size fmt args).value := by
  rw [value_vsnprintf]
  cases emitted machine args fmt.cells with
  | none => exact .none
  | some out => exact .some (printed_replay dest size out).bounded

theorem printsWithin_iff : PrintsWithin dest size (emitted machine args fmt.cells)
    (vsnprintf machine dest size fmt args) ↔ ∀ n ∈ binaries args fmt.cells, n < 2 ^ 25 := by
  rw [← within_vsnprintf machine dest size fmt args]
  constructor
  · exact PrintsWithin.inside
  · exact fun h => ⟨rel_vsnprintf machine dest size fmt args, h⟩

end Calls

/-- Bounded printing, for every size of the destination, format and list of arguments: it is
exactly the binary numbers with more than 25 digits that leave their array. There is a result if
the formatter has got its arguments. -/
theorem snprintf_bounded_iff (machine : Machine) (dest : StringBuffer)
    (size : BitVec machine.model.longBits) (fmt : CString) (args : List (Arg machine.model)) :
    (∃ types, arguments fmt.cells = some types ∧
      ((emitted machine args fmt.cells).isSome = true ↔ types <+: args.map Arg.type)) ∧
    (PrintsWithin dest size (emitted machine args fmt.cells)
      (vsnprintf machine dest size fmt args) ↔ ∀ n ∈ binaries args fmt.cells, n < 2 ^ 25) ∧
    (PrintsWithin dest size (emitted machine args fmt.cells)
      (SNPRINTF machine dest size fmt args) ↔ ∀ n ∈ binaries args fmt.cells, n < 2 ^ 25) := by
  have hiff := printsWithin_iff machine dest size fmt args
  refine ⟨?_, hiff, hiff⟩
  obtain ⟨types, htypes⟩ := (ended_cells fmt).arguments
  refine ⟨types, htypes, (emitted_isSome_iff args fmt.cells).trans ?_⟩
  rw [Accepted, htypes]
  constructor
  · rintro ⟨types', heq, h⟩
    obtain rfl := Option.some.inj heq
    exact h
  · exact fun h => ⟨types, rfl, h⟩

def lp64 : Machine := ⟨.lp64, fun _ => nul, fun _ => 0⟩

/-- `%b` with 2 to the power of 25 -/
theorem snprintf_leaves_scratch : ¬ ∀ (machine : Machine) (dest : StringBuffer)
    (size : BitVec machine.model.longBits) (fmt : CString) (args : List (Arg machine.model)),
    PrintsWithin dest size (emitted machine args fmt.cells)
      (SNPRINTF machine dest size fmt args) := by
  intro h
  have hparse : parse ['b', nul] = some (⟨⟨' ', 0, false, false⟩, 3⟩, 'b', [nul]) := rfl
  have hwithin := (printsWithin_iff lp64 ⟨fun _ => 'z', ∅⟩ 8 ⟨['%', 'b'], by decide⟩
    [.number .int (BitVec.ofNat 32 (2 ^ 25))]).mp (h ..)
  rw [CString.cells, List.cons_append, List.cons_append, List.nil_append,
    binaries_parsed _ hparse, if_neg (by decide)] at hwithin
  exact absurd (hwithin (2 ^ 25) List.mem_cons_self) (by decide)

end Rodos.Snprintf
