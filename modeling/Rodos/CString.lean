import Mathlib

namespace Rodos

def nul : Char := Char.ofNat 0

/-- A string in memory, by its characters before the zero. -/
structure CString where
  chars : List Char
  nul_notMem : nul ∉ chars

namespace CString

def cells (s : CString) : List Char := s.chars ++ [nul]

/-- `c = *s++`, with the pointer given by the cells from there on. -/
def next : List Char → Option (Char × List Char)
  | [] => none
  | c :: s => some (c, s)

/-- How far a pointer is moved by a loop that goes on while a test holds. If it would
leave the cells there is no result. -/
def scan (p : Char → Bool) : List Char → Option Nat
  | [] => none
  | c :: cells => if p c then (scan p cells).map (· + 1) else some 0

theorem length_cells (s : CString) : s.cells.length = s.chars.length + 1 := List.length_append

theorem next_spec (rest : List Char) :
    ∃ c s, next (rest ++ [nul]) = some (c, s) ∧ c :: s = rest ++ [nul] := by
  cases rest with
  | nil => exact ⟨nul, [], rfl, rfl⟩
  | cons x rest => exact ⟨x, rest ++ [nul], rfl, rfl⟩

theorem scan_append {p : Char → Bool} {xs : List Char} {c : Char} (rest : List Char)
    (hxs : ∀ x ∈ xs, p x = true) (hc : p c = false) : scan p (xs ++ c :: rest) = some xs.length := by
  induction xs with
  | nil => simp [scan, hc]
  | cons x xs ih =>
    obtain ⟨hx, hxs⟩ := List.forall_mem_cons.mp hxs
    rw [List.cons_append, scan, if_pos hx, ih hxs]
    rfl

end CString

end Rodos
