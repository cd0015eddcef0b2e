import Mathlib

namespace Rodos

/-- Memory that a text is written to, from a pointer on, and the places written. -/
structure StringBuffer where
  chars : Nat → Char
  written : List Nat

namespace StringBuffer

def store (i : Nat) (c : Char) (buffer : StringBuffer) : StringBuffer :=
  ⟨Function.update buffer.chars i c, buffer.written ++ [i]⟩

structure Wrote (before after : StringBuffer) (text : List Char) : Prop where
  chars : ∀ i, after.chars i = text.getD i (before.chars i)
  written : ∀ i, i ∈ after.written ↔ i ∈ before.written ∨ i < text.length

variable {before after : StringBuffer} {text : List Char}

theorem wrote_nil (before : StringBuffer) : Wrote before before [] :=
  ⟨fun _ => rfl, fun _ => (or_iff_left (Nat.not_lt_zero _)).symm⟩

theorem Wrote.concat (h : Wrote before after text) (c : Char) :
    Wrote before (after.store text.length c) (text ++ [c]) := by
  constructor
  · intro i
    show Function.update after.chars text.length c i = _
    obtain rfl | hne := eq_or_ne i text.length
    · simp
    · rw [Function.update_of_ne hne, h.chars, List.getD_eq_getElem?_getD, List.getD_eq_getElem?_getD]
      obtain hlt | hge := Nat.lt_or_ge i text.length
      · rw [List.getElem?_append_left hlt]
      · rw [List.getElem?_eq_none hge, List.getElem?_eq_none]
        rw [List.length_append, List.length_singleton]
        omega
  · intro i
    rw [store, List.mem_append, h.written, List.mem_singleton, List.length_append,
      List.length_singleton, Nat.lt_succ_iff_lt_or_eq, or_assoc]

theorem Wrote.again {c : Char} (h : Wrote before after (text ++ [c])) :
    Wrote before (after.store text.length c) (text ++ [c]) := by
  constructor
  · intro i
    show Function.update after.chars text.length c i = _
    obtain rfl | hne := eq_or_ne i text.length
    · simp
    · rw [Function.update_of_ne hne, h.chars]
  · intro i
    rw [store, List.mem_append, h.written, List.mem_singleton, List.length_append,
      List.length_singleton]
    exact or_iff_left_of_imp fun heq => .inr (heq ▸ Nat.lt_succ_self _)

theorem Wrote.getElem? (h : Wrote before after text) {i : Nat} (hi : i < text.length) :
    text[i]? = some (after.chars i) := by
  rw [h.chars, List.getD_eq_getElem?_getD, List.getElem?_eq_getElem hi]
  rfl

theorem Wrote.read (h : Wrote before after text) :
    (List.range text.length).map after.chars = text := by
  apply List.ext_getElem?
  intro i
  obtain hlt | hge := Nat.lt_or_ge i text.length
  · rw [List.getElem?_map, List.getElem?_range hlt, h.getElem? hlt, Option.map_some]
  · rw [List.getElem?_eq_none hge, List.getElem?_eq_none]
    rw [List.length_map, List.length_range]
    exact hge

theorem Wrote.read_concat {c : Char} (h : Wrote before after (text ++ [c])) :
    (List.range text.length).map after.chars = text ∧ after.chars text.length = c := by
  have hread := h.read
  rw [List.length_append, List.length_singleton, List.range_succ, List.map_append,
    List.map_singleton] at hread
  obtain ⟨hchars, hlast⟩ := List.append_inj' hread rfl
  exact ⟨hchars, (List.cons.inj hlast).1⟩

theorem Wrote.outside (h : Wrote before after text) {i : Nat} (hi : text.length ≤ i) :
    after.chars i = before.chars i := by
  rw [h.chars, List.getD_eq_default _ _ hi]

end StringBuffer

end Rodos
