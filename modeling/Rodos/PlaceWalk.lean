import Mathlib

namespace Rodos.PlaceWalk

variable {S : Type}

/-- A call that looks at a place and, if it likes what is there, leaves the next
place to the call after it. -/
structure Walk (call : S → Bool × S) (place : S → Nat) (accepted : Nat → Prop)
    (advance : Nat → Nat) (bound : Nat) (Inv : S → Prop) : Prop where
  fst_iff : ∀ {s}, Inv s → ((call s).1 = true ↔ accepted (place s))
  inv : ∀ {s}, Inv s → accepted (place s) → Inv (call s).2
  next : ∀ {s}, Inv s → accepted (place s) → place (call s).2 = place s + advance (place s)
  bounded : ∀ {p}, accepted p → p + advance p ≤ bound

inductive Found (accepted : Nat → Prop) (advance : Nat → Nat) (start : Nat) : Nat → Prop
  | first : accepted start → Found accepted advance start start
  | next {p : Nat} : Found accepted advance start p → accepted (p + advance p) →
      Found accepted advance start (p + advance p)

def afterCalls (call : S → Bool × S) (s : S) : Nat → S
  | 0 => s
  | n + 1 => (call (afterCalls call s n)).2

theorem afterCalls_keeps {α : Type} {call : S → Bool × S} (f : S → α)
    (h : ∀ s, f (call s).2 = f s) (s : S) (n : Nat) : f (afterCalls call s n) = f s := by
  induction n with
  | zero => rfl
  | succ n ih => exact (h _).trans ih

/-- Calling until a call fails ends, and from each call that succeeds to the next
the index grows. -/
def Terminates (call : S → Bool × S) (index : S → Nat) (s : S) : Prop :=
  (∃ n, (call (afterCalls call s n)).1 = false) ∧
    ∀ n, (∀ k ≤ n + 1, (call (afterCalls call s k)).1 = true) →
      index (afterCalls call s (n + 1)) < index (afterCalls call s (n + 2))

namespace Walk

variable {call : S → Bool × S} {place : S → Nat} {accepted : Nat → Prop} {advance : Nat → Nat}
  {bound : Nat} {Inv : S → Prop} (w : Walk call place accepted advance bound Inv)
include w

variable {s : S} (hs : Inv s)
include hs

theorem inv_afterCalls {n : Nat} (h : ∀ k < n, (call (afterCalls call s k)).1 = true) :
    Inv (afterCalls call s n) := by
  induction n with
  | zero => exact hs
  | succ n ih =>
    have hinv := ih fun k hk => h k (by omega)
    exact w.inv hinv ((w.fst_iff hinv).mp (h n (by omega)))

theorem afterCalls_succ {n : Nat} (h : ∀ k ≤ n, (call (afterCalls call s k)).1 = true) :
    Inv (afterCalls call s (n + 1)) ∧
      place (afterCalls call s (n + 1)) =
        place (afterCalls call s n) + advance (place (afterCalls call s n)) := by
  have hinv := w.inv_afterCalls hs fun k hk => h k (Nat.le_of_lt hk)
  have haccepted := (w.fst_iff hinv).mp (h n le_rfl)
  exact ⟨w.inv hinv haccepted, w.next hinv haccepted⟩

theorem found_afterCalls {n : Nat} (h : ∀ k ≤ n, (call (afterCalls call s k)).1 = true) :
    Found accepted advance (place s) (place (afterCalls call s n)) := by
  induction n with
  | zero => exact .first ((w.fst_iff hs).mp (h 0 le_rfl))
  | succ n ih =>
    have hbefore : ∀ k ≤ n, (call (afterCalls call s k)).1 = true := fun k hk => h k (by omega)
    obtain ⟨hinv, hplace⟩ := w.afterCalls_succ hs hbefore
    have hlast := (w.fst_iff hinv).mp (h (n + 1) le_rfl)
    rw [hplace] at hlast ⊢
    exact .next (ih hbefore) hlast

theorem afterCalls_of_found {p : Nat} (h : Found accepted advance (place s) p) :
    ∃ n, place (afterCalls call s n) = p ∧ ∀ k ≤ n, (call (afterCalls call s k)).1 = true := by
  induction h with
  | first hstart =>
    refine ⟨0, rfl, fun k hk => ?_⟩
    obtain rfl : k = 0 := by omega
    exact (w.fst_iff hs).mpr hstart
  | @next p _ hnext ih =>
    obtain ⟨n, rfl, hcalls⟩ := ih
    obtain ⟨hinv, hplace⟩ := w.afterCalls_succ hs hcalls
    refine ⟨n + 1, hplace, fun k hk => ?_⟩
    obtain hle | rfl : k ≤ n ∨ k = n + 1 := by omega
    · exact hcalls k hle
    · exact (w.fst_iff hinv).mpr (hplace ▸ hnext)

/-- A call that succeeds without an advance succeeds for ever. -/
theorem stuck {n : Nat} (hcalls : ∀ k ≤ n, (call (afterCalls call s k)).1 = true)
    (hstuck : advance (place (afterCalls call s n)) = 0) (j : Nat) :
    place (afterCalls call s (n + j)) = place (afterCalls call s n) ∧
      ∀ k ≤ n + j, (call (afterCalls call s k)).1 = true := by
  induction j with
  | zero => exact ⟨rfl, hcalls⟩
  | succ j ih =>
    obtain ⟨hplace, hbefore⟩ := ih
    obtain ⟨hinv, hnext⟩ := w.afterCalls_succ hs hbefore
    rw [hplace, hstuck, Nat.add_zero] at hnext
    refine ⟨hnext, fun k hk => ?_⟩
    obtain hle | rfl : k ≤ n + j ∨ k = n + j + 1 := by omega
    · exact hbefore k hle
    · rw [w.fst_iff hinv, hnext]
      exact (w.fst_iff (w.inv_afterCalls hs fun k hk => hcalls k (Nat.le_of_lt hk))).mp
        (hcalls n le_rfl)

theorem increases_iff :
    (∀ n, (∀ k ≤ n + 1, (call (afterCalls call s k)).1 = true) →
      place (afterCalls call s n) < place (afterCalls call s (n + 1))) ↔
      ∀ p, Found accepted advance (place s) p → advance p ≠ 0 := by
  constructor
  · intro h p hp hstuck
    obtain ⟨n, rfl, hcalls⟩ := w.afterCalls_of_found hs hp
    obtain ⟨hplace, hmore⟩ := w.stuck hs hcalls hstuck 1
    exact absurd hplace (h n hmore).ne'
  · intro h n hcalls
    have hbefore : ∀ k ≤ n, (call (afterCalls call s k)).1 = true := fun k hk => hcalls k (by omega)
    rw [(w.afterCalls_succ hs hbefore).2]
    exact Nat.lt_add_of_pos_right (Nat.pos_of_ne_zero (h _ (w.found_afterCalls hs hbefore)))

theorem ends_iff :
    (∃ n, (call (afterCalls call s n)).1 = false) ↔
      ∀ p, Found accepted advance (place s) p → advance p ≠ 0 := by
  constructor
  · rintro ⟨n, hfalse⟩ p hp hstuck
    obtain ⟨k, rfl, hcalls⟩ := w.afterCalls_of_found hs hp
    obtain ⟨-, htrue⟩ := w.stuck hs hcalls hstuck n
    rw [htrue n (by omega)] at hfalse
    cases hfalse
  · intro h
    by_contra hforever
    have hcalls : ∀ n, (call (afterCalls call s n)).1 = true := by simpa using hforever
    have hgrows : ∀ n, n ≤ place (afterCalls call s n) := by
      intro n
      induction n with
      | zero => exact Nat.zero_le _
      | succ n ih =>
        have hlt := (w.increases_iff hs).mpr h n fun k _ => hcalls k
        omega
    have hinv := w.inv_afterCalls hs fun k (_ : k < bound + 1) => hcalls k
    have hlast := w.bounded ((w.fst_iff hinv).mp (hcalls _))
    have hlarge := hgrows (bound + 1)
    omega

/-- The index that a call leaves behind is the place it has looked at. -/
theorem terminates_iff {index : S → Nat} (hindex : ∀ s, index (call s).2 = place s) :
    Terminates call index s ↔ ∀ p, Found accepted advance (place s) p → advance p ≠ 0 := by
  rw [Terminates, w.ends_iff hs]
  refine and_iff_left_of_imp fun h n hcalls => ?_
  rw [afterCalls, hindex, afterCalls, hindex]
  exact (w.increases_iff hs).mpr h n hcalls

end Walk

end Rodos.PlaceWalk
