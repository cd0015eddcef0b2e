import Mathlib

namespace Rodos.Holders

variable {V R : Type} [DecidableEq V]

structure References (V R : Type) where
  live : Finset V
  value : V → Option R

namespace References

def construct (v : V) (x : Option R) (s : References V R) : References V R :=
  ⟨insert v s.live, Function.update s.value v x⟩

def assign (v : V) (x : Option R) (s : References V R) : References V R :=
  { s with value := Function.update s.value v x }

def destroy (v : V) (s : References V R) : References V R := { s with live := s.live.erase v }

variable [DecidableEq R]

def holders (s : References V R) (r : R) : Nat := (s.live.filter (fun v => s.value v = some r)).card

variable {s : References V R} {v : V}

theorem holders_construct (hv : v ∉ s.live) (x : Option R) (r : R) :
    (s.construct v x).holders r = s.holders r + if x = some r then 1 else 0 := by
  have hothers : s.live.filter (fun u => Function.update s.value v x u = some r) =
      s.live.filter (fun u => s.value u = some r) := by
    apply Finset.filter_congr
    intro u hu
    rw [Function.update_of_ne (ne_of_mem_of_not_mem hu hv)]
  rw [holders, construct]
  dsimp only
  have hself : Function.update s.value v x v = some r ↔ x = some r := by
    rw [Function.update_self]
  rw [Finset.filter_insert, hothers]
  by_cases hx : x = some r
  · rw [if_pos (hself.mpr hx), if_pos hx]
    exact Finset.card_insert_of_notMem fun hmem => hv (Finset.mem_of_mem_filter v hmem)
  · rw [if_neg (mt hself.mp hx), if_neg hx]
    rfl

theorem holders_destroy (hv : v ∈ s.live) (r : R) :
    (s.destroy v).holders r + (if s.value v = some r then 1 else 0) = s.holders r := by
  rw [← holders_construct (Finset.notMem_erase v s.live)]
  congr 1
  simp only [construct, destroy, Finset.insert_erase hv, Function.update_eq_self]

theorem holders_assign (hv : v ∈ s.live) (x : Option R) (r : R) :
    (s.assign v x).holders r = (s.destroy v).holders r + if x = some r then 1 else 0 := by
  rw [← holders_construct (Finset.notMem_erase v s.live)]
  congr 1
  simp only [construct, destroy, Finset.insert_erase hv, assign]

omit [DecidableEq V] in
theorem holders_pos_iff {r : R} : 0 < s.holders r ↔ ∃ v ∈ s.live, s.value v = some r := by
  rw [holders, Finset.card_pos]
  constructor
  · rintro ⟨v, hv⟩
    exact ⟨v, Finset.mem_filter.mp hv⟩
  · rintro ⟨v, hv⟩
    exact ⟨v, Finset.mem_filter.mpr hv⟩

omit [DecidableEq V] in
theorem holders_le (s : References V R) (r : R) : s.holders r ≤ s.live.card :=
  Finset.card_filter_le _ _

theorem holders_destroy_pos {u : V} {r : R} (hu : u ∈ s.live) (hvalue : s.value u = some r)
    (hne : u ≠ v) : 0 < (s.destroy v).holders r :=
  holders_pos_iff.mpr ⟨u, Finset.mem_erase.mpr ⟨hne, hu⟩, hvalue⟩

end References

end Rodos.Holders
