import Mathlib

namespace Rodos.LinkedSegment

variable {α : Type}

/-- The cells met from `start` to `stop` along the pointers. -/
def Segment (next : α → Option α) : Option α → List α → Option α → Prop
  | start, [], stop => start = stop
  | start, p :: ps, stop => start = some p ∧ Segment next (next p) ps stop

def traverse (next : α → Option α) : Nat → Option α → List α
  | 0, _ => []
  | _ + 1, none => []
  | fuel + 1, some p => p :: traverse next fuel (next p)

/-- Go on to the last cell, keeping the one before it. -/
def walkToLast (next : α → Option α) : Nat → Option α → α → Option (Option α × α)
  | 0, _, _ => none
  | fuel + 1, previous, p =>
    match next p with
    | none => some (previous, p)
    | some q => walkToLast next fuel (some p) q

variable {next : α → Option α} {start stop mid : Option α} {ps qs : List α}

theorem Segment.append (h1 : Segment next start ps mid) (h2 : Segment next mid qs stop) :
    Segment next start (ps ++ qs) stop := by
  induction ps generalizing start with
  | nil =>
    obtain rfl : start = mid := h1
    exact h2
  | cons p ps ih => exact ⟨h1.1, ih h1.2⟩

theorem Segment.split (h : Segment next start (ps ++ qs) stop) :
    ∃ mid, Segment next start ps mid ∧ Segment next mid qs stop := by
  induction ps generalizing start with
  | nil => exact ⟨start, rfl, h⟩
  | cons p ps ih =>
    obtain ⟨mid, h1, h2⟩ := ih h.2
    exact ⟨mid, ⟨h.1, h1⟩, h2⟩

theorem Segment.start_eq_head? (h : Segment next start ps none) : start = ps.head? := by
  cases ps with
  | nil => exact h
  | cons p ps => exact h.1

theorem Segment.frame {next' : α → Option α} (h : Segment next start ps stop)
    (heq : ∀ p ∈ ps, next' p = next p) : Segment next' start ps stop := by
  induction ps generalizing start with
  | nil => exact h
  | cons p ps ih =>
    refine ⟨h.1, ?_⟩
    rw [heq p List.mem_cons_self]
    exact ih h.2 (fun q hq => heq q (List.mem_cons_of_mem p hq))

theorem traverse_eq (h : Segment next start ps none) (fuel : Nat) (hf : ps.length ≤ fuel) :
    traverse next fuel start = ps := by
  induction ps generalizing start fuel with
  | nil =>
    obtain rfl : start = none := h
    cases fuel <;> rfl
  | cons p ps ih =>
    obtain ⟨rfl, h⟩ := h
    cases fuel with
    | zero => simp at hf
    | succ fuel =>
      rw [traverse, ih h fuel]
      exact Nat.le_of_succ_le_succ hf

theorem walkToLast_eq {p last : α} {fuel : Nat} (previous : Option α)
    (h : Segment next (some p) (qs ++ [last]) none) (hf : qs.length < fuel) :
    walkToLast next fuel previous p = some (qs.getLast?.or previous, last) := by
  induction fuel generalizing qs previous p with
  | zero => omega
  | succ fuel ih =>
    cases qs with
    | nil =>
      obtain ⟨h1, h2⟩ := h
      obtain rfl : p = last := Option.some.inj h1
      have hn : next p = none := h2
      simp [walkToLast, hn]
    | cons q qs =>
      obtain ⟨h1, h2⟩ := h
      obtain rfl : p = q := Option.some.inj h1
      obtain ⟨r, hr⟩ : ∃ r, next p = some r := by
        rw [h2.start_eq_head?]
        cases qs with
        | nil => exact ⟨last, rfl⟩
        | cons r qs => exact ⟨r, rfl⟩
      rw [hr] at h2
      have hlen : qs.length < fuel := Nat.lt_of_succ_lt_succ hf
      simp only [walkToLast, hr, ih (some p) h2 hlen, List.getLast?_cons]
      cases qs.getLast? <;> simp

section

variable [DecidableEq α]

theorem Segment.update_last {p : α} (h : Segment next start (ps ++ [p]) stop) (hp : p ∉ ps)
    (stop' : Option α) : Segment (Function.update next p stop') start (ps ++ [p]) stop' := by
  obtain ⟨mid, h1, h2⟩ := h.split
  refine Segment.append (h1.frame ?_) ⟨h2.1, ?_⟩
  · intro q hq
    apply Function.update_of_ne
    rintro rfl
    exact hp hq
  · simp [Segment]

theorem Segment.update_of_notMem {p : α} (h : Segment next start ps stop) (hp : p ∉ ps)
    (r : Option α) : Segment (Function.update next p r) start ps stop := by
  apply h.frame
  intro q hq
  apply Function.update_of_ne
  rintro rfl
  exact hp hq

end

end Rodos.LinkedSegment
