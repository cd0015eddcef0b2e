import Mathlib

namespace Rodos.TransitionSystem

variable {S E : Type}

/-- The states a partial step function reaches from an initial state when
every step taken meets the condition `ok` in the state before it. -/
inductive ReachableUnder (init : S → Prop) (step : E → S → Option S) (ok : E → S → Prop) : S → Prop
  | start {s : S} : init s → ReachableUnder init step ok s
  | step {e : E} {s t : S} : ReachableUnder init step ok s → ok e s → step e s = some t →
      ReachableUnder init step ok t

def Reachable (init : S → Prop) (step : E → S → Option S) : S → Prop :=
  ReachableUnder init step (fun _ _ => True)

/-- Execute a list of events, stopping with `none` at an event that is not
enabled or whose condition fails. -/
def run (step : E → S → Option S) (ok : E → S → Prop) [∀ e s, Decidable (ok e s)] :
    List E → S → Option S
  | [], s => some s
  | e :: es, s => if ok e s then (step e s).bind (run step ok es) else none

variable {init : S → Prop} {step : E → S → Option S} {ok : E → S → Prop}

theorem ReachableUnder.invariant (Inv : S → Prop) (hinit : ∀ s, init s → Inv s)
    (hstep : ∀ e s t, Inv s → ok e s → step e s = some t → Inv t)
    {s : S} (h : ReachableUnder init step ok s) : Inv s := by
  induction h with
  | start hs => exact hinit _ hs
  | step _ hok hs ih => exact hstep _ _ _ ih hok hs

/-- An invariant may be proved step by step with the help of another fact
that is already known of every reachable state. -/
theorem ReachableUnder.invariant_with (Inv : S → Prop) (hinit : ∀ s, init s → Inv s)
    (hstep : ∀ e s t, ReachableUnder init step ok s → Inv s → ok e s → step e s = some t → Inv t)
    {s : S} (h : ReachableUnder init step ok s) : Inv s := by
  induction h with
  | start hs => exact hinit _ hs
  | step hr hok hs ih => exact hstep _ _ _ hr ih hok hs

/-- Runs are matched step by step in another system. -/
theorem ReachableUnder.simulation {S' : Type} {init' : S' → Prop} {step' : E → S' → Option S'}
    {ok' : E → S' → Prop} (R : S → S' → Prop) (hinit : ∀ s, init s → ∃ s', init' s' ∧ R s s')
    (hstep : ∀ e s t s', R s s' → ok e s → step e s = some t →
      ∃ t', ok' e s' ∧ step' e s' = some t' ∧ R t t')
    {s : S} (h : ReachableUnder init step ok s) : ∃ s', ReachableUnder init' step' ok' s' ∧ R s s' := by
  induction h with
  | start hs =>
    obtain ⟨s', hs', hr⟩ := hinit _ hs
    exact ⟨s', .start hs', hr⟩
  | step _ hok hs ih =>
    obtain ⟨s', hs', hr⟩ := ih
    obtain ⟨t', hok', ht', hr'⟩ := hstep _ _ _ _ hr hok hs
    exact ⟨t', .step hs' hok' ht', hr'⟩

theorem ReachableUnder.run [∀ e s, Decidable (ok e s)] {s : S}
    (h : ReachableUnder init step ok s) (es : List E) {t : S}
    (hrun : run step ok es s = some t) : ReachableUnder init step ok t := by
  induction es generalizing s with
  | nil =>
    cases hrun
    exact h
  | cons e es ih =>
    rw [TransitionSystem.run] at hrun
    split at hrun
    · rename_i hok
      obtain ⟨u, hu, ht⟩ := Option.bind_eq_some_iff.mp hrun
      exact ih (.step h hok hu) ht
    · cases hrun

/-- A run that can be executed reaches a state with any decidable property
that its result is seen to have. -/
theorem ReachableUnder.exists_run [∀ e s, Decidable (ok e s)] {s : S}
    (hs : ReachableUnder init step ok s) (es : List E) (P : S → Prop) [DecidablePred P]
    (h : (TransitionSystem.run step ok es s).any (fun t => decide (P t)) = true) :
    ∃ t, ReachableUnder init step ok t ∧ P t := by
  obtain ⟨t, ht, hp⟩ := (Option.any_eq_true _ _).mp h
  exact ⟨t, hs.run es ht, of_decide_eq_true hp⟩

theorem exists_reachable (init : S → Prop) (step : E → S → Option S) (ok : E → S → Prop)
    [∀ e s, Decidable (ok e s)] (s : S) (hs : init s) (es : List E) (P : S → Prop)
    [DecidablePred P]
    (h : (TransitionSystem.run step ok es s).any (fun t => decide (P t)) = true) :
    ∃ t, ReachableUnder init step ok t ∧ P t :=
  ReachableUnder.exists_run (.start hs) es P h

theorem exists_of_rel_some {S' : Type} {R : S → S' → Prop} {s : S} {x : Option S'}
    (h : Option.Rel R (some s) x) : ∃ s', x = some s' ∧ R s s' := by
  cases h with
  | some h => exact ⟨_, rfl, h⟩

theorem exists_of_rel_some_right {S' : Type} {R : S → S' → Prop} {s' : S'} {x : Option S}
    (h : Option.Rel R x (some s')) : ∃ s, x = some s ∧ R s s' := by
  cases h with
  | some h => exact ⟨_, rfl, h⟩

/-- However the run goes on, with steps that meet the condition `ok`, it does
not stop before it comes to a state with the property `P`. -/
inductive Inevitable (step : E → S → Option S) (ok : E → Prop) (P : S → Prop) : S → Prop
  | now {s : S} : P s → Inevitable step ok P s
  | later {s : S} : (∃ e t, ok e ∧ step e s = some t) →
      (∀ e t, ok e → step e s = some t → Inevitable step ok P t) → Inevitable step ok P s

section Records

variable {A : Type} {l : List A} {last : A}

/-- A run adds what it records at the end of a list. -/
theorem forall_mem_record {P : A → Prop} (h : ∀ r ∈ l, P r) (hlast : P last) :
    ∀ r ∈ l ++ [last], P r := by
  rw [List.forall_mem_append, List.forall_mem_singleton]
  exact ⟨h, hlast⟩

/-- The moments of the records are in order if no record is later than the last one. -/
theorem pairwise_record {moment : A → Nat} (h : (l.map moment).Pairwise (· ≤ ·))
    (hlast : ∀ r ∈ l, moment r ≤ moment last) :
    ((l ++ [last]).map moment).Pairwise (· ≤ ·) := by
  rw [List.pairwise_map] at h ⊢
  rw [List.pairwise_append]
  refine ⟨h, List.pairwise_singleton _ _, fun r hr r' hr' => ?_⟩
  rw [List.mem_singleton.mp hr']
  exact hlast r hr

/-- What grows with the moments is in order too. -/
theorem pairwise_value {moment : A → Nat} {value : A → Int} (h : (l.map moment).Pairwise (· ≤ ·))
    (hvalue : ∀ r ∈ l, ∀ r' ∈ l, moment r ≤ moment r' → value r ≤ value r') :
    (l.map value).Pairwise (· ≤ ·) := by
  rw [List.pairwise_map] at h ⊢
  exact h.imp_of_mem fun hr hr' hle => hvalue _ hr _ hr' hle

end Records

section

variable {fair : E → Prop} {P : S → Prop}

/-- A quantity that decreases until the property holds. -/
theorem Inevitable.of_decreasing (Inv : S → Prop) (size : S → Nat)
    (hlive : ∀ s, Inv s → ∃ e t, fair e ∧ step e s = some t)
    (hstep : ∀ e s t, Inv s → fair e → step e s = some t → P t ∨ (Inv t ∧ size t < size s))
    {s : S} (h : Inv s) : Inevitable step fair P s := by
  induction hn : size s using Nat.strongRecOn generalizing s with
  | ind n ih =>
    refine .later (hlive s h) ?_
    intro e t he ht
    obtain hp | ⟨hi, hlt⟩ := hstep e s t h he ht
    · exact .now hp
    · exact ih (size t) (hn ▸ hlt) hi rfl

/-- What is inevitable in one of two systems that match each other step by
step is so in the other. -/
theorem Inevitable.transfer {S' : Type} {step' : E → S' → Option S'} {P' : S' → Prop}
    (R : S' → S → Prop) (hP : ∀ s' s, R s' s → P s → P' s')
    (hstep : ∀ e s' s, R s' s → Option.Rel R (step' e s') (step e s))
    {s : S} (h : Inevitable step fair P s) {s' : S'} (hr : R s' s) :
    Inevitable step' fair P' s' := by
  induction h generalizing s' with
  | now hp => exact .now (hP _ _ hr hp)
  | later hlive _ ih =>
    refine .later ?_ ?_
    · obtain ⟨e, t, he, ht⟩ := hlive
      have hrel := hstep e _ _ hr
      rw [ht] at hrel
      obtain ⟨t', ht', _⟩ := exists_of_rel_some_right hrel
      exact ⟨e, t', he, ht'⟩
    · intro e t' he ht'
      have hrel := hstep e _ _ hr
      rw [ht'] at hrel
      obtain ⟨t, ht, hr'⟩ := exists_of_rel_some hrel
      exact ih e t he ht hr'

end

end Rodos.TransitionSystem
