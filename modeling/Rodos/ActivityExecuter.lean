import Rodos.NextBeat
import Rodos.TransitionSystem

namespace Rodos.ActivityExecuter

open EventPropagation MachineInt NextBeat ThreadSelection TransitionSystem

structure Activity where
  suspendedUntil : Int
  periode : Int
  priority : Int

/-- What a round of the executer gets from outside: the two readings of the clock, and the
`suspendedUntil` that the activity has after its step, if one is made. -/
structure Round where
  timeNow : Int
  stepUntil : Int
  timeAfter : Int
  ordered : timeNow ≤ timeAfter
  timeAfter_le : timeAfter ≤ endOfTime
  stepUntil_le : stepUntil ≤ endOfTime

structure Outcome (A : Type) where
  nextActivity : Option A
  suspended : Option Int
  activities : A → Activity

structure System (A : Type) where
  activities : A → Activity
  clock : Int

section Steps

variable {A : Type}

def visit (activities : A → Activity) (timeNow : Int) : Int × Option A → A → Int × Option A
  | (nextTime, nextActivity), iter =>
    let nextActivity :=
      if (activities iter).suspendedUntil ≤ timeNow then
        let candidate := nextActivity.getD iter
        if (activities iter).priority > (activities candidate).priority then some iter
        else some candidate
      else nextActivity
    (if (activities iter).suspendedUntil < nextTime then (activities iter).suspendedUntil
      else nextTime, nextActivity)

variable [DecidableEq A]

/-- The step of the activity that has been found, and its next beat. There is no result if the
computation overflows. -/
def stepActivity (activities : A → Activity) (r : Round) : Option A → Option (A → Activity)
  | none => some activities
  | some a => (computeNextBeat r.stepUntil (activities a).periode r.timeNow).map fun beat =>
    Function.update activities a { activities a with suspendedUntil := beat }

variable (activityList : List A)

def round (activities : A → Activity) (r : Round) : Option (Outcome A) :=
  let (nextTime, nextActivity) := activityList.foldl (visit activities r.timeNow) (endOfTime, none)
  (stepActivity activities r nextActivity).map fun stepped =>
    ⟨nextActivity, if nextTime > r.timeAfter then some nextTime else none, stepped⟩

/-- The clock does not go back. -/
def step (r : Round) (s : System A) : Option (System A) :=
  if s.clock ≤ r.timeNow then
    (round activityList s.activities r).map fun o => ⟨o.activities, r.timeAfter⟩
  else none

def InRange (activities : A → Activity) : Prop :=
  ∀ a ∈ activityList, (0 ≤ (activities a).suspendedUntil ∧ (activities a).suspendedUntil ≤ endOfTime) ∧
    0 ≤ (activities a).periode

def Start (s : System A) : Prop := InRange activityList s.activities

end Steps

section Purpose

variable {A : Type} (activityList : List A) (activities : A → Activity)

def Chosen (timeNow : Int) (a : A) : Prop :=
  a ∈ activityList ∧ (activities a).suspendedUntil ≤ timeNow ∧
    ∀ b ∈ activityList, (activities b).suspendedUntil ≤ timeNow →
      (activities b).priority ≤ (activities a).priority

def Earliest (time : Int) : Prop :=
  (∀ a ∈ activityList, time ≤ (activities a).suspendedUntil) ∧
    ((∃ a ∈ activityList, (activities a).suspendedUntil = time) ∨
      activityList = [] ∧ time = endOfTime)

structure Right (r : Round) (o : Outcome A) : Prop where
  chosen : ∀ a, o.nextActivity = some a → Chosen activityList activities r.timeNow a
  idle : o.nextActivity = none → ∀ a ∈ activityList, r.timeNow < (activities a).suspendedUntil
  suspended : ∀ time, o.suspended = some time ↔
    o.nextActivity = none ∧ Earliest activityList activities time ∧ r.timeAfter < time
  periodic : ∀ a, o.nextActivity = some a → 0 < (activities a).periode →
    r.stepUntil = (activities a).suspendedUntil →
    ∀ beat, IsLeast (beats ⟨(activities a).suspendedUntil, (activities a).periode⟩ r.timeNow) beat →
      beat ≤ endOfTime → (o.activities a).suspendedUntil = beat
  others : ∀ b, o.nextActivity ≠ some b → o.activities b = activities b

end Purpose

section Selection

variable {A : Type} {activities : A → Activity} {timeNow : Int} {front : List A}

structure Found (activities : A → Activity) (timeNow : Int) (front : List A)
    (found : Int × Option A) : Prop where
  bound : ∀ a ∈ front, found.1 ≤ (activities a).suspendedUntil
  time : found.1 = endOfTime ∨ ∃ a ∈ front, (activities a).suspendedUntil = found.1
  chosen : ∀ a, found.2 = some a → Chosen front activities timeNow a
  idle : found.2 = none → ∀ a ∈ front, timeNow < (activities a).suspendedUntil

theorem found_nil : Found activities timeNow [] (endOfTime, none) :=
  ⟨List.forall_mem_nil _, .inl rfl, nofun, fun _ => List.forall_mem_nil _⟩

theorem Chosen.keep {a iter : A} (h : Chosen front activities timeNow a)
    (hiter : (activities iter).suspendedUntil ≤ timeNow →
      (activities iter).priority ≤ (activities a).priority) :
    Chosen (front ++ [iter]) activities timeNow a := by
  obtain ⟨hmem, hdue, hmax⟩ := h
  refine ⟨List.mem_append_left _ hmem, hdue, ?_⟩
  rw [List.forall_mem_append, List.forall_mem_singleton]
  exact ⟨hmax, hiter⟩

theorem chosen_last {iter : A} (hdue : (activities iter).suspendedUntil ≤ timeNow)
    (hmax : ∀ b ∈ front, (activities b).suspendedUntil ≤ timeNow →
      (activities b).priority ≤ (activities iter).priority) :
    Chosen (front ++ [iter]) activities timeNow iter := by
  refine ⟨List.mem_append_right _ List.mem_cons_self, hdue, ?_⟩
  rw [List.forall_mem_append, List.forall_mem_singleton]
  exact ⟨hmax, fun _ => le_rfl⟩

theorem visit_time (found : Int × Option A) (iter : A) :
    (visit activities timeNow found iter).1 = min found.1 (activities iter).suspendedUntil := by
  show (if (activities iter).suspendedUntil < found.1 then _ else _) = _
  split <;> omega

theorem visit_due {found : Int × Option A} {iter : A}
    (hdue : (activities iter).suspendedUntil ≤ timeNow) :
    (visit activities timeNow found iter).2 =
      if (activities iter).priority > (activities (found.2.getD iter)).priority then some iter
      else some (found.2.getD iter) :=
  if_pos hdue

theorem visit_not_due {found : Int × Option A} {iter : A}
    (hnot : ¬ (activities iter).suspendedUntil ≤ timeNow) :
    (visit activities timeNow found iter).2 = found.2 :=
  if_neg hnot

theorem Found.chosen_visit {found : Int × Option A} (h : Found activities timeNow front found)
    {iter : A} (hdue : (activities iter).suspendedUntil ≤ timeNow) :
    ∃ a, (visit activities timeNow found iter).2 = some a ∧
      Chosen (front ++ [iter]) activities timeNow a := by
  rw [visit_due hdue]
  cases hfound : found.2 with
  | none =>
    refine ⟨iter, if_neg (lt_irrefl _), chosen_last hdue ?_⟩
    intro b hb hdue'
    exact absurd hdue' (Int.not_le.mpr (h.idle hfound b hb))
  | some c =>
    have hchosen := h.chosen c hfound
    rw [Option.getD_some]
    split
    · next hgt =>
      refine ⟨iter, rfl, chosen_last hdue ?_⟩
      exact fun b hb hdue' => (hchosen.2.2 b hb hdue').trans hgt.le
    · next hle => exact ⟨c, rfl, hchosen.keep fun _ => Int.not_lt.mp hle⟩

theorem Found.visit {found : Int × Option A} (h : Found activities timeNow front found) (iter : A) :
    Found activities timeNow (front ++ [iter]) (visit activities timeNow found iter) := by
  have hbound : ∀ a ∈ front ++ [iter], min found.1 (activities iter).suspendedUntil ≤
      (activities a).suspendedUntil := by
    rw [List.forall_mem_append, List.forall_mem_singleton]
    exact ⟨fun a ha => (min_le_left _ _).trans (h.bound a ha), min_le_right _ _⟩
  have htime : min found.1 (activities iter).suspendedUntil = endOfTime ∨
      ∃ a ∈ front ++ [iter], (activities a).suspendedUntil =
        min found.1 (activities iter).suspendedUntil := by
    obtain hle | hlt := le_or_gt found.1 (activities iter).suspendedUntil
    · rw [min_eq_left hle]
      obtain hend | ⟨a, ha, heq⟩ := h.time
      · exact .inl hend
      · exact .inr ⟨a, List.mem_append_left _ ha, heq⟩
    · rw [min_eq_right hlt.le]
      exact .inr ⟨iter, List.mem_append_right _ List.mem_cons_self, rfl⟩
  by_cases hdue : (activities iter).suspendedUntil ≤ timeNow
  · obtain ⟨a, ha, hchosen⟩ := h.chosen_visit hdue
    refine ⟨?_, ?_, ?_, ?_⟩
    · rwa [visit_time]
    · rwa [visit_time]
    · rw [ha]
      exact fun b hb => Option.some.inj hb ▸ hchosen
    · rw [ha]
      exact nofun
  · refine ⟨?_, ?_, ?_, ?_⟩
    · rwa [visit_time]
    · rwa [visit_time]
    · rw [visit_not_due hdue]
      exact fun a ha => (h.chosen a ha).keep fun h => absurd h hdue
    · rw [visit_not_due hdue]
      intro hnone
      rw [List.forall_mem_append, List.forall_mem_singleton]
      exact ⟨h.idle hnone, Int.not_le.mp hdue⟩

theorem Found.foldl (rest : List A) {found : Int × Option A}
    (h : Found activities timeNow front found) :
    Found activities timeNow (front ++ rest) (rest.foldl (ActivityExecuter.visit activities timeNow) found) := by
  induction rest generalizing front found with
  | nil =>
    rw [List.append_nil]
    exact h
  | cons iter rest ih =>
    have hnext := ih (h.visit iter)
    rw [List.append_assoc, List.singleton_append] at hnext
    exact hnext

theorem Found.earliest {found : Int × Option A} (h : Found activities timeNow front found)
    (hle : ∀ a ∈ front, (activities a).suspendedUntil ≤ endOfTime) :
    Earliest front activities found.1 := by
  refine ⟨h.bound, ?_⟩
  obtain hend | hattained := h.time
  · cases front with
    | nil => exact .inr ⟨rfl, hend⟩
    | cons a front =>
      refine .inl ⟨a, List.mem_cons_self, le_antisymm ?_ (h.bound a List.mem_cons_self)⟩
      rw [hend]
      exact hle a List.mem_cons_self
  · exact .inl hattained

theorem Earliest.unique {time time' : Int} (h : Earliest front activities time)
    (h' : Earliest front activities time') : time = time' := by
  obtain ⟨hbound, ⟨a, ha, rfl⟩ | ⟨rfl, rfl⟩⟩ := h
  · obtain ⟨hbound', ⟨b, hb, rfl⟩ | ⟨rfl, -⟩⟩ := h'
    · exact le_antisymm (hbound b hb) (hbound' a ha)
    · exact absurd ha List.not_mem_nil
  · obtain ⟨-, ⟨b, hb, -⟩ | ⟨-, rfl⟩⟩ := h'
    · exact absurd hb List.not_mem_nil
    · rfl

end Selection

section Rounds

variable {A : Type} [DecidableEq A] {activityList : List A} {activities : A → Activity} {r : Round}
  {o : Outcome A}

theorem round_cases (h : round activityList activities r = some o) :
    ∃ nextTime, Found activities r.timeNow activityList (nextTime, o.nextActivity) ∧
      o.suspended = (if nextTime > r.timeAfter then some nextTime else none) ∧
      stepActivity activities r o.nextActivity = some o.activities := by
  have hfound : Found activities r.timeNow activityList
      (activityList.foldl (visit activities r.timeNow) (endOfTime, none)) :=
    found_nil.foldl activityList
  rw [round] at h
  generalize activityList.foldl (visit activities r.timeNow) (endOfTime, none) = found at h hfound
  obtain ⟨nextTime, nextActivity⟩ := found
  obtain ⟨stepped, hstep, rfl⟩ := Option.map_eq_some_iff.mp h
  exact ⟨nextTime, hfound, rfl, hstep⟩

/-- Only the activity that makes its step gets another time, the one of its next beat. -/
theorem stepActivity_cases {next : Option A} {stepped : A → Activity}
    (h : stepActivity activities r next = some stepped) :
    (next = none ∧ stepped = activities) ∨
      ∃ a beat, next = some a ∧
        computeNextBeat r.stepUntil (activities a).periode r.timeNow = some beat ∧
        stepped = Function.update activities a { activities a with suspendedUntil := beat } := by
  cases next with
  | none => exact .inl ⟨rfl, (Option.some.inj h).symm⟩
  | some a =>
    obtain ⟨beat, hbeat, rfl⟩ := Option.map_eq_some_iff.mp h
    exact .inr ⟨a, beat, rfl, hbeat, rfl⟩

theorem inRange_round (hrange : InRange activityList activities)
    (h : round activityList activities r = some o) : InRange activityList o.activities := by
  obtain ⟨nextTime, -, -, hstep⟩ := round_cases h
  obtain ⟨-, heq⟩ | ⟨a, beat, -, hbeat, heq⟩ := stepActivity_cases hstep
  · rwa [heq]
  · have hnow := r.ordered.trans r.timeAfter_le
    rw [heq]
    intro b hb
    obtain rfl | hne := eq_or_ne b a
    · rw [Function.update_self]
      exact ⟨computeNextBeat_range r.stepUntil_le hnow hbeat, (hrange b hb).2⟩
    · rw [Function.update_of_ne hne]
      exact hrange b hb

omit [DecidableEq A] in
theorem beat_eq {a : A} {beat next : Int} (hrange : InRange activityList activities)
    (ha : Chosen activityList activities r.timeNow a) (hperiode : 0 < (activities a).periode)
    (hnext : computeNextBeat (activities a).suspendedUntil (activities a).periode r.timeNow = some next)
    (hleast : IsLeast (beats ⟨(activities a).suspendedUntil, (activities a).periode⟩ r.timeNow) beat)
    (hfits : beat ≤ endOfTime) : next = beat := by
  obtain ⟨hmem, hdue, -⟩ := ha
  obtain ⟨⟨hlow, -⟩, -⟩ := hrange a hmem
  have hbeat := hleast.unique (isLeast_nextBeat hdue hperiode)
  have hstep := period_le_nextBeat hdue hperiode
  rw [computeNextBeat_periodic hlow hdue (r.ordered.trans r.timeAfter_le) hperiode] at hnext
  split at hnext
  · next hlong =>
    rw [← Option.some.inj hnext]
    omega
  · rw [hbeat]
    exact (checked64_some hnext).1.symm

theorem round_right (hrange : InRange activityList activities)
    (h : round activityList activities r = some o) : Right activityList activities r o := by
  obtain ⟨nextTime, hfound, hsuspended, hstep⟩ := round_cases h
  have hearliest := hfound.earliest fun a ha => (hrange a ha).1.2
  refine ⟨hfound.chosen, hfound.idle, ?_, ?_, ?_⟩
  · intro time
    rw [hsuspended]
    constructor
    · intro htime
      obtain ⟨hlate, heq⟩ := Option.ite_none_right_eq_some.mp htime
      obtain rfl := Option.some.inj heq
      refine ⟨?_, hearliest, hlate⟩
      -- an activity that is due keeps `nextTime` from being later than the first reading
      cases hnext : o.nextActivity with
      | none => rfl
      | some a =>
        obtain ⟨hmem, hdue, -⟩ := hfound.chosen a hnext
        have hle := hfound.bound a hmem
        have hordered := r.ordered
        dsimp only at hle
        omega
    · rintro ⟨-, htime, hlate⟩
      rw [htime.unique hearliest] at hlate ⊢
      exact if_pos hlate
  · intro a ha hperiode huntil beat hleast hfits
    obtain ⟨hnone, -⟩ | ⟨b, next, hb, hnext, heq⟩ := stepActivity_cases hstep
    · rw [ha] at hnone
      cases hnone
    · obtain rfl : a = b := Option.some.inj (ha.symm.trans hb)
      rw [huntil] at hnext
      rw [heq, Function.update_self]
      exact beat_eq hrange (hfound.chosen a ha) hperiode hnext hleast hfits
  · intro b hb
    obtain ⟨-, heq⟩ | ⟨a, next, ha, -, heq⟩ := stepActivity_cases hstep
    · rw [heq]
    · rw [heq, Function.update_of_ne]
      rintro rfl
      exact hb ha

end Rounds

section Runs

variable {A : Type} [DecidableEq A] {activityList : List A} {s : System A}

theorem inRange_reachable (h : Reachable (Start activityList) (step activityList) s) :
    InRange activityList s.activities := by
  refine h.invariant (Start activityList) (fun _ hs => hs) ?_
  intro r s t hs _ hstep
  obtain ⟨-, hstep⟩ := Option.ite_none_right_eq_some.mp hstep
  obtain ⟨o, ho, rfl⟩ := Option.map_eq_some_iff.mp hstep
  exact inRange_round hs ho

/-- Every round of every run picks an activity that is due with the highest priority, waits
only if there is none, until the first is due, and gives a periodic activity its next beat. -/
theorem executer_right (h : Reachable (Start activityList) (step activityList) s) {r : Round}
    {o : Outcome A} (ho : round activityList s.activities r = some o) :
    Right activityList s.activities r o :=
  round_right (inRange_reachable h) ho

def periodic : System Unit := ⟨fun _ => ⟨0, 10, 100⟩, 0⟩

def late : Round where
  timeNow := 25
  stepUntil := 0
  timeAfter := 26
  ordered := by decide
  timeAfter_le := by decide
  stepUntil_le := by decide

theorem executer_right_periodic :
    ∃ o, round [()] periodic.activities late = some o ∧ (o.activities ()).suspendedUntil = 30 := by
  have hbeat : computeNextBeat late.stepUntil (periodic.activities ()).periode late.timeNow =
      some 30 := by
    decide +kernel
  have hstep : stepActivity periodic.activities late (some ()) =
      some (Function.update periodic.activities () ⟨30, 10, 100⟩) := by
    rw [stepActivity, hbeat]
    rfl
  have hround : round [()] periodic.activities late =
      some ⟨some (), none, Function.update periodic.activities () ⟨30, 10, 100⟩⟩ := by
    show (stepActivity periodic.activities late (some ())).map _ = _
    rw [hstep]
    rfl
  have hleast : IsLeast (beats ⟨0, 10⟩ 25) 30 :=
    isLeast_nextBeat (show (0 : Int) ≤ 25 by decide) (show (0 : Int) < 10 by decide)
  have hstart : Reachable (Start [()]) (step [()]) periodic := by
    apply ReachableUnder.start
    intro a _
    exact ⟨⟨le_rfl, show (0 : Int) ≤ endOfTime by decide⟩, show (0 : Int) ≤ 10 by decide⟩
  have hright := executer_right hstart hround
  exact ⟨_, hround, hright.periodic () rfl (show (0 : Int) < 10 by decide) rfl 30 hleast (by decide)⟩

end Runs

end Rodos.ActivityExecuter
