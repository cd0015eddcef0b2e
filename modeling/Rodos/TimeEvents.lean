import Rodos.MachineInt
import Rodos.ThreadSelection

namespace Rodos.TimeEvents

open MachineInt ThreadSelection

structure TimeEvent where
  eventAt : Int
  eventPeriod : Int

def computeNextBeat (begin period timeNow : Int) : Int :=
  if begin < 0 then endOfTime
  else if period < 0 then endOfTime
  else if timeNow < 0 then endOfTime
  else if begin > timeNow then begin
  else if period = 0 then endOfTime
  else if period ≥ endOfTime - begin then endOfTime
  else int64 (((timeNow - begin) / period + 1) * period + begin)

theorem computeNextBeat_le (begin period timeNow : Int) (hdue : begin < timeNow) :
    computeNextBeat begin period timeNow ≤ endOfTime := by
  rw [computeNextBeat]
  split_ifs
  · exact Int.le_refl _
  · exact Int.le_refl _
  · exact Int.le_refl _
  · omega
  · exact Int.le_refl _
  · exact Int.le_refl _
  · exact Int.le_sub_one_of_lt (int64_lt _)

variable {T : Type} [DecidableEq T]

/-- The events and the calls of `handle` that have been made. -/
structure State (T : Type) where
  events : T → TimeEvent
  handled : List T

def storeEventAt (s : State T) (iter : T) (time : Int) : State T :=
  { s with events := Function.update s.events iter { s.events iter with eventAt := time } }

def storeEventPeriod (s : State T) (iter : T) (period : Int) : State T :=
  { s with events := Function.update s.events iter { s.events iter with eventPeriod := period } }

section Propagate

variable (handle : T → (T → TimeEvent) → T → TimeEvent) (timeEventList : List T)

/-- The body of the loop of `propagate`. What the handlers do to the events is a
parameter. -/
def visit (timeNow : Int) (s : State T) (iter : T) : State T :=
  let iterEventAt := (s.events iter).eventAt
  if iterEventAt < timeNow then
    let iterEventPeriod := (s.events iter).eventPeriod
    let stored :=
      if iterEventPeriod = 0 then storeEventAt s iter endOfTime
      else
        let advanced := storeEventAt s iter (int64 (iterEventAt + iterEventPeriod))
        if iterEventAt < timeNow then
          storeEventAt advanced iter (computeNextBeat iterEventAt iterEventPeriod timeNow)
        else advanced
    { events := handle iter stored.events, handled := stored.handled ++ [iter] }
  else s

def propagate (s : State T) (timeNow : Int) : State T :=
  timeEventList.foldl (visit handle timeNow) s

/-- The interrupts between two stores, at these times. -/
def propagateAll (times : List Int) (s : State T) : State T :=
  times.foldl (propagate handle timeEventList) s

/-- `activateAt` with the interrupts between its stores and those after it. -/
def activateAt (events : T → TimeEvent) (iter : T) (time : Int) (between after : List Int) : State T :=
  let stored := propagateAll handle timeEventList between (storeEventAt ⟨events, []⟩ iter time)
  propagateAll handle timeEventList after (storeEventPeriod stored iter 0)

end Propagate

/-- There is no next beat after the first interrupt between the stores that comes after
the new time. -/
def NoNextBeat (time period : Int) (between : List Int) : Prop :=
  period = 0 ∨ ∀ timeNow, between.find? (time < ·) = some timeNow →
    computeNextBeat time period timeNow = endOfTime

section OneEvent

variable {handle : T → (T → TimeEvent) → T → TimeEvent} {timeEventList : List T} {iter : T}
  {s : State T} {timeNow : Int}

def fired (timeNow : Int) (e : TimeEvent) : TimeEvent :=
  { e with
    eventAt := if e.eventPeriod = 0 then endOfTime
      else computeNextBeat e.eventAt e.eventPeriod timeNow }

theorem storeEventAt_twice (s : State T) (u : T) (a b : Int) :
    storeEventAt (storeEventAt s u a) u b = storeEventAt s u b := by
  simp [storeEventAt]

/-- Only the last of the stores to an event counts. -/
theorem visit_due {u : T} (hdue : (s.events u).eventAt < timeNow) :
    visit handle timeNow s u =
      ⟨handle u (Function.update s.events u (fired timeNow (s.events u))), s.handled ++ [u]⟩ := by
  rw [visit, fired]
  dsimp only
  rw [if_pos hdue, if_pos hdue, storeEventAt_twice]
  by_cases honce : (s.events u).eventPeriod = 0
  · rw [if_pos honce, if_pos honce]
    rfl
  · rw [if_neg honce, if_neg honce]
    rfl

theorem visit_not_due {u : T} (hnot : ¬(s.events u).eventAt < timeNow) :
    visit handle timeNow s u = s :=
  if_neg hnot

/-- What the calls of `propagate` look like from one event: its fields and how often
its handler has been called. -/
def seen (iter : T) (s : State T) : TimeEvent × Nat := (s.events iter, s.handled.count iter)

def turn (timeNow : Int) (e : TimeEvent × Nat) : TimeEvent × Nat :=
  if e.1.eventAt < timeNow then (fired timeNow e.1, e.2 + 1) else e

def turns (times : List Int) (e : TimeEvent × Nat) : TimeEvent × Nat :=
  times.foldl (fun e timeNow => turn timeNow e) e

section Handler

variable (hhandle : ∀ u events, handle u events iter = events iter)
include hhandle

theorem seen_visit_self (s : State T) :
    seen iter (visit handle timeNow s iter) = turn timeNow (seen iter s) := by
  rw [turn]
  split
  · rename_i hdue
    rw [visit_due hdue, seen]
    dsimp only
    rw [hhandle, Function.update_self, List.count_append, List.count_singleton_self]
    rfl
  · rename_i hnot
    rw [visit_not_due hnot]

theorem seen_visit_of_ne {u : T} (hne : u ≠ iter) (s : State T) :
    seen iter (visit handle timeNow s u) = seen iter s := by
  by_cases hdue : (s.events u).eventAt < timeNow
  · rw [visit_due hdue, seen]
    dsimp only
    rw [hhandle, Function.update_of_ne hne.symm, List.count_append, List.count_singleton,
      if_neg (by simpa using hne)]
    rfl
  · rw [visit_not_due hdue]

theorem seen_foldl_of_notMem {l : List T} (hnot : iter ∉ l) (s : State T) :
    seen iter (l.foldl (visit handle timeNow) s) = seen iter s := by
  induction l generalizing s with
  | nil => rfl
  | cons u l ih =>
    rw [List.mem_cons, not_or] at hnot
    rw [List.foldl_cons, ih hnot.2, seen_visit_of_ne hhandle (Ne.symm hnot.1)]

variable (hlist : timeEventList.Nodup) (hmem : iter ∈ timeEventList)
include hlist hmem

theorem seen_propagate (s : State T) (timeNow : Int) :
    seen iter (propagate handle timeEventList s timeNow) = turn timeNow (seen iter s) := by
  obtain ⟨before, behind, rfl⟩ := List.append_of_mem hmem
  have hnot : iter ∉ before ++ behind :=
    (List.nodup_cons.mp (List.nodup_middle.mp hlist)).1
  rw [List.mem_append, not_or] at hnot
  rw [propagate, List.foldl_append, List.foldl_cons, seen_foldl_of_notMem hhandle hnot.2,
    seen_visit_self hhandle, seen_foldl_of_notMem hhandle hnot.1]

theorem seen_propagateAll (times : List Int) (s : State T) :
    seen iter (propagateAll handle timeEventList times s) =
      turns times (seen iter s) := by
  induction times generalizing s with
  | nil => rfl
  | cons timeNow times ih =>
    rw [propagateAll, List.foldl_cons, turns, List.foldl_cons, ← seen_propagate hhandle hlist hmem]
    exact ih _

end Handler

end OneEvent

section Turns

def Settled (e : TimeEvent × Nat) : Prop :=
  e.2 ≤ 1 ∧ e.1.eventAt = endOfTime ∨ e.2 = 0 ∧ e.1.eventPeriod = 0

def Repeats (e : TimeEvent × Nat) : Prop :=
  2 ≤ e.2 ∨ e.2 = 1 ∧ e.1.eventAt < endOfTime

variable {e : TimeEvent × Nat} {timeNow : Int} {times : List Int}

theorem Settled.turn (h : Settled e) (hnow : timeNow ≤ endOfTime) : Settled (turn timeNow e) := by
  rw [TimeEvents.turn]
  split
  · rename_i hdue
    obtain ⟨_, hat⟩ | ⟨hcount, hperiod⟩ := h
    · omega
    · refine .inl ⟨?_, if_pos hperiod⟩
      dsimp only
      omega
  · exact h

theorem Settled.turns (h : Settled e) (htimes : ∀ timeNow ∈ times, timeNow ≤ endOfTime) :
    Settled (turns times e) := by
  induction times generalizing e with
  | nil => exact h
  | cons timeNow times ih =>
    rw [List.forall_mem_cons] at htimes
    exact ih (h.turn htimes.1) htimes.2

theorem Settled.le (h : Settled e) : e.2 ≤ 1 := by
  obtain ⟨hcount, _⟩ | ⟨hcount, _⟩ := h
  · exact hcount
  · omega

theorem Repeats.turn (h : Repeats e) : Repeats (turn timeNow e) := by
  rw [TimeEvents.turn]
  split
  · left
    obtain hcount | ⟨hcount, _⟩ := h
    · exact Nat.le_succ_of_le hcount
    · dsimp only
      omega
  · exact h

theorem Repeats.turns (h : Repeats e) (times : List Int) : Repeats (turns times e) := by
  induction times generalizing e with
  | nil => exact h
  | cons timeNow times ih => exact ih h.turn

theorem Repeats.last (h : Repeats e) : 2 ≤ (TimeEvents.turn endOfTime e).2 := by
  rw [TimeEvents.turn]
  obtain hcount | ⟨hcount, hactive⟩ := h
  · split
    · exact Nat.le_succ_of_le hcount
    · exact hcount
  · rw [if_pos hactive, hcount]

theorem turn_not_due (hnot : ¬e.1.eventAt < timeNow) : turn timeNow e = e := if_neg hnot

theorem turn_due (hdue : e.1.eventAt < timeNow) : turn timeNow e = (fired timeNow e.1, e.2 + 1) :=
  if_pos hdue

theorem turns_not_due (hnone : times.find? (e.1.eventAt < ·) = none) : turns times e = e := by
  induction times with
  | nil => rfl
  | cons timeNow times ih =>
    rw [List.find?_cons] at hnone
    split at hnone
    · cases hnone
    · rename_i hnot
      rw [turns, List.foldl_cons, turn_not_due (of_decide_eq_false hnot)]
      exact ih hnone

theorem turns_due (hsome : times.find? (e.1.eventAt < ·) = some timeNow) :
    ∃ later, later ⊆ times ∧ turns times e = turns later (fired timeNow e.1, e.2 + 1) := by
  induction times with
  | nil => cases hsome
  | cons n times ih =>
    rw [List.find?_cons] at hsome
    split at hsome
    · rename_i hdue
      cases hsome
      refine ⟨times, List.subset_cons_self _ _, ?_⟩
      rw [turns, List.foldl_cons, turn_due (of_decide_eq_true hdue)]
      rfl
    · rename_i hnot
      obtain ⟨later, hsub, heq⟩ := ih hsome
      refine ⟨later, List.subset_cons_of_subset _ hsub, ?_⟩
      rw [← heq, turns, List.foldl_cons, turn_not_due (of_decide_eq_false hnot)]
      rfl

def interrupted (time period : Int) (between : List Int) : TimeEvent × Nat :=
  let e := turns between (⟨time, period⟩, 0)
  ({ e.1 with eventPeriod := 0 }, e.2)

variable {time period : Int} {between : List Int}

theorem settled_interrupted (hbetween : ∀ timeNow ∈ between, timeNow ≤ endOfTime)
    (hbeat : NoNextBeat time period between) : Settled (interrupted time period between) := by
  rw [interrupted]
  dsimp only
  cases hfind : between.find? (time < ·) with
  | none =>
    rw [turns_not_due hfind]
    exact .inr ⟨rfl, rfl⟩
  | some timeNow =>
    obtain ⟨later, hsub, heq⟩ := turns_due (e := (⟨time, period⟩, 0)) hfind
    rw [heq]
    have hfired : Settled (fired timeNow ⟨time, period⟩, 0 + 1) := by
      refine .inl ⟨Nat.le_refl 1, ?_⟩
      rw [fired]
      dsimp only
      split
      · rfl
      · exact hbeat.elim (fun hperiod => absurd hperiod ‹_›) (fun hnext => hnext timeNow hfind)
    obtain ⟨hcount, hat⟩ | ⟨hcount, hperiod⟩ := hfired.turns fun n hn => hbetween n (hsub hn)
    · exact .inl ⟨hcount, hat⟩
    · exact .inr ⟨hcount, rfl⟩

theorem repeats_interrupted (hbeat : ¬NoNextBeat time period between) :
    Repeats (interrupted time period between) := by
  rw [NoNextBeat] at hbeat
  push Not at hbeat
  obtain ⟨hperiod, timeNow, hfind, hnext⟩ := hbeat
  have hdue : time < timeNow := by simpa using List.find?_some hfind
  obtain ⟨later, _, heq⟩ := turns_due (e := (⟨time, period⟩, 0)) hfind
  have hfired : Repeats (fired timeNow ⟨time, period⟩, 0 + 1) := by
    refine .inr ⟨rfl, ?_⟩
    rw [fired]
    dsimp only
    rw [if_neg hperiod]
    exact lt_of_le_of_ne (computeNextBeat_le time period timeNow hdue) hnext
  have hlater := hfired.turns later
  rw [← heq] at hlater
  exact hlater

end Turns

section Result

variable {handle : T → (T → TimeEvent) → T → TimeEvent} {timeEventList : List T} {iter : T}

theorem seen_activateAt (hhandle : ∀ u events, handle u events iter = events iter)
    (hlist : timeEventList.Nodup) (hmem : iter ∈ timeEventList) (events : T → TimeEvent)
    (time : Int) (between after : List Int) :
    seen iter (activateAt handle timeEventList events iter time between after) =
      turns after (interrupted time (events iter).eventPeriod between) := by
  have hstore : seen iter (storeEventAt ⟨events, []⟩ iter time) =
      (⟨time, (events iter).eventPeriod⟩, 0) := by
    simp [seen, storeEventAt]
  have hsecond : ∀ s : State T, seen iter (storeEventPeriod s iter 0) =
      ({ (seen iter s).1 with eventPeriod := 0 }, (seen iter s).2) := fun s => by
    simp [seen, storeEventPeriod]
  rw [activateAt, seen_propagateAll hhandle hlist hmem, hsecond, seen_propagateAll hhandle hlist hmem, hstore]
  rfl

/-- The handler is called at most once, whenever the interrupts come after the second
store, if and only if those between the stores leave no next beat. -/
theorem activateAt_once_iff (hhandle : ∀ u events, handle u events iter = events iter)
    (hlist : timeEventList.Nodup) (hmem : iter ∈ timeEventList) (events : T → TimeEvent)
    (time : Int) {between : List Int} (hbetween : ∀ timeNow ∈ between, timeNow ≤ endOfTime) :
    (∀ after : List Int, (∀ timeNow ∈ after, timeNow ≤ endOfTime) →
      (activateAt handle timeEventList events iter time between after).handled.count iter ≤ 1) ↔
      NoNextBeat time (events iter).eventPeriod between := by
  have hcount : ∀ after,
      (activateAt handle timeEventList events iter time between after).handled.count iter =
        (turns after (interrupted time (events iter).eventPeriod between)).2 := fun after =>
    congrArg Prod.snd (seen_activateAt hhandle hlist hmem events time between after)
  simp only [hcount]
  constructor
  · intro honce
    by_contra hbeat
    have htwice := (repeats_interrupted hbeat).last
    have hle := honce [endOfTime] (by simp)
    change (turn endOfTime (interrupted _ _ _)).2 ≤ 1 at hle
    omega
  · intro hbeat after hafter
    exact ((settled_interrupted hbetween hbeat).turns hafter).le

end Result

/-- An event that was idle is handled between the stores. -/
theorem activateAt_once_iff_idle :
    (activateAt (fun _ events => events) [()] (fun _ => ⟨endOfTime, 0⟩) () 5 [6] [7]).handled.count ()
      ≤ 1 :=
  (activateAt_once_iff (fun _ _ => rfl) (List.nodup_singleton ()) (List.mem_singleton_self ())
    (fun _ => ⟨endOfTime, 0⟩) 5 (by decide)).mpr (.inl rfl) [7] (by decide)

/-- An event with a period of 10 is handled between the stores and once more at its next
beat. -/
theorem activateAt_twice_periodic :
    (activateAt (fun _ events => events) [()] (fun _ => ⟨20, 10⟩) () 5 [6] [16]).handled.count ()
      = 2 := by
  decide +kernel

end Rodos.TimeEvents
