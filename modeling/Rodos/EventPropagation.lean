import Rodos.TimeEvents

namespace Rodos.EventPropagation

open MachineInt ThreadSelection TimeEvents

/-- A call that a handler makes for its own event. -/
inductive Activation
  | activateAt (time : Int)
  | activatePeriodic (startAt period : Int)

def activate (e : TimeEvent) : Activation → TimeEvent
  | .activateAt time => { { e with eventAt := time } with eventPeriod := 0 }
  | .activatePeriodic startAt period =>
    { { e with eventPeriod := period } with eventAt := startAt }

def int64Max : Int := 2 ^ 63 - 1

variable {T : Type}

section

variable [DecidableEq T]

/-- Each handler runs at most once in a call of `propagate`, and makes these calls then. -/
def handleOwn (calls : T → List Activation) (iter : T) (events : T → TimeEvent) : T → TimeEvent :=
  Function.update events iter ((calls iter).foldl activate (events iter))

def countedVisit (handle : T → (T → TimeEvent) → T → TimeEvent) (timeNow : Int)
    (acc : State T × Nat) (iter : T) : State T × Nat :=
  (visit handle timeNow acc.1 iter,
    if (acc.1.events iter).eventAt < timeNow then acc.2 + 1 else acc.2)

def countedPropagate (handle : T → (T → TimeEvent) → T → TimeEvent) (timeEventList : List T)
    (s : State T) (timeNow : Int) : State T × Nat :=
  timeEventList.foldl (countedVisit handle timeNow) (s, 0)

end

def getNextTriggerTime (timeEventList : List T) (events : T → TimeEvent) : Int :=
  timeEventList.foldl
    (fun nextTriggerTime iter =>
      let currentEventTime := (events iter).eventAt
      if currentEventTime < nextTriggerTime then currentEventTime else nextTriggerTime)
    int64Max

def beats (e : TimeEvent) (timeNow : Int) : Set Int :=
  { beat | ∃ k : Nat, beat = e.eventAt + k * e.eventPeriod ∧ timeNow < beat }

/-- Times are not negative, and the next beat of an event that is due fits into an int64. -/
structure InRange (timeEventList : List T) (events : T → TimeEvent) (timeNow : Int) : Prop where
  timeNow_nonneg : 0 ≤ timeNow
  timeNow_le : timeNow ≤ endOfTime
  eventAt : ∀ u ∈ timeEventList, 0 ≤ (events u).eventAt
  eventPeriod : ∀ u ∈ timeEventList, 0 ≤ (events u).eventPeriod
  nextBeat : ∀ u ∈ timeEventList, (events u).eventAt < timeNow → (events u).eventPeriod ≠ 0 →
    ∃ beat ∈ beats (events u) timeNow, beat ≤ endOfTime

structure Propagated [DecidableEq T] (calls : T → List Activation) (timeEventList : List T)
    (events : T → TimeEvent) (timeNow : Int) (r : State T × Nat) : Prop where
  once : ∀ u ∈ timeEventList, (events u).eventAt < timeNow → r.1.handled.count u = 1
  noOther : ∀ u ∈ r.1.handled, u ∈ timeEventList ∧ (events u).eventAt < timeNow
  count : r.2 = timeEventList.countP fun u => (events u).eventAt < timeNow
  unchanged : ∀ u, u ∉ timeEventList ∨ ¬(events u).eventAt < timeNow → r.1.events u = events u
  oneShot : ∀ u ∈ timeEventList, (events u).eventAt < timeNow → calls u = [] →
    (events u).eventPeriod = 0 → r.1.events u = ⟨endOfTime, 0⟩
  periodic : ∀ u ∈ timeEventList, (events u).eventAt < timeNow → calls u = [] →
    (events u).eventPeriod ≠ 0 → (r.1.events u).eventPeriod = (events u).eventPeriod ∧
      IsLeast (beats (events u) timeNow) (r.1.events u).eventAt
  reactivated : ∀ u ∈ timeEventList, (events u).eventAt < timeNow → ∀ earlier last,
    calls u = earlier ++ [last] → ∀ e, r.1.events u = activate e last
  nextTrigger : (∀ u ∈ timeEventList, (events u).eventAt < timeNow → ∀ last ∈ (calls u).getLast?,
    ∀ e, timeNow ≤ (activate e last).eventAt) →
      timeNow ≤ getNextTriggerTime timeEventList r.1.events

section Beats

variable {e : TimeEvent} {timeNow : Int}

/-- The closed formula of the source. -/
theorem isLeast_beats (hdue : e.eventAt ≤ timeNow) (hperiod : 0 < e.eventPeriod) :
    IsLeast (beats e timeNow)
      (((timeNow - e.eventAt) / e.eventPeriod + 1) * e.eventPeriod + e.eventAt) := by
  have hquot : 0 ≤ (timeNow - e.eventAt) / e.eventPeriod :=
    Int.ediv_nonneg (by omega) hperiod.le
  have hlater := Int.lt_ediv_add_one_mul_self (timeNow - e.eventAt) hperiod
  constructor
  · refine ⟨((timeNow - e.eventAt) / e.eventPeriod + 1).toNat, ?_, by omega⟩
    rw [Int.toNat_of_nonneg (by omega)]
    omega
  · rintro beat ⟨k, rfl, hk⟩
    have hlt : (timeNow - e.eventAt) / e.eventPeriod < k :=
      Int.ediv_lt_of_lt_mul hperiod (by omega)
    have hle := Int.mul_le_mul_of_nonneg_right (Int.add_one_le_of_lt hlt) hperiod.le
    omega

theorem computeNextBeat_least (hat : 0 ≤ e.eventAt) (hperiod : 0 < e.eventPeriod)
    (hdue : e.eventAt < timeNow) (hfits : ∃ beat ∈ beats e timeNow, beat ≤ endOfTime) :
    IsLeast (beats e timeNow) (computeNextBeat e.eventAt e.eventPeriod timeNow) := by
  have hleast := isLeast_beats hdue.le hperiod
  obtain ⟨beat, hbeat, hle⟩ := hfits
  have hnext := (hleast.2 hbeat).trans hle
  have hquot : 0 ≤ (timeNow - e.eventAt) / e.eventPeriod :=
    Int.ediv_nonneg (by omega) hperiod.le
  have hfirst : 1 * e.eventPeriod ≤ ((timeNow - e.eventAt) / e.eventPeriod + 1) * e.eventPeriod :=
    Int.mul_le_mul_of_nonneg_right (by omega) hperiod.le
  rw [computeNextBeat]
  rw [if_neg (by omega), if_neg (by omega), if_neg (by omega), if_neg (by omega),
    if_neg (by omega)]
  split
  · rename_i hlast
    -- the first beat is the end of time itself
    convert hleast using 1
    omega
  · rw [int64_eq (by omega) (by unfold endOfTime at hnext; omega)]
    exact hleast

end Beats

section Loop

variable {calls : T → List Activation} {timeNow : Int} {s : State T} {l : List T} {u v : T}

def settled (calls : T → List Activation) (timeNow : Int) (events : T → TimeEvent) (u : T) :
    TimeEvent :=
  if (events u).eventAt < timeNow then (calls u).foldl activate (fired timeNow (events u))
  else events u

theorem le_foldl_earliest (events : T → TimeEvent) {first bound : Int} (hfirst : bound ≤ first)
    (h : ∀ u ∈ l, bound ≤ (events u).eventAt) :
    bound ≤ l.foldl (fun nextTriggerTime iter =>
      if (events iter).eventAt < nextTriggerTime then (events iter).eventAt else nextTriggerTime)
      first := by
  induction l generalizing first with
  | nil => exact hfirst
  | cons u l ih =>
    rw [List.forall_mem_cons] at h
    refine ih ?_ h.2
    dsimp only
    split
    · exact h.1
    · exact hfirst

variable [DecidableEq T]

theorem visit_events_self (s : State T) :
    (visit (handleOwn calls) timeNow s u).events u = settled calls timeNow s.events u := by
  rw [settled]
  split
  · rename_i hdue
    rw [visit_due hdue]
    simp [handleOwn]
  · rename_i hnot
    rw [visit_not_due hnot]

theorem visit_events_of_ne (hne : v ≠ u) (s : State T) :
    (visit (handleOwn calls) timeNow s u).events v = s.events v := by
  by_cases hdue : (s.events u).eventAt < timeNow
  · rw [visit_due hdue]
    simp [handleOwn, hne]
  · rw [visit_not_due hdue]

theorem visit_handled (s : State T) :
    (visit (handleOwn calls) timeNow s u).handled =
      s.handled ++ if (s.events u).eventAt < timeNow then [u] else [] := by
  split
  · rename_i hdue
    rw [visit_due hdue]
  · rename_i hnot
    rw [visit_not_due hnot, List.append_nil]

theorem foldl_events_of_notMem (hnot : u ∉ l) (s : State T) :
    (l.foldl (visit (handleOwn calls) timeNow) s).events u = s.events u := by
  induction l generalizing s with
  | nil => rfl
  | cons v l ih =>
    rw [List.mem_cons, not_or] at hnot
    rw [List.foldl_cons, ih hnot.2, visit_events_of_ne hnot.1]

theorem foldl_events (hlist : l.Nodup) (hu : u ∈ l) (s : State T) :
    (l.foldl (visit (handleOwn calls) timeNow) s).events u = settled calls timeNow s.events u := by
  induction l generalizing s with
  | nil => cases hu
  | cons v l ih =>
    rw [List.nodup_cons] at hlist
    rw [List.foldl_cons]
    by_cases heq : u = v
    · subst heq
      rw [foldl_events_of_notMem hlist.1, visit_events_self]
    · rw [ih hlist.2 ((List.mem_cons.mp hu).resolve_left heq)]
      unfold settled
      rw [visit_events_of_ne heq]

theorem foldl_handled (hlist : l.Nodup) (s : State T) :
    (l.foldl (visit (handleOwn calls) timeNow) s).handled =
      s.handled ++ l.filter fun u => (s.events u).eventAt < timeNow := by
  induction l generalizing s with
  | nil => simp
  | cons v l ih =>
    rw [List.nodup_cons] at hlist
    have hsame : (l.filter fun u =>
        ((visit (handleOwn calls) timeNow s v).events u).eventAt < timeNow) =
        l.filter fun u => (s.events u).eventAt < timeNow := by
      refine List.filter_congr fun u hu => ?_
      have hne : u ≠ v := fun heq => hlist.1 (heq ▸ hu)
      rw [visit_events_of_ne hne]
    rw [List.foldl_cons, ih hlist.2, hsame, visit_handled, List.append_assoc, List.filter_cons]
    by_cases hdue : (s.events v).eventAt < timeNow
    · simp [hdue]
    · simp [hdue]

theorem foldl_counted (l : List T) (s : State T) (cnt : Nat) :
    l.foldl (countedVisit (handleOwn calls) timeNow) (s, cnt) =
      (l.foldl (visit (handleOwn calls) timeNow) s, cnt +
        ((l.foldl (visit (handleOwn calls) timeNow) s).handled.length - s.handled.length)) ∧
      s.handled.length ≤ (l.foldl (visit (handleOwn calls) timeNow) s).handled.length := by
  induction l generalizing s cnt with
  | nil => simp
  | cons v l ih =>
    have hlength : (visit (handleOwn calls) timeNow s v).handled.length =
        s.handled.length + if (s.events v).eventAt < timeNow then 1 else 0 := by
      rw [visit_handled, List.length_append]
      split <;> rfl
    obtain ⟨heq, hle⟩ := ih (visit (handleOwn calls) timeNow s v)
      (if (s.events v).eventAt < timeNow then cnt + 1 else cnt)
    rw [List.foldl_cons, List.foldl_cons, countedVisit]
    refine ⟨heq.trans ?_, by omega⟩
    congr 1
    split at hlength
    · rename_i hdue
      rw [if_pos hdue]
      omega
    · rename_i hnot
      rw [if_neg hnot]
      omega

end Loop

theorem activate_eq (e e' : TimeEvent) (a : Activation) : activate e a = activate e' a := by
  cases a <;> rfl

section Result

variable {calls : T → List Activation} {timeEventList : List T} {events : T → TimeEvent}
  {timeNow : Int} {u : T}

theorem settled_once (hdue : (events u).eventAt < timeNow) (hcalls : calls u = [])
    (hperiod : (events u).eventPeriod = 0) : settled calls timeNow events u = ⟨endOfTime, 0⟩ := by
  rw [settled, if_pos hdue, hcalls, List.foldl_nil, fired, if_pos hperiod, hperiod]

theorem settled_periodic (h : InRange timeEventList events timeNow) (hu : u ∈ timeEventList)
    (hdue : (events u).eventAt < timeNow) (hcalls : calls u = [])
    (hperiod : (events u).eventPeriod ≠ 0) :
    (settled calls timeNow events u).eventPeriod = (events u).eventPeriod ∧
      IsLeast (beats (events u) timeNow) (settled calls timeNow events u).eventAt := by
  have hnonneg := h.eventPeriod u hu
  rw [settled, if_pos hdue, hcalls, List.foldl_nil, fired, if_neg hperiod]
  exact ⟨rfl, computeNextBeat_least (h.eventAt u hu) (by omega) hdue (h.nextBeat u hu hdue hperiod)⟩

theorem settled_reactivated (hdue : (events u).eventAt < timeNow) {earlier : List Activation}
    {last : Activation} (hcalls : calls u = earlier ++ [last]) (e : TimeEvent) :
    settled calls timeNow events u = activate e last := by
  rw [settled, if_pos hdue, hcalls, List.foldl_append, List.foldl_cons, List.foldl_nil]
  exact activate_eq _ _ _

theorem le_settled (h : InRange timeEventList events timeNow) (hu : u ∈ timeEventList)
    (hcalls : (events u).eventAt < timeNow → ∀ last ∈ (calls u).getLast?,
      ∀ e, timeNow ≤ (activate e last).eventAt) :
    timeNow ≤ (settled calls timeNow events u).eventAt := by
  by_cases hdue : (events u).eventAt < timeNow
  · obtain hnone | ⟨earlier, last, hlast⟩ := (calls u).eq_nil_or_concat'
    · by_cases hperiod : (events u).eventPeriod = 0
      · rw [settled_once hdue hnone hperiod]
        exact h.timeNow_le
      · obtain ⟨k, _, hlater⟩ := (settled_periodic h hu hdue hnone hperiod).2.1
        exact hlater.le
    · rw [settled_reactivated hdue hlast (events u)]
      refine hcalls hdue last ?_ (events u)
      rw [hlast, List.getLast?_concat]
      rfl
  · rw [settled, if_neg hdue]
    omega

/-- One call of `propagate`, whatever the handlers do to their own events. -/
theorem propagate_exact [DecidableEq T] (hlist : timeEventList.Nodup)
    (h : InRange timeEventList events timeNow) :
    Propagated calls timeEventList events timeNow
      (countedPropagate (handleOwn calls) timeEventList ⟨events, []⟩ timeNow) := by
  have hcounted := (@foldl_counted _ calls timeNow _ timeEventList ⟨events, []⟩ 0).1
  have hhandled := @foldl_handled _ calls timeNow _ _ hlist ⟨events, []⟩
  have hevents : ∀ u ∈ timeEventList, _ = settled calls timeNow events u := fun u hu =>
    @foldl_events _ calls timeNow _ u _ hlist hu ⟨events, []⟩
  rw [List.nil_append] at hhandled
  rw [countedPropagate, hcounted]
  constructor
  · intro u hu hdue
    dsimp only
    rw [hhandled]
    exact List.count_eq_one_of_mem (hlist.filter _) (List.mem_filter.mpr ⟨hu, by simpa using hdue⟩)
  · intro u hu
    dsimp only at hu
    rw [hhandled, List.mem_filter] at hu
    simpa using hu
  · dsimp only
    rw [hhandled, List.countP_eq_length_filter, List.length_nil, Nat.sub_zero, Nat.zero_add]
  · rintro u (hnot | hnot)
    · exact foldl_events_of_notMem hnot _
    · by_cases hu : u ∈ timeEventList
      · exact (hevents u hu).trans (if_neg hnot)
      · exact foldl_events_of_notMem hu _
  · intro u hu hdue hcalls hperiod
    exact (hevents u hu).trans (settled_once hdue hcalls hperiod)
  · intro u hu hdue hcalls hperiod
    dsimp only
    rw [hevents u hu]
    exact settled_periodic h hu hdue hcalls hperiod
  · intro u hu hdue earlier last hcalls e
    exact (hevents u hu).trans (settled_reactivated hdue hcalls e)
  · intro hcalls
    refine le_foldl_earliest _ h.timeNow_le fun u hu => ?_
    dsimp only
    rw [hevents u hu]
    exact le_settled h hu (hcalls u hu)

end Result

/-- One event is activated again by its handler, one has a period, one is not due. -/
def threeEvents : Nat → TimeEvent
  | 0 => ⟨5, 0⟩
  | 1 => ⟨3, 4⟩
  | _ => ⟨20, 0⟩

def threeCalls : Nat → List Activation
  | 0 => [.activateAt 30]
  | _ => []

theorem propagate_exact_three :
    (countedPropagate (handleOwn threeCalls) [0, 1, 2] ⟨threeEvents, []⟩ 10).2 = 2 ∧
      Propagated threeCalls [0, 1, 2] threeEvents 10
        (countedPropagate (handleOwn threeCalls) [0, 1, 2] ⟨threeEvents, []⟩ 10) := by
  refine ⟨by decide +kernel,
    propagate_exact (by decide) ⟨by decide, by decide, by decide, by decide, ?_⟩⟩
  intro u hu hdue hperiod
  obtain rfl : u = 1 := by
    revert u
    decide
  exact ⟨11, ⟨2, by decide, by decide⟩, by decide⟩

end Rodos.EventPropagation
