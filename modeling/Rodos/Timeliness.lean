import Rodos.RoundRobin
import Rodos.TickProgramming
import Rodos.TransitionSystem

namespace Rodos.Timeliness

open MachineInt ThreadSelection RoundRobin TimeEvents EventPropagation TickProgramming
open TransitionSystem

variable {T U G : Type}

/-- The scheduler, the time events and the timer, which fires at `trigger`. The idle thread
keeps its `reactivationTime` while it sleeps. When an event was stored last, whether a call of
`schedulerWrapper` has seen it since then, and when the scheduler was called last, is not read
by any step. -/
structure Kernel (T U G : Type) where
  scheduler : Scheduler T G
  currentThread : T
  events : U → TimeEvent
  now : Int
  trigger : Int
  asleep : Option Int
  storedAt : U → Int
  unseen : U → Bool
  scheduledAt : Int

/-- The readings of the clock in a call of `schedulerWrapper` and what else is up to the rest of
the system: the handlers, whether one of them resumes a thread, and the threads. -/
structure Call (T U G : Type) extends Round T G where
  handle : U → (U → TimeEvent) → U → TimeEvent
  resumes : Bool
  propagateAt : Int
  checkAt : Int
  programAt : Int

inductive Event (T U G : Type)
  | pass (time : Int)
  | schedulerWrapper (c : Call T U G)
  | timeToTryAgain
  | threads (r : Round T G)
  | preselect (t : T) (selectedEarliestSuspendedUntil : Int)
  | store (u : U) (e : TimeEvent)
  | sleep (timeNow : Int)
  | wakeUp (timeNow : Int)

def timeWakeupFromSleep : Int := 3 * 1000000

def setInterval (k : Kernel T U G) (now interval : Int) : Kernel T U G :=
  { k with now := now, trigger := now + interval * 1000 }

section Steps

variable [DecidableEq U]

/-- The body of the loop of `propagate`, with the events that it stores or that their handlers
store. -/
def notedVisit (handle : U → (U → TimeEvent) → U → TimeEvent) (timeNow : Int)
    (acc : TimeEvents.State U × (U → Bool)) (iter : U) : TimeEvents.State U × (U → Bool) :=
  let next := visit handle timeNow acc.1 iter
  (next, fun u => acc.2 u || decide (u = iter ∧ (acc.1.events iter).eventAt < timeNow) ||
    decide ((next.events u).eventAt ≠ (acc.1.events u).eventAt))

def notedPropagate (handle : U → (U → TimeEvent) → U → TimeEvent) (timeEventList : List U)
    (events : U → TimeEvent) (timeNow : Int) : TimeEvents.State U × (U → Bool) :=
  timeEventList.foldl (notedVisit handle timeNow) (⟨events, []⟩, fun _ => false)

variable [DecidableEq T]

variable (disableSleepWhenIdle : Bool) (idlethread : T) (timeEventList : List U)

def propagated (c : Call T U G) (k : Kernel T U G) : Kernel T U G :=
  let result := notedPropagate c.handle timeEventList k.events c.propagateAt
  { k with
    events := result.1.events
    storedAt := fun u => if result.2 u then c.propagateAt else k.storedAt u
    unseen := fun _ => false
    scheduler :=
      { interlude c.toRound k.scheduler with
        timeToTryAgainToSchedule :=
          if c.resumes then 0 else k.scheduler.timeToTryAgainToSchedule } }

def schedulerWrapper (c : Call T U G) (k : Kernel T U G) : Option (Kernel T U G) := do
  let k := propagated timeEventList c k
  let nextTimeEventTime := getNextTriggerTime timeEventList k.events
  let nextSchedulingEventTime := k.scheduler.timeToTryAgainToSchedule
  if c.checkAt < nextSchedulingEventTime then
    let interval ← updateTriggerToNextTimingEvent false nextSchedulingEventTime nextTimeEventTime
      c.programAt
    some (setInterval k c.programAt interval)
  else
    let next := schedule idlethread c.toSituation k.scheduler
    let interval ← updateTriggerToNextTimingEvent false next.2.timeToTryAgainToSchedule
      nextTimeEventTime c.programAt
    some (setInterval
      { k with scheduler := next.2, currentThread := next.1, scheduledAt := c.timeLater }
      c.programAt interval)

/-- A store to the fields of an event, in `activateAt` or `activatePeriodic`. -/
def store (u : U) (e : TimeEvent) (k : Kernel T U G) : Kernel T U G :=
  { k with
    events := Function.update k.events u e
    storedAt := Function.update k.storedAt u k.now
    unseen := Function.update k.unseen u true }

/-- The idle thread after its `yield`, up to `enterSleepMode`. -/
def sleep (timeNow : Int) (k : Kernel T U G) : Kernel T U G :=
  let reactivationTime := min k.scheduler.timeToTryAgainToSchedule
    (getNextTriggerTime timeEventList k.events)
  let timerInterval := reactivationTime - timeNow - timeWakeupFromSleep - minSysTickSpacing
  if timerInterval > timeWakeupFromSleep ∧ timerInterval > minSysTickSpacing then
    { setInterval k timeNow (timerInterval.tdiv 1000) with asleep := some reactivationTime }
  else { k with now := timeNow }

/-- The idle thread after `enterSleepMode`. -/
def wakeUp (timeNow reactivationTime : Int) (k : Kernel T U G) : Kernel T U G :=
  let remainingTime := max (reactivationTime - timeNow) minSysTickSpacing
  { setInterval k timeNow (remainingTime.tdiv 1000) with asleep := none }

def step (e : Event T U G) (k : Kernel T U G) : Option (Kernel T U G) :=
  match e with
  | .pass time => some { k with now := time }
  | .schedulerWrapper c => schedulerWrapper idlethread timeEventList c k
  | .timeToTryAgain =>
    some { k with scheduler := { k.scheduler with timeToTryAgainToSchedule := 0 } }
  | .threads r => some { k with scheduler := interlude r k.scheduler }
  | .preselect t selectedEarliestSuspendedUntil =>
    some { k with
      scheduler :=
        { k.scheduler with
          preSelectedNextToRun := some t
          preSelectedEarliestSuspendedUntil := selectedEarliestSuspendedUntil } }
  | .store u e => some (store u e k)
  | .sleep timeNow =>
    if disableSleepWhenIdle = false ∧ k.currentThread = idlethread ∧ k.asleep = none then
      some (sleep timeEventList timeNow k)
    else none
  | .wakeUp timeNow =>
    if k.currentThread = idlethread then
      k.asleep.map (fun reactivationTime => wakeUp timeNow reactivationTime k)
    else none

/-- `Scheduler::idle`, which starts the timer. -/
def idle (fields : T → Thread G) (events : U → TimeEvent) (timeNow : Int) :
    Option (Kernel T U G) := do
  let scheduler := boot fields
  let interval ← updateTriggerToNextTimingEvent false scheduler.timeToTryAgainToSchedule
    (getNextTriggerTime timeEventList events) timeNow
  some (setInterval
    { scheduler := scheduler
      currentThread := idlethread
      events := events
      now := timeNow
      trigger := timeNow
      asleep := none
      storedAt := fun _ => timeNow
      unseen := fun _ => false
      scheduledAt := timeNow } timeNow interval)

end Steps

/-- The clock does not come near the end of time. -/
def horizon : Int := endOfTime - 2 * minSysTickSpacing - timeSliceForSamePriority

def Init [DecidableEq T] [DecidableEq U] (idlethread : T) (timeEventList : List U)
    (k : Kernel T U G) : Prop :=
  ∃ fields events timeNow, 0 ≤ timeNow ∧ timeNow ≤ horizon ∧
    idle idlethread timeEventList fields events timeNow = some k

/-- The timer interrupt comes at most `latency` after its time, and a call of `schedulerWrapper`
takes at most `duration`. -/
structure Timing where
  latency : Int
  duration : Int
  latency_nonneg : 0 ≤ latency
  duration_nonneg : 0 ≤ duration

/-- The clock does not go back, and the interrupt is not missed. -/
def Timing.Comes (p : Timing) (time : Int) (k : Kernel T U G) : Prop :=
  k.now ≤ time ∧ time ≤ k.trigger + p.latency ∧ time ≤ horizon

structure Timing.Serves (p : Timing) (c : Call T U G) (k : Kernel T U G) : Prop where
  comes : p.Comes c.propagateAt k
  check : c.propagateAt ≤ c.checkAt
  select : c.checkAt ≤ c.timeNow
  later : c.timeNow ≤ c.timeLater
  program : c.timeLater ≤ c.programAt
  duration : c.programAt ≤ c.propagateAt + p.duration
  horizon : c.programAt ≤ horizon

def Timing.Ok (p : Timing) (e : Event T U G) (k : Kernel T U G) : Prop :=
  match e with
  | .pass time => p.Comes time k
  | .schedulerWrapper c => p.Serves c k
  | .sleep timeNow => p.Comes timeNow k
  | .wakeUp timeNow => p.Comes timeNow k
  | _ => True

instance (p : Timing) (time : Int) (k : Kernel T U G) : Decidable (p.Comes time k) :=
  inferInstanceAs (Decidable (_ ∧ _ ∧ _))

instance (p : Timing) (c : Call T U G) (k : Kernel T U G) : Decidable (p.Serves c k) :=
  decidable_of_iff (p.Comes c.propagateAt k ∧ c.propagateAt ≤ c.checkAt ∧ c.checkAt ≤ c.timeNow ∧
    c.timeNow ≤ c.timeLater ∧ c.timeLater ≤ c.programAt ∧
    c.programAt ≤ c.propagateAt + p.duration ∧ c.programAt ≤ Timeliness.horizon)
    ⟨fun h => ⟨h.1, h.2.1, h.2.2.1, h.2.2.2.1, h.2.2.2.2.1, h.2.2.2.2.2.1, h.2.2.2.2.2.2⟩,
      fun h => ⟨h.comes, h.check, h.select, h.later, h.program, h.duration, h.horizon⟩⟩

instance (p : Timing) (e : Event T U G) (k : Kernel T U G) : Decidable (p.Ok e k) :=
  match e with
  | .pass time => inferInstanceAs (Decidable (p.Comes time k))
  | .schedulerWrapper c => inferInstanceAs (Decidable (p.Serves c k))
  | .sleep timeNow => inferInstanceAs (Decidable (p.Comes timeNow k))
  | .wakeUp timeNow => inferInstanceAs (Decidable (p.Comes timeNow k))
  | .timeToTryAgain | .threads _ | .preselect _ _ | .store _ _ => .isTrue trivial

/-- The moment from which an event should be handled: its time, or when it was stored. A store
that no call of `schedulerWrapper` has seen, or that the idle thread has slept through, may
have to wait for the next time slice. -/
def dueBy (disableSleepWhenIdle : Bool) (k : Kernel T U G) (u : U) : Int :=
  max (k.events u).eventAt
    (if disableSleepWhenIdle && !k.unseen u then k.storedAt u
      else k.storedAt u + timeSliceForSamePriority)

theorem getNextTriggerTime_le (events : U → TimeEvent) {timeEventList : List U} {u : U}
    (hu : u ∈ timeEventList) :
    getNextTriggerTime timeEventList events ≤ (events u).eventAt := by
  have hloop : ∀ (l : List U) (first : Int),
      l.foldl (fun next iter =>
        if (events iter).eventAt < next then (events iter).eventAt else next) first ≤ first ∧
      ∀ v ∈ l, l.foldl (fun next iter =>
        if (events iter).eventAt < next then (events iter).eventAt else next) first ≤
          (events v).eventAt := by
    intro l
    induction l with
    | nil => exact fun first => ⟨le_rfl, List.forall_mem_nil _⟩
    | cons iter l ih =>
      intro first
      obtain ⟨hfirst, hrest⟩ := ih (if (events iter).eventAt < first then (events iter).eventAt
        else first)
      have hle : (if (events iter).eventAt < first then (events iter).eventAt else first) ≤ first ∧
          (if (events iter).eventAt < first then (events iter).eventAt else first) ≤
            (events iter).eventAt := by
        split <;> omega
      exact ⟨hfirst.trans hle.1, List.forall_mem_cons.mpr ⟨hfirst.trans hle.2, hrest⟩⟩
  exact (hloop timeEventList _).2 u hu

section Propagate

variable [DecidableEq U] {handle : U → (U → TimeEvent) → U → TimeEvent} {timeNow : Int}
  {timeEventList : List U}

theorem notedPropagate_fst (events : U → TimeEvent) :
    (notedPropagate handle timeEventList events timeNow).1 =
      propagate handle timeEventList ⟨events, []⟩ timeNow := by
  have hloop : ∀ (l : List U) (acc : TimeEvents.State U × (U → Bool)),
      (l.foldl (notedVisit handle timeNow) acc).1 = l.foldl (visit handle timeNow) acc.1 := by
    intro l
    induction l with
    | nil => exact fun _ => rfl
    | cons iter l ih => exact fun acc => ih (notedVisit handle timeNow acc iter)
  exact hloop timeEventList _

theorem foldl_keeps (handle : U → (U → TimeEvent) → U → TimeEvent) (timeNow : Int)
    (first : U → TimeEvent) (u : U) (l : List U)
    (acc : TimeEvents.State U × (U → Bool))
    (h : acc.2 u = true ∨ (acc.1.events u).eventAt = (first u).eventAt) :
    (l.foldl (notedVisit handle timeNow) acc).2 u = true ∨
      ((l.foldl (notedVisit handle timeNow) acc).1.events u).eventAt = (first u).eventAt := by
  induction l generalizing acc with
  | nil => exact h
  | cons iter l ih =>
    apply ih
    by_cases hsame : ((visit handle timeNow acc.1 iter).events u).eventAt =
        (acc.1.events u).eventAt
    · obtain hstored | hold := h
      · left
        simp [notedVisit, hstored]
      · right
        exact hsame.trans hold
    · left
      simp [notedVisit, hsame]

theorem foldl_visited (handle : U → (U → TimeEvent) → U → TimeEvent) (timeNow : Int) (u : U)
    (l : List U) (acc : TimeEvents.State U × (U → Bool))
    (h : u ∈ l ∨ acc.2 u = true ∨ timeNow ≤ (acc.1.events u).eventAt) :
    (l.foldl (notedVisit handle timeNow) acc).2 u = true ∨
      timeNow ≤ ((l.foldl (notedVisit handle timeNow) acc).1.events u).eventAt := by
  induction l generalizing acc with
  | nil => exact h.resolve_left List.not_mem_nil
  | cons iter l ih =>
    apply ih
    by_cases hrest : u ∈ l
    · exact .inl hrest
    right
    by_cases hsame : ((visit handle timeNow acc.1 iter).events u).eventAt =
        (acc.1.events u).eventAt
    · obtain hmem | hstored | hlater := h
      · obtain rfl : u = iter := (List.mem_cons.mp hmem).resolve_right hrest
        by_cases hdue : (acc.1.events u).eventAt < timeNow
        · left
          simp [notedVisit, hdue]
        · right
          exact (not_lt.mp hdue).trans_eq hsame.symm
      · left
        simp [notedVisit, hstored]
      · right
        exact hlater.trans_eq hsame.symm
    · left
      simp [notedVisit, hsame]

end Propagate

/-- The timer is programmed for the time asked for, unless that is too close. -/
theorem exists_interval (nextSchedulingEventTime nextTimeEventTime : Int) {timeNow : Int}
    (hnow : 0 ≤ timeNow) (hend : timeNow ≤ horizon)
    (hscheduling : nextSchedulingEventTime ≤ endOfTime) :
    ∃ interval, updateTriggerToNextTimingEvent false nextSchedulingEventTime nextTimeEventTime
        timeNow = some interval ∧ 0 ≤ interval ∧
      timeNow + interval * 1000 ≤
        max nextSchedulingEventTime (timeNow + 2 * minSysTickSpacing) ∧
      timeNow + interval * 1000 ≤ max nextTimeEventTime (timeNow + 2 * minSysTickSpacing) := by
  have hmin : minSysTickSpacing = 500000 := rfl
  have hmax : endOfTime = 9223372036854775807 := rfl
  have hslice : timeSliceForSamePriority = 100000000 := rfl
  have hhorizon : horizon = endOfTime - 2 * minSysTickSpacing - timeSliceForSamePriority := rfl
  obtain ⟨beat, hbeat, hlow, hhigh⟩ := nextOfNextBeat_eq hnow (by omega)
  have htarget : reactivationTime false nextSchedulingEventTime nextTimeEventTime =
      min nextSchedulingEventTime nextTimeEventTime := rfl
  have hleft : min nextSchedulingEventTime nextTimeEventTime ≤ nextSchedulingEventTime :=
    min_le_left _ _
  have hright : min nextSchedulingEventTime nextTimeEventTime ≤ nextTimeEventTime :=
    min_le_right _ _
  generalize min nextSchedulingEventTime nextTimeEventTime = target at htarget hleft hright
  have hdiv : (max target beat - timeNow).tdiv 1000 = (max target beat - timeNow) / 1000 :=
    Int.tdiv_eq_ediv_of_nonneg (by omega)
  refine ⟨(max target beat - timeNow) / 1000, ?_, by omega, by omega, by omega⟩
  rw [updateTriggerToNextTimingEvent, htarget, checked64_bind (by omega) (by omega), hbeat]
  change (checked64 (max target beat - timeNow) >>=
    fun interval => checked64 (interval.tdiv 1000)) = _
  rw [checked64_bind (by omega) (by omega), hdiv]
  exact checked64_eq (by omega) (by omega)

section Invariant

variable {p : Timing} {disableSleepWhenIdle : Bool} {timeEventList : List U} {k : Kernel T U G}

/-- By how much the timer may be programmed later than it should fire. The idle thread may put
it off once more when it wakes up. -/
def reserve (p : Timing) (disableSleepWhenIdle : Bool) (asleep : Option Int) : Int :=
  p.duration + 2 * minSysTickSpacing +
    if disableSleepWhenIdle = false ∧ asleep = none then p.latency + minSysTickSpacing else 0

structure Timely (p : Timing) (disableSleepWhenIdle : Bool) (timeEventList : List U)
    (k : Kernel T U G) : Prop where
  scheduledAt_nonneg : 0 ≤ k.scheduledAt
  scheduledAt_le : k.scheduledAt ≤ k.now
  now_le : k.now ≤ horizon
  tryAgain : k.scheduler.timeToTryAgainToSchedule ≤ k.scheduledAt + timeSliceForSamePriority
  comes : k.now ≤ k.trigger + p.latency
  schedules : k.trigger ≤ k.scheduledAt + timeSliceForSamePriority +
    reserve p disableSleepWhenIdle k.asleep
  handles : ∀ u ∈ timeEventList,
    k.trigger ≤ dueBy disableSleepWhenIdle k u + reserve p disableSleepWhenIdle k.asleep
  sleeps : ∀ reactivationTime, k.asleep = some reactivationTime →
    disableSleepWhenIdle = false ∧ reactivationTime ≤ k.scheduledAt + timeSliceForSamePriority ∧
      ∀ u ∈ timeEventList, reactivationTime ≤ dueBy disableSleepWhenIdle k u

theorem le_reserve (p : Timing) (disableSleepWhenIdle : Bool) (asleep : Option Int) :
    p.duration + 2 * minSysTickSpacing ≤ reserve p disableSleepWhenIdle asleep := by
  have hlatency := p.latency_nonneg
  have hmin : minSysTickSpacing = 500000 := rfl
  unfold reserve
  split <;> omega

theorem eventAt_le_dueBy (k : Kernel T U G) (u : U) :
    (k.events u).eventAt ≤ dueBy disableSleepWhenIdle k u :=
  le_max_left _ _

theorem Timely.now_nonneg (h : Timely p disableSleepWhenIdle timeEventList k) : 0 ≤ k.now :=
  h.scheduledAt_nonneg.trans h.scheduledAt_le

theorem Timely.pass (h : Timely p disableSleepWhenIdle timeEventList k) {time : Int}
    (hok : p.Comes time k) :
    Timely p disableSleepWhenIdle timeEventList { k with now := time } := by
  obtain ⟨hlater, hcomes, hend⟩ := hok
  exact { h with
    scheduledAt_le := h.scheduledAt_le.trans hlater
    now_le := hend
    comes := hcomes }

theorem Timely.reschedule (h : Timely p disableSleepWhenIdle timeEventList k)
    {scheduler : Scheduler T G}
    (htry : scheduler.timeToTryAgainToSchedule ≤
      k.scheduledAt + timeSliceForSamePriority) :
    Timely p disableSleepWhenIdle timeEventList { k with scheduler := scheduler } :=
  { h with tryAgain := htry }

theorem dueBy_store [DecidableEq U] (k : Kernel T U G) (u : U) (e : TimeEvent) (v : U) :
    k.now + timeSliceForSamePriority ≤ dueBy disableSleepWhenIdle (store u e k) v ∨
      dueBy disableSleepWhenIdle (store u e k) v = dueBy disableSleepWhenIdle k v := by
  by_cases hv : v = u
  · subst hv
    left
    apply le_max_of_le_right
    simp [store]
  · right
    simp only [dueBy, store, Function.update_of_ne hv]

theorem Timely.store [DecidableEq U] (h : Timely p disableSleepWhenIdle timeEventList k) (u : U)
    (e : TimeEvent) : Timely p disableSleepWhenIdle timeEventList (store u e k) := by
  have hslice : k.scheduledAt + timeSliceForSamePriority ≤ k.now + timeSliceForSamePriority :=
    Int.add_le_add_right h.scheduledAt_le _
  refine { h with handles := ?_, sleeps := ?_ }
  · intro v hv
    obtain hnew | hsame := dueBy_store k u e v
    · exact h.schedules.trans (Int.add_le_add_right (hslice.trans hnew) _)
    · rw [hsame]
      exact h.handles v hv
  · intro reactivationTime hasleep
    obtain ⟨hsleep, hsched, hevents⟩ := h.sleeps reactivationTime hasleep
    refine ⟨hsleep, hsched, fun v hv => ?_⟩
    obtain hnew | hsame := dueBy_store k u e v
    · exact hsched.trans (hslice.trans hnew)
    · rw [hsame]
      exact hevents v hv

/-- After `propagate` no event is due by an earlier time than that of the call, and none by an
earlier time than before, if the stores may have to wait. -/
theorem dueBy_propagated [DecidableEq U] [DecidableEq T] (c : Call T U G) (k : Kernel T U G) {u : U}
    (hu : u ∈ timeEventList) :
    c.propagateAt ≤ dueBy disableSleepWhenIdle (propagated timeEventList c k) u ∧
      (disableSleepWhenIdle = false →
        c.propagateAt + timeSliceForSamePriority ≤
          dueBy disableSleepWhenIdle (propagated timeEventList c k) u ∨
        dueBy disableSleepWhenIdle (propagated timeEventList c k) u =
          dueBy disableSleepWhenIdle k u) := by
  have hslice : (0 : Int) ≤ timeSliceForSamePriority := by decide
  have hvisited := foldl_visited c.handle c.propagateAt u timeEventList
    (⟨k.events, []⟩, fun _ => false) (.inl hu)
  have hkeeps := foldl_keeps c.handle c.propagateAt k.events u timeEventList
    (⟨k.events, []⟩, fun _ => false) (.inr rfl)
  unfold dueBy propagated notedPropagate
  dsimp only
  cases hstored : (timeEventList.foldl (notedVisit c.handle c.propagateAt)
      (⟨k.events, []⟩, fun _ => false)).2 u with
  | true =>
    refine ⟨le_max_of_le_right ?_, ?_⟩
    · split
      · exact le_rfl
      · exact le_add_of_nonneg_right hslice
    · intro hsleep
      left
      apply le_max_of_le_right
      simp [hsleep]
  | false =>
    rw [hstored] at hvisited hkeeps
    have hlater := hvisited.resolve_left Bool.false_ne_true
    have hold := hkeeps.resolve_left Bool.false_ne_true
    refine ⟨le_max_of_le_left hlater, fun hsleep => .inr ?_⟩
    simp [hsleep, hold]

theorem Timely.program {c : Call T U G} (k' : Kernel T U G)
    (hserves : p.Serves c k) (h : Timely p disableSleepWhenIdle timeEventList k)
    (htry : k'.scheduler.timeToTryAgainToSchedule ≤ k'.scheduledAt + timeSliceForSamePriority)
    (hfirst : 0 ≤ k'.scheduledAt) (hsched : k'.scheduledAt ≤ c.programAt)
    (hlast : c.programAt + 2 * minSysTickSpacing ≤ k'.scheduledAt + timeSliceForSamePriority +
      (p.duration + 2 * minSysTickSpacing))
    (hdue : ∀ u ∈ timeEventList, c.propagateAt ≤ dueBy disableSleepWhenIdle k' u)
    (hasleep : ∀ reactivationTime, k'.asleep = some reactivationTime →
      disableSleepWhenIdle = false ∧
        reactivationTime ≤ k'.scheduledAt + timeSliceForSamePriority ∧
        ∀ u ∈ timeEventList, reactivationTime ≤ dueBy disableSleepWhenIdle k' u) :
    ∃ interval, updateTriggerToNextTimingEvent false k'.scheduler.timeToTryAgainToSchedule
        (getNextTriggerTime timeEventList k'.events) c.programAt = some interval ∧
      Timely p disableSleepWhenIdle timeEventList (setInterval k' c.programAt interval) := by
  obtain ⟨⟨hlater, hcomes, hhorizon⟩, hcheck, hselect, hslice, hprogram, hduration, hend⟩ := hserves
  have hnow := h.now_nonneg
  have hlatency := p.latency_nonneg
  have hmin : minSysTickSpacing = 500000 := rfl
  have hendOfTime : horizon + timeSliceForSamePriority ≤ endOfTime := by decide
  obtain ⟨interval, hinterval, hpos, htrigger, hevent⟩ :=
    exists_interval k'.scheduler.timeToTryAgainToSchedule
      (getNextTriggerTime timeEventList k'.events) (hnow.trans (by omega : k.now ≤ c.programAt)) hend
      (by omega)
  refine ⟨interval, hinterval, ?_⟩
  have hreserve := le_reserve p disableSleepWhenIdle k'.asleep
  constructor
  · exact hfirst
  · exact hsched
  · exact hend
  · exact htry
  · change c.programAt ≤ c.programAt + interval * 1000 + p.latency
    omega
  · change c.programAt + interval * 1000 ≤ k'.scheduledAt + timeSliceForSamePriority +
      reserve p disableSleepWhenIdle k'.asleep
    omega
  · intro u hu
    have htime := getNextTriggerTime_le k'.events hu
    have hat : (k'.events u).eventAt ≤ dueBy disableSleepWhenIdle k' u := eventAt_le_dueBy k' u
    have hdueBy := hdue u hu
    change c.programAt + interval * 1000 ≤ dueBy disableSleepWhenIdle k' u +
      reserve p disableSleepWhenIdle k'.asleep
    omega
  · exact hasleep

theorem propagated_scheduled [DecidableEq U] [DecidableEq T] (c : Call T U G)
    (h : Timely p disableSleepWhenIdle timeEventList k) (hserves : p.Serves c k) :
    (propagated timeEventList c k).scheduler.timeToTryAgainToSchedule ≤
      k.scheduledAt + timeSliceForSamePriority ∨
    (propagated timeEventList c k).scheduler.timeToTryAgainToSchedule ≤ c.checkAt := by
  have hnow := h.now_nonneg
  have hlater := hserves.comes.1
  have hcheck := hserves.check
  unfold propagated
  dsimp only
  split
  · right
    omega
  · exact .inl h.tryAgain

theorem schedule_tryAgain [DecidableEq T] (idlethread : T) (c : Situation T)
    (scheduler : Scheduler T G) (hlow : 0 ≤ c.timeLater) (hend : c.timeLater ≤ horizon) :
    (schedule idlethread c scheduler).2.timeToTryAgainToSchedule ≤
      c.timeLater + timeSliceForSamePriority := by
  have hmax : horizon + timeSliceForSamePriority < 2 ^ 63 := by decide
  have hslice : (0 : Int) ≤ timeSliceForSamePriority := by decide
  have hwrap : Int.bmod (timeSliceForSamePriority + c.timeLater) (2 ^ 64) =
      timeSliceForSamePriority + c.timeLater := int64_eq (by omega) (by omega)
  refine (min_le_right _ _).trans ?_
  rw [hwrap]
  omega

theorem Timely.schedulerWrapper [DecidableEq U] [DecidableEq T]
    (h : Timely p disableSleepWhenIdle timeEventList k) (idlethread : T) {c : Call T U G}
    (hserves : p.Serves c k) :
    ∃ k', schedulerWrapper idlethread timeEventList c k = some k' ∧
      Timely p disableSleepWhenIdle timeEventList k' := by
  have hnow := h.now_nonneg
  have hsched := h.scheduledAt_le
  have hduration := p.duration_nonneg
  have hlater := hserves.comes.1
  have hcheck := hserves.check
  have hselect := hserves.select
  have hslice := hserves.later
  have hprogram := hserves.program
  have hcall := hserves.duration
  have hend := hserves.horizon
  have hdue : ∀ u ∈ timeEventList,
      c.propagateAt ≤ dueBy disableSleepWhenIdle (propagated timeEventList c k) u :=
    fun u hu => (dueBy_propagated c k hu).1
  have hasleep : ∀ reactivationTime, k.asleep = some reactivationTime →
      disableSleepWhenIdle = false ∧
        reactivationTime ≤ k.scheduledAt + timeSliceForSamePriority ∧
        ∀ u ∈ timeEventList,
          reactivationTime ≤ dueBy disableSleepWhenIdle (propagated timeEventList c k) u := by
    intro reactivationTime hsome
    obtain ⟨hsleep, hreactivation, hevents⟩ := h.sleeps reactivationTime hsome
    refine ⟨hsleep, hreactivation, fun u hu => ?_⟩
    obtain hnew | hsame := (dueBy_propagated c k hu).2 hsleep
    · omega
    · rw [hsame]
      exact hevents u hu
  rw [Timeliness.schedulerWrapper]
  dsimp only
  split
  · rename_i hwait
    have htry := (propagated_scheduled c h hserves).resolve_right (not_le.mpr hwait)
    obtain ⟨interval, hinterval, htimely⟩ := h.program (propagated timeEventList c k)
      hserves htry h.scheduledAt_nonneg (hsched.trans (by omega)) (by change _ ≤ k.scheduledAt + _ + _; omega) hdue hasleep
    rw [hinterval]
    exact ⟨_, rfl, htimely⟩
  · have htry := schedule_tryAgain idlethread c.toSituation
      (propagated timeEventList c k).scheduler (by omega) (by omega)
    obtain ⟨interval, hinterval, htimely⟩ := h.program
      { propagated timeEventList c k with
        scheduler := (schedule idlethread c.toSituation
          (propagated timeEventList c k).scheduler).2
        currentThread := (schedule idlethread c.toSituation
          (propagated timeEventList c k).scheduler).1
        scheduledAt := c.timeLater }
      hserves htry (by change 0 ≤ c.timeLater; omega) hprogram
      (by
        have hslicePos : (0 : Int) ≤ timeSliceForSamePriority := by decide
        change c.programAt + _ ≤ c.timeLater + _ + _
        omega)
      hdue
      (fun reactivationTime hsome => by
        obtain ⟨hsleep, hreactivation, hevents⟩ := hasleep reactivationTime hsome
        refine ⟨hsleep, ?_, hevents⟩
        change reactivationTime ≤ c.timeLater + _
        omega)
    exact ⟨_, by rw [hinterval]; rfl, htimely⟩

theorem Timely.sleep [DecidableEq U] [DecidableEq T]
    (h : Timely p false timeEventList k) {timeNow : Int} (hok : p.Comes timeNow k) :
    Timely p false timeEventList (sleep timeEventList timeNow k) := by
  have hmin : minSysTickSpacing = 500000 := rfl
  have hwakeup : timeWakeupFromSleep = 3000000 := rfl
  have hlatency := p.latency_nonneg
  have hduration := p.duration_nonneg
  obtain ⟨hlater, hcomes, hend⟩ := id hok
  rw [Timeliness.sleep]
  dsimp only
  have hleft := min_le_left k.scheduler.timeToTryAgainToSchedule
    (getNextTriggerTime timeEventList k.events)
  have hright := min_le_right k.scheduler.timeToTryAgainToSchedule
    (getNextTriggerTime timeEventList k.events)
  generalize min k.scheduler.timeToTryAgainToSchedule
    (getNextTriggerTime timeEventList k.events) = reactivationTime at hleft hright ⊢
  have hevents : ∀ u ∈ timeEventList, reactivationTime ≤ dueBy false k u := fun u hu =>
    hright.trans ((getNextTriggerTime_le k.events hu).trans (eventAt_le_dueBy k u))
  have htry := h.tryAgain
  split
  · rename_i hlong
    generalize htimer : reactivationTime - timeNow - timeWakeupFromSleep - minSysTickSpacing =
      timerInterval at hlong
    have hdiv : timerInterval.tdiv 1000 = timerInterval / 1000 :=
      Int.tdiv_eq_ediv_of_nonneg (by omega)
    have hreserve := le_reserve p false (some reactivationTime)
    constructor
    · exact h.scheduledAt_nonneg
    · exact h.scheduledAt_le.trans hlater
    · exact hend
    · exact htry
    · change timeNow ≤ timeNow + timerInterval.tdiv 1000 * 1000 + p.latency
      omega
    · change timeNow + timerInterval.tdiv 1000 * 1000 ≤ k.scheduledAt + _ +
        reserve p false (some reactivationTime)
      omega
    · intro u hu
      have hdue := hevents u hu
      change timeNow + timerInterval.tdiv 1000 * 1000 ≤ dueBy false k u +
        reserve p false (some reactivationTime)
      omega
    · rintro _ ⟨⟩
      exact ⟨rfl, hleft.trans htry, hevents⟩
  · exact h.pass hok

theorem Timely.wakeUp [DecidableEq U] [DecidableEq T]
    (h : Timely p disableSleepWhenIdle timeEventList k) {timeNow reactivationTime : Int}
    (hasleep : k.asleep = some reactivationTime) (hok : p.Comes timeNow k) :
    Timely p disableSleepWhenIdle timeEventList (wakeUp timeNow reactivationTime k) := by
  have hmin : minSysTickSpacing = 500000 := rfl
  have hlatency := p.latency_nonneg
  have hduration := p.duration_nonneg
  obtain ⟨hlater, hcomes, hend⟩ := hok
  obtain ⟨rfl, hscheduling, hevents⟩ := h.sleeps reactivationTime hasleep
  have hschedules := h.schedules
  have hbefore : reserve p false k.asleep = p.duration + 2 * minSysTickSpacing := by
    simp [reserve, hasleep]
  have hafter : reserve p false none =
      p.duration + 2 * minSysTickSpacing + (p.latency + minSysTickSpacing) := by
    simp [reserve]
  have hdiv : (max (reactivationTime - timeNow) minSysTickSpacing).tdiv 1000 =
      max (reactivationTime - timeNow) minSysTickSpacing / 1000 :=
    Int.tdiv_eq_ediv_of_nonneg (by omega)
  have htrigger : (Timeliness.wakeUp timeNow reactivationTime k).trigger =
      timeNow + max (reactivationTime - timeNow) minSysTickSpacing / 1000 * 1000 := by
    rw [← hdiv]
    rfl
  constructor
  · exact h.scheduledAt_nonneg
  · exact h.scheduledAt_le.trans hlater
  · exact hend
  · exact h.tryAgain
  · rw [htrigger]
    change timeNow ≤ _
    omega
  · rw [htrigger]
    change _ ≤ k.scheduledAt + _ + reserve p false none
    omega
  · intro u hu
    have hhandles := h.handles u hu
    have hdue := hevents u hu
    rw [htrigger]
    change _ ≤ dueBy false k u + reserve p false none
    omega
  · rintro _ ⟨⟩

end Invariant

/-- By how much a deadline is overrun at most, besides the time for which a store may have to
wait. -/
def Timing.overrun (p : Timing) (disableSleepWhenIdle : Bool) : Int :=
  p.duration + 2 * minSysTickSpacing + p.latency +
    if disableSleepWhenIdle then 0 else p.latency + minSysTickSpacing

section Result

variable [DecidableEq T] [DecidableEq U] {p : Timing}
  {disableSleepWhenIdle : Bool} {idlethread : T} {timeEventList : List U}

theorem Timely.step {k k' : Kernel T U G}
    (h : Timely p disableSleepWhenIdle timeEventList k) {e : Event T U G} (hok : p.Ok e k)
    (hs : step disableSleepWhenIdle idlethread timeEventList e k = some k') :
    Timely p disableSleepWhenIdle timeEventList k' := by
  cases e with
  | pass time =>
    cases hs
    exact h.pass hok
  | schedulerWrapper c =>
    obtain ⟨next, hnext, htimely⟩ := h.schedulerWrapper idlethread hok
    obtain rfl : next = k' := Option.some.inj (hnext.symm.trans hs)
    exact htimely
  | timeToTryAgain =>
    cases hs
    have hslice : (0 : Int) ≤ timeSliceForSamePriority := by decide
    exact h.reschedule (Int.add_nonneg h.scheduledAt_nonneg hslice)
  | threads r =>
    cases hs
    exact h.reschedule h.tryAgain
  | preselect t selectedEarliestSuspendedUntil =>
    cases hs
    exact h.reschedule h.tryAgain
  | store u e =>
    cases hs
    exact h.store u e
  | sleep timeNow =>
    obtain ⟨⟨hsleep, -, -⟩, hslept⟩ := Option.ite_none_right_eq_some.mp hs
    obtain rfl := Option.some.inj hslept
    subst hsleep
    exact h.sleep hok
  | wakeUp timeNow =>
    obtain ⟨-, hwoken⟩ := Option.ite_none_right_eq_some.mp hs
    obtain ⟨reactivationTime, hasleep, rfl⟩ := Option.map_eq_some_iff.mp hwoken
    exact h.wakeUp hasleep hok

end Result

end Rodos.Timeliness
