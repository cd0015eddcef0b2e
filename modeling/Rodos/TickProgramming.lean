import Rodos.NextBeat

namespace Rodos.TickProgramming

open MachineInt ThreadSelection NextBeat

def minSysTickSpacing : Int := 500 * 1000

def reactivationTime (disableTimeevents : Bool)
    (nextSchedulingEventTime nextTimeEventTriggerTime : Int) : Int :=
  if disableTimeevents then nextSchedulingEventTime
  else min nextSchedulingEventTime nextTimeEventTriggerTime

/-- The argument of `setInterval`, in microseconds, if no operation overflows. -/
def updateTriggerToNextTimingEvent (disableTimeevents : Bool)
    (nextSchedulingEventTime nextTimeEventTriggerTime timeNow : Int) : Option Int := do
  let reactivationTime :=
    reactivationTime disableTimeevents nextSchedulingEventTime nextTimeEventTriggerTime
  let nextBeat ← checked64 (timeNow + minSysTickSpacing)
  let nextOfNextBeat ← computeNextBeat 0 minSysTickSpacing nextBeat
  let reactivationTime := max reactivationTime nextOfNextBeat
  let intervalInNanoSecs ← checked64 (reactivationTime - timeNow)
  checked64 (intervalInNanoSecs.tdiv 1000)

/-- The timer is neither too early nor too late for the target. -/
structure Programmed (target timeNow interval : Int) : Prop where
  spacing : minSysTickSpacing ≤ interval * 1000
  overrun : timeNow + interval * 1000 ≤ max target (timeNow + 2 * minSysTickSpacing)
  early : timeNow + 2 * minSysTickSpacing < target → target - 1000 < timeNow + interval * 1000

variable {timeNow : Int}

theorem nextOfNextBeat_eq (hnow : 0 ≤ timeNow)
    (hend : timeNow ≤ endOfTime - 2 * minSysTickSpacing) :
    ∃ beat, computeNextBeat 0 minSysTickSpacing (timeNow + minSysTickSpacing) = some beat ∧
      timeNow + minSysTickSpacing < beat ∧ beat ≤ timeNow + 2 * minSysTickSpacing := by
  have hmin : minSysTickSpacing = 500000 := rfl
  have hmax : endOfTime = 9223372036854775807 := rfl
  have hbeat : nextBeat 0 minSysTickSpacing (timeNow + minSysTickSpacing) =
      ((timeNow + 500000) / 500000 + 1) * 500000 := by
    rw [nextBeat, hmin, Int.sub_zero, Int.add_zero]
  refine ⟨nextBeat 0 minSysTickSpacing (timeNow + minSysTickSpacing), ?_, ?_, ?_⟩
  · rw [computeNextBeat_periodic (Int.le_refl 0) (by omega) (by omega) (by omega),
      if_neg (by omega)]
    exact checked64_eq (by omega) (by omega)
  · omega
  · omega

/-- The interval is at least 500 microseconds, and the overrun at most 1000. -/
theorem updateTriggerToNextTimingEvent_programmed {disableTimeevents : Bool}
    {nextSchedulingEventTime nextTimeEventTriggerTime : Int} (hnow : 0 ≤ timeNow)
    (hend : timeNow ≤ endOfTime - 2 * minSysTickSpacing)
    (hscheduling : nextSchedulingEventTime ≤ endOfTime) :
    ∃ interval, updateTriggerToNextTimingEvent disableTimeevents nextSchedulingEventTime
        nextTimeEventTriggerTime timeNow = some interval ∧
      Programmed (reactivationTime disableTimeevents nextSchedulingEventTime
        nextTimeEventTriggerTime) timeNow interval := by
  have hmin : minSysTickSpacing = 500000 := rfl
  have hmax : endOfTime = 9223372036854775807 := rfl
  have htarget : reactivationTime disableTimeevents nextSchedulingEventTime
      nextTimeEventTriggerTime ≤ endOfTime := by
    rw [reactivationTime]
    split
    · exact hscheduling
    · exact (min_le_left _ _).trans hscheduling
  obtain ⟨beat, hbeat, hlow, hhigh⟩ := nextOfNextBeat_eq hnow hend
  generalize htime : reactivationTime disableTimeevents nextSchedulingEventTime
    nextTimeEventTriggerTime = target at htarget
  have hdiv : (max target beat - timeNow).tdiv 1000 = (max target beat - timeNow) / 1000 :=
    Int.tdiv_eq_ediv_of_nonneg (by omega)
  refine ⟨(max target beat - timeNow) / 1000, ?_, ?_, ?_, ?_⟩
  · rw [updateTriggerToNextTimingEvent, htime, checked64_bind (by omega) (by omega), hbeat]
    change (checked64 (max target beat - timeNow) >>=
      fun interval => checked64 (interval.tdiv 1000)) = _
    rw [checked64_bind (by omega) (by omega), hdiv]
    exact checked64_eq (by omega) (by omega)
  · omega
  · omega
  · omega

/-- A target that is 3 ms away. -/
theorem updateTriggerToNextTimingEvent_programmed_threeMilliseconds :
    ∃ interval, updateTriggerToNextTimingEvent false 4000000 endOfTime 1000000 = some interval ∧
      Programmed (reactivationTime false 4000000 endOfTime) 1000000 interval :=
  updateTriggerToNextTimingEvent_programmed (by decide) (by decide) (by decide)

end Rodos.TickProgramming
