import Rodos.EventPropagation

namespace Rodos.NextBeat

open MachineInt ThreadSelection TimeEvents EventPropagation

/-- The computation of the next beat, if no operation overflows. -/
def computeNextBeat (begin period timeNow : Int) : Option Int :=
  if begin < 0 then some endOfTime
  else if period < 0 then some endOfTime
  else if timeNow < 0 then some endOfTime
  else if begin > timeNow then some begin
  else if period = 0 then some endOfTime
  else do
    let remaining ← checked64 (endOfTime - begin)
    if period ≥ remaining then return endOfTime
    let elapsed ← checked64 (timeNow - begin)
    let beats ← checked64 (elapsed.tdiv period)
    let next ← checked64 (beats + 1)
    let offset ← checked64 (next * period)
    checked64 (offset + begin)

/-- The next beat as it should be. -/
structure IsNextBeat (begin period timeNow : Int) (result : Option Int) : Prop where
  future : timeNow < begin → result = some begin
  periodic : begin ≤ timeNow → 0 < period → ∀ beat, IsLeast (beats ⟨begin, period⟩ timeNow) beat →
    result = some (if beat < endOfTime then beat else endOfTime)
  later : ∃ next, result = some next ∧ (timeNow < next ∨ next = endOfTime)

/-- There is a beat from the present to the end of time, or no beat is computed. -/
def Computable (begin period timeNow : Int) : Prop :=
  timeNow < begin ∨ period = 0 ∨ endOfTime - begin ≤ period ∨
    (timeNow - begin) / period < (endOfTime - begin) / period

variable {begin period timeNow : Int}

section Values

def nextBeat (begin period timeNow : Int) : Int :=
  ((timeNow - begin) / period + 1) * period + begin

theorem isLeast_nextBeat (hdue : begin ≤ timeNow) (hperiod : 0 < period) :
    IsLeast (beats ⟨begin, period⟩ timeNow) (nextBeat begin period timeNow) :=
  @isLeast_beats ⟨begin, period⟩ timeNow hdue hperiod

theorem period_le_nextBeat (hdue : begin ≤ timeNow) (hperiod : 0 < period) :
    period + begin ≤ nextBeat begin period timeNow := by
  have hquot : 0 ≤ (timeNow - begin) / period := Int.ediv_nonneg (by omega) hperiod.le
  have hone : 1 * period ≤ ((timeNow - begin) / period + 1) * period :=
    Int.mul_le_mul_of_nonneg_right (by omega) hperiod.le
  rw [nextBeat]
  omega

theorem nextBeat_le_iff (hperiod : 0 < period) : nextBeat begin period timeNow ≤ endOfTime ↔
    (timeNow - begin) / period < (endOfTime - begin) / period := by
  rw [← Int.add_one_le_iff, Int.le_ediv_iff_mul_le hperiod, nextBeat]
  omega

theorem checked_steps {quot : Int} (hquot : 0 ≤ quot) (hperiod : 0 < period) (hbegin : 0 ≤ begin) :
    (do
      let next ← checked64 (quot + 1)
      let offset ← checked64 (next * period)
      checked64 (offset + begin)) = checked64 ((quot + 1) * period + begin) := by
  have hone : (quot + 1) * 1 ≤ (quot + 1) * period :=
    Int.mul_le_mul_of_nonneg_left (by omega) (by omega)
  rcases lt_or_ge ((quot + 1) * period + begin) (2 ^ 63) with hfits | hlate
  · rw [checked64_bind (by omega) (by omega), checked64_bind (by omega) (by omega)]
  · rw [checked64_overflow hlate]
    rcases lt_or_ge (quot + 1) (2 ^ 63) with hnext | hnext
    · rw [checked64_bind (by omega) hnext]
      rcases lt_or_ge ((quot + 1) * period) (2 ^ 63) with hoffset | hoffset
      · rw [checked64_bind (by omega) hoffset, checked64_overflow hlate]
      · rw [checked64_overflow_bind hoffset]
    · rw [checked64_overflow_bind hnext]

theorem computeNextBeat_future (hbegin : 0 ≤ begin) (hperiod : 0 ≤ period) (hnow : 0 ≤ timeNow)
    (hfuture : timeNow < begin) : computeNextBeat begin period timeNow = some begin := by
  rw [computeNextBeat, if_neg (by omega), if_neg (by omega), if_neg (by omega), if_pos hfuture]

theorem computeNextBeat_once (hbegin : 0 ≤ begin) (hdue : begin ≤ timeNow) :
    computeNextBeat begin 0 timeNow = some endOfTime := by
  rw [computeNextBeat, if_neg (by omega), if_neg (by omega), if_neg (by omega), if_neg (by omega),
    if_pos rfl]

theorem computeNextBeat_periodic (hbegin : 0 ≤ begin) (hdue : begin ≤ timeNow)
    (hnow : timeNow ≤ endOfTime) (hperiod : 0 < period) :
    computeNextBeat begin period timeNow = if endOfTime - begin ≤ period then some endOfTime
      else checked64 (nextBeat begin period timeNow) := by
  have hmax : endOfTime = 2 ^ 63 - 1 := rfl
  have hquot : 0 ≤ (timeNow - begin) / period := Int.ediv_nonneg (by omega) hperiod.le
  have hle := Int.ediv_le_self period (show 0 ≤ timeNow - begin by omega)
  have hdiv : (timeNow - begin).tdiv period = (timeNow - begin) / period :=
    Int.tdiv_eq_ediv_of_nonneg (by omega)
  rw [computeNextBeat, if_neg (by omega), if_neg (by omega), if_neg (by omega), if_neg (by omega),
    if_neg (by omega), checked64_bind (by omega) (by omega)]
  by_cases hlong : endOfTime - begin ≤ period
  · rw [if_pos hlong, if_pos hlong]
    rfl
  · rw [if_neg hlong, if_neg hlong, checked64_bind (by omega) (by omega), hdiv,
      checked64_bind (by omega) (by omega)]
    exact checked_steps hquot hperiod hbegin

end Values

theorem computeNextBeat_exact {next : Int} (hnow : timeNow ≤ endOfTime)
    (h : computeNextBeat begin period timeNow = some next) :
    TimeEvents.computeNextBeat begin period timeNow = next := by
  by_cases hguards : begin < 0 ∨ period < 0 ∨ timeNow < 0 ∨ begin > timeNow ∨ period = 0
  · rw [computeNextBeat] at h
    rw [TimeEvents.computeNextBeat]
    split_ifs at h ⊢ <;> first | exact Option.some.inj h | omega
  · rw [computeNextBeat_periodic (by omega) (by omega) hnow (by omega)] at h
    rw [TimeEvents.computeNextBeat, if_neg (by omega), if_neg (by omega), if_neg (by omega),
      if_neg (by omega), if_neg (by omega)]
    split at h
    · rename_i hlong
      rw [if_pos hlong]
      exact Option.some.inj h
    · rename_i hlong
      rw [if_neg hlong]
      obtain ⟨rfl, hlow, hhigh⟩ := checked64_some h
      exact int64_eq hlow hhigh

theorem computeNextBeat_range {next : Int} (hbegin : begin ≤ endOfTime) (hnow : timeNow ≤ endOfTime)
    (h : computeNextBeat begin period timeNow = some next) : 0 ≤ next ∧ next ≤ endOfTime := by
  have hmax : endOfTime = 2 ^ 63 - 1 := rfl
  by_cases hguards : begin < 0 ∨ period < 0 ∨ timeNow < 0 ∨ begin > timeNow ∨ period = 0
  · rw [computeNextBeat] at h
    split_ifs at h
    · exact Option.some.inj h ▸ ⟨by decide, le_rfl⟩
    · exact Option.some.inj h ▸ ⟨by decide, le_rfl⟩
    · exact Option.some.inj h ▸ ⟨by decide, le_rfl⟩
    · rename_i hneg _ _ _
      exact Option.some.inj h ▸ ⟨Int.not_lt.mp hneg, hbegin⟩
    · exact Option.some.inj h ▸ ⟨by decide, le_rfl⟩
    · omega
  · have hperiod : 0 < period := by omega
    have hdue : begin ≤ timeNow := by omega
    rw [computeNextBeat_periodic (by omega) hdue hnow hperiod] at h
    split at h
    · exact Option.some.inj h ▸ ⟨by decide, le_rfl⟩
    · obtain ⟨rfl, hlow, hhigh⟩ := checked64_some h
      have hstep := period_le_nextBeat hdue hperiod
      omega

theorem isNextBeat_of_future (hfuture : timeNow < begin) {result : Option Int}
    (h : result = some begin) : IsNextBeat begin period timeNow result where
  future := fun _ => h
  periodic := fun hdue => absurd hfuture (Int.not_lt.mpr hdue)
  later := ⟨begin, h, .inl hfuture⟩

/-- The next beat is computed if and only if there is one until the end of time. -/
theorem computeNextBeat_iff (hbegin : 0 ≤ begin) (hperiod : 0 ≤ period)
    (hnow : 0 ≤ timeNow ∧ timeNow ≤ endOfTime) :
    IsNextBeat begin period timeNow (computeNextBeat begin period timeNow) ↔
      Computable begin period timeNow := by
  rcases lt_or_ge timeNow begin with hfuture | hdue
  · exact iff_of_true
      (isNextBeat_of_future hfuture (computeNextBeat_future hbegin hperiod hnow.1 hfuture))
      (.inl hfuture)
  rcases hperiod.eq_or_lt with rfl | hperiod
  · refine iff_of_true ⟨fun h => absurd h (Int.not_lt.mpr hdue), fun _ h => absurd h (lt_irrefl 0),
      endOfTime, computeNextBeat_once hbegin hdue, .inr rfl⟩ (.inr (.inl rfl))
  have hleast := isLeast_nextBeat hdue hperiod
  have hstep := period_le_nextBeat hdue hperiod
  rw [computeNextBeat_periodic hbegin hdue hnow.2 hperiod]
  by_cases hlong : endOfTime - begin ≤ period
  · rw [if_pos hlong]
    refine iff_of_true ⟨fun h => absurd h (Int.not_lt.mpr hdue), fun _ _ beat hbeat => ?_,
      endOfTime, rfl, .inr rfl⟩ (.inr (.inr (.inl hlong)))
    rw [hbeat.unique hleast, if_neg (by omega)]
  rw [if_neg hlong]
  by_cases hfits : nextBeat begin period timeNow ≤ endOfTime
  · have hvalue :
        checked64 (nextBeat begin period timeNow) = some (nextBeat begin period timeNow) :=
      checked64_eq (by omega) (Int.lt_of_le_sub_one hfits)
    refine iff_of_true ⟨fun h => absurd h (Int.not_lt.mpr hdue), fun _ _ beat hbeat => ?_,
      _, hvalue, .inl ?_⟩ (.inr (.inr (.inr ((nextBeat_le_iff hperiod).mp hfits))))
    · rw [hbeat.unique hleast, hvalue]
      split
      · rfl
      · congr 1
        omega
    · obtain ⟨_, _, hlater⟩ := hleast.1
      exact hlater
  · refine iff_of_false ?_ ?_
    · rintro ⟨_, _, next, hnext, _⟩
      rw [checked64_overflow (by unfold endOfTime at hfits; omega)] at hnext
      cases hnext
    · rintro (hfuture | hzero | hlong' | hquot)
      · omega
      · omega
      · exact hlong hlong'
      · exact hfits ((nextBeat_le_iff hperiod).mpr hquot)

/-- An event with a period of half a second. -/
theorem computeNextBeat_iff_halfSecond :
    IsNextBeat 0 500000000 1200000000 (computeNextBeat 0 500000000 1200000000) ↔
      Computable 0 500000000 1200000000 :=
  computeNextBeat_iff (by decide) (by decide) (by decide)

/-- The guard compares only one period with the time that is left. -/
theorem computeNextBeat_overflows : ¬∀ begin period timeNow : Int, 0 ≤ begin → begin ≤ endOfTime →
    0 ≤ period → period ≤ endOfTime → 0 ≤ timeNow → timeNow ≤ endOfTime →
      IsNextBeat begin period timeNow (computeNextBeat begin period timeNow) := by
  intro h
  obtain ⟨next, hnext, _⟩ := (h 0 (2 ^ 62) (2 ^ 62) (by decide) (by decide) (by decide)
    (by decide) (by decide) (by decide)).later
  have hnone : computeNextBeat 0 (2 ^ 62) (2 ^ 62) = none := by decide +kernel
  rw [hnone] at hnext
  cases hnext

end Rodos.NextBeat
