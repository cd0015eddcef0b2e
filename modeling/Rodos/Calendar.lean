import Rodos.EcssTime
import Rodos.Gregorian
import Rodos.MachineInt

namespace Rodos.Calendar

open Gregorian MachineInt

open EcssTime (SECONDS)

def MINUTES : Int := 60 * SECONDS

def HOURS : Int := 60 * MINUTES

def DAYS : Int := 24 * HOURS

def truncate (x : Rat) : Int := if 0 ≤ x then ⌊x⌋ else ⌈x⌉

structure DateTime where
  date : Date
  hour : Int
  min : Int
  sec : Rat

def calendarDate (days : Int) : Date :=
  let a := 2451545 + days
  let b := truncate ((a - 1867216.25) / 36524.25)
  let c := a + b - b.tdiv 4 + 1525
  let d := truncate ((c - 122.1) / 365.25)
  let e := 365 * d + d.tdiv 4
  let f := truncate ((c - e : Int) / 30.6001)
  let month := f - 1 - 12 * f.tdiv 14
  { year := d - 4715 - (7 + month).tdiv 10
    month := month
    day := c - e - truncate (30.6001 * f) }

def localTime2Calendar (localTime : Int) : DateTime :=
  let days := int32 (localTime.tdiv DAYS)
  let localTimeUnitsOfTheDay := localTime.tmod DAYS
  { date := calendarDate days
    hour := localTimeUnitsOfTheDay.tdiv HOURS
    min := (localTimeUnitsOfTheDay.tdiv MINUTES).tmod 60
    sec := ((localTimeUnitsOfTheDay.tdiv SECONDS).tmod 60 : Int) +
      (localTimeUnitsOfTheDay.tmod SECONDS : Int) / SECONDS }

def calendar2LocalTime (f : DateTime) : Int :=
  let daysFrom2000 := int32 (367 * f.date.year -
    (7 * (f.date.year + (f.date.month + 9).tdiv 12)).tdiv 4 + (275 * f.date.month).tdiv 9 +
    f.date.day - 730531)
  let secondsOfDay : Rat := ((f.hour * 60 + f.min) * 60 : Int) + f.sec
  daysFrom2000 * DAYS + truncate (secondsOfDay * SECONDS)

section Truncation

theorem truncate_div (n : Int) {m : Nat} (hm : 0 < m) : truncate ((n : Rat) / m) = n.tdiv m := by
  have hpos : (0 : Rat) < m := Nat.cast_pos.mpr hm
  rw [truncate]
  rcases lt_or_ge n 0 with hneg | hnonneg
  · have hlt : (n : Rat) / m < 0 := div_neg_of_neg_of_pos (Int.cast_lt_zero.mpr hneg) hpos
    have hceil : ⌈(n : Rat) / m⌉ = -⌊((-n : Int) : Rat) / m⌋ := by
      rw [Int.cast_neg, neg_div, Int.floor_neg, neg_neg]
    rw [if_neg (not_le.mpr hlt), hceil, Rat.floor_intCast_div_natCast,
      ← Int.tdiv_eq_ediv_of_nonneg (by omega), Int.neg_tdiv, Int.neg_neg]
  · have hge : 0 ≤ (n : Rat) / m := div_nonneg (Int.cast_nonneg hnonneg) hpos.le
    rw [if_pos hge, Rat.floor_intCast_div_natCast, Int.tdiv_eq_ediv_of_nonneg hnonneg]

theorem truncate_quotient {n : Int} {m : Nat} (hn : 0 ≤ n) (hm : 0 < m) {x : Rat}
    (hx : x = (n : Rat) / m) : truncate x = n / m := by
  rw [hx, truncate_div n hm, Int.tdiv_eq_ediv_of_nonneg hn]

end Truncation

section Dates

variable {days : Int}

/-- The days from March on, counted from a day in the past, in whole numbers. -/
theorem calendarDate_eq (hlow : -36100 ≤ days) (hhigh : days ≤ 36583) {c d f : Int}
    (hc : c = days + 2453082) (hd : d = (20 * c - 2442) / 7305)
    (hf : f = 10000 * (c - (365 * d + d / 4)) / 306001) :
    calendarDate days = ⟨d - 4715 - (7 + (f - 1 - 12 * (f / 14))) / 10, f - 1 - 12 * (f / 14),
      c - (365 * d + d / 4) - 306001 * f / 10000⟩ := by
  have hb : truncate (((2451545 + days : Int) - 1867216.25) / 36524.25) =
      (4 * (2451545 + days) - 7468865) / 146097 := by
    refine truncate_quotient (by omega) (by decide) ?_
    push_cast
    ring
  have hc' : 2451545 + days + (4 * (2451545 + days) - 7468865) / 146097 -
      ((4 * (2451545 + days) - 7468865) / 146097) / 4 + 1525 = c := by
    omega
  have hd' : truncate ((c - 122.1) / 365.25) = d := by
    rw [hd]
    refine truncate_quotient (by omega) (by decide) ?_
    push_cast
    ring
  have hf' : truncate ((c - (365 * d + d / 4) : Int) / 30.6001) = f := by
    rw [hf]
    refine truncate_quotient (by omega) (by decide) ?_
    push_cast
    ring
  have hday : truncate (30.6001 * f) = 306001 * f / 10000 := by
    refine truncate_quotient (by omega) (by decide) ?_
    push_cast
    ring
  have hcentury : ((4 * (2451545 + days) - 7468865) / 146097).tdiv 4 =
      (4 * (2451545 + days) - 7468865) / 146097 / 4 :=
    Int.tdiv_eq_ediv_of_nonneg (by omega)
  have hleap : d.tdiv 4 = d / 4 := Int.tdiv_eq_ediv_of_nonneg (by omega)
  have hmonth : f.tdiv 14 = f / 14 := Int.tdiv_eq_ediv_of_nonneg (by omega)
  have hyear : (7 + (f - 1 - 12 * (f / 14))).tdiv 10 = (7 + (f - 1 - 12 * (f / 14))) / 10 :=
    Int.tdiv_eq_ediv_of_nonneg (by omega)
  unfold calendarDate
  dsimp only
  rw [hb, hcentury, hc', hd', hleap, hf', hday, hmonth, hyear]

theorem leap_iff {year : Int} (hlow : 1901 ≤ year) (hhigh : year ≤ 2099) :
    Leap year ↔ year % 4 = 0 := by
  rw [Leap]
  omega

theorem daysBeforeYear_eq {year : Int} (hlow : 1901 ≤ year) (hhigh : year ≤ 2100) :
    daysBeforeYear year = 365 * (year - 2000) + (year - 1) / 4 - 499 := by
  rw [daysBeforeYear]
  omega

/-- In the year that begins in March the months from March to December. -/
theorem date_from_march {c d f : Int} (hlow : -36100 ≤ days) (hhigh : days ≤ 36583)
    (hc : c = days + 2453082) (hd : d = (20 * c - 2442) / 7305)
    (hf : f = 10000 * (c - (365 * d + d / 4)) / 306001) (hmonth : f ≤ 13) :
    Date.Valid ⟨d - 4716, f - 1, c - (365 * d + d / 4) - 306001 * f / 10000⟩ ∧
      Date.dayNumber ⟨d - 4716, f - 1, c - (365 * d + d / 4) - 306001 * f / 10000⟩ = days := by
  have hfirst : 4 ≤ f := by omega
  have hplace : 306001 * f / 10000 = 122 + (153 * (f - 4) + 2) / 5 ∧
      122 + (153 * (f - 4) + 2) / 5 < c - (365 * d + d / 4) ∧
      c - (365 * d + d / 4) ≤ 122 + (153 * (f - 3) + 2) / 5 := by
    clear hc hd
    generalize c - (365 * d + d / 4) = r at hf
    interval_cases f <;> omega
  have hyear : 1901 ≤ d - 4716 ∧ d - 4716 ≤ 2099 := by omega
  have hleap := leap_iff hyear.1 hyear.2
  have hthree : f - 1 - 3 = f - 4 := by omega
  have htwo : f - 1 - 2 = f - 3 := by omega
  constructor
  · refine ⟨?_, ?_, ?_, ?_⟩
    · dsimp only
      omega
    · dsimp only
      omega
    · dsimp only
      omega
    · dsimp only
      rw [daysInMonth_eq (by omega) (by omega), hthree, htwo]
      omega
  · rw [Date.dayNumber]
    dsimp only
    rw [daysBeforeYear_eq hyear.1 (by omega), daysBeforeMonth_eq (by omega) (by omega), hthree]
    rw [daysInYear]
    have hquarter : d / 4 = (d - 4716) / 4 + 1179 := by omega
    split
    · rename_i h
      rw [hleap] at h
      have hprevious : (d - 4716 - 1) / 4 = (d - 4716) / 4 - 1 := by omega
      omega
    · rename_i h
      rw [hleap] at h
      have hprevious : (d - 4716 - 1) / 4 = (d - 4716) / 4 := by omega
      omega

theorem date_january {c d : Int} (hlow : -36100 ≤ days) (hhigh : days ≤ 36583)
    (hc : c = days + 2453082) (hd : d = (20 * c - 2442) / 7305)
    (hf : 14 = 10000 * (c - (365 * d + d / 4)) / 306001) :
    Date.Valid ⟨d - 4715, 1, c - (365 * d + d / 4) - 428⟩ ∧
      Date.dayNumber ⟨d - 4715, 1, c - (365 * d + d / 4) - 428⟩ = days := by
  have hyear : 1902 ≤ d - 4715 ∧ d - 4715 ≤ 2100 := by omega
  constructor
  · refine ⟨Int.le_refl 1, (by decide : (1 : Int) ≤ 12), ?_, ?_⟩
    · dsimp only
      omega
    · change _ ≤ (31 : Int)
      dsimp only
      omega
  · rw [Date.dayNumber]
    dsimp only
    rw [daysBeforeYear_eq (by omega) hyear.2, daysBeforeMonth_one]
    omega

theorem date_february {c d : Int} (hlow : -36100 ≤ days) (hhigh : days ≤ 36583)
    (hc : c = days + 2453082) (hd : d = (20 * c - 2442) / 7305)
    (hf : 15 = 10000 * (c - (365 * d + d / 4)) / 306001) :
    Date.Valid ⟨d - 4715, 2, c - (365 * d + d / 4) - 459⟩ ∧
      Date.dayNumber ⟨d - 4715, 2, c - (365 * d + d / 4) - 459⟩ = days := by
  have hyear : 1902 ≤ d - 4715 ∧ d - 4715 ≤ 2100 := by omega
  constructor
  · refine ⟨(by decide : (1 : Int) ≤ 2), (by decide : (2 : Int) ≤ 12), ?_, ?_⟩
    · dsimp only
      omega
    · change _ ≤ if Leap (d - 4715) then (29 : Int) else 28
      dsimp only
      split
      · omega
      · rename_i h
        rcases lt_or_ge (d - 4715) 2100 with hlt | hlast
        · rw [leap_iff (by omega) (by omega)] at h
          have hcommon : d % 4 ≤ 2 := by omega
          omega
        · omega
  · rw [Date.dayNumber]
    dsimp only
    rw [daysBeforeYear_eq (by omega) hyear.2, daysBeforeMonth_two]
    omega

theorem calendarDate_spec (hlow : -36100 ≤ days) (hhigh : days ≤ 36583) :
    (calendarDate days).Valid ∧ (calendarDate days).dayNumber = days := by
  obtain ⟨c, hc⟩ : ∃ c, c = days + 2453082 := ⟨_, rfl⟩
  obtain ⟨d, hd⟩ : ∃ d, d = (20 * c - 2442) / 7305 := ⟨_, rfl⟩
  obtain ⟨f, hf⟩ : ∃ f, f = 10000 * (c - (365 * d + d / 4)) / 306001 := ⟨_, rfl⟩
  rw [calendarDate_eq hlow hhigh hc hd hf]
  have hlast : f ≤ 15 := by omega
  rcases lt_or_ge f 14 with hmonth | hmonth
  · have hdate := date_from_march hlow hhigh hc hd hf (by omega)
    have hfirst : 4 ≤ f := by omega
    have hquotient : f / 14 = 0 := by omega
    have hyear : (7 + (f - 1)) / 10 = 1 := by omega
    rw [hquotient, Int.mul_zero, Int.sub_zero, hyear, Int.sub_sub]
    exact hdate
  · obtain rfl | rfl : f = 14 ∨ f = 15 := by omega
    · have hdate := date_january hlow hhigh hc hd hf
      norm_num
      exact hdate
    · have hdate := date_february hlow hhigh hc hd hf
      norm_num
      exact hdate

end Dates

end Rodos.Calendar
