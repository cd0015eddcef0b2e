import Rodos.Calendar

namespace Rodos.CalendarRoundTrip

open Gregorian MachineInt Calendar

open EcssTime (SECONDS)

/-- The days 1901-03-01 and 2100-02-28. -/
def FIRST : Int := -36100

def LAST : Int := 36583

def secondsOfDay (f : DateTime) : Rat := ((f.hour * 60 + f.min) * 60 : Int) + f.sec

structure Valid (f : DateTime) : Prop where
  date : f.date.Valid
  hour : 0 ≤ f.hour ∧ f.hour < 24
  min : 0 ≤ f.min ∧ f.min < 60
  sec : 0 ≤ f.sec ∧ f.sec < 60

/-- The time units from the beginning of 2000. -/
def instant (f : DateTime) : Rat := f.date.dayNumber * DAYS + secondsOfDay f * SECONDS

def Midnight (f : DateTime) : Prop := f.hour = 0 ∧ f.min = 0 ∧ f.sec = 0

section Days

variable {d : Date}

theorem daysBeforeYear_1901 : daysBeforeYear 1901 = -36159 := rfl

theorem daysBeforeYear_2100 : daysBeforeYear 2100 = 36525 := rfl

theorem daysBeforeYear_2101 : daysBeforeYear 2101 = 36890 := rfl

theorem year_range (hd : d.Valid) (hlow : FIRST ≤ d.dayNumber) (hhigh : d.dayNumber ≤ LAST) :
    1901 ≤ d.year ∧ d.year ≤ 2100 := by
  rw [FIRST] at hlow
  rw [LAST] at hhigh
  obtain ⟨hfirst, hlast⟩ := hd.year_bounds
  constructor
  · have hlt : daysBeforeYear 1901 < daysBeforeYear (d.year + 1) := by
      rw [daysBeforeYear_1901]
      omega
    have hyear := daysBeforeYear_strictMono.lt_iff_lt.mp hlt
    omega
  · have hlt : daysBeforeYear d.year < daysBeforeYear 2101 := by
      rw [daysBeforeYear_2101]
      omega
    have hyear := daysBeforeYear_strictMono.lt_iff_lt.mp hlt
    omega

theorem month_range (hd : d.Valid) (hhigh : d.dayNumber ≤ LAST) (hyear : d.year = 2100) :
    d.month ≤ 2 := by
  by_contra hmonth
  have hfirst := daysBeforeMonth_mono d.year (show 1 ≤ 3 by decide) (show 3 ≤ d.month by omega)
  have hday := hd.day_pos
  rw [daysBeforeMonth_eq (by decide) (by decide)] at hfirst
  rw [Date.dayNumber, LAST] at hhigh
  rw [hyear] at hfirst hhigh
  have hlength : daysInYear 2100 = 365 := rfl
  rw [daysBeforeYear_2100] at hhigh
  rw [hlength] at hfirst
  omega

theorem daysFrom2000_eq (hd : d.Valid) (hlow : FIRST ≤ d.dayNumber) (hhigh : d.dayNumber ≤ LAST) :
    367 * d.year - (7 * (d.year + (d.month + 9).tdiv 12)).tdiv 4 + (275 * d.month).tdiv 9 +
      d.day - 730531 = d.dayNumber := by
  obtain ⟨hfirst, hlast⟩ := year_range hd hlow hhigh
  have hmonth := hd.month_pos
  have hmonth' := hd.month_le
  have hlate := month_range hd hhigh
  rw [Int.tdiv_eq_ediv_of_nonneg (by omega : 0 ≤ d.month + 9),
    Int.tdiv_eq_ediv_of_nonneg (by omega : 0 ≤ 7 * (d.year + (d.month + 9) / 12)),
    Int.tdiv_eq_ediv_of_nonneg (by omega : 0 ≤ 275 * d.month)]
  rw [Date.dayNumber]
  rw [daysBeforeYear_eq hfirst hlast]
  clear hlow hhigh hd
  obtain ⟨year, month, day⟩ := d
  dsimp only at *
  rcases lt_or_ge month 3 with hearly | hearly
  · obtain rfl | rfl : month = 1 ∨ month = 2 := by omega
    · rw [daysBeforeMonth_one]
      omega
    · rw [daysBeforeMonth_two]
      omega
  · rw [daysBeforeMonth_eq hearly hmonth']
    have hyear : year ≤ 2099 := by omega
    have hleap := leap_iff hfirst hyear
    have hfive : 275 * month / 9 = (153 * (month - 3) + 2) / 5 + 91 := by
      interval_cases month <;> rfl
    have honce : (month + 9) / 12 = 1 := by omega
    rw [hfive, honce]
    rw [daysInYear]
    split
    · rename_i h
      rw [hleap] at h
      have hquarter : 7 * (year + 1) / 4 = 2 * year - (year - 1) / 4 := by omega
      omega
    · rename_i h
      rw [hleap] at h
      have hquarter : 7 * (year + 1) / 4 = 2 * year + 1 - (year - 1) / 4 := by
        have hrest : year % 4 = 1 ∨ year % 4 = 2 ∨ year % 4 = 3 := by omega
        rcases hrest with hrest | hrest | hrest <;> omega
      omega

end Days

section Units

variable {localTime : Int}

theorem units_nonneg (u : Int) :
    (u / HOURS * 60 + u / MINUTES % 60) * 60 * SECONDS + u / SECONDS % 60 * SECONDS +
      u % SECONDS = u := by
  rw [HOURS, MINUTES, SECONDS]
  omega

theorem units_eq (u : Int) :
    (u.tdiv HOURS * 60 + (u.tdiv MINUTES).tmod 60) * 60 * SECONDS +
      (u.tdiv SECONDS).tmod 60 * SECONDS + u.tmod SECONDS = u := by
  rcases le_or_gt 0 u with hu | hu
  · rw [Int.tdiv_eq_ediv_of_nonneg hu, Int.tdiv_eq_ediv_of_nonneg hu,
      Int.tdiv_eq_ediv_of_nonneg hu, Int.tmod_eq_emod_of_nonneg hu,
      Int.tmod_eq_emod_of_nonneg (Int.ediv_nonneg hu (by decide)),
      Int.tmod_eq_emod_of_nonneg (Int.ediv_nonneg hu (by decide))]
    exact units_nonneg u
  · obtain ⟨v, rfl⟩ : ∃ v, u = -v := ⟨-u, (Int.neg_neg u).symm⟩
    have hv : 0 ≤ v := by omega
    rw [Int.neg_tdiv, Int.neg_tdiv, Int.neg_tdiv, Int.neg_tmod, Int.neg_tmod, Int.neg_tmod,
      Int.tdiv_eq_ediv_of_nonneg hv, Int.tdiv_eq_ediv_of_nonneg hv,
      Int.tdiv_eq_ediv_of_nonneg hv, Int.tmod_eq_emod_of_nonneg hv,
      Int.tmod_eq_emod_of_nonneg (Int.ediv_nonneg hv (by decide)),
      Int.tmod_eq_emod_of_nonneg (Int.ediv_nonneg hv (by decide))]
    have hunits := units_nonneg v
    linarith

theorem seconds_pos : (0 : Rat) < SECONDS := by
  rw [SECONDS]
  norm_num

theorem days_pos : (0 : Rat) < DAYS := by
  rw [DAYS, HOURS, MINUTES, SECONDS]
  norm_num

theorem days_eq : (DAYS : Rat) = 86400 * SECONDS := by
  rw [DAYS, HOURS, MINUTES]
  push_cast
  ring

theorem quotient_unique {k l : Int} {x y m : Rat} (hx : 0 ≤ x ∧ x < m) (hy : 0 ≤ y ∧ y < m)
    (h : k * m + x = l * m + y) : k = l ∧ x = y := by
  have hm : 0 < m := hx.1.trans_lt hx.2
  have hle : ∀ {i j : Int} {a b : Rat}, 0 ≤ a → b < m → i * m + a = j * m + b → i ≤ j := by
    intro i j a b ha hb hsum
    have hlt : (i : Rat) * m < (j + 1 : Int) * m := by
      push_cast
      linarith
    have hij := lt_of_mul_lt_mul_right hlt hm.le
    exact Int.le_of_lt_add_one (Int.cast_lt.mp hij)
  obtain rfl : k = l := Int.le_antisymm (hle hx.1 hy.2 h) (hle hy.1 hx.2 h.symm)
  exact ⟨rfl, add_left_cancel h⟩

end Units

section Instants

variable {f g : DateTime} {localTime : Int}

theorem Valid.secondsOfDay_range (hf : Valid f) : 0 ≤ secondsOfDay f ∧ secondsOfDay f < 86400 := by
  obtain ⟨hhour, hhour'⟩ := hf.hour
  obtain ⟨hmin, hmin'⟩ := hf.min
  obtain ⟨hsec, hsec'⟩ := hf.sec
  have hlow : (0 : Rat) ≤ ((f.hour * 60 + f.min) * 60 : Int) := Int.cast_nonneg (by omega)
  have hhigh : (((f.hour * 60 + f.min) * 60 : Int) : Rat) ≤ (86340 : Int) :=
    Int.cast_le.mpr (by omega)
  rw [secondsOfDay]
  push_cast at hhigh hlow ⊢
  constructor <;> linarith

theorem Valid.unitsOfDay_range (hf : Valid f) :
    0 ≤ secondsOfDay f * SECONDS ∧ secondsOfDay f * SECONDS < DAYS := by
  obtain ⟨hlow, hhigh⟩ := hf.secondsOfDay_range
  rw [days_eq]
  exact ⟨mul_nonneg hlow seconds_pos.le, mul_lt_mul_of_pos_right hhigh seconds_pos⟩

theorem Valid.eq_of_instant (hf : Valid f) (hg : Valid g) (h : instant f = instant g) : f = g := by
  obtain ⟨hday, hunits⟩ := quotient_unique hf.unitsOfDay_range hg.unitsOfDay_range h
  have hseconds := mul_right_cancel₀ seconds_pos.ne' hunits
  unfold secondsOfDay at hseconds
  rw [Int.cast_mul, Int.cast_mul] at hseconds
  obtain ⟨hminutes, hsec⟩ := quotient_unique hf.sec hg.sec hseconds
  have hdate := hf.date.eq_of_dayNumber hg.date hday
  obtain ⟨hhour, hhour'⟩ := hf.hour
  obtain ⟨hmin, hmin'⟩ := hf.min
  obtain ⟨hgHour, hgHour'⟩ := hg.hour
  obtain ⟨hgMin, hgMin'⟩ := hg.min
  have hhours : f.hour = g.hour := by omega
  have hmins : f.min = g.min := by omega
  obtain ⟨date, hour, min, sec⟩ := f
  dsimp only at hdate hhours hmins hsec
  rw [hdate, hhours, hmins, hsec]

end Instants

section Conversions

variable {f : DateTime} {localTime : Int}

theorem day_bounds (localTime : Int) :
    localTime.tdiv DAYS * DAYS + localTime.tmod DAYS = localTime ∧
      (0 ≤ localTime → 0 ≤ localTime.tmod DAYS ∧ localTime.tmod DAYS < DAYS) ∧
      (localTime ≤ 0 → localTime.tmod DAYS ≤ 0 ∧ -DAYS < localTime.tmod DAYS) := by
  refine ⟨Int.tdiv_mul_add_tmod localTime DAYS, ?_, ?_⟩
  · intro h
    exact ⟨Int.tmod_nonneg DAYS h, Int.tmod_lt_of_pos localTime (by decide)⟩
  · intro h
    have hnonneg := Int.tmod_nonneg DAYS (Int.neg_nonneg.mpr h)
    have hlt := Int.tmod_lt_of_pos (-localTime) (show 0 < DAYS by decide)
    rw [Int.neg_tmod] at hnonneg hlt
    omega

theorem day_range (hlow : FIRST * DAYS ≤ localTime) (hhigh : localTime ≤ LAST * DAYS) :
    FIRST ≤ localTime.tdiv DAYS ∧ localTime.tdiv DAYS ≤ LAST := by
  obtain ⟨hsum, hpos, hneg⟩ := day_bounds localTime
  unfold FIRST DAYS HOURS MINUTES SECONDS at *
  unfold LAST at *
  omega

theorem localTime2Calendar_date (hlow : FIRST * DAYS ≤ localTime)
    (hhigh : localTime ≤ LAST * DAYS) :
    (localTime2Calendar localTime).date.Valid ∧
      (localTime2Calendar localTime).date.dayNumber = localTime.tdiv DAYS := by
  obtain ⟨hfirst, hlast⟩ := day_range hlow hhigh
  have hdays : int32 (localTime.tdiv DAYS) = localTime.tdiv DAYS := by
    rw [FIRST] at hfirst
    rw [LAST] at hlast
    exact int32_eq (by omega) (by omega)
  have hdate := calendarDate_spec hfirst hlast
  rw [localTime2Calendar]
  dsimp only
  rwa [hdays]

theorem localTime2Calendar_units (localTime : Int) :
    secondsOfDay (localTime2Calendar localTime) * SECONDS = (localTime.tmod DAYS : Int) := by
  have hunits := congrArg (Int.cast (R := Rat)) (units_eq (localTime.tmod DAYS))
  rw [← hunits]
  rw [secondsOfDay, localTime2Calendar]
  push_cast
  have hcancel := div_mul_cancel₀ (((localTime.tmod DAYS).tmod SECONDS : Int) : Rat) seconds_pos.ne'
  linear_combination hcancel

/-- Every field is right but for the sign of the time of the day. -/
theorem localTime2Calendar_instant (hlow : FIRST * DAYS ≤ localTime)
    (hhigh : localTime ≤ LAST * DAYS) : instant (localTime2Calendar localTime) = localTime := by
  have hsum := congrArg (Int.cast (R := Rat)) (Int.tdiv_mul_add_tmod localTime DAYS)
  rw [instant]
  rw [(localTime2Calendar_date hlow hhigh).2, localTime2Calendar_units, ← hsum]
  push_cast
  rfl

theorem truncate_intCast (n : Int) : truncate (n : Rat) = n := by
  rw [truncate]
  rw [Int.floor_intCast, Int.ceil_intCast, ite_self]

theorem calendar2LocalTime_eq (hdate : f.date.Valid) (hlow : FIRST ≤ f.date.dayNumber)
    (hhigh : f.date.dayNumber ≤ LAST) :
    calendar2LocalTime f = f.date.dayNumber * DAYS + truncate (secondsOfDay f * SECONDS) := by
  have hdays : int32 f.date.dayNumber = f.date.dayNumber := by
    rw [FIRST] at hlow
    rw [LAST] at hhigh
    exact int32_eq (by omega) (by omega)
  unfold calendar2LocalTime secondsOfDay
  dsimp only
  rw [daysFrom2000_eq hdate hlow hhigh, hdays]

theorem calendar2LocalTime_localTime2Calendar (hlow : FIRST * DAYS ≤ localTime)
    (hhigh : localTime ≤ LAST * DAYS) :
    calendar2LocalTime (localTime2Calendar localTime) = localTime := by
  obtain ⟨hdate, hday⟩ := localTime2Calendar_date hlow hhigh
  obtain ⟨hfirst, hlast⟩ := day_range hlow hhigh
  rw [← hday] at hfirst hlast
  rw [calendar2LocalTime_eq hdate hfirst hlast, hday, localTime2Calendar_units, truncate_intCast]
  exact Int.tdiv_mul_add_tmod localTime DAYS

theorem localTime2Calendar_sec (h : 0 ≤ localTime.tmod DAYS) :
    0 ≤ (localTime2Calendar localTime).sec ∧ (localTime2Calendar localTime).sec < 60 := by
  obtain ⟨u, hu⟩ : ∃ u, u = localTime.tmod DAYS := ⟨_, rfl⟩
  rw [← hu] at h
  have hseconds : 0 ≤ u / SECONDS % 60 ∧ u / SECONDS % 60 ≤ 59 := by omega
  have hlow := Int.emod_nonneg u (show SECONDS ≠ 0 by decide)
  have hhigh := Int.emod_lt_of_pos u (show 0 < SECONDS by decide)
  have hpart : (0 : Rat) ≤ (u % SECONDS : Int) / SECONDS :=
    div_nonneg (Int.cast_nonneg hlow) seconds_pos.le
  have hpart' : ((u % SECONDS : Int) : Rat) / SECONDS < 1 :=
    (div_lt_one seconds_pos).mpr (Int.cast_lt.mpr hhigh)
  have hwhole : (0 : Rat) ≤ (u / SECONDS % 60 : Int) := Int.cast_nonneg hseconds.1
  have hwhole' : ((u / SECONDS % 60 : Int) : Rat) ≤ (59 : Int) := Int.cast_le.mpr hseconds.2
  rw [localTime2Calendar]
  dsimp only
  rw [← hu, Int.tdiv_eq_ediv_of_nonneg h, Int.tmod_eq_emod_of_nonneg h,
    Int.tmod_eq_emod_of_nonneg (Int.ediv_nonneg h (by decide))]
  push_cast at hwhole' ⊢
  constructor <;> linarith

theorem localTime2Calendar_valid (hlow : FIRST * DAYS ≤ localTime)
    (hhigh : localTime ≤ LAST * DAYS) (h : 0 ≤ localTime.tmod DAYS) :
    Valid (localTime2Calendar localTime) := by
  have hlt := Int.tmod_lt_of_pos localTime (show 0 < DAYS by decide)
  refine ⟨(localTime2Calendar_date hlow hhigh).1, ?_, ?_, localTime2Calendar_sec h⟩
  · rw [localTime2Calendar]
    dsimp only
    rw [Int.tdiv_eq_ediv_of_nonneg h]
    unfold DAYS HOURS MINUTES SECONDS at *
    omega
  · rw [localTime2Calendar]
    dsimp only
    rw [Int.tdiv_eq_ediv_of_nonneg h,
      Int.tmod_eq_emod_of_nonneg (Int.ediv_nonneg h (by decide))]
    omega

theorem localTime2Calendar_valid_iff (hlow : FIRST * DAYS ≤ localTime)
    (hhigh : localTime ≤ LAST * DAYS) :
    Valid (localTime2Calendar localTime) ↔ 0 ≤ localTime ∨ DAYS ∣ localTime := by
  obtain ⟨hsum, hpos, hneg⟩ := day_bounds localTime
  constructor
  · intro hvalid
    rcases le_or_gt 0 localTime with hnonneg | hbefore
    · exact Or.inl hnonneg
    · have hunits := hvalid.unitsOfDay_range.1
      rw [localTime2Calendar_units] at hunits
      have hzero := Int.le_antisymm (hneg hbefore.le).1 (Int.cast_nonneg_iff.mp hunits)
      exact Or.inr (Int.dvd_of_tmod_eq_zero hzero)
  · rintro (hnonneg | hmidnight)
    · exact localTime2Calendar_valid hlow hhigh (hpos hnonneg).1
    · exact localTime2Calendar_valid hlow hhigh (Int.tmod_eq_zero_of_dvd hmidnight).ge

theorem Valid.day_range (hf : Valid f) (hlow : ((FIRST * DAYS : Int) : Rat) ≤ instant f)
    (hhigh : instant f ≤ ((LAST * DAYS : Int) : Rat)) :
    FIRST ≤ f.date.dayNumber ∧ f.date.dayNumber ≤ LAST := by
  obtain ⟨hunits, hunits'⟩ := hf.unitsOfDay_range
  rw [instant] at hlow hhigh
  rw [Int.cast_mul] at hlow hhigh
  constructor
  · have hlt : (FIRST : Rat) * DAYS < (f.date.dayNumber + 1 : Int) * DAYS := by
      push_cast
      linarith
    exact Int.le_of_lt_add_one (Int.cast_lt.mp (lt_of_mul_lt_mul_right hlt days_pos.le))
  · have hle : (f.date.dayNumber : Rat) * DAYS ≤ LAST * DAYS := by linarith
    exact Int.cast_le.mp (le_of_mul_le_mul_right hle days_pos)

theorem Valid.calendar2LocalTime_range (hf : Valid f)
    (hlow : ((FIRST * DAYS : Int) : Rat) ≤ instant f)
    (hhigh : instant f ≤ ((LAST * DAYS : Int) : Rat)) :
    calendar2LocalTime f = ⌊instant f⌋ ∧ FIRST * DAYS ≤ calendar2LocalTime f ∧
      calendar2LocalTime f ≤ LAST * DAYS := by
  obtain ⟨hfirst, hlast⟩ := hf.day_range hlow hhigh
  have hunits := hf.unitsOfDay_range.1
  have hfloor : calendar2LocalTime f = ⌊instant f⌋ := by
    rw [calendar2LocalTime_eq hf.date hfirst hlast]
    rw [truncate, instant]
    rw [if_pos hunits, ← Int.cast_mul, Int.floor_intCast_add]
  refine ⟨hfloor, ?_, ?_⟩
  · rw [hfloor]
    exact Int.le_floor.mpr hlow
  · rw [hfloor]
    exact Int.cast_le.mp ((Int.floor_le _).trans hhigh)

theorem Valid.midnight_of_dvd (hf : Valid f) {n : Int} (h : instant f = n) (hn : DAYS ∣ n) :
    Midnight f := by
  obtain ⟨k, rfl⟩ := hn
  have hday : f.date.dayNumber * (DAYS : Rat) + secondsOfDay f * SECONDS = k * DAYS + 0 := by
    rw [add_zero, mul_comm (k : Rat), ← Int.cast_mul DAYS k]
    exact h
  obtain ⟨-, hunits⟩ := quotient_unique hf.unitsOfDay_range ⟨le_refl 0, days_pos⟩ hday
  have hzero : secondsOfDay f = 0 := (mul_eq_zero.mp hunits).resolve_right seconds_pos.ne'
  obtain ⟨hhour, -⟩ := hf.hour
  obtain ⟨hmin, -⟩ := hf.min
  obtain ⟨hsec, hsec'⟩ := hf.sec
  rw [secondsOfDay] at hzero
  have hminutes : (f.hour * 60 + f.min) * 60 = 0 := by
    have hle : (((f.hour * 60 + f.min) * 60 : Int) : Rat) ≤ (0 : Int) := by
      push_cast at hzero ⊢
      linarith
    have hle' := Int.cast_le.mp hle
    omega
  refine ⟨by omega, by omega, ?_⟩
  rw [hminutes] at hzero
  push_cast at hzero
  linarith

theorem midnight_instant (h : Midnight f) : instant f = (f.date.dayNumber * DAYS : Int) := by
  obtain ⟨hhour, hmin, hsec⟩ := h
  rw [instant, secondsOfDay]
  rw [hhour, hmin, hsec]
  push_cast
  ring

theorem instant_whole_iff (f : DateTime) :
    (∃ n : Int, instant f = n) ↔ ∃ n : Int, f.sec * SECONDS = n := by
  have hsum : instant f =
      (f.date.dayNumber * DAYS + (f.hour * 60 + f.min) * 60 * SECONDS : Int) + f.sec * SECONDS := by
    rw [instant, secondsOfDay]
    push_cast
    ring
  rw [hsum]
  constructor
  · rintro ⟨n, hn⟩
    refine ⟨n - (f.date.dayNumber * DAYS + (f.hour * 60 + f.min) * 60 * SECONDS), ?_⟩
    rw [Int.cast_sub, ← hn]
    ring
  · rintro ⟨n, hn⟩
    refine ⟨f.date.dayNumber * DAYS + (f.hour * 60 + f.min) * 60 * SECONDS + n, ?_⟩
    rw [hn, ← Int.cast_add]

theorem Valid.roundTrip_iff (hf : Valid f) (hlow : ((FIRST * DAYS : Int) : Rat) ≤ instant f)
    (hhigh : instant f ≤ ((LAST * DAYS : Int) : Rat)) :
    localTime2Calendar (calendar2LocalTime f) = f ↔
      (∃ n : Int, f.sec * SECONDS = n) ∧ (0 ≤ instant f ∨ Midnight f) := by
  obtain ⟨hfloor, hfirst, hlast⟩ := hf.calendar2LocalTime_range hlow hhigh
  rw [← instant_whole_iff]
  constructor
  · intro h
    have hwhole := localTime2Calendar_instant hfirst hlast
    have hvalid := localTime2Calendar_valid_iff hfirst hlast
    rw [h] at hwhole hvalid
    refine ⟨⟨_, hwhole⟩, ?_⟩
    rcases hvalid.mp hf with hnonneg | hmidnight
    · left
      rw [hwhole]
      exact Int.cast_nonneg hnonneg
    · exact Or.inr (hf.midnight_of_dvd hwhole hmidnight)
  · rintro ⟨⟨n, hn⟩, h⟩
    rw [hn, Int.floor_intCast] at hfloor
    rw [hfloor] at hfirst hlast ⊢
    have hvalid : Valid (localTime2Calendar n) := by
      apply (localTime2Calendar_valid_iff hfirst hlast).mpr
      rcases h with hnonneg | hmidnight
      · left
        rw [hn] at hnonneg
        exact Int.cast_nonneg_iff.mp hnonneg
      · right
        rw [midnight_instant hmidnight] at hn
        rw [← Int.cast_inj.mp hn]
        exact Int.dvd_mul_left _ _
    apply hvalid.eq_of_instant hf
    rw [localTime2Calendar_instant hfirst hlast, hn]

/-- The conversions are right from 2000 on; earlier they are where the day begins. -/
theorem calendar_roundTrip_iff (localTime : Int) (f : DateTime) :
    (FIRST * DAYS ≤ localTime → localTime ≤ LAST * DAYS →
      (Valid (localTime2Calendar localTime) ∧ instant (localTime2Calendar localTime) = localTime ∧
        calendar2LocalTime (localTime2Calendar localTime) = localTime ↔
          0 ≤ localTime ∨ DAYS ∣ localTime)) ∧
      (Valid f → ((FIRST * DAYS : Int) : Rat) ≤ instant f →
        instant f ≤ ((LAST * DAYS : Int) : Rat) →
        (localTime2Calendar (calendar2LocalTime f) = f ↔
          (∃ n : Int, f.sec * SECONDS = n) ∧ (0 ≤ instant f ∨ Midnight f))) := by
  constructor
  · intro hlow hhigh
    rw [← localTime2Calendar_valid_iff hlow hhigh]
    constructor
    · exact fun h => h.1
    · intro h
      exact ⟨h, localTime2Calendar_instant hlow hhigh,
        calendar2LocalTime_localTime2Calendar hlow hhigh⟩
  · intro hf hlow hhigh
    exact hf.roundTrip_iff hlow hhigh

def leapDay : DateTime := ⟨⟨2000, 2, 29⟩, 12, 30, 1 / 2⟩

theorem leapDay_valid : Valid leapDay := by
  refine ⟨⟨by decide, by decide, by decide, by decide⟩, ⟨by decide, by decide⟩,
    ⟨by decide, by decide⟩, ?_⟩
  rw [leapDay]
  norm_num

theorem leapDay_instant : instant leapDay = (5142600500000000 : Int) := by
  have hday : leapDay.date.dayNumber = 59 := rfl
  rw [instant]
  rw [hday]
  rw [secondsOfDay, leapDay, DAYS, HOURS, MINUTES, SECONDS]
  norm_num

theorem calendar_roundTrip_iff_leapDay :
    (Valid (localTime2Calendar 86401500000000) ∧
      instant (localTime2Calendar 86401500000000) = (86401500000000 : Int) ∧
      calendar2LocalTime (localTime2Calendar 86401500000000) = 86401500000000) ∧
      localTime2Calendar (calendar2LocalTime leapDay) = leapDay := by
  constructor
  · exact ((calendar_roundTrip_iff 86401500000000 leapDay).1 (by decide) (by decide)).mpr
      (Or.inl (by decide))
  · refine ((calendar_roundTrip_iff 86401500000000 leapDay).2 leapDay_valid ?_ ?_).mpr
      ⟨⟨500000000, ?_⟩, Or.inl ?_⟩
    · rw [leapDay_instant]
      exact Int.cast_le.mpr (by decide)
    · rw [leapDay_instant]
      exact Int.cast_le.mpr (by decide)
    · rw [leapDay, SECONDS]
      norm_num
    · rw [leapDay_instant]
      exact Int.cast_nonneg (by decide)

/-- One second before 2000 becomes a date of 2000 with the second -1. -/
theorem localTime2Calendar_negative :
    FIRST * DAYS ≤ -1000000000 ∧ (-1000000000 : Int) ≤ LAST * DAYS ∧
      (localTime2Calendar (-1000000000)).date.year = 2000 ∧
      (localTime2Calendar (-1000000000)).sec = -1 ∧
      ¬Valid (localTime2Calendar (-1000000000)) := by
  have hsec : (localTime2Calendar (-1000000000)).sec = -1 := by decide +kernel
  refine ⟨by decide, by decide, by decide +kernel, hsec, ?_⟩
  intro hvalid
  have hnonneg := hvalid.sec.1
  rw [hsec] at hnonneg
  norm_num at hnonneg

end Conversions

end Rodos.CalendarRoundTrip
