import Mathlib

namespace Rodos.Gregorian

structure Date where
  year : Int
  month : Int
  day : Int

def Leap (year : Int) : Prop := year % 4 = 0 ∧ (year % 100 ≠ 0 ∨ year % 400 = 0)

instance (year : Int) : Decidable (Leap year) :=
  inferInstanceAs (Decidable (year % 4 = 0 ∧ (year % 100 ≠ 0 ∨ year % 400 = 0)))

def daysInMonth (year month : Int) : Int :=
  if month = 2 then if Leap year then 29 else 28
  else if month = 4 ∨ month = 6 ∨ month = 9 ∨ month = 11 then 30 else 31

def daysInYear (year : Int) : Int := if Leap year then 366 else 365

def daysBeforeMonth (year month : Int) : Int :=
  ((List.range (month - 1).toNat).map fun i : Nat => daysInMonth year (i + 1)).sum

def daysBeforeYear (year : Int) : Int :=
  365 * (year - 2000) + (year - 1) / 4 - (year - 1) / 100 + (year - 1) / 400 - 484

namespace Date

structure Valid (d : Date) : Prop where
  month_pos : 1 ≤ d.month
  month_le : d.month ≤ 12
  day_pos : 1 ≤ d.day
  day_le : d.day ≤ daysInMonth d.year d.month

/-- The days since 1 January 2000. -/
def dayNumber (d : Date) : Int := daysBeforeYear d.year + daysBeforeMonth d.year d.month + d.day - 1

end Date

section Lengths

variable {year month month' : Int}

theorem daysInMonth_pos (year month : Int) : 28 ≤ daysInMonth year month := by
  rw [daysInMonth]
  split_ifs <;> decide

theorem daysBeforeYear_succ (year : Int) :
    daysBeforeYear (year + 1) = daysBeforeYear year + daysInYear year := by
  unfold daysBeforeYear daysInYear Leap
  split_ifs <;> omega

example : daysBeforeYear 2000 = 0 := rfl

theorem daysBeforeYear_strictMono : StrictMono daysBeforeYear := by
  apply strictMono_int_of_lt_succ
  intro year
  rw [daysBeforeYear_succ]
  rw [daysInYear]
  split_ifs <;> omega

theorem daysBeforeMonth_one (year : Int) : daysBeforeMonth year 1 = 0 := rfl

theorem daysBeforeMonth_succ (hmonth : 1 ≤ month) :
    daysBeforeMonth year (month + 1) = daysBeforeMonth year month + daysInMonth year month := by
  obtain ⟨n, rfl⟩ : ∃ n : Nat, month = n + 1 := ⟨(month - 1).toNat, by omega⟩
  have hnext : ((n : Int) + 1 + 1 - 1).toNat = n + 1 := by omega
  have hthis : ((n : Int) + 1 - 1).toNat = n := by omega
  rw [daysBeforeMonth, daysBeforeMonth, hnext, hthis, List.range_succ, List.map_append,
    List.sum_append, List.map_singleton, List.sum_singleton]

theorem daysBeforeMonth_mono (year : Int) (hmonth : 1 ≤ month) (hle : month ≤ month') :
    daysBeforeMonth year month ≤ daysBeforeMonth year month' := by
  induction month', hle using Int.leInduction with
  | base => exact Int.le_refl _
  | succ m hm ih =>
    have hpos := daysInMonth_pos year m
    rw [daysBeforeMonth_succ (hmonth.trans hm)]
    omega

theorem daysBeforeMonth_thirteen (year : Int) : daysBeforeMonth year 13 = daysInYear year := by
  rw [daysInYear]
  by_cases hleap : Leap year <;> simp [daysBeforeMonth, daysInMonth, hleap, List.range_succ]

theorem daysBeforeMonth_two (year : Int) : daysBeforeMonth year 2 = 31 := rfl

/-- From March on five months have 153 days. -/
theorem daysInMonth_eq (hlow : 3 ≤ month) (hhigh : month ≤ 12) :
    daysInMonth year month = (153 * (month - 2) + 2) / 5 - (153 * (month - 3) + 2) / 5 := by
  rw [daysInMonth]
  interval_cases month <;> rfl

theorem daysBeforeMonth_eq (hlow : 3 ≤ month) (hhigh : month ≤ 12) :
    daysBeforeMonth year month = 59 + (153 * (month - 3) + 2) / 5 + (daysInYear year - 365) := by
  rw [daysInYear]
  by_cases hleap : Leap year
  · interval_cases month <;> simp [daysBeforeMonth, daysInMonth, hleap, List.range_succ]
  · interval_cases month <;> simp [daysBeforeMonth, daysInMonth, hleap, List.range_succ]

end Lengths

namespace Date

variable {d d' : Date}

theorem Valid.month_bounds (h : d.Valid) :
    daysBeforeMonth d.year d.month < daysBeforeMonth d.year d.month + d.day ∧
      daysBeforeMonth d.year d.month + d.day ≤ daysBeforeMonth d.year (d.month + 1) := by
  have hpos := h.day_pos
  have hle := h.day_le
  rw [daysBeforeMonth_succ h.month_pos]
  omega

theorem Valid.year_bounds (h : d.Valid) :
    daysBeforeYear d.year ≤ d.dayNumber ∧ d.dayNumber < daysBeforeYear (d.year + 1) := by
  obtain ⟨hlow, hhigh⟩ := h.month_bounds
  have hfirst := daysBeforeMonth_mono d.year (Int.le_refl 1) h.month_pos
  have hlast := daysBeforeMonth_mono d.year
    (show 1 ≤ d.month + 1 by have := h.month_pos; omega)
    (show d.month + 1 ≤ 13 by have := h.month_le; omega)
  rw [daysBeforeMonth_one] at hfirst
  rw [daysBeforeMonth_thirteen] at hlast
  rw [daysBeforeYear_succ, dayNumber]
  omega

theorem Valid.year_le (h : d.Valid) (h' : d'.Valid) (hle : d.dayNumber ≤ d'.dayNumber) :
    d.year ≤ d'.year := by
  have hlt := h.year_bounds.1.trans_lt (hle.trans_lt h'.year_bounds.2)
  exact Int.le_of_lt_add_one (daysBeforeYear_strictMono.lt_iff_lt.mp hlt)

theorem Valid.eq_of_dayNumber (h : d.Valid) (h' : d'.Valid) (heq : d.dayNumber = d'.dayNumber) :
    d = d' := by
  obtain ⟨year, month, day⟩ := d
  obtain ⟨year', month', day'⟩ := d'
  obtain rfl : year = year' := Int.le_antisymm (h.year_le h' heq.le) (h'.year_le h heq.ge)
  have hbounds := h.month_bounds
  have hbounds' := h'.month_bounds
  have hmonth := h.month_pos
  have hmonth' := h'.month_pos
  unfold dayNumber at heq
  dsimp only at hbounds hbounds' hmonth hmonth' heq
  have hsame : month = month' := by
    rcases Int.lt_trichotomy month month' with hlt | hsame | hgt
    · have hmono := daysBeforeMonth_mono year (show 1 ≤ month + 1 by omega) hlt
      omega
    · exact hsame
    · have hmono := daysBeforeMonth_mono year (show 1 ≤ month' + 1 by omega) hgt
      omega
  subst hsame
  congr 1
  omega

end Date

end Rodos.Gregorian
