import Mathlib.Algebra.Order.Ring.Int
import Mathlib.Data.Int.ConditionallyCompleteOrder
import Mathlib.Order.ConditionallyCompleteLattice.Basic

/-!
# Months on a clock

Adding months to an instant goes through a clock and a calendar: the clock is read, the months are
added to the day it shows, and the instant is sought at which the clock shows the result.

* `Calendar` numbers the days and the months.  `addMonths` keeps the day of the month, or takes the
  last day of a month that is too short for it.
* `Gregorian` is the civil calendar, with day `0` on 1 January 1970 and month `0` in January of the
  year `0`.
* `Location` is a clock: what it shows at an instant, and the instant a reading stands for.  A clock
  may be put forward or back, as long as this never happens across the beginning of a month.  Adding
  months in two steps is adding them in one if the first step kept the day of the month and the time
  of day (`Location.addMonths_addMonths`).
-/

namespace Prism

/-- A numbering of days and of the months they fall into. -/
structure Calendar where
  monthStart : ℤ → ℤ
  monthOf : ℤ → ℤ
  strictMono : StrictMono monthStart
  start_le : ∀ d, monthStart (monthOf d) ≤ d
  lt_next : ∀ d, d < monthStart (monthOf d + 1)

namespace Calendar

variable (cal : Calendar)

def daysIn (m : ℤ) : ℤ := cal.monthStart (m + 1) - cal.monthStart m

/-- The day of the month, from zero on. -/
def dayOf (d : ℤ) : ℤ := d - cal.monthStart (cal.monthOf d)

/-- A day of the month; the last one if the month is too short for it. -/
def onDay (m day : ℤ) : ℤ := cal.monthStart m + min day (cal.daysIn m - 1)

def addMonths (d k : ℤ) : ℤ := cal.onDay (cal.monthOf d + k) (cal.dayOf d)

theorem daysIn_pos (m : ℤ) : 0 < cal.daysIn m :=
  sub_pos.mpr (cal.strictMono (lt_add_one m))

variable (d : ℤ)

theorem dayOf_nonneg : 0 ≤ cal.dayOf d :=
  sub_nonneg.mpr (cal.start_le d)

theorem monthOf_eq_iff {d m : ℤ} :
    cal.monthOf d = m ↔ cal.monthStart m ≤ d ∧ d < cal.monthStart (m + 1) := by
  constructor
  · rintro rfl
    exact ⟨cal.start_le d, cal.lt_next d⟩
  rintro ⟨hle, hlt⟩
  have h1 : m < cal.monthOf d + 1 :=
    cal.strictMono.lt_iff_lt.mp (lt_of_le_of_lt hle (cal.lt_next d))
  have h2 : cal.monthOf d < m + 1 :=
    cal.strictMono.lt_iff_lt.mp (lt_of_le_of_lt (cal.start_le d) hlt)
  omega

theorem monthOf_onDay {day : ℤ} (h : 0 ≤ day) (m : ℤ) : cal.monthOf (cal.onDay m day) = m := by
  have hlen := cal.daysIn_pos m
  rw [monthOf_eq_iff]
  unfold onDay
  unfold daysIn at hlen ⊢
  constructor <;> omega

theorem dayOf_lt_daysIn : cal.dayOf d < cal.daysIn (cal.monthOf d) := by
  have hlt := cal.lt_next d
  unfold dayOf daysIn
  omega

theorem dayOf_onDay {day : ℤ} (h : 0 ≤ day) (m : ℤ) :
    cal.dayOf (cal.onDay m day) = min day (cal.daysIn m - 1) := by
  show cal.onDay m day - cal.monthStart (cal.monthOf (cal.onDay m day)) = _
  rw [cal.monthOf_onDay h]
  unfold onDay
  omega

theorem addMonths_zero : cal.addMonths d 0 = d := by
  have hlt := cal.dayOf_lt_daysIn d
  show cal.monthStart (cal.monthOf d + 0) +
    min (cal.dayOf d) (cal.daysIn (cal.monthOf d + 0) - 1) = d
  rw [add_zero, min_eq_left (by omega)]
  unfold dayOf
  omega

theorem monthOf_addMonths (k : ℤ) : cal.monthOf (cal.addMonths d k) = cal.monthOf d + k :=
  cal.monthOf_onDay (cal.dayOf_nonneg d) _

/-- A day that was clamped stays so: one month after a short month it falls short of where the months
added at once lead. -/
theorem addMonths_addMonths_lt {d j : ℤ} (hshort : cal.daysIn (cal.monthOf d + j) ≤ cal.dayOf d)
    (hlong : cal.daysIn (cal.monthOf d + j) < cal.daysIn (cal.monthOf d + j + 1)) :
    cal.addMonths (cal.addMonths d j) 1 < cal.addMonths d (j + 1) := by
  have hday : cal.dayOf (cal.addMonths d j) = cal.daysIn (cal.monthOf d + j) - 1 :=
    (cal.dayOf_onDay (cal.dayOf_nonneg d) _).trans (min_eq_right (by omega))
  show cal.onDay (cal.monthOf (cal.addMonths d j) + 1) (cal.dayOf (cal.addMonths d j)) <
    cal.onDay (cal.monthOf d + (j + 1)) (cal.dayOf d)
  rw [hday, cal.monthOf_addMonths, ← add_assoc]
  unfold onDay
  omega

end Calendar

namespace Gregorian

/-- The days before the year `y`, when the year begins in March and leap days come last. -/
def daysBefore (y : ℤ) : ℤ := 365 * y + y / 4 - y / 100 + y / 400

/-- The first day of the month; `(153 * n + 2) / 5` are the days of the first `n` months from March
on. -/
def monthStart (m : ℤ) : ℤ :=
  daysBefore ((m - 2) / 12) + (153 * ((m - 2) % 12) + 2) / 5 - 719468

/-- The year, from March on, of the day `z` after 1 March of the year `0`: the average length of a
year gives it up to one. -/
def yearOf (z : ℤ) : ℤ :=
  if z < daysBefore (400 * z / 146097) then 400 * z / 146097 - 1
  else if z < daysBefore (400 * z / 146097 + 1) then 400 * z / 146097
  else 400 * z / 146097 + 1

def monthOf (d : ℤ) : ℤ :=
  12 * yearOf (d + 719468) + (5 * (d + 719468 - daysBefore (yearOf (d + 719468))) + 2) / 153 + 2

theorem daysBefore_yearOf_le (z : ℤ) : daysBefore (yearOf z) ≤ z := by
  unfold yearOf
  split_ifs with h1 h2
  · unfold daysBefore at *
    omega
  · omega
  · omega

theorem lt_daysBefore_yearOf_succ (z : ℤ) : z < daysBefore (yearOf z + 1) := by
  unfold yearOf
  split_ifs with h1 h2
  · rwa [sub_add_cancel]
  · exact h2
  · unfold daysBefore at *
    omega

theorem strictMono_monthStart : StrictMono monthStart := by
  refine strictMono_int_of_lt_succ fun m => ?_
  unfold monthStart daysBefore
  omega

theorem monthOf_spec (d : ℤ) : monthStart (monthOf d) ≤ d ∧ d < monthStart (monthOf d + 1) := by
  have hle := daysBefore_yearOf_le (d + 719468)
  have hlt := lt_daysBefore_yearOf_succ (d + 719468)
  unfold monthOf monthStart
  set y := yearOf (d + 719468) with hy
  set doy := d + 719468 - daysBefore y with hdoy
  have hyear : daysBefore (y + 1) ≤ daysBefore y + 366 := by
    unfold daysBefore
    omega
  set mp := (5 * doy + 2) / 153 with hmp
  have hmp0 : 0 ≤ mp := by omega
  have hmp1 : mp ≤ 11 := by omega
  have hdiv : (12 * y + mp + 2 - 2) / 12 = y := by omega
  have hmod : (12 * y + mp + 2 - 2) % 12 = mp := by omega
  rw [hdiv, hmod]
  refine ⟨by omega, ?_⟩
  by_cases hlast : mp = 11
  · -- the next month begins the next year
    have hdiv' : (12 * y + mp + 2 + 1 - 2) / 12 = y + 1 := by omega
    have hmod' : (12 * y + mp + 2 + 1 - 2) % 12 = 0 := by omega
    rw [hdiv', hmod']
    omega
  · have hdiv' : (12 * y + mp + 2 + 1 - 2) / 12 = y := by omega
    have hmod' : (12 * y + mp + 2 + 1 - 2) % 12 = mp + 1 := by omega
    rw [hdiv', hmod']
    omega

end Gregorian

open Gregorian

def gregorian : Calendar where
  monthStart := monthStart
  monthOf := monthOf
  strictMono := strictMono_monthStart
  start_le d := (monthOf_spec d).1
  lt_next d := (monthOf_spec d).2

-- 29 February 2024 is the last day of its month, and there is none in 2023
example : gregorian.monthOf 19782 = 12 * 2024 + 1 ∧ gregorian.dayOf 19782 = 28 ∧
    gregorian.daysIn (12 * 2024 + 1) = 29 ∧ gregorian.daysIn (12 * 2023 + 1) = 28 := by decide

theorem le_daysIn_gregorian (m : ℤ) : 28 ≤ gregorian.daysIn m := by
  show 28 ≤ monthStart (m + 1) - monthStart m
  unfold monthStart
  have hyear : ∀ y, daysBefore y + 365 ≤ daysBefore (y + 1) := by
    intro y
    unfold daysBefore
    omega
  by_cases hlast : (m - 2) % 12 = 11
  · -- February is what the year, from March on, has left
    have hdiv : (m + 1 - 2) / 12 = (m - 2) / 12 + 1 := by omega
    have hmod : (m + 1 - 2) % 12 = 0 := by omega
    have hnext := hyear ((m - 2) / 12)
    rw [hdiv, hmod, hlast]
    omega
  · have hdiv : (m + 1 - 2) / 12 = (m - 2) / 12 := by omega
    have hmod : (m + 1 - 2) % 12 = (m - 2) % 12 + 1 := by omega
    rw [hdiv, hmod]
    omega

/-- After every month there is a February of 28 days, and a March of 31 after it. -/
theorem exists_short_month (m : ℤ) :
    ∃ k, 0 < k ∧ gregorian.daysIn (m + k) = 28 ∧ gregorian.daysIn (m + k + 1) = 31 := by
  -- the year after a year that is divisible by four is not
  refine ⟨12 * (4 * (m / 48 + 1) + 1) + 1 - m, by omega, ?_, ?_⟩
  · show monthStart (m + _ + 1) - monthStart (m + _) = 28
    unfold monthStart daysBefore
    omega
  · show monthStart (m + _ + 1 + 1) - monthStart (m + _ + 1) = 31
    unfold monthStart daysBefore
    omega

/-- What a clock shows: a day, and a time of day. -/
structure Wall where
  day : ℤ
  time : ℤ

/-- The clocks of a place.  They may be put forward or back, but not across the beginning of a
month. -/
structure Location (cal : Calendar) where
  wall : ℤ → Wall
  instant : Wall → ℤ
  month_mono : Monotone fun t => cal.monthOf (wall t).day
  month_instant : ∀ t day, cal.monthOf (wall (instant ⟨day, (wall t).time⟩)).day = cal.monthOf day

namespace Location

variable {cal : Calendar} (loc : Location cal)

def month (t : ℤ) : ℤ := cal.monthOf (loc.wall t).day

def addMonths (t k : ℤ) : ℤ :=
  loc.instant ⟨cal.addMonths (loc.wall t).day k, (loc.wall t).time⟩

/-- Both instants show the same day of the month and the same time of day. -/
def SameDayAndTime (s t : ℤ) : Prop :=
  cal.dayOf (loc.wall s).day = cal.dayOf (loc.wall t).day ∧ (loc.wall s).time = (loc.wall t).time
  deriving Decidable

theorem month_addMonths (t k : ℤ) : loc.month (loc.addMonths t k) = loc.month t + k := by
  unfold month addMonths
  rw [loc.month_instant, cal.monthOf_addMonths]

theorem lt_of_month_lt {s t : ℤ} (h : loc.month s < loc.month t) : s < t := by
  by_contra hle
  exact absurd (loc.month_mono (not_lt.mp hle)) (not_le.mpr h)

/-- **Two steps are one**, if the first one kept the day of the month and the time of day. -/
theorem addMonths_addMonths {t j : ℤ} (h : loc.SameDayAndTime (loc.addMonths t j) t) (k : ℤ) :
    loc.addMonths (loc.addMonths t j) k = loc.addMonths t (j + k) := by
  show loc.instant ⟨cal.onDay (loc.month (loc.addMonths t j) + k)
      (cal.dayOf (loc.wall (loc.addMonths t j)).day), (loc.wall (loc.addMonths t j)).time⟩ =
    loc.instant ⟨cal.onDay (loc.month t + (j + k)) (cal.dayOf (loc.wall t).day), (loc.wall t).time⟩
  rw [month_addMonths, h.1, h.2, add_assoc]

end Location

/-- A clock that is never put forward or back, `offset` ahead of the instants it is read at, where
a day is `len` long. -/
def Location.fixed (cal : Calendar) (len offset : ℤ) (hlen : 0 < len) : Location cal where
  wall t := ⟨(t + offset) / len, (t + offset) % len⟩
  instant w := w.day * len + w.time - offset
  month_mono s t h := by
    have hday : (s + offset) / len ≤ (t + offset) / len :=
      Int.ediv_le_ediv hlen (by omega)
    by_contra hlt
    -- a later month begins after all the days of an earlier one
    have h₁ := cal.strictMono.monotone (show cal.monthOf ((t + offset) / len) + 1 ≤
      cal.monthOf ((s + offset) / len) by simp only [not_le] at hlt; omega)
    have h₂ := cal.lt_next ((t + offset) / len)
    have h₃ := cal.start_le ((s + offset) / len)
    omega
  month_instant t day := by
    have hnonneg := Int.emod_nonneg (t + offset) (ne_of_gt hlen)
    have hlt := Int.emod_lt_of_pos (t + offset) hlen
    simp only [sub_add_cancel]
    rw [add_comm, Int.add_mul_ediv_right _ _ (ne_of_gt hlen), Int.ediv_eq_zero_of_lt hnonneg hlt,
      zero_add]

variable {len : ℤ} (cal : Calendar) (offset : ℤ)

theorem Location.wall_addMonths_fixed (hlen : 0 < len) (t k : ℤ) :
    (Location.fixed cal len offset hlen).wall ((Location.fixed cal len offset hlen).addMonths t k) =
      ⟨cal.addMonths ((t + offset) / len) k, (t + offset) % len⟩ := by
  have hnonneg := Int.emod_nonneg (t + offset) (ne_of_gt hlen)
  have hlt := Int.emod_lt_of_pos (t + offset) hlen
  have hread : (Location.fixed cal len offset hlen).addMonths t k + offset =
      (t + offset) % len + cal.addMonths ((t + offset) / len) k * len := by
    show cal.addMonths ((t + offset) / len) k * len + (t + offset) % len - offset + offset = _
    omega
  show Wall.mk (((Location.fixed cal len offset hlen).addMonths t k + offset) / len)
    (((Location.fixed cal len offset hlen).addMonths t k + offset) % len) = _
  rw [hread, Int.add_mul_ediv_right _ _ (ne_of_gt hlen), Int.ediv_eq_zero_of_lt hnonneg hlt,
    zero_add, Int.add_mul_emod_self_right, Int.emod_eq_of_lt hnonneg hlt]

theorem Location.addMonths_zero_fixed (hlen : 0 < len) (t : ℤ) :
    (Location.fixed cal len offset hlen).addMonths t 0 = t := by
  have hsplit := Int.emod_add_ediv_mul (t + offset) len
  show cal.addMonths ((t + offset) / len) 0 * len + (t + offset) % len - offset = t
  rw [cal.addMonths_zero]
  omega

/-- **No day is clamped** where it is one that every month has: the months added keep the day of the
month and the time of day. -/
theorem Location.sameDayAndTime_addMonths_fixed (hlen : 0 < len) {t : ℤ} (k : ℤ)
    (hday : cal.dayOf ((t + offset) / len) < cal.daysIn (cal.monthOf ((t + offset) / len) + k)) :
    (Location.fixed cal len offset hlen).SameDayAndTime
      ((Location.fixed cal len offset hlen).addMonths t k) t := by
  unfold SameDayAndTime
  rw [wall_addMonths_fixed]
  refine ⟨?_, rfl⟩
  show cal.dayOf (cal.onDay _ _) = cal.dayOf ((t + offset) / len)
  rw [cal.dayOf_onDay (cal.dayOf_nonneg _), min_eq_left (by omega)]

/-- The last one of a sequence of instants that is not after `n`. -/
def LastBoundary (b : ℕ → ℤ) (n t : ℤ) : Prop :=
  ∃ k, t = b k ∧ b k ≤ n ∧ n < b (k + 1)

namespace LastBoundary

variable {b : ℕ → ℤ} {n t t' : ℤ}

theorem le (h : LastBoundary b n t) : t ≤ n := by
  obtain ⟨k, rfl, hle, -⟩ := h
  exact hle

theorem unique (hb : StrictMono b) (h : LastBoundary b n t) (h' : LastBoundary b n t') :
    t = t' := by
  obtain ⟨j, rfl, hj, hj'⟩ := h
  obtain ⟨k, rfl, hk, hk'⟩ := h'
  have h1 : j < k + 1 := hb.lt_iff_lt.mp (by omega)
  have h2 : k < j + 1 := hb.lt_iff_lt.mp (by omega)
  rw [show j = k by omega]

theorem of_rest {j : ℕ} (h : LastBoundary (fun k => b (j + k)) n t) : LastBoundary b n t := by
  obtain ⟨k, rfl, hle, hlt⟩ := h
  exact ⟨j + k, rfl, hle, hlt⟩

end LastBoundary

end Prism
