import Prism.Usage.Period

/-!
# Where the periods begin

A start that is moved forward is moved to a boundary: so many whole periods after it, and the last
such instant that has come (`lastBoundary_advancedStart`).  This is so for every period the rollover
acts on, the calendar months among them, whose boundaries are counted on a clock.

How often the start is moved makes no difference as long as the boundaries counted from a boundary
are the boundaries counted from the start (`boundary_boundary`).  They are for periods of a fixed
length, and for months that begin on one of the first 28 days.  A start on a later day is clamped in
the first February it is moved to, and what is counted from there keeps the clamped day.
-/

namespace Prism

/-- The start `advancePeriod` returns: the one it was given, where it moves nothing. -/
def advancedStart (startNs nowNs : ℤ) (period : String) : ℤ :=
  (advancePeriod utc startNs nowNs period).getD startNs

def boundary (period : String) (startNs : ℤ) (k : ℕ) : ℤ :=
  if normalizePeriod period = "month" then addMonthsClamped utc startNs k
  else startNs + k * (periodLength period).getD 0

def dayOfMonth (tNs : ℤ) : ℤ := gregorian.dayOf (utc.wall tNs).day + 1

variable {period : String}

theorem boundary_of_month (hmonth : normalizePeriod period = "month") (startNs : ℤ) (k : ℕ) :
    boundary period startNs k = utc.addMonths startNs k :=
  if_pos hmonth

theorem boundary_of_length (hmonth : normalizePeriod period ≠ "month") {length : ℤ}
    (hlen : periodLength period = some length) (startNs : ℤ) (k : ℕ) :
    boundary period startNs k = startNs + k * length := by
  show (if normalizePeriod period = "month" then _ else _) = _
  rw [if_neg hmonth, hlen, Option.getD_some]

section

variable (hperiod : periodRecognized period = true)

include hperiod

theorem boundary_strictMono (startNs : ℤ) : StrictMono (boundary period startNs) := by
  refine strictMono_nat_of_lt_succ fun k => ?_
  by_cases hmonth : normalizePeriod period = "month"
  · rw [boundary_of_month hmonth, boundary_of_month hmonth]
    refine utc.lt_of_month_lt ?_
    rw [utc.month_addMonths, utc.month_addMonths]
    omega
  · obtain ⟨length, hlen, hpos⟩ := periodLength_of_recognized hperiod hmonth
    rw [boundary_of_length hmonth hlen, boundary_of_length hmonth hlen]
    push_cast
    rw [add_mul, one_mul]
    omega

theorem boundary_zero (startNs : ℤ) : boundary period startNs 0 = startNs := by
  by_cases hmonth : normalizePeriod period = "month"
  · rw [boundary_of_month hmonth]
    exact Location.addMonths_zero_fixed gregorian 0 dayNs_pos startNs
  · obtain ⟨length, hlen, -⟩ := periodLength_of_recognized hperiod hmonth
    rw [boundary_of_length hmonth hlen, Nat.cast_zero, zero_mul, add_zero]

theorem le_boundary (startNs : ℤ) (k : ℕ) : startNs ≤ boundary period startNs k :=
  le_of_eq_of_le (boundary_zero hperiod startNs).symm
    ((boundary_strictMono hperiod startNs).monotone (Nat.zero_le k))

end

variable {startNs : ℤ}

theorem lastBoundary_advanceByCalendarMonth {nowNs : ℤ} (hbegun : startNs ≤ nowNs) :
    LastBoundary (fun k => utc.addMonths startNs k) nowNs
      ((advanceByCalendarMonth utc startNs nowNs).getD startNs) := by
  have hmonths : utc.month startNs ≤ utc.month nowNs := utc.month_mono hbegun
  -- the boundary after the month of the instant has not come
  have hafter : ∀ k : ℕ, utc.month nowNs < utc.month startNs + k →
      nowNs < utc.addMonths startNs k := by
    intro k hk
    refine utc.lt_of_month_lt ?_
    rwa [utc.month_addMonths]
  have hzero : utc.addMonths startNs ((0 : ℕ) : ℤ) = startNs :=
    Location.addMonths_zero_fixed gregorian 0 dayNs_pos startNs
  unfold advanceByCalendarMonth addMonthsClamped
  simp only
  split_ifs with hnone hbehind hone
  · exact ⟨0, hzero.symm, le_of_eq_of_le hzero hbegun, hafter 1 (by push_cast; omega)⟩
  · -- the candidate is the first boundary, and has not come
    have hmonth : utc.month nowNs - utc.month startNs = 1 := by omega
    rw [hmonth] at hbehind
    exact ⟨0, hzero.symm, le_of_eq_of_le hzero hbegun, hbehind⟩
  · obtain ⟨k, hk⟩ := Int.eq_ofNat_of_zero_le
      (show 0 ≤ utc.month nowNs - utc.month startNs - 1 by omega)
    refine ⟨k, by rw [hk]; rfl, ?_, ?_⟩
    · refine le_of_lt (utc.lt_of_month_lt ?_)
      rw [utc.month_addMonths]
      omega
    · show nowNs < utc.addMonths startNs ((k + 1 : ℕ) : ℤ)
      rwa [show ((k + 1 : ℕ) : ℤ) = utc.month nowNs - utc.month startNs by push_cast; omega]
  · obtain ⟨k, hk⟩ := Int.eq_ofNat_of_zero_le
      (show 0 ≤ utc.month nowNs - utc.month startNs by omega)
    refine ⟨k, by rw [hk]; rfl, ?_, hafter (k + 1) (by push_cast; omega)⟩
    show utc.addMonths startNs (k : ℤ) ≤ nowNs
    rw [show (k : ℤ) = utc.month nowNs - utc.month startNs by omega]
    exact not_lt.mp hbehind

section

variable (hperiod : periodRecognized period = true)

include hperiod

/-- **A start that is moved is moved to the last boundary** that has come, and is left where it is
while there is no such boundary but itself. -/
theorem lastBoundary_advancedStart {nowNs : ℤ} (hbegun : startNs ≤ nowNs) :
    LastBoundary (boundary period startNs) nowNs (advancedStart startNs nowNs period) := by
  unfold advancedStart advancePeriod
  rw [if_neg (not_lt.mpr hbegun)]
  by_cases hmonth : normalizePeriod period = "month"
  · rw [if_pos hmonth]
    obtain ⟨k, hk, hle, hlt⟩ := lastBoundary_advanceByCalendarMonth hbegun
    refine ⟨k, ?_, ?_, ?_⟩
    · rw [hk, boundary_of_month hmonth]
    · rwa [boundary_of_month hmonth]
    · rwa [boundary_of_month hmonth]
  · obtain ⟨length, hlen, hpos⟩ := periodLength_of_recognized hperiod hmonth
    obtain ⟨k, hk⟩ := Int.eq_ofNat_of_zero_le
      (show 0 ≤ (nowNs - startNs) / length from Int.ediv_nonneg (by omega) (by omega))
    have hmoved : (if (nowNs - startNs) / length = 0 then none
        else some (startNs + (nowNs - startNs) / length * length)).getD startNs =
          startNs + k * length := by
      rw [hk]
      split
      · rename_i hzero
        rw [Option.getD_none, hzero, zero_mul, add_zero]
      · rw [Option.getD_some]
    rw [if_neg hmonth, hlen]
    simp only [if_neg (not_le.mpr hpos)]
    refine ⟨k, ?_, ?_, ?_⟩
    · rw [hmoved, boundary_of_length hmonth hlen]
    · have hle := Int.ediv_mul_le (nowNs - startNs) (show length ≠ 0 by omega)
      rw [boundary_of_length hmonth hlen]
      rw [hk] at hle
      omega
    · have hlt := Int.lt_ediv_add_one_mul_self (nowNs - startNs) hpos
      rw [boundary_of_length hmonth hlen]
      rw [hk] at hlt
      push_cast
      omega

section

variable (hday : normalizePeriod period = "month" → dayOfMonth startNs ≤ 28)

include hday

/-- **Counted from a boundary the boundaries are the same**, unless a month begins on a day that
some months do not have. -/
theorem boundary_boundary (j k : ℕ) :
    boundary period (boundary period startNs j) k = boundary period startNs (j + k) := by
  by_cases hmonth : normalizePeriod period = "month"
  · have hlt : gregorian.dayOf ((startNs + 0) / dayNs) <
        gregorian.daysIn (gregorian.monthOf ((startNs + 0) / dayNs) + j) := by
      have hshort := hday hmonth
      have hlong := le_daysIn_gregorian (gregorian.monthOf ((startNs + 0) / dayNs) + j)
      change gregorian.dayOf ((startNs + 0) / dayNs) + 1 ≤ 28 at hshort
      omega
    have hsame : utc.SameDayAndTime (utc.addMonths startNs j) startNs :=
      Location.sameDayAndTime_addMonths_fixed gregorian 0 dayNs_pos j hlt
    rw [boundary_of_month hmonth, boundary_of_month hmonth, boundary_of_month hmonth,
      utc.addMonths_addMonths hsame]
    push_cast
    rfl
  · obtain ⟨length, hlen, -⟩ := periodLength_of_recognized hperiod hmonth
    rw [boundary_of_length hmonth hlen, boundary_of_length hmonth hlen,
      boundary_of_length hmonth hlen]
    push_cast
    rw [add_mul]
    omega

theorem advancedStart_advancedStart {n1 n2 : ℤ} (h1 : startNs ≤ n1) (h2 : n1 ≤ n2) :
    advancedStart (advancedStart startNs n1 period) n2 period =
      advancedStart startNs n2 period := by
  have hfirst := lastBoundary_advancedStart hperiod h1
  have hsecond := lastBoundary_advancedStart hperiod (hfirst.le.trans h2)
  obtain ⟨j, hj, -, -⟩ := hfirst
  rw [hj] at hsecond ⊢
  have hrest : boundary period (boundary period startNs j) =
      fun k => boundary period startNs (j + k) :=
    funext fun k => boundary_boundary hperiod hday j k
  rw [hrest] at hsecond
  exact hsecond.of_rest.unique (boundary_strictMono hperiod startNs)
    (lastBoundary_advancedStart hperiod (h1.trans h2))

end

theorem advancedStart_boundary (startNs : ℤ) (k : ℕ) :
    advancedStart startNs (boundary period startNs k) period = boundary period startNs k := by
  have hmono := boundary_strictMono hperiod startNs
  exact (lastBoundary_advancedStart hperiod (le_boundary hperiod startNs k)).unique hmono
    ⟨k, rfl, le_refl _, hmono (Nat.lt_succ_self k)⟩

end

/-- **A start behind the 28th drifts**: moved in a short February and once more a month later, it
comes to rest a month further than if it had been moved once. -/
theorem exists_drift (hmonth : normalizePeriod period = "month") (hday : 28 < dayOfMonth startNs) :
    ∃ n1 n2, startNs ≤ n1 ∧ n1 ≤ n2 ∧ advancedStart (advancedStart startNs n1 period) n2 period ≠
      advancedStart startNs n2 period := by
  have hperiod : periodRecognized period = true := by
    unfold periodRecognized
    rw [decide_eq_true hmonth, Bool.true_or]
  obtain ⟨j, hj, hfeb, hmar⟩ := exists_short_month (utc.month startNs)
  obtain ⟨j, rfl⟩ := Int.eq_ofNat_of_zero_le hj.le
  have hmono := boundary_strictMono hperiod startNs
  -- the day of the start is clamped in February, and a month later it is not found again
  have hfalls : boundary period (boundary period startNs j) 1 < boundary period startNs (j + 1) := by
    have hlt := gregorian.addMonths_addMonths_lt (d := (startNs + 0) / dayNs) (j := j) (by
        change 28 < gregorian.dayOf ((startNs + 0) / dayNs) + 1 at hday
        exact le_of_eq_of_le hfeb (by omega))
      (lt_of_eq_of_lt hfeb (by rw [show gregorian.monthOf ((startNs + 0) / dayNs) =
        utc.month startNs from rfl]; omega))
    have hwall : utc.wall (utc.addMonths startNs j) =
        ⟨gregorian.addMonths ((startNs + 0) / dayNs) j, (startNs + 0) % dayNs⟩ :=
      Location.wall_addMonths_fixed gregorian 0 dayNs_pos startNs j
    rw [boundary_of_month hmonth, boundary_of_month hmonth, boundary_of_month hmonth]
    show gregorian.addMonths (utc.wall (utc.addMonths startNs j)).day (1 : ℕ) * dayNs +
        (utc.wall (utc.addMonths startNs j)).time - 0 <
      gregorian.addMonths ((startNs + 0) / dayNs) ((j + 1 : ℕ) : ℤ) * dayNs +
        (startNs + 0) % dayNs - 0
    rw [hwall]
    have hscaled := mul_lt_mul_of_pos_right hlt dayNs_pos
    push_cast
    omega
  have hforth : boundary period startNs j < boundary period (boundary period startNs j) 1 :=
    lt_of_eq_of_lt (boundary_zero hperiod _).symm
      (boundary_strictMono hperiod _ (Nat.zero_lt_succ 0))
  refine ⟨boundary period startNs j, boundary period (boundary period startNs j) 1,
    le_boundary hperiod startNs j, hforth.le, ?_⟩
  have honce : advancedStart startNs (boundary period (boundary period startNs j) 1) period =
      boundary period startNs j :=
    (lastBoundary_advancedStart hperiod ((le_boundary hperiod startNs j).trans hforth.le)).unique
      hmono ⟨j, rfl, hforth.le, hfalls⟩
  rw [advancedStart_boundary hperiod, advancedStart_boundary hperiod, honce]
  exact ne_of_gt hforth

/-- **Rolling a period forward is path independent exactly where no day is clamped.**  For a period
the rollover acts on and a start `startNs`: the start that is returned has come, moving it again at
the same instant moves nothing, and moving it at an instant in between makes no difference, at all
instants, if and only if the period is not a calendar month or the start falls on one of the first
28 days of its month. -/
theorem rollover_path_independent_iff (hperiod : periodRecognized period = true) (startNs : ℤ) :
    (∀ n₁ n₂, startNs ≤ n₁ → n₁ ≤ n₂ → advancedStart startNs n₁ period ≤ n₁ ∧
      advancedStart (advancedStart startNs n₁ period) n₁ period = advancedStart startNs n₁ period ∧
      advancedStart (advancedStart startNs n₁ period) n₂ period = advancedStart startNs n₂ period) ↔
    (normalizePeriod period = "month" → dayOfMonth startNs ≤ 28) := by
  constructor
  · intro hlaws hmonth
    by_contra hday
    obtain ⟨n₁, n₂, h₁, h₂, hdrift⟩ := exists_drift hmonth (not_le.mp hday)
    exact hdrift (hlaws n₁ n₂ h₁ h₂).2.2
  · intro hday n₁ n₂ h₁ h₂
    exact ⟨(lastBoundary_advancedStart hperiod h₁).le,
      advancedStart_advancedStart hperiod hday h₁ (le_refl n₁),
      advancedStart_advancedStart hperiod hday h₁ h₂⟩

theorem rollover_path_independent_mid_month :
    periodRecognized "month" = true ∧ dayOfMonth (14 * dayNs) = 15 ∧
      advancedStart (14 * dayNs) (50 * dayNs) "month" ≤ 50 * dayNs ∧
      advancedStart (advancedStart (14 * dayNs) (50 * dayNs) "month") (50 * dayNs) "month" =
        advancedStart (14 * dayNs) (50 * dayNs) "month" ∧
      advancedStart (advancedStart (14 * dayNs) (50 * dayNs) "month") (100 * dayNs) "month" =
        advancedStart (14 * dayNs) (100 * dayNs) "month" := by
  have hperiod : periodRecognized "month" = true := by decide +kernel
  have hday : dayOfMonth (14 * dayNs) = 15 := by decide +kernel
  exact ⟨hperiod, hday, (rollover_path_independent_iff hperiod (14 * dayNs)).mpr
    (fun _ => by omega) (50 * dayNs) (100 * dayNs) (by decide) (by decide)⟩

/-- **Two allowances for one pass**: a monthly period that starts on 31 January 1970 is moved to the
28th of February on the 30th of March, and, asked once more at the same instant, to the 28th of
March. -/
theorem rollover_moves_twice : advancedStart (30 * dayNs) (88 * dayNs) "month" = 58 * dayNs ∧
      advancedStart (58 * dayNs) (88 * dayNs) "month" = 86 * dayNs := by
  decide +kernel

end Prism
