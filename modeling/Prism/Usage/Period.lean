import Prism.Foundation.Calendar
import Prism.Service.Server
import Prism.State.Usage

/-!
# Starting the next period

`internal/usage/period.go`.  An allowance is granted for a period, and a pass of `PeriodReset`
starts the next one where a period has elapsed: it lists the subscriptions, finds the period that
contains the instant of the pass, and asks the repository to move the row there.  The repository
compares the start it was called about, and answers nothing whether it moved the row or found it
moved by somebody else.  Behind that answer the pass starts the user's counters over.

A period is a text: a number of days, a name for one, or a calendar month, counted on the clock of
the place the server runs at.
-/

namespace Prism

/-- The longest period, a century. -/
def maxPeriodDays : ℤ := 36500

/-- What a subscription that names no period is given. -/
def defaultPeriod : String := "30d"

def normalizePeriod (period : String) : String := toLower (trimSpace period)

def periodDays : List Char → ℤ → Option ℤ
  | [], days => if days ≤ 0 then none else some days
  | c :: cs, days =>
    if c < '0' ∨ '9' < c then none
    else if maxPeriodDays < days * 10 + (c.toNat - '0'.toNat) then none
    else periodDays cs (days * 10 + (c.toNat - '0'.toNat))

def periodLength (period : String) : Option ℤ :=
  if normalizePeriod period = "day" ∨ normalizePeriod period = "1d" then some dayNs
  else if normalizePeriod period = "week" ∨ normalizePeriod period = "7d" then some (7 * dayNs)
  else if normalizePeriod period = "" then none
  else if trimSuffix (normalizePeriod period) 'd' = "" then none
  else (periodDays (trimSuffix (normalizePeriod period) 'd').toList 0).map fun days => days * dayNs

def periodRecognized (period : String) : Bool :=
  normalizePeriod period = "month" || (periodLength period).any fun length => 0 < length

example : periodRecognized " Month " = true ∧ periodLength "30D" = some (30 * dayNs) ∧
    periodRecognized "once" = false := by decide +kernel

/-- Coordinated universal time. -/
def utc : Location gregorian := Location.fixed gregorian dayNs 0 dayNs_pos

section

variable (loc : Location gregorian)

/-- Add whole months, with the day clamped to the last one of the target month. -/
def addMonthsClamped (tNs months : ℤ) : ℤ := loc.addMonths tNs months

/-- Walk month boundaries.  The candidate can land behind the instant, and is taken one month back
then. -/
def advanceByCalendarMonth (currentStartNs nowNs : ℤ) : Option ℤ :=
  let months := loc.month nowNs - loc.month currentStartNs
  if months ≤ 0 then none
  else if nowNs < addMonthsClamped loc currentStartNs months then
    if months - 1 ≤ 0 then none else some (addMonthsClamped loc currentStartNs (months - 1))
  else some (addMonthsClamped loc currentStartNs months)

/-- The start of the period that contains the instant, if it is a later one. -/
def advancePeriod (currentStartNs nowNs : ℤ) (period : String) : Option ℤ :=
  -- a period that has not begun yet is left alone
  if nowNs < currentStartNs then none
  else if normalizePeriod period = "month" then advanceByCalendarMonth loc currentStartNs nowNs
  else
    match periodLength period with
    | none => none
    | some length =>
      if length ≤ 0 then none
      else if (nowNs - currentStartNs) / length = 0 then none
      else some (currentStartNs + (nowNs - currentStartNs) / length * length)

variable {loc} {startNs nowNs next : ℤ}

theorem advanceByCalendarMonth_eq_some (h : advanceByCalendarMonth loc startNs nowNs = some next) :
    startNs < next ∧ next ≤ nowNs := by
  unfold advanceByCalendarMonth addMonthsClamped at h
  simp only at h
  split_ifs at h with hnone hbehind hone
  · -- one month short of the instant's own month
    rw [← Option.some.inj h]
    constructor
    · refine loc.lt_of_month_lt ?_
      rw [loc.month_addMonths]
      omega
    · refine le_of_lt (loc.lt_of_month_lt ?_)
      rw [loc.month_addMonths]
      omega
  · rw [← Option.some.inj h]
    refine ⟨loc.lt_of_month_lt ?_, not_lt.mp hbehind⟩
    rw [loc.month_addMonths]
    omega

variable {period : String}

theorem advancePeriod_eq_some (h : advancePeriod loc startNs nowNs period = some next) :
    startNs < next ∧ next ≤ nowNs := by
  unfold advancePeriod at h
  split at h
  · cases h
  rename_i hbegun
  split at h
  · exact advanceByCalendarMonth_eq_some h
  cases hlen : periodLength period with
  | none =>
    rw [hlen] at h
    cases h
  | some length =>
    rw [hlen] at h
    simp only at h
    split_ifs at h with hpos hzero
    rw [← Option.some.inj h]
    have helapsed : 0 ≤ (nowNs - startNs) / length := Int.ediv_nonneg (by omega) (by omega)
    have hone : 1 ≤ (nowNs - startNs) / length := by omega
    have hle := Int.ediv_mul_le (nowNs - startNs) (show length ≠ 0 by omega)
    have hmul : length ≤ (nowNs - startNs) / length * length :=
      le_mul_of_one_le_left (by omega) hone
    omega

section

variable (hperiod : periodRecognized period = true)

include hperiod

theorem periodLength_of_recognized (hmonth : normalizePeriod period ≠ "month") :
    ∃ length, periodLength period = some length ∧ 0 < length := by
  unfold periodRecognized at hperiod
  rw [decide_eq_false hmonth, Bool.false_or, Option.any_eq_true] at hperiod
  obtain ⟨length, hlen, hpos⟩ := hperiod
  exact ⟨length, hlen, of_decide_eq_true hpos⟩

end

end

/-- What a pass depends on beside the server: the clock of the place it runs at, its instant, and
what fails. -/
structure PeriodEnv where
  loc : Location gregorian
  nowNs : ℤ
  listFails : Bool := false
  /-- by subscription: the plan cannot be read -/
  planFails : String → Bool := fun _ => false
  /-- by subscription: the faults of the guarded update -/
  resetIO : String → Faults := fun _ => noFaults

structure PeriodResetResult where
  checked : ℕ := 0
  rolled : ℕ := 0

/-- The billing period of the snapshot; empty if it has none. -/
def periodFromSnapshot : SnapshotText → String
  | .blank _ => ""
  | .unreadable _ => ""
  | .plan p => trimSpace p.period

def livePeriod : Option Plan → String
  | none => defaultPeriod
  | some plan => if plan.period = "" then defaultPeriod else normalizePeriod plan.period

variable (env : PeriodEnv) (sub : UserSubscription)

/-- The rollover window of a subscription: as it was sold, else as the live plan has it. -/
def periodFor : Task String :=
  if periodFromSnapshot sub.planSnapshot ≠ "" then
    pure (normalizePeriod (periodFromSnapshot sub.planSnapshot))
  else if sub.planID = "" then pure defaultPeriod
  else do
    let plan ← Task.query (.planRead sub.planID) fun db => db.plan sub.planID
    pure (livePeriod (if env.planFails sub.id then none else plan))

def resetUser (userID : String) : Task Unit :=
  if userID = "" then pure () else do
    Task.count (.aggregateReset userID) fun c => c.resetAggregate userID
    Task.count (.markReset userID) fun c => c.resetMark userID

def rollPeriod (next : ℤ) : Task (Except RepoError Unit) :=
  Task.write (fun db r => .periodReset sub (db.subscription sub.id) (r.2.subscription sub.id))
    (resetSubscriptionPeriod (env.resetIO sub.id) sub.id sub.periodStartNs next)

/-- One active subscription of the list.  The answer says whether its period was advanced. -/
def rollOne : Task Bool :=
  if sub.periodStartNs ≤ 0 then pure false else do
    let period ← periodFor env sub
    if normalizePeriod period = "once" then pure false
    else
      match advancePeriod env.loc sub.periodStartNs env.nowNs period with
      | none => pure false
      | some next => do
        let answer ← rollPeriod env sub next
        match answer with
        | .error _ => pure false
        | .ok () => do
          resetUser sub.userID
          pure true

def rollAll (env : PeriodEnv) : List UserSubscription → PeriodResetResult → Task PeriodResetResult
  | [], result => pure result
  | sub :: subs, result =>
    if sub.status ≠ .active then rollAll env subs result
    else do
      let rolled ← rollOne env sub
      rollAll env subs
        ⟨result.checked + 1, if rolled then result.rolled + 1 else result.rolled⟩

/-- Roll over every subscription whose period has elapsed.  The answer is nothing if the
subscriptions could not be listed. -/
def runOnce : Task (Option PeriodResetResult) :=
  Prog.locked .period do
    let subs ← Task.query .subscriptionsListed listUserSubscriptions
    if env.listFails then pure none
    else do
      let result ← rollAll env subs {}
      pure (some result)

end Prism
