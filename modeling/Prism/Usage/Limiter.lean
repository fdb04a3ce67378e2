import Prism.Keys.Store
import Prism.Usage.Counters

/-!
# The limits a request is checked against

`internal/usage/limiter.go`.  A request is admitted when its key is usable, the key holds fewer
sessions than its plan allows, the schedule of its rate has room, and its traffic allowance is not
used up, in this order.  The number of sessions is handed in by whoever counts them.

The schedule keeps one number for every key: when its next request is due.
-/

namespace Prism

inductive Reason where
  | traffic
  | concurrency
  | rate
  | disabled
  deriving DecidableEq

/-- The outcome of a check: nothing, or the limit that was hit. -/
abbrev Decision := Option Reason

/-- When the next request of a key is due. -/
structure RateEntry where
  name : String
  due : ℤ

abbrev RateTable := List RateEntry

namespace RateTable

def maxRateEntries : ℕ := 65536

/-- Drop what has caught up with the clock, and everything if that is not enough. -/
def prune (t : RateTable) (nowNs : ℤ) : RateTable :=
  let live := t.filter fun e => !decide (e.due ≤ nowNs)
  if maxRateEntries < live.length then [] else live

/-- Where a key's schedule stands: one that is behind the clock starts from it. -/
def dueAt (t : RateTable) (name : String) (nowNs : ℤ) : ℤ :=
  match Table.lookup RateEntry.name name t with
  | none => nowNs
  | some e => if e.due < nowNs then nowNs else e.due

/-- May the key start one more request, and the schedule with it. -/
def allow (t : RateTable) (name : String) (intervalNs burstNs nowNs : ℤ) : Bool × RateTable :=
  if intervalNs ≤ 0 then (true, t)
  else
    let next := t.dueAt name nowNs + intervalNs
    if burstNs < next - nowNs then (false, t)
    else
      let t := Table.upsertWith RateEntry.name (fun _ row => row) ⟨name, next⟩ t
      (true, if maxRateEntries < t.length then RateTable.prune t nowNs else t)

end RateTable

namespace Limiter

/-- Who is counted: the key, or else its user. -/
def rateKey (key : KeyState) : String :=
  if key.keyID = "" then key.userID else key.keyID

variable (counters : Counters)

/-- What the key has used of its allowance: the user's aggregate, if there is one. -/
def usedBytes (key : KeyState) : ℤ :=
  match (if key.userID = "" then none else counters.users key.userID) with
  | some total => total
  | none => counters.keyTotal key.keyID

/-- The level a session that is running is cut at: the allowance, and the grace on top of it. -/
def cutLevel (key : KeyState) (gracePercent : ℤ) : ℤ :=
  key.plan.trafficBytes + key.plan.trafficBytes / 100 * gracePercent

/-- `Exceeded`, on what has been used. -/
def exceededAt (key : KeyState) (gracePercent used : ℤ) : Bool :=
  if key.plan.trafficBytes ≤ 0 then false
  else if used < key.plan.trafficBytes then false
  else decide (cutLevel key gracePercent ≤ used)

theorem exceededAt_iff {key : KeyState} {gracePercent used : ℤ} (hplan : 0 < key.plan.trafficBytes)
    (hgrace : 0 ≤ gracePercent) :
    exceededAt key gracePercent used = true ↔ cutLevel key gracePercent ≤ used := by
  have hmore : 0 ≤ key.plan.trafficBytes / 100 * gracePercent :=
    Int.mul_nonneg (Int.ediv_nonneg hplan.le (by decide)) hgrace
  unfold exceededAt
  rw [if_neg (not_le.mpr hplan)]
  split
  · rename_i hbelow
    refine iff_of_false (by simp) (not_le.mpr ?_)
    unfold cutLevel
    omega
  · exact decide_eq_true_iff

def checkTraffic (key : KeyState) : Decision :=
  if 0 < key.plan.trafficBytes ∧ key.plan.trafficBytes ≤ usedBytes counters key then some .traffic
  else none

def nsPerSecond : ℤ := 1000000000

def checkRate (key : KeyState) (nowNs : ℤ) (rates : RateTable) : Decision × RateTable :=
  if 0 < key.plan.maxRPS ∧ rateKey key ≠ "" then
    match rates.allow (rateKey key) (nsPerSecond / key.plan.maxRPS) nsPerSecond nowNs with
    | (false, rates) => (some .rate, rates)
    | (true, rates) => (checkTraffic counters key, rates)
  else (checkTraffic counters key, rates)

def check (key : KeyState) (concurrent : ℤ) (nowNs : ℤ) (rates : RateTable) :
    Decision × RateTable :=
  if key.usable nowNs = false then (some .disabled, rates)
  else if 0 < key.plan.maxConcurrent ∧ key.plan.maxConcurrent ≤ concurrent then
    (some .concurrency, rates)
  else checkRate counters key nowNs rates

theorem concurrent_lt_of_check {counters : Counters} {key : KeyState} {concurrent nowNs : ℤ}
    {rates : RateTable} (hplan : 0 < key.plan.maxConcurrent)
    (h : (check counters key concurrent nowNs rates).1 = none) :
    concurrent < key.plan.maxConcurrent := by
  unfold check at h
  split at h
  · cases h
  · split at h
    · cases h
    · rename_i hnot
      exact not_le.mp fun hle => hnot ⟨hplan, hle⟩

end Limiter

end Prism
