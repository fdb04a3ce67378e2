import Prism.State.Database

/-!
# Shared pieces of the service layer

`internal/service/control_plane_tenant_helpers.go` and the error constructors of
`control_plane_system.go`: what a client is answered with, the plan a snapshot text decodes to, and
the one place where a duration becomes an absolute time.
-/

namespace Prism

/-- The errors the console answers with. -/
inductive ServiceError where
  | invalidArgument (msg : String)
  | notFound (msg : String)
  | conflict (msg : String)
  | forbidden (msg : String)
  | internal (msg : String)
  | repo (e : RepoError)
  | newID
  | chain
  deriving DecidableEq

def liftRepo {α : Type} : Except RepoError α → Except ServiceError α
  | .ok a => .ok a
  | .error e => .error (.repo e)

/-- A fault pattern from its `n`th statement on. -/
def Faults.drop (io : Faults) (n : ℕ) : Faults := fun k => io (n + k)

/-- The plan a subscription carries; a blank text is the zero plan. -/
def planFromSnapshotJSON : SnapshotText → Except ServiceError Plan
  | .blank _ => .ok {}
  | .unreadable _ => .error (.internal "service: decode plan snapshot")
  | .plan p => .ok p

/-- `MarshalPlanSnapshot`: the text a plan is stored as. -/
def planSnapshotJSON (p : Plan) : SnapshotText := .plan p

def dayNs : ℤ := 24 * 3600 * 1000000000

/-- A duration in days as an absolute time, saturating at the width of the column.  No days means
no expiry. -/
def expiryFromDays (days nowNs : ℤ) : ℤ :=
  if days ≤ 0 then 0
  else if maxInt64 / dayNs < days then maxInt64
  else if maxInt64 - days * dayNs < nowNs then maxInt64
  else nowNs + days * dayNs

theorem dayNs_pos : 0 < dayNs := by decide

theorem expiryFromDays_eq_min {days nowNs : ℤ} (hd : 0 < days) (hn : 0 ≤ nowNs) :
    expiryFromDays days nowNs = min (nowNs + days * dayNs) maxInt64 := by
  unfold expiryFromDays maxInt64 dayNs
  rw [if_neg (by omega)]
  split
  · omega
  · split <;> omega

theorem expiryFromDays_le_maxInt64 (days nowNs : ℤ) : expiryFromDays days nowNs ≤ maxInt64 := by
  unfold expiryFromDays maxInt64
  split_ifs <;> omega

theorem le_expiryFromDays {days nowNs e : ℤ} (hd : 0 < days) (he : e ≤ nowNs)
    (hmax : e ≤ maxInt64) : e ≤ expiryFromDays days nowNs := by
  have hpos : 0 < days * dayNs := Int.mul_pos hd dayNs_pos
  unfold expiryFromDays
  split_ifs <;> omega

end Prism
