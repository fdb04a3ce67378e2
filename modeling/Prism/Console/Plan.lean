import Prism.Console.Subscription
import Prism.Service.Plan

/-!
# Plans, step by step

The change of a plan in `internal/service/control_plane_plan.go`.  It is written to the plan first.
Where it leaves the plan disabled, the active subscriptions are then listed and the snapshots of
those on the plan are rewritten one after the other, each followed by its user's keys;
`apply_to_existing` does the same with the plan as it now is.
-/

namespace Prism
namespace Console

/-- The faults of a change to a plan: of its own write, and of the two loops. -/
structure PlanEnv where
  check : TierCheck := fun _ => none
  write : Faults := noFaults
  stop : ℕ → Faults := fun _ => noFaults
  apply : ℕ → Faults := fun _ => noFaults

def writePlan (io : Faults) (plan : Plan) : Task (Except RepoError Unit) :=
  Task.write (fun _ r => .planWritten plan (r.1 = .ok ())) (upsertPlan io plan)

variable (io : ℕ → Faults) (plan : Plan)

/-- Ends the subscriptions of a plan that is now disabled. -/
def stopSubscriptionsOnPlan : Task (ℕ × Option ServiceError) := do
  let subs ← Task.query (.activeListed plan.id) listActiveUserSubscriptions
  rewriteTerms io "stop subscription" true (.stop plan) 0 subs 0

/-- `apply_to_existing`. -/
def applyPlanToExisting : Task (ℕ × Option ServiceError) := do
  let subs ← Task.query (.activeListed plan.id) listActiveUserSubscriptions
  rewriteTerms io "update subscription snapshot" true (.applyPlan plan) 0 subs 0

def stopIfDisabled : Task (ℕ × Option ServiceError) :=
  if plan.status = .disabled then stopSubscriptionsOnPlan io plan else pure (0, none)

/-- What follows the write to the plan. -/
def spreadPlan (env : PlanEnv) (patch : PlanPatch) (plan : Plan) :
    Task (Except ServiceError (Plan × ℕ)) := do
  let count ← Task.query .activeCounted fun db =>
    db.userSubscriptions.countP fun s => Db.isActive s && s.planID ≠ "" && s.planID = plan.id
  match ← stopIfDisabled env.stop plan with
  | (_, some e) => pure (.error e)
  | (_, none) =>
    if patch.applyToExisting = some true then do
      match ← applyPlanToExisting env.apply plan with
      | (_, some e) => pure (.error e)
      | (touched, none) => pure (.ok (plan, touched))
    else pure (.ok (plan, count))

/-- `UpdatePlan`. -/
def updatePlan (env : PlanEnv) (id : String) (patch : PlanPatch) (nowNs : ℤ) :
    Task (Except ServiceError (Plan × ℕ)) :=
  if patch = {} then pure (.error (.invalidArgument "empty patch"))
  else do
    let some existing ← Task.query (.planRead id) fun db => db.plan id
      | pure (.error (.notFound "plan not found"))
    match patchedPlan patch existing nowNs with
    | .error e => pure (.error e)
    | .ok updated =>
      match validatePlan env.check updated with
      | .error e => pure (.error e)
      | .ok () => do
        match ← writePlan env.write updated with
        | .error e => pure (.error (mapPlanWriteError e))
        | .ok () => spreadPlan env patch updated

/-! ## Alone -/

theorem exec_stopSubscriptionsOnPlan (s : Server) :
    (stopSubscriptionsOnPlan io plan).exec s =
      withPanel s (Prism.stopSubscriptionsOnPlan io plan s.toPanel) :=
  exec_rewriteTerms io _ _ _ _ 0 0 s

end Console
end Prism
