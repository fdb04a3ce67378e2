import Prism.Console.Subscription
import Prism.Service.Renewal
import Prism.Usage.Period

/-!
# Selling and renewing, step by step

`internal/service/control_plane_purchase.go` and `AssignSubscription`.  A sale reads the plan, and
later opens a subscription that carries the plan as it was read; a renewal reads the subscription,
and later writes the extended copy.  The purchase and the renewal are each one transaction.  Behind
them the user's counters are started over, unless the request had been settled before, and the keys
are published; a failed publish is logged, and the money stays spent.

The renewals alone are the functions of `Prism.Service.Renewal`, which leave the counters out.
-/

namespace Prism
namespace Console

/-- The price of a renewal: that of the snapshot, or else that of the plan as it is now. -/
def renewalPrice (sub : UserSubscription) : Task (Except ServiceError (Plan × ℤ)) :=
  match planFromSnapshotJSON sub.planSnapshot with
  | .error _ => pure (.error (.internal "read plan snapshot"))
  | .ok plan =>
    if 0 < plan.priceMicro then pure (.ok (plan, plan.priceMicro))
    else if sub.planID = "" then
      pure (.error (.invalidArgument "plan_id: the subscription has no plan to renew against"))
    else do
      let some live ← Task.query (.planRead sub.planID) fun db => db.plan sub.planID
        | pure (.error (.notFound "plan not found"))
      if live.priceMicro ≤ 0 then
        pure (.error (.invalidArgument "price_micro: the plan is not priced"))
      else pure (.ok (live, 0))

def wentThrough : Except RepoError PurchaseResult → Bool
  | .error _ => false
  | .ok result => !result.replayed

/-- What follows a charge: the counters start over unless it is a replay, and the keys follow. -/
def settle (userID : String) (replayed : Bool) : Task Unit := do
  if replayed then pure () else resetUser userID
  let _ ← republishUserKeys userID
  pure ()

def renewOneWithPlan (io : Faults) (entryID : Option String) (sub : UserSubscription) (plan : Plan)
    (snapshotPrice nowNs : ℤ) (requestID : String) :
    Task (Except ServiceError (Option PurchaseResult)) :=
  if plan.durationDays ≤ 0 then pure (.ok none)
  else
    match entryID with
    | none => pure (.error .newID)
    | some id => do
      let w := renewalWrite sub plan snapshotPrice nowNs requestID id
      match ← Task.write (fun _ r => .renewed w.sub (wentThrough r.1)) (w.run io) with
      | .error e => pure (.error (.repo e))
      | .ok result => do
        settle sub.userID result.replayed
        pure (.ok (some result))

def renewOne (io : Faults) (entryID : Option String) (sub : UserSubscription) (nowNs : ℤ)
    (requestID : String) : Task (Except ServiceError (Option PurchaseResult)) := do
  match ← renewalPrice sub with
  | .error e => pure (.error e)
  | .ok (plan, snapshotPrice) =>
    renewOneWithPlan io entryID sub plan snapshotPrice nowNs requestID

def renewDue (env : SweepEnv) (nowNs : ℤ) (k : ℕ) (sub : UserSubscription) (view : RenewalView) :
    Task RenewalView := do
  match ← renewalPrice sub with
  | .error _ => pure { view with failed := view.failed + 1 }
  | .ok (plan, price) =>
    if !renewalDue sub plan nowNs then pure view
    else do
      let answer ← renewOneWithPlan (env.io k) (env.entryID k) sub plan price nowNs
        (renewalRequestID sub)
      pure (view.count answer)

def renewDueFrom (env : SweepEnv) (nowNs : ℤ) :
    ℕ → List UserSubscription → RenewalView → Task RenewalView
  | _, [], view => pure view
  | k, sub :: subs, view => do
    let view ← renewDue env nowNs k sub view
    renewDueFrom env nowNs (k + 1) subs view

def renewDueSubscriptions (env : SweepEnv) (nowNs : ℤ) : Task (Except ServiceError RenewalView) :=
  if nowNs ≤ 0 then pure (.error (.invalidArgument "now_ns: must be positive"))
  else do
    let due ← Task.query .renewableListed (listRenewableSubscriptions nowNs renewalLeadTimeNs)
    let view ← renewDueFrom env nowNs 0 due {}
    pure (.ok view)

def selfRenew (io : Faults) (entryID : Option String) (userID : String) (input : RenewInput)
    (nowNs : ℤ) : Task (Except ServiceError RenewResultView) :=
  match renewInput input nowNs with
  | .error e => pure (.error e)
  | .ok (id, requestID) => do
    let row ← Task.query (.subscriptionRead id) fun db => db.subscription id
    match renewableRow userID row with
    | .error e => pure (.error e)
    | .ok sub => do
      let answer ← renewOne io entryID sub nowNs requestID
      -- the row is read back, since the answer has to be what is on disk
      Task.query (.subscriptionRead id) fun db => renewAnswer db id answer

/-- What a purchase is asked for. -/
structure PurchaseInput where
  planID : String
  requestID : String
  deriving DecidableEq

/-- What a sale depends on beside the server: the identifiers it mints and the faults it meets. -/
structure SaleEnv where
  subID : Option String
  entryID : Option String := none
  io : ℕ → Faults := fun _ => noFaults

def purchaseInput (input : PurchaseInput) : Except ServiceError (String × String) :=
  if trimSpace input.planID = "" then .error (.invalidArgument "plan_id: required")
  else if trimSpace input.requestID = "" then .error (.invalidArgument "request_id: required")
  else if maxPurchaseRequestID < (trimSpace input.requestID).utf8ByteSize then
    .error (.invalidArgument "request_id: too long")
  else .ok (trimSpace input.planID, trimSpace input.requestID)

def purchasablePlan : Option Plan → Except ServiceError Plan
  | none => .error (.notFound "plan not found")
  | some plan =>
    if plan.status ≠ .active then .error (.invalidArgument "plan_id: the plan is disabled")
    else if plan.priceMicro ≤ 0 then
      .error (.invalidArgument "plan_id: the plan is not for sale")
    else if plan.durationDays ≤ 0 then
      .error (.invalidArgument "plan_id: the plan has no duration")
    else .ok plan

/-- The row a sale opens: it carries the plan as it was read, and starts now. -/
def soldRow (id userID : String) (plan : Plan) (days nowNs : ℤ) : UserSubscription where
  id := id
  userID := userID
  planID := plan.id
  planSnapshot := planSnapshotJSON plan
  startsAtNs := nowNs
  expiresAtNs := expiryFromDays days nowNs
  periodStartNs := nowNs
  status := .active

def purchaseEntry (id userID : String) (plan : Plan) (requestID : String) (nowNs : ℤ) :
    BalanceEntry where
  id := id
  userID := userID
  deltaMicro := -plan.priceMicro
  reason := .purchase
  refID := plan.id
  requestID := requestID
  createdAtNs := nowNs

def purchaseError : RepoError → ServiceError
  | .insufficientBalance => .invalidArgument "balance: not enough to buy this plan"
  | .conflict _ =>
    .conflict "that purchase could not be settled; retry with a new request_id"
  | _ => .internal "purchase plan"

def purchaseAnswer (result : PurchaseResult) : RenewResultView :=
  ⟨result.subscription, result.entry.balanceAfterMicro,
    if result.replayed then 0 else -result.entry.deltaMicro, result.replayed⟩

def sell (io : Faults) (sub : UserSubscription) (entry : BalanceEntry) :
    Task (Except ServiceError RenewResultView) := do
  match ← Task.write (fun _ r => .purchased sub (wentThrough r.1))
      (purchasePlanWithBalance io sub entry) with
  | .error e => pure (.error (purchaseError e))
  | .ok result => do
    settle sub.userID result.replayed
    pure (.ok (purchaseAnswer result))

def selfPurchase (env : SaleEnv) (userID : String) (input : PurchaseInput) (nowNs : ℤ) :
    Task (Except ServiceError RenewResultView) := do
  let some _ ← getUser userID
    | pure (.error (.notFound "user not found"))
  match purchaseInput input with
  | .error e => pure (.error e)
  | .ok (planID, requestID) => do
    let live ← Task.query (.planRead planID) fun db => db.plan planID
    match purchasablePlan live, env.subID, env.entryID with
    | .error e, _, _ => pure (.error e)
    | .ok _, none, _ => pure (.error (.internal "generate subscription id"))
    | .ok _, some _, none => pure (.error (.internal "generate ledger id"))
    | .ok plan, some id, some entryID =>
      sell (env.io 0) (soldRow id userID plan plan.durationDays nowNs)
        (purchaseEntry entryID userID plan requestID nowNs)

/-- The checks on the plan that is assigned, and the days it is assigned for. -/
def assignablePlan (durationDays : ℤ) : Option Plan → Except ServiceError (Plan × ℤ)
  | none => .error (.notFound "plan not found")
  | some plan =>
    if plan.status = .disabled then .error (.invalidArgument "plan_id: the plan is disabled")
    else if (if durationDays = 0 then plan.durationDays else durationDays) ≤ 0 then
      .error (.invalidArgument "duration_days: a plan without a duration must be given one")
    else .ok (plan, if durationDays = 0 then plan.durationDays else durationDays)

def openRow (io : Faults) (sub : UserSubscription) : Task (Except ServiceError UserSubscription) := do
  match ← Task.write (fun _ r => .subscriptionOpened sub (r.1 = .ok ()))
      (upsertUserSubscription io sub) with
  | .error e => pure (.error (mapSubscriptionWriteError "write subscription" e))
  | .ok () => do
    resetUser sub.userID
    match ← republishUserKeys sub.userID with
    | .error e => pure (.error e)
    | .ok () => pure (.ok sub)

def assignSubscription (env : SaleEnv) (userID planID : String) (durationDays nowNs : ℤ) :
    Task (Except ServiceError UserSubscription) :=
  if durationDays < 0 then
    pure (.error (.invalidArgument "duration_days: must not be negative"))
  else if trimSpace planID = "" then pure (.error (.invalidArgument "plan_id: required"))
  else do
    let some _ ← getUser userID
      | pure (.error (.notFound "user not found"))
    let live ← Task.query (.planRead (trimSpace planID)) fun db => db.plan (trimSpace planID)
    match assignablePlan durationDays live, env.subID with
    | .error e, _ => pure (.error e)
    | .ok _, none => pure (.error (.internal "generate subscription id"))
    | .ok (plan, days), some id => do
      match ← expireActiveSubscriptions (fun k => env.io (k + 1)) userID with
      | (_, some e) => pure (.error e)
      | (_, none) => openRow (env.io 0) (soldRow id userID plan days nowNs)

end Console

/-- A step that leaves the tables alone. -/
def Following (s : Server) (_ : ServerEvent) (s' : Server) : Prop := s'.db = s.db

namespace Console

variable (userID : String)

theorem steps_resetUser : (resetUser userID).Steps Following fun _ => True := by
  unfold resetUser
  split
  · trivial
  · exact fun _ => ⟨rfl, fun _ => ⟨rfl, trivial⟩⟩

theorem following_republishUserKeys : (republishUserKeys userID).Steps Following fun _ => True :=
  (steps_republishUserKeys userID).mono (fun _ _ _ h => h.1) fun _ h => h

theorem steps_settle (replayed : Bool) :
    (settle userID replayed).Steps Following fun _ => True := by
  unfold settle
  split
  · exact (following_republishUserKeys userID).bind fun _ _ => trivial
  · exact (steps_resetUser userID).bind fun _ _ =>
      (following_republishUserKeys userID).bind fun _ _ => trivial

/-! ## Alone -/

theorem exec_renewalPrice (sub : UserSubscription) (s : Server) :
    (renewalPrice sub).exec s = (Prism.renewalPrice s.db sub, s) := by
  unfold renewalPrice Prism.renewalPrice
  cases planFromSnapshotJSON sub.planSnapshot with
  | error e => rfl
  | ok plan =>
    simp only
    split
    · rfl
    split
    · rfl
    simp only [Task.query, Prog.bind_eq, Prog.read_bind, Prog.exec_act, id_eq]
    cases s.db.plan sub.planID with
    | none => rfl
    | some live =>
      simp only
      split <;> rfl

theorem exec_resetUser_toPanel (s : Server) :
    ((resetUser userID).exec s).2.toPanel = s.toPanel := by
  unfold resetUser
  split <;> rfl

theorem exec_settle_toPanel (replayed : Bool) (s : Server) :
    ((settle userID replayed).exec s).2.toPanel = republishOrLog userID s.toPanel := by
  have hpublish : ∀ t : Server, t.toPanel = s.toPanel →
      ((republishUserKeys userID).exec t).2.toPanel = republishOrLog userID s.toPanel := by
    intro t ht
    rw [exec_republishUserKeys, ← ht, republishOrLog]
    cases Prism.republishUserKeys userID t.toPanel <;> rfl
  unfold settle
  cases replayed with
  | true =>
    simp only [if_true, Prog.bind_eq, Prog.exec_bind]
    exact hpublish s rfl
  | false =>
    simp only [Bool.false_eq_true, if_false, Prog.bind_eq, Prog.exec_bind]
    exact hpublish _ (exec_resetUser_toPanel userID s)

/-- A call answers, and leaves the panel, as the function of the service does. -/
def Matches {α : Type} (p : Task α) (f : Panel → α × Panel) : Prop :=
  ∀ s, (p.exec s).1 = (f s.toPanel).1 ∧ (p.exec s).2.toPanel = (f s.toPanel).2

variable (io : Faults) (entryID : Option String)

theorem renewOneWithPlan_matches (sub : UserSubscription) (plan : Plan) (snapshotPrice nowNs : ℤ)
    (requestID : String) :
    Matches (renewOneWithPlan io entryID sub plan snapshotPrice nowNs requestID)
      (Prism.renewOneWithPlan io entryID sub plan snapshotPrice nowNs requestID) := by
  intro s
  unfold renewOneWithPlan Prism.renewOneWithPlan
  split
  · exact ⟨rfl, rfl⟩
  cases entryID with
  | none => exact ⟨rfl, rfl⟩
  | some id =>
    simp only [Task.write, Prog.bind_eq, Prog.step_bind, Prog.exec_act]
    cases hrun : (renewalWrite sub plan snapshotPrice nowNs requestID id).run io s.db with
    | mk answer db =>
      cases answer with
      | error e => exact ⟨rfl, rfl⟩
      | ok result =>
        simp only [Prog.exec_bind]
        exact ⟨rfl, exec_settle_toPanel _ _ _⟩

theorem renewOne_matches (sub : UserSubscription) (nowNs : ℤ) (requestID : String) :
    Matches (renewOne io entryID sub nowNs requestID)
      (Prism.renewOne io entryID sub nowNs requestID) := by
  intro s
  unfold renewOne Prism.renewOne
  rw [Prog.bind_eq, Prog.exec_bind, exec_renewalPrice]
  cases Prism.renewalPrice s.db sub with
  | error e => exact ⟨rfl, rfl⟩
  | ok r => exact renewOneWithPlan_matches io entryID sub r.1 r.2 nowNs requestID s

theorem renewDueFrom_matches (env : SweepEnv) (nowNs : ℤ) (subs : List UserSubscription) :
    ∀ (k : ℕ) (view : RenewalView), Matches (renewDueFrom env nowNs k subs view)
      fun p => Prism.renewDueFrom env nowNs k subs (view, p) := by
  induction subs with
  | nil => exact fun k view s => ⟨rfl, rfl⟩
  | cons sub subs ih =>
    intro k view s
    have hturn : ((renewDue env nowNs k sub view).exec s).1 =
          (Prism.renewDue env nowNs k sub (view, s.toPanel)).1 ∧
        ((renewDue env nowNs k sub view).exec s).2.toPanel =
          (Prism.renewDue env nowNs k sub (view, s.toPanel)).2 := by
      unfold renewDue Prism.renewDue
      rw [Prog.bind_eq, Prog.exec_bind, exec_renewalPrice]
      cases Prism.renewalPrice s.db sub with
      | error e => exact ⟨rfl, rfl⟩
      | ok r =>
        simp only
        split
        · exact ⟨rfl, rfl⟩
        · obtain ⟨hanswer, hpanel⟩ := renewOneWithPlan_matches (env.io k) (env.entryID k) sub
            r.1 r.2 nowNs (renewalRequestID sub) s
          simp only [Prog.bind_eq, Prog.exec_bind]
          exact ⟨congrArg view.count hanswer, hpanel⟩
    unfold renewDueFrom Prism.renewDueFrom
    rw [Prog.bind_eq, Prog.exec_bind, hturn.1]
    have hrest := ih (k + 1) (Prism.renewDue env nowNs k sub (view, s.toPanel)).1
      ((renewDue env nowNs k sub view).exec s).2
    rw [hturn.2] at hrest
    exact hrest

/-- **The sweep alone** is the function of the service. -/
theorem renewDueSubscriptions_matches (env : SweepEnv) (nowNs : ℤ) :
    Matches (renewDueSubscriptions env nowNs) (Prism.renewDueSubscriptions env nowNs) := by
  intro s
  unfold renewDueSubscriptions Prism.renewDueSubscriptions
  split
  · exact ⟨rfl, rfl⟩
  · simp only [Task.query, Prog.bind_eq, Prog.read_bind, Prog.exec_act, Prog.exec_bind, id_eq]
    obtain ⟨hview, hpanel⟩ := renewDueFrom_matches env nowNs
      (listRenewableSubscriptions nowNs renewalLeadTimeNs s.db) 0 {} s
    exact ⟨congrArg Except.ok hview, hpanel⟩

/-- **The customer's renewal alone** is the function of the service. -/
theorem selfRenew_matches (userID : String) (input : RenewInput) (nowNs : ℤ) :
    Matches (selfRenew io entryID userID input nowNs)
      (Prism.selfRenew io entryID userID input nowNs) := by
  intro s
  unfold selfRenew Prism.selfRenew renewRequest
  cases hinput : renewInput input nowNs with
  | error e => exact ⟨rfl, rfl⟩
  | ok r =>
    obtain ⟨id, requestID⟩ := r
    obtain ⟨-, rfl⟩ := renewInput_eq_ok hinput
    simp only [Task.query, Prog.bind_eq, Prog.read_bind, Prog.exec_act, id_eq, ok_bind]
    cases hrow : renewableRow userID (s.db.subscription (trimSpace input.subscriptionID)) with
    | error e => exact ⟨rfl, rfl⟩
    | ok sub =>
      obtain ⟨hanswer, hpanel⟩ := renewOne_matches io entryID sub nowNs requestID s
      simp only [Prog.exec_bind, ok_bind]
      refine ⟨?_, hpanel⟩
      rw [← hanswer, ← hpanel]
      rfl

end Console
end Prism
