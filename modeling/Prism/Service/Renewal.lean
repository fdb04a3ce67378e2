import Prism.Service.AccessKey
import Prism.State.Subscription
import Mathlib.Algebra.NeZero

/-!
# Renewing a subscription

`internal/service/control_plane_purchase.go`.  A renewal reads the subscription row, prices the
period it is about to buy, and hands `RenewSubscriptionWithBalance` the row it wants to see stored
together with the period index it read.  Between the read and the write other writers may come in;
the period index is all the write compares.

Two callers share this: `SelfRenew`, which a customer presses, and `RenewDueSubscriptions`, the
sweep over everything that opted in and is inside its window.  Both republish the keys of the user
afterwards, since the data plane reads the window from the live snapshot.
-/

namespace Prism

open Table

/-- How long before its end a subscription is renewed: a week. -/
def renewalLeadTimeNs : ℤ := 7 * 24 * 60 * 60 * 1000000000

def maxPurchaseRequestID : ℕ := 128

/-- What a renewal costs.  The snapshot is the contract, so its price wins; a snapshot without a
price falls back on the live plan, and the price returned is then zero. -/
def renewalPrice (db : Db) (sub : UserSubscription) : Except ServiceError (Plan × ℤ) :=
  match planFromSnapshotJSON sub.planSnapshot with
  | .error _ => .error (.internal "read plan snapshot")
  | .ok plan =>
    if 0 < plan.priceMicro then .ok (plan, plan.priceMicro)
    else if sub.planID = "" then
      .error (.invalidArgument "plan_id: the subscription has no plan to renew against")
    else
      match db.plan sub.planID with
      | none => .error (.notFound "plan not found")
      | some live =>
        if live.priceMicro ≤ 0 then
          .error (.invalidArgument "price_micro: the plan is not priced")
        else .ok (live, 0)

/-- How far ahead of its expiry a sweep may renew a subscription: the lead time, but never more
than the period being bought. -/
def renewalWindowNs (leadNs durationDays : ℤ) : ℤ :=
  if durationDays ≤ 0 then leadNs
  else if expiryFromDays durationDays 0 ≤ 0 ∨ expiryFromDays durationDays 0 < leadNs then
    expiryFromDays durationDays 0
  else leadNs

variable (sub : UserSubscription)

def renewalDue (plan : Plan) (nowNs : ℤ) : Bool :=
  if sub.expiresAtNs ≤ 0 then false
  else sub.expiresAtNs - nowNs ≤ renewalWindowNs renewalLeadTimeNs plan.durationDays

/-- The idempotency key of one period's charge. -/
def renewalRequestID : String :=
  "renew:" ++ sub.id ++ ":" ++ toString sub.periodIndex

/-- What `RenewSubscriptionWithBalance` is called with. -/
structure RenewalWrite where
  sub : UserSubscription
  expected : ℤ
  entry : BalanceEntry

/-- The write that renews the row that was read, for one period of the plan. -/
def renewalWrite (plan : Plan) (snapshotPrice nowNs : ℤ)
    (requestID entryID : String) : RenewalWrite where
  sub :=
    { sub with
      expiresAtNs := expiryFromDays plan.durationDays (max sub.expiresAtNs nowNs)
      periodIndex := sub.periodIndex + 1
      -- the new period starts where the old one would have ended
      periodStartNs := max sub.expiresAtNs nowNs
      -- a snapshot without a price is written back with the one it is charged at
      planSnapshot := if snapshotPrice ≤ 0 then planSnapshotJSON plan else sub.planSnapshot }
  expected := sub.periodIndex
  entry :=
    { id := entryID
      userID := sub.userID
      deltaMicro := -plan.priceMicro
      reason := .renew
      refID := sub.id
      requestID := requestID
      createdAtNs := nowNs }

def RenewalWrite.run (io : Faults) (w : RenewalWrite) : RepoCall PurchaseResult :=
  renewSubscriptionWithBalance io w.sub w.expected w.entry

/-- Keep the panel when a publish fails: the charge is committed by then, so the failure is
logged and the renewal stands. -/
def republishOrLog (userID : String) (p : Panel) : Panel :=
  match republishUserKeys userID p with
  | .ok p' => p'
  | .error _ => p

/-- Renew once the plan is resolved.  The answer is nothing for a plan without a duration. -/
def renewOneWithPlan (io : Faults) (entryID : Option String) (sub : UserSubscription) (plan : Plan)
    (snapshotPrice nowNs : ℤ) (requestID : String) (p : Panel) :
    Except ServiceError (Option PurchaseResult) × Panel :=
  if plan.durationDays ≤ 0 then (.ok none, p)
  else
    match entryID with
    | none => (.error .newID, p)
    | some id =>
      match (renewalWrite sub plan snapshotPrice nowNs requestID id).run io p.db with
      | (.error e, db) => (.error (.repo e), { p with db := db })
      | (.ok result, db) =>
        (.ok (some result), republishOrLog sub.userID { p with db := db })

def renewOne (io : Faults) (entryID : Option String) (sub : UserSubscription) (nowNs : ℤ)
    (requestID : String) (p : Panel) : Except ServiceError (Option PurchaseResult) × Panel :=
  match renewalPrice p.db sub with
  | .error e => (.error e, p)
  | .ok (plan, snapshotPrice) =>
    renewOneWithPlan io entryID sub plan snapshotPrice nowNs requestID p

/-- What a sweep has done. -/
structure RenewalView where
  renewed : ℕ := 0
  shortOfFunds : ℕ := 0
  failed : ℕ := 0

def RenewalView.count (v : RenewalView) :
    Except ServiceError (Option PurchaseResult) → RenewalView
  | .ok (some _) => { v with renewed := v.renewed + 1 }
  | .error (.repo .insufficientBalance) => { v with shortOfFunds := v.shortOfFunds + 1 }
  | _ => { v with failed := v.failed + 1 }

/-- What a pass depends on beside the panel: the identifiers it mints and the faults it meets, for
each position of its list. -/
structure SweepEnv where
  entryID : ℕ → Option String
  io : ℕ → Faults

def renewDue (env : SweepEnv) (nowNs : ℤ) (k : ℕ) (sub : UserSubscription)
    (r : RenewalView × Panel) : RenewalView × Panel :=
  match renewalPrice r.2.db sub with
  | .error _ => ({ r.1 with failed := r.1.failed + 1 }, r.2)
  | .ok (plan, price) =>
    if !renewalDue sub plan nowNs then r
    else
      let answer := renewOneWithPlan (env.io k) (env.entryID k) sub plan price nowNs
        (renewalRequestID sub) r.2
      (r.1.count answer.1, answer.2)

def renewDueFrom (env : SweepEnv) (nowNs : ℤ) :
    ℕ → List UserSubscription → RenewalView × Panel → RenewalView × Panel
  | _, [], r => r
  | k, sub :: subs, r => renewDueFrom env nowNs (k + 1) subs (renewDue env nowNs k sub r)

/-- Charge and extend every subscription that opted in and is inside its window. -/
def renewDueSubscriptions (env : SweepEnv) (nowNs : ℤ) (p : Panel) :
    Except ServiceError RenewalView × Panel :=
  if nowNs ≤ 0 then (.error (.invalidArgument "now_ns: must be positive"), p)
  else
    let r := renewDueFrom env nowNs 0 (listRenewableSubscriptions nowNs renewalLeadTimeNs p.db)
      ({}, p)
    (.ok r.1, r.2)

/-- What the button is pressed with. -/
structure RenewInput where
  subscriptionID : String
  requestID : String

/-- What a renewal answers with: the row as it is on disk, and what was charged. -/
structure RenewResultView where
  subscription : UserSubscription
  balanceMicro : ℤ
  chargedMicro : ℤ
  replayed : Bool

def renewInput (input : RenewInput) (nowNs : ℤ) : Except ServiceError (String × String) :=
  if nowNs ≤ 0 then .error (.invalidArgument "now_ns: must be positive")
  else if trimSpace input.subscriptionID = "" then
    .error (.invalidArgument "subscription_id: required")
  else if trimSpace input.requestID = "" then .error (.invalidArgument "request_id: required")
  else if maxPurchaseRequestID < (trimSpace input.requestID).utf8ByteSize then
    .error (.invalidArgument "request_id: too long")
  else .ok (trimSpace input.subscriptionID, trimSpace input.requestID)

def renewableRow (userID : String) : Option UserSubscription → Except ServiceError UserSubscription
  | none => .error (.notFound "subscription not found")
  | some sub =>
    -- a subscription id learnt elsewhere matches nothing
    if sub.userID ≠ userID then .error (.notFound "subscription not found")
    else if sub.status ≠ .active then
      .error (.invalidArgument "subscription_id: the subscription is not active")
    else .ok sub

/-- What `SelfRenew` checks before it renews, and the row and the key it renews with. -/
def renewRequest (userID : String) (input : RenewInput) (nowNs : ℤ) (db : Db) :
    Except ServiceError (UserSubscription × String) := do
  let (id, requestID) ← renewInput input nowNs
  let sub ← renewableRow userID (db.subscription id)
  .ok (sub, requestID)

def renewAnswer (db : Db) (subscriptionID : String) :
    Except ServiceError (Option PurchaseResult) → Except ServiceError RenewResultView
  | .error (.repo .insufficientBalance) =>
    .error (.invalidArgument "balance: not enough to renew this plan")
  | .error (.repo (.conflict _)) =>
    .error (.conflict "that renewal could not be settled; retry with a new request_id")
  | .error e => .error e
  | .ok none =>
    .error (.invalidArgument "plan_id: the subscription has no duration to renew")
  | .ok (some result) =>
    match db.subscription subscriptionID with
    | none => .error (.notFound "subscription not found")
    | some current =>
      .ok ⟨current, result.entry.balanceAfterMicro,
        if result.replayed then 0 else -result.entry.deltaMicro, result.replayed⟩

def selfRenew (io : Faults) (entryID : Option String) (userID : String) (input : RenewInput)
    (nowNs : ℤ) (p : Panel) : Except ServiceError RenewResultView × Panel :=
  match renewRequest userID input nowNs p.db with
  | .error e => (.error e, p)
  | .ok (sub, requestID) =>
    let r := renewOne io entryID sub nowNs requestID p
    (renewAnswer r.2.db (trimSpace input.subscriptionID) r.1, r.2)

inductive RenewCall where
  /-- `RenewDueSubscriptions` -/
  | sweep (env : SweepEnv) (nowNs : ℤ)
  /-- `SelfRenew` -/
  | button (io : Faults) (entryID : Option String) (userID : String) (input : RenewInput)
      (nowNs : ℤ)

namespace RenewCall

def step (p : Panel) : RenewCall → Panel
  | .sweep env nowNs => (renewDueSubscriptions env nowNs p).2
  | .button io entryID userID input nowNs => (selfRenew io entryID userID input nowNs p).2

def nowNs : RenewCall → ℤ
  | .sweep _ nowNs => nowNs
  | .button _ _ _ _ nowNs => nowNs

end RenewCall

variable {db : Db}

theorem renewalPrice_eq_ok {sub : UserSubscription} {plan : Plan} {price : ℤ}
    (h : renewalPrice db sub = .ok (plan, price)) :
    0 < plan.priceMicro ∧ ((sub.planSnapshot = .plan plan ∧ price = plan.priceMicro) ∨
        (price = 0 ∧ db.plan sub.planID = some plan ∧
          ∃ sold, planFromSnapshotJSON sub.planSnapshot = .ok sold ∧ sold.priceMicro ≤ 0)) := by
  unfold renewalPrice at h
  cases hsnap : planFromSnapshotJSON sub.planSnapshot with
  | error e =>
    rw [hsnap] at h
    cases h
  | ok sold =>
    rw [hsnap] at h
    simp only at h
    split at h
    · rename_i hpos
      cases h
      refine ⟨hpos, .inl ⟨?_, rfl⟩⟩
      -- a blank text decodes to the zero plan, which has no price
      cases htext : sub.planSnapshot with
      | blank raw =>
        rw [htext] at hsnap
        rw [← Except.ok.inj hsnap] at hpos
        cases hpos
      | unreadable raw =>
        rw [htext] at hsnap
        cases hsnap
      | plan p =>
        rw [htext] at hsnap
        rw [Except.ok.inj hsnap]
    · rename_i hfree
      split_ifs at h
      cases hlive : db.plan sub.planID with
      | none =>
        rw [hlive] at h
        cases h
      | some live =>
        rw [hlive] at h
        simp only at h
        split_ifs at h with hpos
        cases h
        exact ⟨not_le.mp hpos, .inr ⟨rfl, rfl, sold, rfl, not_lt.mp hfree⟩⟩

/-- The renewal goes through: its request is new, the charge is covered and recorded, and the row
is still at the period the caller read. -/
structure Db.Grants (db : Db) (w : RenewalWrite) : Prop where
  unsettled : ¬ db.Settled w.entry
  admits : db.Admits w.entry
  renewable : ∃ row, db.Renewable w.sub w.expected row

def Db.renewedBy (db : Db) (w : RenewalWrite) : Db :=
  (db.post (db.settled w.entry)).renewed w.sub w.expected

/-- **What a renewal does**: it fails or is a replay and changes nothing, or it commits. -/
theorem RenewalWrite.run_cases (io : Faults) (w : RenewalWrite) (db : Db) :
    ((w.run io db).2 = db ∧ ∀ r, (w.run io db).1 = .ok r → r.replayed = true) ∨
      db.Grants w ∧ w.run io db = (.ok ⟨db.settled w.entry, w.sub, false⟩, db.renewedBy w) := by
  unfold RenewalWrite.run renewSubscriptionWithBalance
  cases hbody : renewSubscriptionWithBalanceBody io w.sub w.expected w.entry db with
  | error e =>
    rw [atomically_of_error hbody]
    exact .inl ⟨rfl, fun r hr => nomatch hr⟩
  | ok r =>
    obtain ⟨result, _ | db'⟩ := r
    · rw [atomically_of_return hbody]
      refine .inl ⟨rfl, fun r hr => ?_⟩
      rw [← Except.ok.inj hr]
      exact (renew_return hbody).2
    · obtain ⟨hset, hadm, rfl, hrow, rfl⟩ := renew_commit hbody
      rw [atomically_of_commit hbody]
      exact .inr ⟨⟨hset, hadm, hrow⟩, rfl⟩

variable {w : RenewalWrite}

theorem RenewalWrite.run_of_grants (h : db.Grants w) :
    w.run noFaults db = (.ok ⟨db.settled w.entry, w.sub, false⟩, db.renewedBy w) := by
  have hcharge : chargeInTx noFaults 3 w.entry db =
      .ok (db.settled w.entry, db.post (db.settled w.entry)) :=
    chargeInTx_eq_ok_iff.mpr ⟨⟨rfl, rfl, rfl⟩, h.admits, rfl, rfl⟩
  obtain ⟨row, hrow⟩ := h.renewable
  have hextend : (db.post (db.settled w.entry)).renewRow w.sub (snapshotOrEmpty w.sub.planSnapshot)
      w.expected = .ok (1, db.renewedBy w) :=
    (Db.renewRow_eq_ok_iff one_ne_zero).mpr ⟨rfl, ⟨row, hrow.at_period, hrow.alone⟩, rfl⟩
  have hbody : renewSubscriptionWithBalanceBody noFaults w.sub w.expected w.entry db =
      .ok (⟨db.settled w.entry, w.sub, false⟩, some (db.renewedBy w)) := by
    unfold renewSubscriptionWithBalanceBody beginTx commitTx
    simp only [stmt_noFaults, orWrap, ok_bind, replayOf_of_not_settled h.unsettled, hcharge,
      hextend, one_ne_zero, if_false]
  exact atomically_of_commit hbody

/-! ## The tables after a renewal -/

theorem Db.subscription_renewedBy (db : Db) (w : RenewalWrite) (id : String) :
    (db.renewedBy w).subscription id = (db.subscription id).map fun r =>
      if r.id = w.sub.id ∧ r.periodIndex = w.expected then
        Db.renewColumns w.sub (snapshotOrEmpty w.sub.planSnapshot) r else r :=
  Db.subscription_renewed _ w.sub w.expected id

theorem Db.subscription_renewedBy_of_ne (db : Db) {id : String} (h : id ≠ w.sub.id) :
    (db.renewedBy w).subscription id = db.subscription id := by
  rw [Db.subscription_renewedBy]
  cases hrow : db.subscription id with
  | none => rfl
  | some r =>
    have hid : r.id = id := key_of_lookup hrow
    rw [Option.map_some, if_neg]
    rintro ⟨hsame, -⟩
    exact h (hid.symm.trans hsame)

theorem Db.Grants.subscription_renewedBy (h : db.Grants w) (hkeys : db.SubsKeyed) :
    ∃ row, db.subscription w.sub.id = some row ∧ row.periodIndex = w.expected ∧
      (db.renewedBy w).subscription w.sub.id =
        some (Db.renewColumns w.sub (snapshotOrEmpty w.sub.planSnapshot) row) := by
  obtain ⟨row, hrow⟩ := h.renewable
  obtain ⟨hlook, hperiod⟩ := Db.subscription_of_atPeriod hkeys hrow.at_period
  have hid : row.id = w.sub.id := key_of_lookup hlook
  refine ⟨row, hlook, hperiod, ?_⟩
  rw [Db.subscription_renewedBy, hlook, Option.map_some, if_pos ⟨hid, hperiod⟩]

theorem Db.map_id_renewedBy (db : Db) (w : RenewalWrite) :
    (db.renewedBy w).userSubscriptions.map UserSubscription.id =
      db.userSubscriptions.map UserSubscription.id := by
  refine map_key_updateWhere _ ?_ _
  intro r _
  rfl

theorem renewals_renewedBy (db : Db) (h : w.entry.reason = .renew) (id : String) :
    renewals id (db.renewedBy w) = renewals id db + if w.entry.refID = id then 1 else 0 := by
  have hreason : (db.settled w.entry).reason = .renew := h
  exact renewals_post db hreason id

/-! ## One renewal -/

theorem republishOrLog_db (userID : String) (p : Panel) : (republishOrLog userID p).db = p.db := by
  unfold republishOrLog
  split
  · rename_i p' h
    exact republishUserKeys_db h
  · rfl

/-- **What one renewal does to the panel**: nothing is charged, and at most the keys are published
again; or one period is charged, and the keys are published behind it. -/
theorem renewOneWithPlan_snd_cases (io : Faults) (entryID : Option String) (s : UserSubscription)
    (plan : Plan) (price nowNs : ℤ) (requestID : String) (p : Panel) :
    ((renewOneWithPlan io entryID s plan price nowNs requestID p).2.db = p.db ∧
        ((renewOneWithPlan io entryID s plan price nowNs requestID p).2 = p ∨
          (renewOneWithPlan io entryID s plan price nowNs requestID p).2 =
            republishOrLog s.userID p)) ∨
      ∃ id, entryID = some id ∧ 0 < plan.durationDays ∧
        p.db.Grants (renewalWrite s plan price nowNs requestID id) ∧
        (renewOneWithPlan io entryID s plan price nowNs requestID p).2 = republishOrLog s.userID
            ⟨p.db.renewedBy (renewalWrite s plan price nowNs requestID id), p.keys⟩ := by
  unfold renewOneWithPlan
  by_cases hlasts : plan.durationDays ≤ 0
  · rw [if_pos hlasts]
    exact .inl ⟨rfl, .inl rfl⟩
  rw [if_neg hlasts]
  cases entryID with
  | none => exact .inl ⟨rfl, .inl rfl⟩
  | some id =>
    simp only
    rcases (renewalWrite s plan price nowNs requestID id).run_cases io p.db with
      ⟨hsame, -⟩ | ⟨hgrants, hdone⟩
    · cases hrun : (renewalWrite s plan price nowNs requestID id).run io p.db with
      | mk answer db =>
        rw [hrun] at hsame
        simp only at hsame
        subst hsame
        cases answer with
        | error e => exact .inl ⟨rfl, .inl rfl⟩
        | ok result => exact .inl ⟨republishOrLog_db _ _, .inr rfl⟩
    · rw [hdone]
      exact .inr ⟨id, rfl, not_le.mp hlasts, hgrants, rfl⟩

theorem renewInput_eq_ok {input : RenewInput} {nowNs : ℤ} {id requestID : String}
    (h : renewInput input nowNs = .ok (id, requestID)) :
    0 < nowNs ∧ id = trimSpace input.subscriptionID := by
  unfold renewInput at h
  split_ifs at h with hnow
  cases h
  exact ⟨not_le.mp hnow, rfl⟩

theorem renewRequest_eq_ok {userID : String} {input : RenewInput} {nowNs : ℤ}
    {sub : UserSubscription} {requestID : String}
    (h : renewRequest userID input nowNs db = .ok (sub, requestID)) :
    0 < nowNs ∧ db.subscription (trimSpace input.subscriptionID) = some sub := by
  obtain ⟨⟨id, key⟩, hinput, hrest⟩ := bind_eq_ok_iff.mp h
  obtain ⟨row, hrow, hdone⟩ := bind_eq_ok_iff.mp hrest
  obtain ⟨hnow, rfl⟩ := renewInput_eq_ok hinput
  obtain ⟨rfl, -⟩ := Prod.mk.inj (Except.ok.inj hdone)
  refine ⟨hnow, ?_⟩
  unfold renewableRow at hrow
  split at hrow
  · cases hrow
  rename_i found hfound
  split_ifs at hrow
  rw [hfound, Except.ok.inj hrow]

end Prism
