import Prism.Console.Sale
import Prism.Money.Effects
import Prism.Renewal.Sweep

/-!
# What a call alone does to the rows and the counters

The calls that start a period, each run with nothing else in between: a pass of `PeriodReset`, a
renewal by the sweep or by the customer, and a purchase.  A pass and the sweep go over a list, and
work on the copies the list was made of; what one turn can do is said once (`RollTurn`, `RenewTurn`),
and `rollAll_invariant` and `renewDueFrom_invariant` carry what every turn keeps through the loop.

The live store is left out here: none of these calls reads it.
-/

namespace Prism

open Table
open Prog (bind_eq exec_act exec_bind exec_ret read_bind step_bind)

/-- `ResetUser`: the aggregate and the mark start over; the buckets are left alone. -/
def Counters.resetUser (c : Counters) (userID : String) : Counters :=
  if userID = "" then c else (c.resetAggregate userID).resetMark userID

theorem exec_resetUser (userID : String) (s : Server) :
    (resetUser userID).exec s = ((), { s with usage := s.usage.resetUser userID }) := by
  unfold resetUser Counters.resetUser
  split <;> rfl

/-- The period of a subscription: that of its snapshot, or else that of the live plan. -/
def subscriptionPeriod (env : PeriodEnv) (db : Db) (sub : UserSubscription) : String :=
  if periodFromSnapshot sub.planSnapshot ≠ "" then
    normalizePeriod (periodFromSnapshot sub.planSnapshot)
  else if sub.planID = "" then defaultPeriod
  else livePeriod (if env.planFails sub.id then none else db.plan sub.planID)

theorem exec_periodFor (env : PeriodEnv) (sub : UserSubscription) (s : Server) :
    (periodFor env sub).exec s = (subscriptionPeriod env s.db sub, s) := by
  unfold periodFor subscriptionPeriod
  by_cases hsold : periodFromSnapshot sub.planSnapshot ≠ ""
  · rw [if_pos hsold, if_pos hsold]
    rfl
  rw [if_neg hsold, if_neg hsold]
  by_cases hplan : sub.planID = ""
  · rw [if_pos hplan, if_pos hplan]
    rfl
  · rw [if_neg hplan, if_neg hplan]
    rfl

def rollTarget (env : PeriodEnv) (db : Db) (sub : UserSubscription) : Option ℤ :=
  if sub.periodStartNs ≤ 0 then none
  else if normalizePeriod (subscriptionPeriod env db sub) = "once" then none
  else advancePeriod env.loc sub.periodStartNs env.nowNs (subscriptionPeriod env db sub)

variable {sub : UserSubscription} {db : Db} {env : PeriodEnv}

theorem rollTarget_eq_some {next : ℤ} (h : rollTarget env db sub = some next) :
    0 < sub.periodStartNs ∧ sub.periodStartNs < next ∧ next ≤ env.nowNs := by
  unfold rollTarget at h
  by_cases hunset : sub.periodStartNs ≤ 0
  · rw [if_pos hunset] at h
    cases h
  rw [if_neg hunset] at h
  by_cases honce : normalizePeriod (subscriptionPeriod env db sub) = "once"
  · rw [if_pos honce] at h
    cases h
  rw [if_neg honce] at h
  exact ⟨not_le.mp hunset, advancePeriod_eq_some h⟩

theorem subscriptionPeriod_congr {db' : Db} (h : db'.plans = db.plans) (env : PeriodEnv)
    (sub : UserSubscription) : subscriptionPeriod env db' sub = subscriptionPeriod env db sub := by
  unfold subscriptionPeriod Db.plan
  rw [h]

theorem rollTarget_congr {db' : Db} (h : db'.plans = db.plans) (env : PeriodEnv)
    (sub : UserSubscription) : rollTarget env db' sub = rollTarget env db sub := by
  unfold rollTarget
  rw [subscriptionPeriod_congr h]

inductive RollTurn (env : PeriodEnv) (sub : UserSubscription) (s s' : Server) : Prop where
  | stays (hs : s' = s)
  /-- the guarded update has answered no error, whether or not its guard held -/
  | rolls (next : ℤ) (hactive : sub.status = .active)
      (htarget : rollTarget env s.db sub = some next)
      (hs : s' =
        { s with
          db := s.db.restartPeriod sub.id sub.periodStartNs next
          usage := s.usage.resetUser sub.userID })

theorem exec_rollOne (env : PeriodEnv) (sub : UserSubscription) (s : Server) :
    ((rollOne env sub).exec s).2 = match rollTarget env s.db sub with
      | none => s
      | some next =>
        match resetSubscriptionPeriod (env.resetIO sub.id) sub.id sub.periodStartNs next s.db with
        | (.error _, db) => { s with db := db }
        | (.ok (), db) => { s with db := db, usage := s.usage.resetUser sub.userID } := by
  unfold rollOne rollTarget
  by_cases hunset : sub.periodStartNs ≤ 0
  · rw [if_pos hunset, if_pos hunset]
    rfl
  rw [if_neg hunset, if_neg hunset, bind_eq, exec_bind, exec_periodFor]
  simp only
  by_cases honce : normalizePeriod (subscriptionPeriod env s.db sub) = "once"
  · rw [if_pos honce, if_pos honce]
    rfl
  rw [if_neg honce, if_neg honce]
  cases advancePeriod env.loc sub.periodStartNs env.nowNs (subscriptionPeriod env s.db sub) with
  | none => rfl
  | some next =>
    simp only [rollPeriod, Task.write, bind_eq, step_bind, exec_act]
    cases resetSubscriptionPeriod (env.resetIO sub.id) sub.id sub.periodStartNs next s.db with
    | mk answer db =>
      cases answer with
      | error e => rfl
      | ok u =>
        simp only [exec_bind, exec_resetUser]
        rfl

theorem rollOne_turn (env : PeriodEnv) (hactive : sub.status = .active) (s : Server) :
    RollTurn env sub s ((rollOne env sub).exec s).2 := by
  rw [exec_rollOne]
  cases htarget : rollTarget env s.db sub with
  | none => exact .stays rfl
  | some next =>
    simp only
    cases hreset : resetSubscriptionPeriod (env.resetIO sub.id) sub.id sub.periodStartNs next
        s.db with
    | mk answer db =>
      cases answer with
      | error e =>
        -- a single statement that fails leaves the tables as they were
        have hdb : db = s.db := by
          have hsame := atomically_snd_of_fst_error (congrArg Prod.fst hreset)
          exact (congrArg Prod.snd hreset).symm.trans hsame
        refine .stays ?_
        rw [hdb]
      | ok u =>
        refine .rolls next hactive htarget ?_
        rw [(resetSubscriptionPeriod_ok hreset).2]

def rollStep (env : PeriodEnv) (s : Server) (sub : UserSubscription) : Server :=
  if sub.status = .active then ((rollOne env sub).exec s).2 else s

theorem rollStep_turn (env : PeriodEnv) (sub : UserSubscription) (s : Server) :
    RollTurn env sub s (rollStep env s sub) := by
  unfold rollStep
  split
  · rename_i hactive
    exact rollOne_turn env hactive s
  · exact .stays rfl

theorem exec_rollAll (env : PeriodEnv) (subs : List UserSubscription) (result : PeriodResetResult)
    (s : Server) : ((rollAll env subs result).exec s).2 = run (rollStep env) s subs := by
  induction subs generalizing result s with
  | nil => rfl
  | cons sub subs ih =>
    rw [rollAll, run_cons]
    by_cases hactive : sub.status = .active
    · rw [if_neg (not_not.mpr hactive), bind_eq, exec_bind, ih, rollStep, if_pos hactive]
    · rw [if_pos hactive, ih, rollStep, if_neg hactive]

theorem exec_runOnce (env : PeriodEnv) (s : Server) : ((runOnce env).exec s).2 =
      if env.listFails then s else run (rollStep env) s (listUserSubscriptions s.db) := by
  unfold runOnce
  rw [Prog.exec_locked]
  simp only [Task.query, bind_eq, read_bind, exec_act, id_eq]
  split
  · rfl
  · rw [exec_bind]
    exact exec_rollAll env _ _ s

theorem runOnce_invariant {I : Server → Prop} {s : Server}
    (hturn : ∀ sub ∈ s.db.userSubscriptions, ∀ t t', RollTurn env sub t t' → I t → I t') (hs : I s) :
    I ((runOnce env).exec s).2 := by
  rw [exec_runOnce]
  split
  · exact hs
  · refine run_invariant_of_mem (fun t sub hsub ht => ?_) hs
    exact hturn sub ((List.mergeSort_perm _ _).mem_iff.mp hsub) t _ (rollStep_turn env sub t) ht

/-! ## Renewals -/

namespace Console

theorem exec_settle (userID : String) (replayed : Bool) (s : Server) :
    ((settle userID replayed).exec s).2.db = s.db ∧ ((settle userID replayed).exec s).2.usage =
        if replayed then s.usage else s.usage.resetUser userID := by
  unfold settle
  cases replayed with
  | true =>
    simp only [if_true, bind_eq, exec_bind]
    exact exec_republishUserKeys_db userID s
  | false =>
    simp only [Bool.false_eq_true, if_false, bind_eq, exec_bind, exec_resetUser]
    exact exec_republishUserKeys_db userID { s with usage := s.usage.resetUser userID }

inductive RenewTurn (nowNs : ℤ) (sub : UserSubscription) (s s' : Server) : Prop where
  /-- not due, refused, or a replay -/
  | idle (hdb : s'.db = s.db) (husage : s'.usage = s.usage)
  | renewed (plan : Plan) (price : ℤ) (requestID entryID : String)
      (hgrants : s.db.Grants (renewalWrite sub plan price nowNs requestID entryID))
      (hdb : s'.db = s.db.renewedBy (renewalWrite sub plan price nowNs requestID entryID))
      (husage : s'.usage = s.usage.resetUser sub.userID)

variable (io : Faults) (entryID : Option String) (sub : UserSubscription)

theorem renewOneWithPlan_turn (plan : Plan) (price nowNs : ℤ) (requestID : String) (s : Server) :
    RenewTurn nowNs sub s
      ((renewOneWithPlan io entryID sub plan price nowNs requestID).exec s).2 := by
  unfold renewOneWithPlan
  split
  · exact .idle rfl rfl
  cases entryID with
  | none => exact .idle rfl rfl
  | some id =>
    simp only [Task.write, bind_eq, step_bind, exec_act]
    rcases (renewalWrite sub plan price nowNs requestID id).run_cases io s.db with
      ⟨hsame, hreplay⟩ | ⟨hgrants, hdone⟩
    · cases hrun : (renewalWrite sub plan price nowNs requestID id).run io s.db with
      | mk answer db =>
        rw [hrun] at hsame hreplay
        simp only at hsame hreplay
        subst hsame
        cases answer with
        | error e => exact .idle rfl rfl
        | ok result =>
          simp only [exec_bind, Prog.pure_eq_ret, exec_ret]
          obtain ⟨hdb, husage⟩ := exec_settle sub.userID result.replayed s
          rw [hreplay result rfl] at hdb husage ⊢
          exact .idle hdb husage
    · rw [hdone]
      simp only [exec_bind, Prog.pure_eq_ret, exec_ret]
      obtain ⟨hdb, husage⟩ := exec_settle sub.userID false
        { s with db := s.db.renewedBy (renewalWrite sub plan price nowNs requestID id) }
      exact .renewed plan price requestID id hgrants hdb husage

theorem renewOne_turn (nowNs : ℤ) (requestID : String) (s : Server) :
    RenewTurn nowNs sub s ((renewOne io entryID sub nowNs requestID).exec s).2 := by
  unfold renewOne
  rw [bind_eq, exec_bind, exec_renewalPrice]
  cases Prism.renewalPrice s.db sub with
  | error e => exact .idle rfl rfl
  | ok quote => exact renewOneWithPlan_turn io entryID sub quote.1 quote.2 nowNs requestID s

theorem renewDue_turn (env : SweepEnv) (nowNs : ℤ) (k : ℕ) (sub : UserSubscription)
    (view : RenewalView) (s : Server) :
    RenewTurn nowNs sub s ((renewDue env nowNs k sub view).exec s).2 := by
  unfold renewDue
  rw [bind_eq, exec_bind, exec_renewalPrice]
  cases Prism.renewalPrice s.db sub with
  | error e => exact .idle rfl rfl
  | ok quote =>
    simp only
    split
    · exact .idle rfl rfl
    · rw [bind_eq, exec_bind]
      exact renewOneWithPlan_turn (env.io k) (env.entryID k) sub quote.1 quote.2 nowNs _ s

theorem exec_renewDueFrom_invariant {I : Server → Prop} {env : SweepEnv} {nowNs : ℤ} :
    ∀ (subs : List UserSubscription) (k : ℕ) (view : RenewalView) (s : Server),
      (∀ sub ∈ subs, ∀ t t', RenewTurn nowNs sub t t' → I t → I t') → I s →
      I ((renewDueFrom env nowNs k subs view).exec s).2
  | [], _, _, _, _, hs => hs
  | sub :: subs, k, view, s, hturn, hs => by
    rw [renewDueFrom, bind_eq, exec_bind]
    refine exec_renewDueFrom_invariant subs (k + 1) _ _ (fun t ht => hturn t (.tail _ ht)) ?_
    exact hturn sub (.head _) s _ (renewDue_turn env nowNs k sub view s) hs

theorem renewDueSubscriptions_invariant {I : Server → Prop} {env : SweepEnv} {nowNs : ℤ}
    {s : Server}
    (hturn : ∀ sub ∈ listRenewableSubscriptions nowNs renewalLeadTimeNs s.db,
      ∀ t t', RenewTurn nowNs sub t t' → I t → I t')
    (hs : I s) : I ((renewDueSubscriptions env nowNs).exec s).2 := by
  unfold renewDueSubscriptions
  split
  · exact hs
  · simp only [Task.query, bind_eq, read_bind, exec_act, exec_bind, id_eq]
    exact exec_renewDueFrom_invariant _ 0 {} s hturn hs

theorem selfRenew_turn (userID : String) (input : RenewInput) (nowNs : ℤ) (s : Server) :
    ((selfRenew io entryID userID input nowNs).exec s).2 = s ∨
      ∃ sub ∈ s.db.userSubscriptions, sub.userID = userID ∧ sub.status = .active ∧
        RenewTurn nowNs sub s ((selfRenew io entryID userID input nowNs).exec s).2 := by
  unfold selfRenew
  cases renewInput input nowNs with
  | error e => exact .inl rfl
  | ok r =>
    obtain ⟨id, requestID⟩ := r
    simp only [Task.query, bind_eq, read_bind, exec_act, id_eq]
    cases hrow : s.db.subscription id with
    | none => exact .inl rfl
    | some sub =>
      simp only [renewableRow]
      by_cases huser : sub.userID = userID
      swap
      · rw [if_pos huser]
        exact .inl rfl
      rw [if_neg (not_not.mpr huser)]
      by_cases hactive : sub.status = .active
      swap
      · rw [if_pos hactive]
        exact .inl rfl
      rw [if_neg (not_not.mpr hactive)]
      refine .inr ⟨sub, mem_of_lookup hrow, huser, hactive, ?_⟩
      simp only [exec_bind]
      exact renewOne_turn io entryID sub nowNs requestID s

/-- What a purchase comes to. -/
inductive SaleTurn (userID : String) (nowNs : ℤ) (s s' : Server) : Prop where
  /-- refused, or a replay -/
  | idle (hdb : s'.db = s.db) (husage : s'.usage = s.usage)
  | sold (id entryID requestID : String) (plan : Plan)
      (haccepted : ((s.db.post (s.db.settled (purchaseEntry entryID userID plan requestID nowNs)))
        |>.expireActiveOf userID).AcceptsSubscription
          (purchasedRow (soldRow id userID plan plan.durationDays nowNs)))
      (hdb : s'.db = s.db.purchasedBy (soldRow id userID plan plan.durationDays nowNs)
        (purchaseEntry entryID userID plan requestID nowNs))
      (husage : s'.usage = s.usage.resetUser userID)

theorem purchasePlanWithBalance_cases (entry : BalanceEntry) (db : Db) :
    ((purchasePlanWithBalance io sub entry db).2 = db ∧
        ∀ r, (purchasePlanWithBalance io sub entry db).1 = .ok r → r.replayed = true) ∨
      ((db.post (db.settled entry)).expireActiveOf entry.userID).AcceptsSubscription
          (purchasedRow sub) ∧
        ∃ r, r.replayed = false ∧
          purchasePlanWithBalance io sub entry db = (.ok r, db.purchasedBy sub entry) := by
  cases ChargeCall.outcome db (.purchase io sub entry) with
  | none hsame _ hreplay => exact .inl ⟨hsame, hreplay⟩
  | commit _ _ haccepted hcharge hafter =>
    refine .inr ⟨haccepted, ?_⟩
    cases hrun : (ChargeCall.purchase io sub entry).exec db with
    | mk answer db' =>
      have hdb : db' = db.purchasedBy sub entry := by
        rw [ChargeCall.step, hrun] at hafter
        exact hafter
      cases answer with
      | error e =>
        rw [ChargeCall.charge_of_error (congrArg Prod.fst hrun)] at hcharge
        cases hcharge
      | ok r =>
        rw [ChargeCall.charge_of_ok (congrArg Prod.fst hrun)] at hcharge
        cases hreplayed : r.replayed with
        | true =>
          rw [hreplayed, if_pos rfl] at hcharge
          cases hcharge
        | false => exact ⟨r, hreplayed, by rw [← hdb]; exact hrun⟩

theorem sell_turn (id entryID userID requestID : String) (plan : Plan) (nowNs : ℤ) (s : Server) :
    SaleTurn userID nowNs s ((sell io (soldRow id userID plan plan.durationDays nowNs)
      (purchaseEntry entryID userID plan requestID nowNs)).exec s).2 := by
  unfold sell
  simp only [Task.write, bind_eq, step_bind, exec_act]
  rcases purchasePlanWithBalance_cases io (soldRow id userID plan plan.durationDays nowNs)
      (purchaseEntry entryID userID plan requestID nowNs) s.db with
    ⟨hsame, hreplay⟩ | ⟨haccepted, r, hnew, hdone⟩
  · cases hrun : purchasePlanWithBalance io (soldRow id userID plan plan.durationDays nowNs)
        (purchaseEntry entryID userID plan requestID nowNs) s.db with
    | mk answer db =>
      rw [hrun] at hsame hreplay
      simp only at hsame hreplay
      subst hsame
      cases answer with
      | error e => exact .idle rfl rfl
      | ok result =>
        simp only [exec_bind, Prog.pure_eq_ret, exec_ret]
        obtain ⟨hdb, husage⟩ := exec_settle userID result.replayed s
        rw [hreplay result rfl] at hdb husage ⊢
        exact .idle hdb husage
  · rw [hdone]
    simp only [hnew, exec_bind, Prog.pure_eq_ret, exec_ret]
    obtain ⟨hdb, husage⟩ := exec_settle userID false { s with
        db := s.db.purchasedBy (soldRow id userID plan plan.durationDays nowNs)
          (purchaseEntry entryID userID plan requestID nowNs) }
    exact .sold id entryID requestID plan haccepted hdb husage

theorem selfPurchase_turn (env : SaleEnv) (userID : String) (input : PurchaseInput) (nowNs : ℤ)
    (s : Server) :
    SaleTurn userID nowNs s ((selfPurchase env userID input nowNs).exec s).2 := by
  unfold selfPurchase getUser
  simp only [Task.query, bind_eq, read_bind, exec_act, id_eq]
  cases s.db.user userID with
  | none => exact .idle rfl rfl
  | some user =>
    simp only
    cases purchaseInput input with
    | error e => exact .idle rfl rfl
    | ok r =>
      obtain ⟨planID, requestID⟩ := r
      simp only [exec_act, id_eq]
      cases purchasablePlan (s.db.plan planID) with
      | error e => exact .idle rfl rfl
      | ok plan =>
        cases env.subID with
        | none => exact .idle rfl rfl
        | some id =>
          cases env.entryID with
          | none => exact .idle rfl rfl
          | some entryID =>
            exact sell_turn (env.io 0) id entryID userID requestID plan nowNs s

end Console

/-- Rows have ended, and nothing else has happened to them. -/
structure Db.Ended (db db' : Db) : Prop where
  indexed : db'.SubsIndexed
  ids : db'.userSubscriptions.map UserSubscription.id =
    db.userSubscriptions.map UserSubscription.id
  rows : ∀ r' ∈ db'.userSubscriptions, ∃ r ∈ db.userSubscriptions, r.id = r'.id ∧
    r.userID = r'.userID ∧ r.periodUsedBytes = r'.periodUsedBytes ∧
    (Db.isActive r' = true → Db.isActive r = true)

theorem Db.Ended.refl (hdb : db.SubsIndexed) : Db.Ended db db :=
  ⟨hdb, rfl, fun r hr => ⟨r, hr, rfl, rfl, rfl, id⟩⟩

theorem Db.Ended.write {db0 : Db}
    (hkeys : db0.SubsKeyed) (h : Db.Ended db0 db)
    {terms : UserSubscription} (hsub : sub ∈ db0.userSubscriptions) (htermsID : terms.id = sub.id)
    (htermsUser : terms.userID = sub.userID) (hended : Db.isActive terms = false) :
    Db.Ended db0 (db.withTerms terms) := by
  have hinactive : ∀ r, Db.isActive (Db.termsColumns terms r) = false := fun _ => hended
  refine ⟨⟨?_, ?_⟩, ?_, fun r' hr' => ?_⟩
  · refine keysNodup_updateWhere ?_ h.indexed.subs
    intro r _
    rfl
  · refine uniqueWhere_updateWhere UserSubscription.userID h.indexed.actives ?_
    intro r _ _ hactive
    exact absurd hactive (by simp [hinactive r])
  · refine (map_key_updateWhere UserSubscription.id ?_ _).trans h.ids
    intro r _
    rfl
  · obtain ⟨r, hr, rfl⟩ := mem_updateWhere.mp hr'
    obtain ⟨r0, hr0, hid, huser, hused, hactive⟩ := h.rows r hr
    by_cases hguard : r.id = terms.id
    · have hsame : r0 = sub := eq_of_mem_of_key_eq hkeys hr0 hsub
        (hid.trans (hguard.trans htermsID))
      rw [if_pos (decide_eq_true hguard)]
      refine ⟨r0, hr0, hid, by rw [hsame]; exact htermsUser.symm, hused, fun hactive' => ?_⟩
      exact absurd hactive' (by simp [hinactive r])
    · rw [if_neg (by simp [hguard])]
      exact ⟨r0, hr0, hid, huser, hused, hactive⟩

/-- **Ending what a user has running** ends rows and does nothing else to the subscriptions. -/
theorem expireActiveSubscriptions_ended (io : ℕ → Faults) (userID : String) {p : Panel}
    (hp : p.db.SubsIndexed) : Db.Ended p.db (expireActiveSubscriptions io userID p).2.db := by
  refine rewriteTerms_invariant (I := fun db => Db.Ended p.db db) io _ _ _ 0 0 p
    (fun sub hsub _ updated happly io db h => ?_) (.refl hp)
  cases happly
  rcases updateUserSubscriptionTerms_cases io { sub with status := .expired } db with
    ⟨e, hfail⟩ | ⟨-, hdone⟩
  · rwa [hfail]
  · rw [hdone]
    exact h.write hp.subs (List.mem_filter.mp hsub).1 rfl rfl rfl

namespace Console

inductive AssignTurn (env : SaleEnv) (userID : String) (nowNs : ℤ) (s s' : Server) : Prop where
  /-- refused, though what was running may have ended -/
  | refused (hended : Db.Ended s.db s'.db) (husage : s'.usage = s.usage)
  | opened (db : Db) (hended : Db.Ended s.db db) (id : String) (hid : env.subID = some id)
      (plan : Plan) (days : ℤ)
      (hwrite : upsertUserSubscription (env.io 0) (soldRow id userID plan days nowNs) db =
        (.ok (), s'.db))
      (husage : s'.usage = s.usage.resetUser userID)

theorem openRow_cases (io : Faults) (sub : UserSubscription) (s : Server) :
    ((openRow io sub).exec s).2 = s ∨
      upsertUserSubscription io sub s.db = (.ok (), ((openRow io sub).exec s).2.db) ∧
        ((openRow io sub).exec s).2.usage = s.usage.resetUser sub.userID := by
  unfold openRow
  simp only [Task.write, bind_eq, step_bind, exec_act]
  cases hwrite : upsertUserSubscription io sub s.db with
  | mk answer db =>
    cases answer with
    | error e =>
      rw [upsertUserSubscription_error hwrite]
      exact .inl rfl
    | ok u =>
      right
      simp only [exec_bind, exec_resetUser]
      obtain ⟨hdb, husage⟩ := exec_republishUserKeys_db sub.userID
        { s with db := db, usage := s.usage.resetUser sub.userID }
      generalize (republishUserKeys sub.userID).exec
        { s with db := db, usage := s.usage.resetUser sub.userID } = published at hdb husage ⊢
      obtain ⟨answer, s'⟩ := published
      cases answer with
      | error | ok _ => exact ⟨congrArg (Prod.mk _) hdb.symm, husage⟩

theorem assignSubscription_turn (env : SaleEnv) (userID planID : String) (durationDays nowNs : ℤ)
    {s : Server} (hs : s.db.SubsIndexed) :
    AssignTurn env userID nowNs s
      ((assignSubscription env userID planID durationDays nowNs).exec s).2 := by
  unfold assignSubscription
  split
  · exact .refused (.refl hs) rfl
  split
  · exact .refused (.refl hs) rfl
  simp only [getUser, Task.query, bind_eq, read_bind, exec_act, id_eq]
  cases s.db.user userID with
  | none => exact .refused (.refl hs) rfl
  | some user =>
    simp only [exec_act, id_eq]
    cases assignablePlan durationDays (s.db.plan (trimSpace planID)) with
    | error e => exact .refused (.refl hs) rfl
    | ok r =>
      obtain ⟨plan, days⟩ := r
      cases hid : env.subID with
      | none => exact .refused (.refl hs) rfl
      | some subID =>
        simp only [exec_bind, exec_expireActiveSubscriptions, withPanel]
        have hended := expireActiveSubscriptions_ended (fun k => env.io (k + 1)) userID
          (p := s.toPanel) hs
        generalize Prism.expireActiveSubscriptions (fun k => env.io (k + 1)) userID
          s.toPanel = ended at hended ⊢
        obtain ⟨⟨n, failed⟩, p⟩ := ended
        cases failed with
        | some e => exact .refused hended rfl
        | none =>
          rcases openRow_cases (env.io 0) (soldRow subID userID plan days nowNs)
            { s with toPanel := p } with hsame | ⟨hwrite, husage⟩
          · simp only [hsame]
            exact .refused hended rfl
          · exact .opened p.db hended subID hid plan days hwrite husage

end Console

end Prism
