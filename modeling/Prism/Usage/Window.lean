import Prism.Usage.Turns

/-!
# Is a subscription in force always in a current period?

A pass of `PeriodReset` moves the period of a subscription to the one that contains the instant of
the pass, and leaves a period that has not begun alone.  A purchase starts a period at once.  A
renewal starts one where the term that was paid for ends: from then to the end of the old term the
row has a start that lies ahead, and a pass has nothing to do.

A calendar month keeps the day and the time of day it started at as far as the months allow; where
they do not, the period that is walked to may be over already, and that case is left to the
hypothesis on the day.
-/

namespace Prism

open Table

variable {env : PeriodEnv} {s : Server} {row : UserSubscription}

/-! ## A pass and one row -/

variable {id : String}

theorem Db.untouched_restartPeriod (db : Db) {sub : String} (hne : id ≠ sub) (fromNs toNs : ℤ) :
    Db.Untouched id db (db.restartPeriod sub fromNs toNs) := by
  have hup : (db.restartPeriod sub fromNs toNs).userSubscriptions =
      updateWhere (fun r => r.id = sub && r.periodStartNs = fromNs)
        (fun r => { r with periodStartNs := toNs, periodUsedBytes := 0 })
        db.userSubscriptions := rfl
  refine ⟨?_, rfl, rfl, db.map_id_restartPeriod sub fromNs toNs⟩
  rw [Db.subscription_of_update hup fun _ => rfl]
  cases hrow : db.subscription id with
  | none => rfl
  | some row =>
    have hid : row.id = id := key_of_lookup hrow
    rw [Option.map_some, if_neg (by simp [hid, hne])]

theorem RollTurn.untouched {sub : UserSubscription} {s' : Server} (h : RollTurn env sub s s')
    (hne : id ≠ sub.id) : Db.Untouched id s.db s'.db := by
  cases h with
  | stays hs =>
    rw [hs]
    exact .refl id s.db
  | rolls next _ _ hs =>
    rw [hs]
    exact s.db.untouched_restartPeriod hne _ next

/-- The calls that move a subscription's window. -/
inductive WindowOp where
  | purchase (env : Console.SaleEnv) (userID : String) (input : Console.PurchaseInput) (nowNs : ℤ)
  | renewal (call : RenewCall)
  | pass (env : PeriodEnv)

namespace WindowOp

def nowNs : WindowOp → ℤ
  | .purchase _ _ _ nowNs => nowNs
  | .renewal call => call.nowNs
  | .pass env => env.nowNs

def renews : WindowOp → Bool
  | .renewal _ => true
  | _ => false

def step (s : Server) : WindowOp → Server
  | .purchase env userID input nowNs => ((Console.selfPurchase env userID input nowNs).exec s).2
  | .renewal (.sweep env nowNs) => ((Console.renewDueSubscriptions env nowNs).exec s).2
  | .renewal (.button io entryID userID input nowNs) =>
    ((Console.selfRenew io entryID userID input nowNs).exec s).2
  | .pass env => ((runOnce env).exec s).2

/-- Where the start of a period comes from. -/
inductive Starts (op : WindowOp) (db : Db) (row : UserSubscription) : Prop where
  | kept (old : UserSubscription) (hold : old ∈ db.userSubscriptions) (hid : old.id = row.id)
      (hstart : old.periodStartNs = row.periodStartNs)
  | begun (hpos : 0 < row.periodStartNs) (hnow : row.periodStartNs ≤ op.nowNs)
  | renewed (hop : op.renews = true) (old : UserSubscription) (hold : old ∈ db.userSubscriptions)
      (hid : old.id = row.id) (hstart : row.periodStartNs = max old.expiresAtNs op.nowNs)

/-- Every row has its start from the tables before the call, or from the call. -/
structure Accounts (op : WindowOp) (db db' : Db) : Prop where
  keys : KeysNodup UserSubscription.id db'.userSubscriptions
  starts : ∀ row ∈ db'.userSubscriptions, op.Starts db row

variable {op : WindowOp} {db : Db}

theorem Accounts.refl (hkeys : db.SubsKeyed) : op.Accounts db db :=
  ⟨hkeys, fun row hrow => .kept row hrow rfl rfl⟩

variable {s' : Server}

theorem Accounts.roll {sub : UserSubscription} (h : (WindowOp.pass env).Accounts db s.db)
    (hturn : RollTurn env sub s s') : (WindowOp.pass env).Accounts db s'.db := by
  cases hturn with
  | stays hs => rwa [hs]
  | rolls next _ htarget hs =>
    obtain ⟨hpos, hlt, hle⟩ := rollTarget_eq_some htarget
    rw [hs]
    refine ⟨?_, fun row hrow => ?_⟩
    · unfold KeysNodup
      rw [s.db.map_id_restartPeriod]
      exact h.keys
    obtain ⟨r, hr, rfl⟩ := mem_updateWhere.mp hrow
    split
    · exact .begun (hpos.trans hlt) hle
    · exact h.starts r hr

theorem Accounts.renew {call : RenewCall} {sub : UserSubscription}
    (h : (WindowOp.renewal call).Accounts db s.db) (hsub : sub ∈ db.userSubscriptions)
    (hturn : Console.RenewTurn call.nowNs sub s s') :
    (WindowOp.renewal call).Accounts db s'.db := by
  cases hturn with
  | idle hdb _ => rwa [hdb]
  | renewed plan price requestID entryID _ hdb _ =>
    rw [hdb]
    refine ⟨?_, fun row hrow => ?_⟩
    · unfold KeysNodup
      rw [Db.map_id_renewedBy]
      exact h.keys
    obtain ⟨r, hr, rfl⟩ := mem_updateWhere.mp hrow
    split
    · rename_i hguard
      simp only [Bool.and_eq_true, decide_eq_true_eq] at hguard
      exact .renewed rfl sub hsub hguard.1.symm rfl
    · exact h.starts r hr

theorem Accounts.sale {env : Console.SaleEnv} {userID : String} {input : Console.PurchaseInput}
    {nowNs : ℤ} (hnow : 0 < nowNs)
    (hkeys : s.db.SubsKeyed)
    (hturn : Console.SaleTurn userID nowNs s s') :
    (WindowOp.purchase env userID input nowNs).Accounts s.db s'.db := by
  cases hturn with
  | idle hdb _ =>
    rw [hdb]
    exact .refl hkeys
  | sold id entryID requestID plan haccepted hdb _ =>
    rw [hdb]
    have hexpired : KeysNodup UserSubscription.id
        ((s.db.post (s.db.settled (Console.purchaseEntry entryID userID plan requestID nowNs)))
          |>.expireActiveOf userID).userSubscriptions := by
      refine keysNodup_updateWhere ?_ hkeys
      intro r _
      rfl
    refine ⟨keysNodup_append_singleton hexpired haccepted.id, ?_⟩
    intro row hrow
    rcases List.mem_append.mp hrow with hrow | hrow
    · obtain ⟨r, hr, rfl⟩ := mem_updateWhere.mp hrow
      refine .kept r hr ?_ ?_
      · split <;> rfl
      · split <;> rfl
    · obtain rfl := List.mem_singleton.mp hrow
      exact .begun hnow le_rfl

theorem accounts_step (hnow : 0 < op.nowNs) (hkeys : s.db.SubsKeyed) :
    op.Accounts s.db (step s op).db := by
  cases op with
  | purchase env userID input nowNs =>
    exact Accounts.sale hnow hkeys (Console.selfPurchase_turn env userID input nowNs s)
  | renewal call =>
    cases call with
    | sweep env nowNs =>
      refine Console.renewDueSubscriptions_invariant
        (I := fun t => (WindowOp.renewal (.sweep env nowNs)).Accounts s.db t.db)
        (fun sub hsub t t' hturn ht => ?_) (.refl hkeys)
      exact ht.renew (mem_listRenewableSubscriptions.mp hsub).1 hturn
    | button io entryID userID input nowNs =>
      rcases Console.selfRenew_turn io entryID userID input nowNs s with
        hsame | ⟨sub, hsub, -, -, hturn⟩
      · rw [show step s (.renewal (.button io entryID userID input nowNs)) = s from hsame]
        exact .refl hkeys
      · exact (Accounts.refl hkeys).renew hsub hturn
  | pass env =>
    exact runOnce_invariant (I := fun t => (WindowOp.pass env).Accounts s.db t.db)
      (fun sub _ t t' hturn ht => ht.roll hturn) (.refl hkeys)

/-! ## Runs -/

/-- The row was renewed before its term ran out: its period starts where that term ends. -/
def RenewedEarly (s : Server) (ops : List WindowOp) (row : UserSubscription) : Prop :=
  ∃ l₁ op l₂, ops = l₁ ++ op :: l₂ ∧ op.renews = true ∧ op.nowNs < row.periodStartNs ∧
    ∃ old ∈ (run step s l₁).db.userSubscriptions,
      old.id = row.id ∧ old.expiresAtNs = row.periodStartNs

variable {ops : List WindowOp}

theorem RenewedEarly.later {old : UserSubscription} (h : RenewedEarly s ops old)
    (hid : old.id = row.id) (hstart : old.periodStartNs = row.periodStartNs) (op : WindowOp) :
    RenewedEarly s (ops ++ [op]) row := by
  obtain ⟨l1, renewal, l2, rfl, hrenews, hnow, sub, hsub, hsubid, hexpires⟩ := h
  refine ⟨l1, renewal, l2 ++ [op], by simp, hrenews, hstart ▸ hnow, sub, hsub, ?_, ?_⟩
  · exact hsubid.trans hid
  · exact hexpires.trans hstart

/-- How the rows stand at an instant: every period has begun, or its row was renewed early. -/
structure Standing (s : Server) (ops : List WindowOp) (clock : ℤ) : Prop where
  keys : KeysNodup UserSubscription.id (run step s ops).db.userSubscriptions
  starts : ∀ row ∈ (run step s ops).db.userSubscriptions,
    0 < row.periodStartNs ∧ (row.periodStartNs ≤ clock ∨ RenewedEarly s ops row)

theorem Standing.mono {clock now : ℤ} (h : Standing s ops clock) (hle : clock ≤ now) :
    Standing s ops now :=
  ⟨h.keys, fun row hrow => ⟨(h.starts row hrow).1,
    (h.starts row hrow).2.imp (fun hbegun => hbegun.trans hle) id⟩⟩

theorem Standing.step {clock : ℤ} (hclock : 0 < clock) (h : Standing s ops clock)
    (hle : clock ≤ op.nowNs) : Standing s (ops ++ [op]) op.nowNs := by
  have hacc := accounts_step (hclock.trans_le hle) h.keys
  have hrun : run WindowOp.step s (ops ++ [op]) = WindowOp.step (run WindowOp.step s ops) op :=
    run_append s ops [op]
  rw [← hrun] at hacc
  refine ⟨hacc.keys, fun row hrow => ?_⟩
  cases hacc.starts row hrow with
  | kept old hold hid hstart =>
    obtain ⟨hpos, hbegun | hearly⟩ := h.starts old hold
    · exact ⟨hstart ▸ hpos, .inl (hstart ▸ hbegun.trans hle)⟩
    · exact ⟨hstart ▸ hpos, .inr (hearly.later hid hstart op)⟩
  | begun hpos hnow => exact ⟨hpos, .inl hnow⟩
  | renewed hop old hold hid hstart =>
    have hnow : op.nowNs ≤ row.periodStartNs := hstart ▸ le_max_right _ _
    refine ⟨(hclock.trans_le hle).trans_le hnow, ?_⟩
    rcases le_or_gt old.expiresAtNs op.nowNs with hover | hahead
    · rw [max_eq_right hover] at hstart
      exact .inl hstart.le
    · rw [max_eq_left hahead.le] at hstart
      exact Or.inr ⟨ops, op, [], rfl, hop, by rw [hstart]; exact hahead, old, hold, hid,
        hstart.symm⟩

end WindowOp

open WindowOp

/-! ## After a pass -/

end Prism
