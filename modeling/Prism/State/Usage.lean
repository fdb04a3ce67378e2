import Prism.State.Account
import Prism.State.Purchase

/-!
# The period columns of a subscription

The two writers of `internal/state/repo_user.go` that belong to the accounting: the flusher adds to
the usage of the period, the rollover starts the next one.  Both are single statements.

`ResetSubscriptionPeriod` is guarded by the start of the period it was called about.  It answers
`ErrNotFound` for a row that is gone and nothing at all for a row whose period has moved on.
-/

namespace Prism

open Table

namespace Db

/-- `UPDATE user_subscriptions SET period_used_bytes = MAX(0, period_used_bytes + ?) WHERE id = ?`. -/
def addUsed (db : Db) (id : String) (delta : ℤ) : Db :=
  { db with
    userSubscriptions := updateWhere (fun r => r.id = id)
      (fun r => { r with periodUsedBytes := max 0 (r.periodUsedBytes + delta) })
      db.userSubscriptions }

/-- The row is there, and its period still starts at the instant. -/
def periodStartsAt (db : Db) (id : String) (startNs : ℤ) : Bool :=
  db.userSubscriptions.any fun r => r.id = id && r.periodStartNs = startNs

/-- `UPDATE user_subscriptions SET period_start_ns = ?, period_used_bytes = 0 WHERE id = ? AND
period_start_ns = ?`. -/
def restartPeriod (db : Db) (id : String) (fromNs toNs : ℤ) : Db :=
  { db with
    userSubscriptions := updateWhere (fun r => r.id = id && r.periodStartNs = fromNs)
      (fun r => { r with periodStartNs := toNs, periodUsedBytes := 0 }) db.userSubscriptions }

end Db

def listUserSubscriptions (db : Db) : List UserSubscription :=
  db.userSubscriptions.mergeSort fun s t => decide (s.userID ≤ t.userID)

def addSubscriptionUsedBytes (io : Faults) (id : String) (delta : ℤ) : RepoCall Unit :=
  singleFound io "" (fun db => .ok (db.addUsed id delta)) fun db => (db.subscription id).isSome

/-- Start a new period, if the old one is still the one that was read. -/
def resetSubscriptionPeriod (io : Faults) (id : String) (fromNs toNs : ℤ) : RepoCall Unit :=
  single fun db => do
    let after ← orWrap "" (stmt io 0 .io (.ok (db.restartPeriod id fromNs toNs)))
    if db.periodStartsAt id fromNs then .ok after
    else do
      -- a row that is gone is told apart from a period that has moved on
      let found ← orWrap "check subscription" (stmt io 1 .io (.ok (db.subscription id).isSome))
      if found then .ok after else .error .notFound

/-! ## What they do -/

variable {id : String} {db : Db} {io : Faults}

theorem addSubscriptionUsedBytes_ok {delta : ℤ}
    (h : (addSubscriptionUsedBytes io id delta db).1 = .ok ()) :
    (addSubscriptionUsedBytes io id delta db).2 = db.addUsed id delta := by
  unfold addSubscriptionUsedBytes at h ⊢
  rcases singleFound_ok_cases io "" _ db fun db => db.addUsed id delta with ⟨e, herr⟩ | hdone
  · rw [herr] at h
    cases h
  · rw [hdone]

theorem addSubscriptionUsedBytes_error {delta : ℤ} {e : RepoError}
    (h : (addSubscriptionUsedBytes io id delta db).1 = .error e) :
    (addSubscriptionUsedBytes io id delta db).2 = db :=
  atomically_snd_of_fst_error h

theorem addSubscriptionUsedBytes_noFaults (delta : ℤ) (h : (db.subscription id).isSome = true) :
    addSubscriptionUsedBytes noFaults id delta db = (.ok (), db.addUsed id delta) := by
  unfold addSubscriptionUsedBytes singleFound single atomically
  simp only [stmt_noFaults, orWrap, ok_bind, h, if_true, Except.map]

theorem Db.map_id_restartPeriod (db : Db) (id : String) (fromNs toNs : ℤ) :
    (db.restartPeriod id fromNs toNs).userSubscriptions.map UserSubscription.id =
      db.userSubscriptions.map UserSubscription.id := by
  refine map_key_updateWhere UserSubscription.id ?_ _
  intro r _
  rfl

theorem resetSubscriptionPeriod_ok {fromNs toNs : ℤ} {db' : Db}
    (h : resetSubscriptionPeriod io id fromNs toNs db = (.ok (), db')) :
    (db.subscription id).isSome = true ∧ db' = db.restartPeriod id fromNs toNs := by
  unfold resetSubscriptionPeriod at h
  rcases single_cases _ db with ⟨e, -, herr⟩ | ⟨after, hok, hdone⟩
  · rw [herr] at h
    exact absurd (Prod.mk.inj h).1 (by simp)
  rw [hdone] at h
  obtain rfl := (Prod.mk.inj h).2
  have hrest := next_of_stmt hok
  cases hstart : db.periodStartsAt id fromNs with
  | true =>
    rw [hstart, if_pos rfl] at hrest
    refine ⟨?_, (Except.ok.inj hrest).symm⟩
    obtain ⟨r, hr, hat⟩ := List.any_eq_true.mp hstart
    simp only [Bool.and_eq_true, decide_eq_true_eq] at hat
    exact (lookup_isSome_iff UserSubscription.id).mpr (List.mem_map.mpr ⟨r, hr, hat.1⟩)
  | false =>
    rw [hstart, if_neg (by simp)] at hrest
    have hrest := next_of_stmt hrest
    split_ifs at hrest with hyes
    exact ⟨hyes, (Except.ok.inj hrest).symm⟩

end Prism
