import Prism.Foundation.Table
import Prism.Foundation.Transaction
import Prism.Model.Tenant

/-!
# The state database

The tables of `state.db` that money and access live in, and the SQL statements the repository
issues against them, with the constraints of `internal/state/migrations/state`: primary keys, the
partial unique indexes, the `CHECK`s on statuses and the foreign keys, which every connection
enforces.

A statement either fails with the constraint it broke and leaves the tables as they were, or
returns the tables after it.  The constraints stand in the order SQLite looks at them: `CHECK`
first, the unique indexes next, the primary key behind them, foreign keys when the statement ends.

* `ux_balance_ledger_request`, `ux_balance_ledger_deposit`: the two indexes of the ledger, both
  partial, so that the empty handle is exempt.
* `ux_user_subscriptions_active`: one active subscription a user.
* `ux_deposit_intents_amount`: one holder an amount.

`user_balance` and `user_subscriptions` reference `users` and go with the account.
`balance_ledger` and `deposit_intents` carry a user id without a reference, and stay.
-/

namespace Prism

open Table

/-- Why a statement fails. -/
inductive SqlError where
  /-- the statement failed by itself: a full disk, a locked file, a lost connection -/
  | io
  | unique
  | primaryKey
  | foreignKey
  | check
  deriving DecidableEq

/-- `SQLITE_CONSTRAINT_UNIQUE` and nothing else; a repeated primary key has a code of its own. -/
def isSQLiteUniqueConstraint : SqlError → Bool
  | .unique => true
  | _ => false

inductive RepoError where
  | conflict (what : String)
  | notFound
  | insufficientBalance
  /-- refused before the database is reached -/
  | invalid (what : String)
  /-- any other error, with the text it was wrapped in -/
  | wrapped (op : String) (cause : SqlError)
  deriving DecidableEq

/-- `fmt.Errorf("op: %w", err)`. -/
def orWrap {α : Type} (op : String) : Except SqlError α → Except RepoError α
  | .ok a => .ok a
  | .error e => .error (.wrapped op e)

/-- A unique constraint becomes a conflict; anything else is wrapped. -/
def orConflict {α : Type} (what op : String) : Except SqlError α → Except RepoError α
  | .ok a => .ok a
  | .error e =>
    if isSQLiteUniqueConstraint e then .error (.conflict what) else .error (.wrapped op e)

@[simp] theorem orWrap_eq_ok_iff {α : Type} {op : String} {r : Except SqlError α} {a : α} :
    orWrap op r = .ok a ↔ r = .ok a := by
  cases r <;> simp [orWrap]

@[simp] theorem orConflict_eq_ok_iff {α : Type} {what op : String} {r : Except SqlError α}
    {a : α} : orConflict what op r = .ok a ↔ r = .ok a := by
  cases r with
  | ok b => simp [orConflict]
  | error e =>
    cases h : isSQLiteUniqueConstraint e <;> simp [orConflict, h]

section

variable {α β : Type} {io : Faults} {n : ℕ} {op what : String} {r : Except SqlError α} {a : α}

theorem ok_of_orWrap (h : orWrap op (stmt io n .io r) = .ok a) : r = .ok a :=
  (stmt_eq_ok_iff.mp (orWrap_eq_ok_iff.mp h)).2

theorem ok_of_orConflict (h : orConflict what op (stmt io n .io r) = .ok a) : r = .ok a :=
  (stmt_eq_ok_iff.mp (orConflict_eq_ok_iff.mp h)).2

/-- Behind a statement that fails by a fault only, a body goes on with its value. -/
theorem next_of_stmt {f : α → Except RepoError β} {b : β}
    (h : (orWrap op (stmt io n .io (.ok a)) >>= f) = .ok b) : f a = .ok b := by
  obtain ⟨a', ha, h⟩ := bind_eq_ok_iff.mp h
  rwa [Except.ok.inj (ok_of_orWrap ha)]

end

/-- The tables, each in the order its rows were inserted. -/
structure Db where
  users : List User := []
  plans : List Plan := []
  userSubscriptions : List UserSubscription := []
  accessKeys : List AccessKey := []
  userBalance : List BalanceRow := []
  balanceLedger : List BalanceEntry := []
  redeemCodes : List RedeemCode := []
  depositIntents : List DepositIntent := []
  chainCursor : List CursorRow := []
  sessions : List Session := []
  deriving DecidableEq

/-- A method of the repository. -/
abbrev RepoCall (α : Type) := Db → Except RepoError α × Db

namespace Db

variable (db : Db)

/-- `GetUser`. -/
def user (id : String) : Option User :=
  lookup User.id id db.users

def plan (id : String) : Option Plan :=
  lookup Plan.id id db.plans

def subscription (id : String) : Option UserSubscription :=
  lookup UserSubscription.id id db.userSubscriptions

/-- The balance column, zero when there is no row. -/
def balance (userID : String) : ℤ :=
  match lookup BalanceRow.userID userID db.userBalance with
  | some row => row.balanceMicro
  | none => 0

/-- The watermark of a listener, zero when it has never advanced. -/
def cursor (name : String) : ℤ :=
  match lookup CursorRow.name name db.chainCursor with
  | some row => row.watermarkMs
  | none => 0

/-- The account is there: what a reference to `users(id)` asks. -/
def hasUser (id : String) : Bool :=
  (db.user id).isSome

def hasPlanOrNull (id : String) : Bool :=
  id = "" || (db.plan id).isSome

/-- `INSERT INTO user_balance ... ON CONFLICT(user_id) DO UPDATE`. -/
def writeBalance (userID : String) (balanceMicro nowNs : ℤ) : Except SqlError Db :=
  -- the reference is looked at when a row is inserted, not when one is updated
  if (lookup BalanceRow.userID userID db.userBalance).isNone && !db.hasUser userID then
    .error .foreignKey
  else
    .ok { db with
      userBalance := upsertWith BalanceRow.userID (fun _ row => row)
        ⟨userID, balanceMicro, nowNs⟩ db.userBalance }

/-- `ux_balance_ledger_request (user_id, request_id) WHERE request_id <> ''`. -/
def requestKey (e : BalanceEntry) : String × String := (e.userID, e.requestID)

def hasRequest (e : BalanceEntry) : Bool := e.requestID ≠ ""

/-- `ux_balance_ledger_deposit (reason, ref_id) WHERE reason = 'deposit' AND ref_id <> ''`. -/
def refKey (e : BalanceEntry) : BalanceReason × String := (e.reason, e.refID)

def hasDepositRef (e : BalanceEntry) : Bool := e.reason = .deposit && e.refID ≠ ""

def insertLedger (e : BalanceEntry) : Except SqlError Db :=
  if Taken requestKey hasRequest e db.balanceLedger then .error .unique
  else if Taken refKey hasDepositRef e db.balanceLedger then .error .unique
  else if db.balanceLedger.any fun r => r.id = e.id then .error .primaryKey
  else .ok { db with balanceLedger := db.balanceLedger ++ [e] }

/-- The partial index counts the row. -/
def isActive (s : UserSubscription) : Bool := s.status = .active

/-- Another row than `id` is active for the user: what `ux_user_subscriptions_active` refuses. -/
def activeElsewhere (id userID : String) : Bool :=
  db.userSubscriptions.any fun r => r.id ≠ id && isActive r && r.userID = userID

def insertSubscription (s : UserSubscription) : Except SqlError Db :=
  if !s.status.isSubscriptionStatus then .error .check
  else if Taken UserSubscription.userID isActive s db.userSubscriptions then .error .unique
  else if db.userSubscriptions.any fun r => r.id = s.id then .error .primaryKey
  else if !db.hasUser s.userID || !db.hasPlanOrNull s.planID then .error .foreignKey
  else .ok { db with userSubscriptions := db.userSubscriptions ++ [s] }

/-- `UPDATE user_subscriptions SET status = 'expired' WHERE user_id = ? AND status = 'active'`. -/
def expireActiveOf (userID : String) : Db :=
  { db with
    userSubscriptions := updateWhere (fun r => r.userID = userID && isActive r)
      (fun r => { r with status := .expired }) db.userSubscriptions }

def renewColumns (sub : UserSubscription) (snapshot : SnapshotText) (r : UserSubscription) :
    UserSubscription :=
  { r with
    planSnapshot := snapshot
    expiresAtNs := sub.expiresAtNs
    periodIndex := sub.periodIndex
    periodStartNs := sub.periodStartNs
    periodUsedBytes := 0
    status := .active }

/-- The row of the subscription, if it still carries the period. -/
def atPeriod (id : String) (period : ℤ) : Option UserSubscription :=
  db.userSubscriptions.find? fun r => r.id = id && r.periodIndex = period

/-- `UPDATE user_subscriptions SET ... WHERE id = ? AND period_index = ?`, with the number of
rows it matched. -/
def renewRow (sub : UserSubscription) (snapshot : SnapshotText) (expected : ℤ) :
    Except SqlError (ℕ × Db) :=
  match db.atPeriod sub.id expected with
  | none => .ok (0, db)
  | some r =>
    if db.activeElsewhere r.id r.userID then .error .unique
    else .ok (1, { db with
      userSubscriptions := updateWhere
        (fun r => r.id = sub.id && r.periodIndex = expected)
        (renewColumns sub snapshot) db.userSubscriptions })

/-- The columns a write of the terms carries; the period counters are not among them. -/
def termsColumns (s : UserSubscription) (r : UserSubscription) : UserSubscription :=
  { r with
    userID := s.userID
    planID := s.planID
    planSnapshot := s.planSnapshot
    startsAtNs := s.startsAtNs
    expiresAtNs := s.expiresAtNs
    autoRenew := s.autoRenew
    periodIndex := s.periodIndex
    status := s.status }

/-- `UPDATE user_subscriptions SET <terms> WHERE id = ?`, with the number of rows it matched. -/
def writeTerms (s : UserSubscription) : Except SqlError (ℕ × Db) :=
  match db.subscription s.id with
  | none => .ok (0, db)
  | some _ =>
    if !s.status.isSubscriptionStatus then .error .check
    else if isActive s && db.activeElsewhere s.id s.userID then .error .unique
    else if !db.hasUser s.userID || !db.hasPlanOrNull s.planID then .error .foreignKey
    else .ok (1, { db with
      userSubscriptions := updateWhere (fun r => r.id = s.id) (termsColumns s)
        db.userSubscriptions })

/-- `UPDATE user_subscriptions SET status = 'suspended' WHERE id = ?`.  The row leaves the
partial index or was not in it. -/
def suspendRow (id : String) : Db :=
  { db with
    userSubscriptions := updateWhere (fun r => r.id = id)
      (fun r => { r with status := .suspended }) db.userSubscriptions }

/-- `UPDATE user_subscriptions SET auto_renew = ? WHERE id = ?`. -/
def writeAutoRenew (id : String) (autoRenew : Bool) : Db :=
  { db with
    userSubscriptions := updateWhere (fun r => r.id = id)
      (fun r => { r with autoRenew := autoRenew }) db.userSubscriptions }

/-- `UPDATE ... SET status = 'expired' WHERE status = 'active' AND expires_at_ns > 0 AND
expires_at_ns <= ?`. -/
def expireStale (nowNs : ℤ) : Db :=
  { db with
    userSubscriptions := updateWhere
      (fun r => isActive r && decide (0 < r.expiresAtNs) && decide (r.expiresAtNs ≤ nowNs))
      (fun r => { r with status := .expired }) db.userSubscriptions }

/-- The conditional claim of one use: active, unexpired, uses left. -/
def claimable (codeHash : List UInt8) (nowNs : ℤ) (c : RedeemCode) : Bool :=
  c.codeHash = codeHash && c.status = .active &&
    (c.expiresAtNs = 0 || decide (nowNs < c.expiresAtNs)) &&
    (c.maxUses = 0 || decide (c.usedCount < c.maxUses))

/-- `UPDATE redeem_codes SET used_count = used_count + 1 ...`, with the rows it matched. -/
def claimCode (codeHash : List UInt8) (nowNs : ℤ) : ℕ × Db :=
  (db.redeemCodes.countP (claimable codeHash nowNs),
    { db with
      redeemCodes := updateWhere (claimable codeHash nowNs)
        (fun c => { c with usedCount := c.usedCount + 1, updatedAtNs := nowNs })
        db.redeemCodes })

/-- The occupancy of the intent is over, and it still holds its amount. -/
def holdOver (nowNs : ℤ) (i : DepositIntent) : Bool :=
  i.status.holds && decide (i.holdUntilNs ≤ nowNs)

/-- `UPDATE deposit_intents SET status = 'released' WHERE status IN ('pending', 'unpaid') AND
hold_until_ns <= ?`. -/
def releaseExpired (nowNs : ℤ) : Db :=
  { db with
    depositIntents := updateWhere (holdOver nowNs)
      (fun i => { i with status := .released }) db.depositIntents }

/-- The payment window is over, the occupancy is not. -/
def windowOver (nowNs : ℤ) (i : DepositIntent) : Bool :=
  i.status = .pending && decide (i.expiresAtNs ≤ nowNs) && decide (nowNs < i.holdUntilNs)

/-- `UPDATE deposit_intents SET status = 'unpaid' WHERE status = 'pending' AND expires_at_ns <= ?
AND hold_until_ns > ?`. -/
def markUnpaid (nowNs : ℤ) : Db :=
  { db with
    depositIntents := updateWhere (windowOver nowNs)
      (fun i => { i with status := .unpaid }) db.depositIntents }

/-- `ux_deposit_intents_amount (amount_micro) WHERE status IN ('pending', 'unpaid')`. -/
def holdsAmount (i : DepositIntent) : Bool := i.status.holds

/-- `INSERT INTO deposit_intents ... ON CONFLICT DO NOTHING`, with the rows it inserted. -/
def insertIntentOrIgnore (i : DepositIntent) : ℕ × Db :=
  if Taken DepositIntent.amountMicro holdsAmount i db.depositIntents ∨
      (db.depositIntents.any fun r => r.id = i.id) then (0, db)
  else (1, { db with depositIntents := db.depositIntents ++ [i] })

/-- `UPDATE deposit_intents SET status = 'paid', tx_id = ?, paid_at_ns = ? WHERE id = ?`. -/
def settleIntent (id txID : String) (nowNs : ℤ) : Db :=
  { db with
    depositIntents := updateWhere (fun i => i.id = id)
      (fun i => { i with status := .paid, txID := txID, paidAtNs := nowNs }) db.depositIntents }

/-- `chainCursorUpsert`: the stored watermark only ever grows. -/
def advanceCursor (name : String) (watermarkMs nowNs : ℤ) : Db :=
  { db with
    chainCursor := upsertWith CursorRow.name
      (fun old row => { row with watermarkMs := max old.watermarkMs row.watermarkMs })
      ⟨name, watermarkMs, nowNs⟩ db.chainCursor }

end Db
end Prism
