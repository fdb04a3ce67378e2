import Prism.State.Database

/-!
# Moving a balance

`internal/state/repo_balance.go` and `repo_redeem_code.go`.  Every movement is one transaction that
writes the balance and appends a ledger row recording the balance as it stood afterwards.

The source writes the sequence *read the balance, refuse an overdraft, write the balance, append
the row* out three times, in `ApplyBalanceDelta`, `RedeemCodeAndCredit` and `chargeInTx`, because
calling one from another would open a second transaction.  The three copies agree to the letter,
so they are one definition here, `chargeInTx`.  The fourth copy, in `CreditDeposit`, has no
overdraft check and texts of its own; it shares only the two writes, `writeMovement`.
-/

namespace Prism

open Table

/-- The tables after a movement: the balance row holds what the entry records, and the entry is the
newest ledger row. -/
def Db.post (db : Db) (e : BalanceEntry) : Db :=
  { db with
    userBalance := upsertWith BalanceRow.userID (fun _ row => row)
      ⟨e.userID, e.balanceAfterMicro, e.createdAtNs⟩ db.userBalance
    balanceLedger := db.balanceLedger ++ [e] }

/-- The ledger accepts the entry: its request and its deposit reference are free, and so is its
id. -/
structure Db.AcceptsEntry (db : Db) (e : BalanceEntry) : Prop where
  request : ¬ Taken Db.requestKey Db.hasRequest e db.balanceLedger
  ref : ¬ Taken Db.refKey Db.hasDepositRef e db.balanceLedger
  id : ∀ r ∈ db.balanceLedger, r.id ≠ e.id

/-- The balance row is there, or its account is. -/
def Db.Creditable (db : Db) (userID : String) : Prop :=
  (lookup BalanceRow.userID userID db.userBalance).isSome ∨ db.hasUser userID
  deriving Decidable

variable {e : BalanceEntry} {db db' : Db}

theorem Db.insertLedger_eq_ok_iff : db.insertLedger e = .ok db' ↔
      db.AcceptsEntry e ∧ db' = { db with balanceLedger := db.balanceLedger ++ [e] } := by
  unfold Db.insertLedger
  simp only [refuse_eq_ok_iff, List.any_eq_true, decide_eq_true_eq, not_exists, not_and,
    Except.ok.injEq]
  constructor
  · rintro ⟨hrequest, href, hid, hdb⟩
    exact ⟨⟨hrequest, href, hid⟩, hdb.symm⟩
  · rintro ⟨⟨hrequest, href, hid⟩, rfl⟩
    exact ⟨hrequest, href, hid, rfl⟩

theorem Db.writeBalance_eq_ok_iff {userID : String} {b now : ℤ} :
    db.writeBalance userID b now = .ok db' ↔ db.Creditable userID ∧ db' = { db with
        userBalance := upsertWith BalanceRow.userID (fun _ row => row)
          ⟨userID, b, now⟩ db.userBalance } := by
  unfold Db.writeBalance Db.Creditable
  cases hrow : lookup BalanceRow.userID userID db.userBalance <;>
    cases huser : db.hasUser userID <;> simp [eq_comm]

def writeMovement (io : Faults) (n : ℕ) (what op : String) (e : BalanceEntry) (db : Db) :
    Except RepoError Db := do
  let db ← orWrap "write balance"
    (stmt io n .io (db.writeBalance e.userID e.balanceAfterMicro e.createdAtNs))
  orConflict what op (stmt io (n + 1) .io (db.insertLedger e))

variable {io : Faults} {n : ℕ}

theorem writeMovement_eq_ok_iff {what op : String} : writeMovement io n what op e db = .ok db' ↔
      (io n = false ∧ io (n + 1) = false) ∧ db.Creditable e.userID ∧ db.AcceptsEntry e ∧
        db' = db.post e := by
  unfold writeMovement
  rw [bind_eq_ok_iff]
  simp only [orWrap_eq_ok_iff, orConflict_eq_ok_iff, stmt_eq_ok_iff, Db.writeBalance_eq_ok_iff,
    Db.insertLedger_eq_ok_iff]
  constructor
  · rintro ⟨mid, ⟨h1, hc, rfl⟩, h2, ha, rfl⟩
    exact ⟨⟨h1, h2⟩, hc, ⟨ha.request, ha.ref, ha.id⟩, rfl⟩
  · rintro ⟨⟨h1, h2⟩, hc, ha, rfl⟩
    exact ⟨_, ⟨h1, hc, rfl⟩, h2, ⟨ha.request, ha.ref, ha.id⟩, rfl⟩

theorem writeMovement_of_not_creditable {what op : String} (h : ¬ db.Creditable e.userID) :
    writeMovement noFaults n what op e db = .error (.wrapped "write balance" .foreignKey) := by
  obtain ⟨hrow, huser⟩ := not_or.mp h
  rw [Bool.not_eq_true, Option.isSome_eq_false_iff, Option.isNone_iff_eq_none] at hrow
  rw [Bool.not_eq_true] at huser
  have hwrite : db.writeBalance e.userID e.balanceAfterMicro e.createdAtNs =
      .error .foreignKey := by
    simp [Db.writeBalance, hrow, huser]
  simp only [writeMovement, stmt_noFaults, hwrite, orWrap, error_bind]

theorem writeMovement_of_taken {what op : String} (hcreditable : db.Creditable e.userID)
    (htaken : Taken Db.requestKey Db.hasRequest e db.balanceLedger ∨ Taken Db.refKey
      Db.hasDepositRef e db.balanceLedger) :
    writeMovement noFaults n what op e db = .error (.conflict what) := by
  have hledger : ∀ db' : Db, db'.balanceLedger = db.balanceLedger →
      db'.insertLedger e = .error .unique := by
    intro db' heq
    unfold Db.insertLedger
    rw [heq]
    by_cases hreq : Taken Db.requestKey Db.hasRequest e db.balanceLedger
    · rw [if_pos hreq]
    · rw [if_neg hreq, if_pos (htaken.resolve_left hreq)]
  unfold writeMovement
  simp only [stmt_noFaults]
  rw [Db.writeBalance_eq_ok_iff.mpr ⟨hcreditable, rfl⟩, orWrap, ok_bind, hledger]
  · rfl
  · rfl

theorem Db.lookup_post (db : Db) (e : BalanceEntry) (u : String) :
    lookup BalanceRow.userID u (db.post e).userBalance =
      if u = e.userID then some ⟨e.userID, e.balanceAfterMicro, e.createdAtNs⟩
      else lookup BalanceRow.userID u db.userBalance :=
  lookup_replace BalanceRow.userID _ u db.userBalance

theorem Db.balance_post_self (db : Db) (e : BalanceEntry) :
    (db.post e).balance e.userID = e.balanceAfterMicro := by
  simp only [Db.balance, Db.lookup_post, if_true]

theorem Db.balance_post_of_ne (db : Db) {u : String} (h : u ≠ e.userID) :
    (db.post e).balance u = db.balance u := by
  simp only [Db.balance, Db.lookup_post, if_neg h]

/-- Read the balance inside the transaction; an unknown user reads as zero. -/
def balanceForUpdate (io : Faults) (n : ℕ) (userID : String) (db : Db) : Except RepoError ℤ :=
  orWrap "read balance for update" (stmt io n .io (.ok (db.balance userID)))

/-- One movement inside an open transaction, refused when it would take the balance below zero.
Statements `n`, `n + 1` and `n + 2`. -/
def chargeInTx (io : Faults) (n : ℕ) (entry : BalanceEntry) (db : Db) :
    Except RepoError (BalanceEntry × Db) := do
  let current ← balanceForUpdate io n entry.userID db
  let after := current + entry.deltaMicro
  if after < 0 then .error .insufficientBalance else do
    let entry := { entry with balanceAfterMicro := after }
    let db ← writeMovement io (n + 1) "that balance change was already applied" "write ledger"
      entry db
    .ok (entry, db)

/-- The entry as it is stored: the balance after it, filled in. -/
def Db.settled (db : Db) (entry : BalanceEntry) : BalanceEntry :=
  { entry with balanceAfterMicro := db.balance entry.userID + entry.deltaMicro }

structure Db.Admits (db : Db) (entry : BalanceEntry) : Prop where
  funds : 0 ≤ db.balance entry.userID + entry.deltaMicro
  creditable : db.Creditable entry.userID
  accepts : db.AcceptsEntry (db.settled entry)

variable {entry : BalanceEntry}

theorem chargeInTx_eq_ok_iff : chargeInTx io n entry db = .ok (e, db') ↔
      (io n = false ∧ io (n + 1) = false ∧ io (n + 2) = false) ∧ db.Admits entry ∧
        e = db.settled entry ∧ db' = db.post e := by
  unfold chargeInTx balanceForUpdate
  simp only [bind_eq_ok_iff, orWrap_eq_ok_iff, stmt_eq_ok_iff]
  constructor
  · rintro ⟨current, ⟨h0, hcur⟩, h⟩
    have hcur' : db.balance entry.userID = current := Except.ok.inj hcur
    subst hcur'
    split_ifs at h with hfunds
    obtain ⟨mid, hmid, hend⟩ := bind_eq_ok_iff.mp h
    obtain ⟨⟨h1, h2⟩, hc, ha, rfl⟩ := writeMovement_eq_ok_iff.mp hmid
    have hpair := Prod.mk.inj (Except.ok.inj hend)
    obtain ⟨rfl, rfl⟩ := hpair
    exact ⟨⟨h0, h1, h2⟩, ⟨by omega, hc, ha⟩, rfl, rfl⟩
  · rintro ⟨⟨h0, h1, h2⟩, hadm, rfl, rfl⟩
    refine ⟨_, ⟨h0, rfl⟩, ?_⟩
    rw [if_neg (by have := hadm.funds; omega)]
    refine bind_eq_ok_iff.mpr ⟨_, writeMovement_eq_ok_iff.mpr ?_, rfl⟩
    exact ⟨⟨h1, h2⟩, hadm.creditable, hadm.accepts, rfl⟩

/-- `BEGIN` and `COMMIT`, as numbered statements. -/
def beginTx (io : Faults) (n : ℕ) (op : String) : Except RepoError Unit :=
  orWrap op (stmt io n .io (.ok ()))

def commitTx (io : Faults) (n : ℕ) (op : String) : Except RepoError Unit :=
  orWrap op (stmt io n .io (.ok ()))

def applyBalanceDeltaBody (io : Faults) (entry : BalanceEntry) (db : Db) :
    Except RepoError (BalanceEntry × Option Db) := do
  beginTx io 0 "begin balance change"
  let (entry, db) ← chargeInTx io 1 entry db
  commitTx io 4 "commit balance change"
  .ok (entry, some db)

/-- Move a user's balance by the entry's delta and record the movement. -/
def applyBalanceDelta (io : Faults) (entry : BalanceEntry) : RepoCall BalanceEntry :=
  atomically (applyBalanceDeltaBody io entry)

def redeemCodeAndCreditBody (io : Faults) (codeHash : List UInt8) (entry : BalanceEntry)
    (nowNs : ℤ) (db : Db) : Except RepoError (BalanceEntry × Option Db) := do
  beginTx io 0 "begin redemption"
  let (n, db) ← orWrap "claim redeem code" (stmt io 1 .io (.ok (db.claimCode codeHash nowNs)))
  -- unknown, revoked, expired and spent read the same on purpose
  if n = 0 then .error .notFound else do
    let (entry, db) ← chargeInTx io 2 entry db
    commitTx io 5 "commit redemption"
    .ok (entry, some db)

/-- Claim one use of a code and credit its amount. -/
def redeemCodeAndCredit (io : Faults) (codeHash : List UInt8) (entry : BalanceEntry) (nowNs : ℤ) :
    RepoCall BalanceEntry :=
  atomically (redeemCodeAndCreditBody io codeHash entry nowNs)

theorem applyBalanceDelta_commit (h : applyBalanceDeltaBody io entry db = .ok (e, some db')) :
    db.Admits entry ∧ e = db.settled entry ∧ db' = db.post e := by
  obtain ⟨-, -, h⟩ := bind_eq_ok_iff.mp h
  obtain ⟨⟨e1, db1⟩, hcharge, h⟩ := bind_eq_ok_iff.mp h
  obtain ⟨-, -, h⟩ := bind_eq_ok_iff.mp h
  obtain ⟨-, hadm, he, hdb⟩ := chargeInTx_eq_ok_iff.mp hcharge
  obtain ⟨rfl, hsome⟩ := Prod.mk.inj (Except.ok.inj h)
  exact ⟨hadm, he, (Option.some.inj hsome).symm.trans hdb⟩

theorem redeemCodeAndCredit_commit {codeHash : List UInt8} {nowNs : ℤ}
    (h : redeemCodeAndCreditBody io codeHash entry nowNs db = .ok (e, some db')) :
    0 < (db.claimCode codeHash nowNs).1 ∧ (db.claimCode codeHash nowNs).2.Admits entry ∧
      e = db.settled entry ∧ db' = (db.claimCode codeHash nowNs).2.post e := by
  obtain ⟨-, -, h⟩ := bind_eq_ok_iff.mp h
  have h := next_of_stmt h
  dsimp only at h
  split_ifs at h with hn
  obtain ⟨⟨e1, db1⟩, hcharge, h⟩ := bind_eq_ok_iff.mp h
  obtain ⟨-, -, h⟩ := bind_eq_ok_iff.mp h
  obtain ⟨-, hadm, he, hdb⟩ := chargeInTx_eq_ok_iff.mp hcharge
  obtain ⟨rfl, hsome⟩ := Prod.mk.inj (Except.ok.inj h)
  exact ⟨Nat.pos_of_ne_zero hn, hadm, he, (Option.some.inj hsome).symm.trans hdb⟩

end Prism
