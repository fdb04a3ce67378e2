import Prism.State.Balance

/-!
# Deposit intents: allocation, expiry and crediting

`internal/state/repo_deposit.go`.  The allocator is the partial unique index on the amount: a
candidate is inserted and "no row inserted" means taken, so the next one is tried.

A transfer is matched by its amount and its own block time, whatever the status of the intent is
by then, as long as it is not paid.  The ledger row, the status of the intent and the cursor move
in one transaction.
-/

namespace Prism

open Table

variable {db : Db} {i : DepositIntent} {io : Faults} {nowNs amountMicro blockTSNs : ℤ}

/-- The intent as it is inserted, at an amount. -/
def intentRow (intent : DepositIntent) (amount : ℤ) : DepositIntent :=
  { intent with amountMicro := amount, status := .pending, txID := "", paidAtNs := 0 }

/-- Try the candidates in order; statement `n` is the next insert. -/
def allocateAmount (io : Faults) (intent : DepositIntent) (db : Db) :
    ℕ → List ℤ → Except RepoError (DepositIntent × Option Db)
  | _, [] => .error (.conflict "")
  | n, amount :: candidates => do
    let (affected, db') ← orWrap "allocate deposit amount"
      (stmt io n .io (.ok (db.insertIntentOrIgnore (intentRow intent amount))))
    if affected = 0 then allocateAmount io intent db (n + 1) candidates else do
      commitTx io (n + 1) "commit deposit intent"
      .ok (intentRow intent amount, some db')

def insertDepositIntentBody (io : Faults) (intent : DepositIntent) (candidates : List ℤ)
    (nowNs : ℤ) (db : Db) : Except RepoError (DepositIntent × Option Db) :=
  if candidates = [] then .error (.conflict "") else do
    beginTx io 0 "begin deposit intent"
    let db ← orWrap "release expired deposits" (stmt io 1 .io (.ok (db.releaseExpired nowNs)))
    allocateAmount io intent db 2 candidates

/-- Release expired holds, then open an intent at the first free candidate amount. -/
def insertDepositIntent (io : Faults) (intent : DepositIntent) (candidates : List ℤ) (nowNs : ℤ) :
    RepoCall DepositIntent :=
  atomically (insertDepositIntentBody io intent candidates nowNs)

/-- The table takes the row: its amount is not held and its id is new. -/
structure Db.AcceptsIntent (db : Db) (i : DepositIntent) : Prop where
  amount : ¬ Taken DepositIntent.amountMicro Db.holdsAmount i db.depositIntents
  id : ∀ r ∈ db.depositIntents, r.id ≠ i.id

variable {db' : Db}

theorem Db.insertIntentOrIgnore_of_ne_zero {n : ℕ} (h : db.insertIntentOrIgnore i = (n, db'))
    (hn : n ≠ 0) :
    db.AcceptsIntent i ∧ db' = { db with depositIntents := db.depositIntents ++ [i] } := by
  unfold Db.insertIntentOrIgnore at h
  split at h
  · exact absurd (Prod.mk.inj h).1.symm hn
  · rename_i hfree
    rw [not_or] at hfree
    refine ⟨⟨hfree.1, fun r hr hid => hfree.2 ?_⟩, (Prod.mk.inj h).2.symm⟩
    exact List.any_eq_true.mpr ⟨r, hr, decide_eq_true hid⟩

theorem allocateAmount_commit {intent row : DepositIntent} : ∀ {n : ℕ} {candidates : List ℤ},
      allocateAmount io intent db n candidates = .ok (row, some db') →
      ∃ amount ∈ candidates, row = intentRow intent amount ∧ db.AcceptsIntent row ∧
        db' = { db with depositIntents := db.depositIntents ++ [row] }
  | _, [], h => by
    unfold allocateAmount at h
    simp at h
  | n, amount :: candidates, h => by
    obtain ⟨⟨affected, db1⟩, hins, h⟩ := bind_eq_ok_iff.mp h
    simp only at h
    split at h
    · obtain ⟨a, ha, hrest⟩ := allocateAmount_commit h
      exact ⟨a, .tail _ ha, hrest⟩
    · rename_i hn
      obtain ⟨-, -, h⟩ := bind_eq_ok_iff.mp h
      obtain ⟨rfl, hsome⟩ := Prod.mk.inj (Except.ok.inj h)
      obtain ⟨hacc, hdb⟩ := Db.insertIntentOrIgnore_of_ne_zero
        (Except.ok.inj (ok_of_orWrap hins)) hn
      exact ⟨amount, .head _, rfl, hacc, (Option.some.inj hsome).symm.trans hdb⟩

/-- **An intent that is opened** is inserted behind the released holds, at one of the candidate
amounts. -/
theorem insertDepositIntent_commit {intent row : DepositIntent} {candidates : List ℤ}
    (h : insertDepositIntentBody io intent candidates nowNs db = .ok (row, some db')) :
    ∃ amount ∈ candidates, row = intentRow intent amount ∧
      (db.releaseExpired nowNs).AcceptsIntent row ∧
      db' = { db.releaseExpired nowNs with
        depositIntents := (db.releaseExpired nowNs).depositIntents ++ [row] } := by
  unfold insertDepositIntentBody at h
  split_ifs at h
  obtain ⟨-, -, h⟩ := bind_eq_ok_iff.mp h
  have h := next_of_stmt h
  exact allocateAmount_commit h

/-- The tables after a sweep: first the payment windows, then the occupancies. -/
def Db.swept (db : Db) (nowNs : ℤ) : Db :=
  (db.markUnpaid nowNs).releaseExpired nowNs

def sweepDepositsBody (io : Faults) (nowNs : ℤ) (db : Db) : Except RepoError (ℕ × Option Db) := do
  beginTx io 0 "begin deposit sweep"
  let db ← orWrap "mark deposits unpaid" (stmt io 1 .io (.ok (db.markUnpaid nowNs)))
  let released := db.depositIntents.countP (Db.holdOver nowNs)
  let db ← orWrap "release expired deposits" (stmt io 2 .io (.ok (db.releaseExpired nowNs)))
  commitTx io 3 "commit deposit sweep"
  .ok (released, some db)

/-- Age the intents through their two windows, and count the amounts that came back. -/
def sweepDeposits (io : Faults) (nowNs : ℤ) : Db → Except RepoError ℕ × Db :=
  atomically (sweepDepositsBody io nowNs)

theorem sweepDeposits_commit {n : ℕ} (h : sweepDepositsBody io nowNs db = .ok (n, some db')) :
    db' = db.swept nowNs := by
  obtain ⟨-, -, h⟩ := bind_eq_ok_iff.mp h
  have h := next_of_stmt h
  have h := next_of_stmt h
  obtain ⟨-, -, h⟩ := bind_eq_ok_iff.mp h
  obtain ⟨-, hsome⟩ := Prod.mk.inj (Except.ok.inj h)
  exact (Option.some.inj hsome).symm

/-- The intent a transfer may belong to: its amount, its window on the chain's clock, not paid. -/
def DepositIntent.matches (amountMicro blockTSNs : ℤ) (i : DepositIntent) : Bool :=
  i.amountMicro = amountMicro && i.status ≠ .paid && decide (i.createdAtNs ≤ blockTSNs) &&
    decide (blockTSNs < i.holdUntilNs)

theorem DepositIntent.matches_iff : i.matches amountMicro blockTSNs = true ↔
      i.amountMicro = amountMicro ∧ i.status ≠ .paid ∧ i.createdAtNs ≤ blockTSNs ∧
        blockTSNs < i.holdUntilNs := by
  unfold DepositIntent.matches
  simp [and_assoc]

/-- `ORDER BY created_at_ns DESC LIMIT 1`. -/
def newestIntent : List DepositIntent → Option DepositIntent
  | [] => none
  | i :: is =>
    match newestIntent is with
    | none => some i
    | some j => if i.createdAtNs < j.createdAtNs then some j else some i

theorem newestIntent_eq_none_iff {is : List DepositIntent} : newestIntent is = none ↔ is = [] := by
  cases is with
  | nil => simp [newestIntent]
  | cons i is =>
    simp only [newestIntent, reduceCtorEq, iff_false]
    split
    · simp
    · split <;> simp

theorem mem_of_newestIntent {is : List DepositIntent} (h : newestIntent is = some i) : i ∈ is := by
  induction is generalizing i with
  | nil => simp [newestIntent] at h
  | cons j is ih =>
    simp only [newestIntent] at h
    split at h
    · rw [← Option.some.inj h]
      exact .head _
    rename_i k hk
    split at h
    · rw [← Option.some.inj h]
      exact .tail _ (ih hk)
    · rw [← Option.some.inj h]
      exact .head _

def Db.intentForTransfer (db : Db) (amountMicro blockTSNs : ℤ) : Option DepositIntent :=
  newestIntent (db.depositIntents.filter (DepositIntent.matches amountMicro blockTSNs))

theorem Db.intentForTransfer_eq_some (h : db.intentForTransfer amountMicro blockTSNs = some i) :
    i ∈ db.depositIntents ∧ i.matches amountMicro blockTSNs = true :=
  List.mem_filter.mp (mem_of_newestIntent h)

theorem Db.intentForTransfer_eq_none_iff : db.intentForTransfer amountMicro blockTSNs = none ↔
      ∀ i ∈ db.depositIntents, i.matches amountMicro blockTSNs = false := by
  unfold Db.intentForTransfer
  rw [newestIntent_eq_none_iff, List.filter_eq_nil_iff]
  simp

def Db.paidBy (db : Db) (txID : String) : Option DepositIntent :=
  db.depositIntents.find? fun i => i.txID = txID && i.status = .paid

def depositEntry (entry : BalanceEntry) (intent : DepositIntent) (txID : String) (current nowNs : ℤ) :
    BalanceEntry :=
  { entry with
    userID := intent.userID
    deltaMicro := intent.amountMicro
    reason := .deposit
    refID := txID
    balanceAfterMicro := current + intent.amountMicro
    createdAtNs := nowNs }

def creditDepositBody (io : Faults) (txID : String) (amountMicro blockTSNs nowNs : ℤ)
    (cursorName : String) (watermarkMs : ℤ) (entry : BalanceEntry) (db : Db) :
    Except RepoError (DepositIntent × Option Db) := do
  beginTx io 0 "begin deposit credit"
  -- once an intent is paid it no longer matches, so a replay is told apart before the match
  let settled ← orWrap "check deposit replay" (stmt io 1 .io (.ok (db.paidBy txID)))
  match settled with
  | some _ => .error (.conflict "that deposit was already credited")
  | none => do
    let matched ← orWrap "match deposit intent"
      (stmt io 2 .io (.ok (db.intentForTransfer amountMicro blockTSNs)))
    match matched with
    | none => .error .notFound
    | some intent => do
      let current ← balanceForUpdate io 3 intent.userID db
      let entry := depositEntry entry intent txID current nowNs
      let db ← writeMovement io 4 "that deposit was already credited" "write deposit ledger"
        entry db
      let db ← orWrap "settle deposit intent"
        (stmt io 6 .io (.ok (db.settleIntent intent.id txID nowNs)))
      let db ← orWrap "advance chain cursor"
        (stmt io 7 .io (.ok (db.advanceCursor cursorName watermarkMs nowNs)))
      commitTx io 8 "commit deposit credit"
      .ok ({ intent with status := .paid, txID := txID, paidAtNs := nowNs }, some db)

/-- Apply one on-chain transfer to the intent it belongs to. -/
def creditDeposit (io : Faults) (txID : String) (amountMicro blockTSNs nowNs : ℤ)
    (cursorName : String) (watermarkMs : ℤ) (entry : BalanceEntry) : RepoCall DepositIntent :=
  atomically (creditDepositBody io txID amountMicro blockTSNs nowNs cursorName watermarkMs entry)

/-- The ledger row a credit of the transfer to the intent writes. -/
def Db.creditEntry (db : Db) (entry : BalanceEntry) (intent : DepositIntent) (txID : String)
    (nowNs : ℤ) : BalanceEntry :=
  depositEntry entry intent txID (db.balance intent.userID) nowNs

def Db.credited (db : Db) (entry : BalanceEntry) (intent : DepositIntent) (txID : String)
    (nowNs : ℤ) (cursorName : String) (watermarkMs : ℤ) : Db :=
  ((db.post (db.creditEntry entry intent txID nowNs)).settleIntent intent.id txID
    nowNs).advanceCursor cursorName watermarkMs nowNs

/-- What a credit finds when it commits: the transaction is new, the transfer has an intent, and
the movement goes through. -/
structure Db.CreditsTo (db : Db) (txID : String) (amountMicro blockTSNs nowNs : ℤ)
    (entry : BalanceEntry) (intent : DepositIntent) : Prop where
  fresh : db.paidBy txID = none
  owner : db.intentForTransfer amountMicro blockTSNs = some intent
  creditable : db.Creditable intent.userID
  accepts : db.AcceptsEntry (db.creditEntry entry intent txID nowNs)

variable {entry : BalanceEntry} {cursorName : String} {watermarkMs : ℤ} {txID : String}

theorem creditDeposit_commit (h : creditDepositBody io txID amountMicro blockTSNs nowNs cursorName
      watermarkMs entry db = .ok (i, some db')) :
    ∃ intent, db.CreditsTo txID amountMicro blockTSNs nowNs entry intent ∧
      i = { intent with status := .paid, txID := txID, paidAtNs := nowNs } ∧
      db' = db.credited entry intent txID nowNs cursorName watermarkMs := by
  obtain ⟨-, -, h⟩ := bind_eq_ok_iff.mp h
  obtain ⟨settled, hsettled, h⟩ := bind_eq_ok_iff.mp h
  cases settled with
  | some _ => simp at h
  | none =>
    obtain ⟨matched, hmatch, h⟩ := bind_eq_ok_iff.mp h
    cases matched with
    | none => simp at h
    | some intent =>
      have h := next_of_stmt h
      obtain ⟨db1, hmove, h⟩ := bind_eq_ok_iff.mp h
      have h := next_of_stmt h
      have h := next_of_stmt h
      obtain ⟨-, -, h⟩ := bind_eq_ok_iff.mp h
      obtain ⟨-, hc, ha, rfl⟩ := writeMovement_eq_ok_iff.mp hmove
      obtain ⟨hi, hsome⟩ := Prod.mk.inj (Except.ok.inj h)
      exact ⟨intent, ⟨Except.ok.inj (ok_of_orWrap hsettled), Except.ok.inj (ok_of_orWrap hmatch), hc,
        ha⟩, hi.symm, (Option.some.inj hsome).symm⟩

theorem creditDeposit_no_return :
    creditDepositBody io txID amountMicro blockTSNs nowNs cursorName watermarkMs entry db ≠
      .ok (i, none) := by
  intro h
  obtain ⟨-, -, h⟩ := bind_eq_ok_iff.mp h
  obtain ⟨settled, -, h⟩ := bind_eq_ok_iff.mp h
  cases settled with
  | some _ => simp at h
  | none =>
    obtain ⟨matched, -, h⟩ := bind_eq_ok_iff.mp h
    cases matched with
    | none => simp at h
    | some intent =>
      obtain ⟨current, -, h⟩ := bind_eq_ok_iff.mp h
      obtain ⟨db1, -, h⟩ := bind_eq_ok_iff.mp h
      obtain ⟨db2, -, h⟩ := bind_eq_ok_iff.mp h
      obtain ⟨db3, -, h⟩ := bind_eq_ok_iff.mp h
      obtain ⟨-, -, h⟩ := bind_eq_ok_iff.mp h
      have hpair := Prod.mk.inj (Except.ok.inj h)
      cases hpair.2

theorem creditDeposit_of_ok (h : (creditDeposit io txID amountMicro blockTSNs nowNs cursorName
      watermarkMs entry db).1 = .ok i) :
    ∃ intent, db.CreditsTo txID amountMicro blockTSNs nowNs entry intent ∧
      (creditDeposit io txID amountMicro blockTSNs nowNs cursorName watermarkMs entry db).2 =
        db.credited entry intent txID nowNs cursorName watermarkMs := by
  unfold creditDeposit at h ⊢
  cases hbody : creditDepositBody io txID amountMicro blockTSNs nowNs cursorName watermarkMs entry
      db with
  | error e =>
    rw [atomically_of_error hbody] at h
    cases h
  | ok r =>
    obtain ⟨j, after⟩ := r
    cases after with
    | none => exact absurd hbody creditDeposit_no_return
    | some db' =>
      obtain ⟨intent, hcredits, -, rfl⟩ := creditDeposit_commit hbody
      rw [atomically_of_commit hbody]
      exact ⟨intent, hcredits, rfl⟩

/-- What a credit that meets no fault comes to. -/
inductive CreditOutcome (txID : String) (amountMicro blockTSNs nowNs : ℤ) (cursorName : String)
    (watermarkMs : ℤ) (entry : BalanceEntry) (db : Db)
    (r : Except RepoError DepositIntent × Db) : Prop where
  /-- the transaction has settled an intent before -/
  | settled (hpaid : db.paidBy txID ≠ none)
      (h : r = (.error (.conflict "that deposit was already credited"), db))
  /-- no intent owns the transfer -/
  | unowned (hfresh : db.paidBy txID = none)
      (howner : db.intentForTransfer amountMicro blockTSNs = none) (h : r = (.error .notFound, db))
  /-- the account of its owner is gone -/
  | orphaned (intent : DepositIntent) (hfresh : db.paidBy txID = none)
      (howner : db.intentForTransfer amountMicro blockTSNs = some intent)
      (hgone : ¬ db.Creditable intent.userID)
      (h : r = (.error (.wrapped "write balance" .foreignKey), db))
  /-- the ledger has the transaction -/
  | posted (intent : DepositIntent)
      (howner : db.intentForTransfer amountMicro blockTSNs = some intent)
      (hcreditable : db.Creditable intent.userID)
      (htaken : Taken Db.refKey Db.hasDepositRef (db.creditEntry entry intent txID nowNs)
        db.balanceLedger)
      (h : r = (.error (.conflict "that deposit was already credited"), db))
  | credited (intent : DepositIntent)
      (hcredits : db.CreditsTo txID amountMicro blockTSNs nowNs entry intent)
      (h : r = (.ok { intent with status := .paid, txID := txID, paidAtNs := nowNs },
        db.credited entry intent txID nowNs cursorName watermarkMs))

/-- **A credit that meets no fault**, under a new entry id and without a request handle, as the
scan makes it. -/
theorem creditDeposit_noFaults (txID : String) (amountMicro blockTSNs nowNs : ℤ)
    (cursorName : String) (watermarkMs : ℤ) (entry : BalanceEntry) (hrequest : entry.requestID = "")
    (hid : ∀ r ∈ db.balanceLedger, r.id ≠ entry.id) :
    CreditOutcome txID amountMicro blockTSNs nowNs cursorName watermarkMs entry db
      (creditDeposit noFaults txID amountMicro blockTSNs nowNs cursorName watermarkMs entry
        db) := by
  cases hpaid : db.paidBy txID with
  | some i =>
    refine .settled (by simp [hpaid]) (atomically_of_error ?_)
    simp only [creditDepositBody, beginTx, stmt_noFaults, orWrap, ok_bind, hpaid]
  | none =>
    cases howner : db.intentForTransfer amountMicro blockTSNs with
    | none =>
      refine .unowned hpaid howner (atomically_of_error ?_)
      simp only [creditDepositBody, beginTx, stmt_noFaults, orWrap, ok_bind, hpaid, howner]
    | some intent =>
      -- what is left is the movement, and the two writes behind it, which cannot fail
      have hbody : creditDepositBody noFaults txID amountMicro blockTSNs nowNs cursorName
          watermarkMs entry db = (do
            let db' ← writeMovement noFaults 4 "that deposit was already credited"
              "write deposit ledger" (db.creditEntry entry intent txID nowNs) db
            .ok ({ intent with status := .paid, txID := txID, paidAtNs := nowNs },
              some ((db'.settleIntent intent.id txID nowNs).advanceCursor cursorName
                watermarkMs nowNs))) := by
        simp only [creditDepositBody, beginTx, commitTx, balanceForUpdate, stmt_noFaults,
          orWrap, ok_bind, hpaid, howner, Db.creditEntry]
      by_cases hcreditable : db.Creditable intent.userID
      swap
      · refine .orphaned intent hpaid howner hcreditable (atomically_of_error ?_)
        rw [hbody, writeMovement_of_not_creditable hcreditable, error_bind]
      by_cases htaken : Taken Db.refKey Db.hasDepositRef
          (db.creditEntry entry intent txID nowNs) db.balanceLedger
      · refine .posted intent howner hcreditable htaken (atomically_of_error ?_)
        rw [hbody, writeMovement_of_taken hcreditable (Or.inr htaken), error_bind]
      have hnorequest : ¬ Taken Db.requestKey Db.hasRequest
          (db.creditEntry entry intent txID nowNs) db.balanceLedger := by
        rintro ⟨hhas, -⟩
        simp [Db.hasRequest, Db.creditEntry, depositEntry, hrequest] at hhas
      have haccepts : db.AcceptsEntry (db.creditEntry entry intent txID nowNs) :=
        ⟨hnorequest, htaken, hid⟩
      refine .credited intent ⟨hpaid, howner, hcreditable, haccepts⟩ (atomically_of_commit ?_)
      rw [hbody, writeMovement_eq_ok_iff.mpr ⟨⟨rfl, rfl⟩, hcreditable, haccepts, rfl⟩, ok_bind]
      rfl

/-- Record the newest block time already handled: one statement, no transaction around it. -/
def advanceChainCursor (io : Faults) (name : String) (watermarkMs nowNs : ℤ) (db : Db) :
    Except RepoError Unit × Db :=
  match orWrap "advance chain cursor"
      (stmt io 0 .io (.ok (db.advanceCursor name watermarkMs nowNs))) with
  | .ok db' => (.ok (), db')
  | .error e => (.error e, db)

theorem Db.cursor_advanceCursor_self (db : Db) (name : String) (watermarkMs nowNs : ℤ) :
    (db.advanceCursor name watermarkMs nowNs).cursor name =
      match lookup CursorRow.name name db.chainCursor with
      | some row => max row.watermarkMs watermarkMs
      | none => watermarkMs := by
  have h := lookup_upsertWith_self CursorRow.name
    (fun old row => { row with watermarkMs := max old.watermarkMs row.watermarkMs })
    (fun _ _ _ => rfl) ⟨name, watermarkMs, nowNs⟩ db.chainCursor
  simp only [Db.cursor, Db.advanceCursor, h]
  cases lookup CursorRow.name name db.chainCursor <;> rfl

theorem Db.cursor_advanceCursor_le (db : Db) (name : String) (watermarkMs nowNs : ℤ) :
    (db.advanceCursor name watermarkMs nowNs).cursor name ≤ max (db.cursor name) watermarkMs := by
  rw [Db.cursor_advanceCursor_self, Db.cursor]
  cases lookup CursorRow.name name db.chainCursor with
  | some row => exact le_rfl
  | none => exact le_max_right _ _

end Prism
