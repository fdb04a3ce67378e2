import Prism.Service.Helpers
import Prism.State.Deposit
import Prism.Tron.Client

/-!
# On-chain deposits

`internal/service/control_plane_deposit.go`.  `SelfDeposit` opens an intent at the smallest free
amount above what the user asked for; `ScanDeposits` reads a page of confirmed transfers and
credits the ones that belong to an intent.

A scan is a loop over the transfers of a page.  Every transfer is credited in a transaction of its
own; a transfer nobody owns and a transfer that was credited before are passed over, any other
error ends the scan there.  Only a scan that has come to the end of its page advances the cursor
past the page.
-/

namespace Prism

/-- How long the page says "pay this amount now": a quarter of an hour. -/
def depositWindowNs : ℤ := 15 * 60 * 1000000000

def depositHoldNs : ℤ := 15 * 60 * 1000000000

def depositMinMicro : ℤ := 1000000

def depositMaxMicro : ℤ := 100000 * 1000000

def depositAmountAttempts : ℕ := 100

/-- The row of `chain_cursor` this listener owns. -/
def depositCursorName : String := "tron"

def depositPageLimit : ℕ := 200

/-- The amounts to try, in order: from one micro-unit above the wish, whole amounts left out. -/
def depositCandidates (wantMicro : ℤ) : List ℤ :=
  ((List.range depositAmountAttempts).map fun k : ℕ => wantMicro + ((k : ℤ) + 1)).filter
    fun amount => amount % 1000000 ≠ 0

variable {wantMicro : ℤ}

theorem lt_of_mem_depositCandidates {amount : ℤ} (h : amount ∈ depositCandidates wantMicro) :
    wantMicro < amount := by
  obtain ⟨k, -, rfl⟩ := List.mem_map.mp (List.mem_filter.mp h).1
  omega

structure DepositIntentView where
  id : String
  amountMicro : ℤ
  status : DepositStatus
  address : String
  txID : String
  createdAtNs : ℤ
  expiresAtNs : ℤ
  holdUntilNs : ℤ
  paidAtNs : ℤ

def depositView (address : String) (i : DepositIntent) : DepositIntentView :=
  ⟨i.id, i.amountMicro, i.status, address, i.txID, i.createdAtNs, i.expiresAtNs, i.holdUntilNs,
    i.paidAtNs⟩

def newIntent (id userID : String) (nowNs : ℤ) : DepositIntent where
  id := id
  userID := userID
  amountMicro := 0
  status := .pending
  txID := ""
  createdAtNs := nowNs
  expiresAtNs := nowNs + depositWindowNs
  holdUntilNs := nowNs + depositWindowNs + depositHoldNs
  paidAtNs := 0

/-- What `SelfDeposit` checks before it allocates; statement `0` reads the account. -/
def depositAllowed (io : Faults) (address userID : String) (wantMicro : ℤ) (db : Db) :
    Except ServiceError Unit :=
  if address = "" then
    .error (.invalidArgument "deposit: on-chain deposits are not configured")
  else if wantMicro < depositMinMicro then
    .error (.invalidArgument "amount_micro: the smallest deposit is 1 USDT")
  else if depositMaxMicro < wantMicro then
    .error (.invalidArgument "amount_micro: the largest deposit is 100000 USDT")
  else do
    let row ← liftRepo (orWrap "get user" (stmt io 0 .io (.ok (db.user userID))))
    match row with
    | none => .error (.repo .notFound)
    | some user =>
      if user.status ≠ .active then .error (.forbidden "deposit: the account is not active")
      else .ok ()

def depositAnswer (address : String) :
    Except RepoError DepositIntent → Except ServiceError DepositIntentView
  | .ok row => .ok (depositView address row)
  | .error (.conflict _) =>
    .error (.conflict "deposit: no amount is free right now, try again in a minute")
  | .error e => .error (.repo e)

/-- Open an intent for the wish.  `address` is the trimmed receiving address, `intentID` the
identifier minted for the intent. -/
def selfDeposit (io : Faults) (address : String) (intentID : Option String) (userID : String)
    (wantMicro nowNs : ℤ) (db : Db) : Except ServiceError DepositIntentView × Db :=
  match depositAllowed io address userID wantMicro db with
  | .error e => (.error e, db)
  | .ok () =>
    if depositCandidates wantMicro = [] then
      (.error (.conflict "deposit: no amount is free right now, try again in a minute"), db)
    else
      match intentID with
      | none => (.error .newID, db)
      | some id =>
        let r := insertDepositIntent (io.drop 1) (newIntent id userID nowNs)
          (depositCandidates wantMicro) nowNs db
        (depositAnswer address r.1, r.2)

variable {address : String} {db : Db}

theorem depositAllowed_eq_ok {io : Faults} {userID : String} {u : Unit}
    (h : depositAllowed io address userID wantMicro db = .ok u) :
    depositMinMicro ≤ wantMicro ∧ db.hasUser userID = true := by
  unfold depositAllowed at h
  split_ifs at h with _ hmin
  obtain ⟨row, hrow, h⟩ := bind_eq_ok_iff.mp h
  cases row with
  | none => cases h
  | some user =>
    refine ⟨not_lt.mp hmin, ?_⟩
    have hread : stmt io 0 SqlError.io (.ok (db.user userID)) = .ok (some user) := by
      cases hs : stmt io 0 SqlError.io (.ok (db.user userID)) with
      | error e =>
        rw [hs] at hrow
        cases hrow
      | ok r =>
        rw [hs] at hrow
        exact congrArg Except.ok (Except.ok.inj hrow)
    have huser : db.user userID = some user := Except.ok.inj (stmt_eq_ok_iff.mp hread).2
    unfold Db.hasUser
    rw [huser]
    rfl

theorem depositAnswer_eq_error {r : Except RepoError DepositIntent} {e : ServiceError}
    (h : depositAnswer address r = .error e) : ∃ e', r = .error e' := by
  cases r with
  | ok row => cases h
  | error e' => exact ⟨e', rfl⟩

variable (io : Faults)

theorem selfDeposit_cases (address : String) (intentID : Option String) (userID : String)
    (wantMicro nowNs : ℤ) (db : Db) :
    (selfDeposit io address intentID userID wantMicro nowNs db).2 = db ∨
      ∃ id, depositMinMicro ≤ wantMicro ∧ db.hasUser userID = true ∧
        selfDeposit io address intentID userID wantMicro nowNs db =
          (depositAnswer address (insertDepositIntent (io.drop 1) (newIntent id userID nowNs)
            (depositCandidates wantMicro) nowNs db).1,
          (insertDepositIntent (io.drop 1) (newIntent id userID nowNs)
            (depositCandidates wantMicro) nowNs db).2) := by
  unfold selfDeposit
  cases hallowed : depositAllowed io address userID wantMicro db with
  | error e => exact .inl rfl
  | ok u =>
    obtain ⟨hmin, huser⟩ := depositAllowed_eq_ok hallowed
    simp only
    split
    · exact .inl rfl
    · cases intentID with
      | none => exact .inl rfl
      | some id => exact .inr ⟨id, hmin, huser, rfl⟩

/-- **What `SelfDeposit` does to the tables**: nothing, or it opens one intent of the user, at an
amount above the smallest deposit. -/
theorem selfDeposit_snd_cases (address : String) (intentID : Option String) (userID : String)
    (wantMicro nowNs : ℤ) (db : Db) :
    (selfDeposit io address intentID userID wantMicro nowNs db).2 = db ∨
      ∃ id amount, db.hasUser userID = true ∧ depositMinMicro < amount ∧
        (db.releaseExpired nowNs).AcceptsIntent (intentRow (newIntent id userID nowNs) amount) ∧
        (selfDeposit io address intentID userID wantMicro nowNs db).2 =
          { db.releaseExpired nowNs with
            depositIntents := (db.releaseExpired nowNs).depositIntents ++
              [intentRow (newIntent id userID nowNs) amount] } := by
  rcases selfDeposit_cases io address intentID userID wantMicro nowNs db with
    hsame | ⟨id, hmin, huser, heq⟩
  · exact .inl hsame
  rw [heq]
  rcases atomically_snd_cases (insertDepositIntentBody (io.drop 1) (newIntent id userID nowNs)
      (depositCandidates wantMicro) nowNs) db with hsame | ⟨row, db', hbody, hafter⟩
  · exact .inl hsame
  · obtain ⟨amount, hmem, rfl, hacc, hdb'⟩ := insertDepositIntent_commit hbody
    have hlt := lt_of_mem_depositCandidates hmem
    exact .inr ⟨id, amount, huser, by omega, hacc, hafter.trans hdb'⟩

variable {nowNs : ℤ}

theorem selfDeposit_snd_of_error {io : Faults} {intentID : Option String} {userID : String}
    {e : ServiceError}
    (h : (selfDeposit io address intentID userID wantMicro nowNs db).1 = .error e) :
    (selfDeposit io address intentID userID wantMicro nowNs db).2 = db := by
  rcases selfDeposit_cases io address intentID userID wantMicro nowNs db with
    hsame | ⟨id, -, -, heq⟩
  · exact hsame
  rw [heq] at h ⊢
  obtain ⟨e', he'⟩ := depositAnswer_eq_error h
  exact atomically_snd_of_fst_error he'

/-- The ledger entry a transfer is credited with. -/
def scanEntry (entryID : String) (t : Transfer) : BalanceEntry :=
  { id := entryID, note := "on-chain deposit", actor := "chain", refID := t.txID,
    reason := .deposit }

/-- The block time of a transfer, on the database's scale. -/
def Transfer.blockTSNs (t : Transfer) : ℤ := t.blockTSMs * 1000000

def creditTransfer (io : Faults) (entryID : String) (nowNs : ℤ) (t : Transfer) :
    RepoCall DepositIntent :=
  creditDeposit io t.txID t.amountMicro t.blockTSNs nowNs depositCursorName t.blockTSMs
    (scanEntry entryID t)

/-- What a scan depends on beside the tables: the identifiers it mints and the faults it meets,
for each position of the page, and the faults of the last write. -/
structure ScanEnv where
  entryID : ℕ → Option String
  io : ℕ → Faults
  ioCursor : Faults
  ioAdvance : Faults

/-- The loop over the transfers of a page, from position `k` with `credited` behind it. -/
def creditTransfers (env : ScanEnv) (nowNs : ℤ) :
    ℕ → List Transfer → ℕ → Db → (ℕ × Option ServiceError) × Db
  | _, [], credited, db => ((credited, none), db)
  | k, t :: ts, credited, db =>
    if t.amountMicro < depositMinMicro then creditTransfers env nowNs (k + 1) ts credited db
    else
      match env.entryID k with
      | none => ((credited, some .newID), db)
      | some id =>
        match creditTransfer (env.io k) id nowNs t db with
        | (.ok _, db') => creditTransfers env nowNs (k + 1) ts (credited + 1) db'
        -- no intent owns the transfer, or it was credited before
        | (.error .notFound, db') => creditTransfers env nowNs (k + 1) ts credited db'
        | (.error (.conflict _), db') => creditTransfers env nowNs (k + 1) ts credited db'
        | (.error e, db') => ((credited, some (.repo e)), db')

variable {env : ScanEnv}

theorem creditTransfers_cons {k : ℕ} {t : Transfer} {id : String}
    (hmin : depositMinMicro ≤ t.amountMicro) (hid : env.entryID k = some id) (ts : List Transfer)
    (credited : ℕ) (db : Db) :
    creditTransfers env nowNs k (t :: ts) credited db =
      match creditTransfer (env.io k) id nowNs t db with
      | (.ok _, db') => creditTransfers env nowNs (k + 1) ts (credited + 1) db'
      | (.error .notFound, db') => creditTransfers env nowNs (k + 1) ts credited db'
      | (.error (.conflict _), db') => creditTransfers env nowNs (k + 1) ts credited db'
      | (.error e, db') => ((credited, some (.repo e)), db') := by
  rw [creditTransfers, if_neg (not_lt.mpr hmin), hid]

/-- Read the watermark, read a page from the chain, credit it, move on.  `tron` answers a
watermark with a page, or does not answer. -/
def scanDeposits (env : ScanEnv) (address : String) (tron : ℤ → Option TransferPage) (nowNs : ℤ)
    (db : Db) : (ℕ × Option ServiceError) × Db :=
  if address = "" then ((0, none), db)
  else
    match orWrap "read chain cursor"
        (stmt env.ioCursor 0 .io (.ok (db.cursor depositCursorName))) with
    | .error e => ((0, some (.repo e)), db)
    | .ok watermarkMs =>
      match tron watermarkMs with
      | none => ((0, some .chain), db)
      | some page =>
        match creditTransfers env nowNs 0 page.transfers 0 db with
        | ((credited, some e), db') => ((credited, some e), db')
        | ((credited, none), db') =>
          -- past everything that was read, whether or not it survived the filters
          if watermarkMs < page.newestRawMs then
            match advanceChainCursor env.ioAdvance depositCursorName page.newestRawMs nowNs
                db' with
            | (.ok (), db'') => ((credited, none), db'')
            | (.error e, db'') => ((credited, some (.repo e)), db'')
          else ((credited, none), db')

/-! ## What a scan does to the tables -/

theorem readCursor_eq_ok (db : Db) (hcursor : env.ioCursor 0 = false) :
    orWrap "read chain cursor" (stmt env.ioCursor 0 .io (.ok (db.cursor depositCursorName))) =
      .ok (db.cursor depositCursorName) := by
  rw [orWrap_eq_ok_iff, stmt_eq_ok_iff]
  exact ⟨hcursor, rfl⟩

theorem scanDeposits_of_page {tron : ℤ → Option TransferPage} {page : TransferPage}
    (haddress : address ≠ "") (hcursor : env.ioCursor 0 = false)
    (hpage : tron (db.cursor depositCursorName) = some page) (nowNs : ℤ) :
    (scanDeposits env address tron nowNs db).2 =
        (creditTransfers env nowNs 0 page.transfers 0 db).2 ∨
      (creditTransfers env nowNs 0 page.transfers 0 db).1.2 = none ∧
        (scanDeposits env address tron nowNs db).2 =
          (creditTransfers env nowNs 0 page.transfers 0 db).2.advanceCursor depositCursorName
            page.newestRawMs nowNs := by
  unfold scanDeposits
  rw [if_neg haddress]
  simp only [readCursor_eq_ok _ hcursor, hpage]
  obtain ⟨⟨credited, error⟩, db'⟩ := creditTransfers env nowNs 0 page.transfers 0 db
  cases error with
  | some e => exact .inl rfl
  | none =>
    by_cases hlt : db.cursor depositCursorName < page.newestRawMs
    · dsimp only
      rw [if_pos hlt]
      unfold advanceChainCursor
      cases hadv : orWrap "advance chain cursor" (stmt env.ioAdvance 0 .io
          (.ok (db'.advanceCursor depositCursorName page.newestRawMs nowNs))) with
      | error e => exact .inl rfl
      | ok db'' =>
        exact .inr ⟨rfl, (Except.ok.inj (ok_of_orWrap hadv)).symm⟩
    · dsimp only
      rw [if_neg hlt]
      exact .inl rfl

end Prism
