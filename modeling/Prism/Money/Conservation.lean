import Prism.Foundation.Ledger
import Prism.Foundation.Run
import Prism.Service.Deposit
import Prism.State.Account
import Prism.State.Purchase

/-!
# Money is conserved

The balance of a user is stored twice: as a number in `user_balance`, and as the history in
`balance_ledger`.  Five calls write the pair, each in a transaction of its own and each with a
different guard in front of it and different writes behind it.

The argument has one step.  Whatever a call does, the pair of money tables is untouched or one
entry has been posted that records the old balance plus its own delta (`MoneyStep`); posting such
an entry keeps the books (`Ledger.Reconciles.post`).  The one movement without an overdraft check is
the credit of a deposit, and there the amount is positive because `SelfDeposit` opens no other
intents.
-/

namespace Prism

open Function Table

/-- The five calls that move money, and the calls that set the scene for them: accounts, plans,
codes, and the deposit intents a credit needs. -/
inductive MoneyCall where
  | insertUser (u : User)
  | upsertPlan (p : Plan)
  | insertRedeemCode (c : RedeemCode)
  | deleteRedeemCode (id : String)
  | selfDeposit (address : String) (intentID : Option String) (userID : String)
      (wantMicro nowNs : ℤ)
  | sweepDeposits (nowNs : ℤ)
  | applyBalanceDelta (entry : BalanceEntry)
  | redeemCodeAndCredit (codeHash : List UInt8) (entry : BalanceEntry) (nowNs : ℤ)
  | purchasePlanWithBalance (sub : UserSubscription) (entry : BalanceEntry)
  | renewSubscriptionWithBalance (sub : UserSubscription) (expected : ℤ) (entry : BalanceEntry)
  | creditDeposit (txID : String) (amountMicro blockTSNs nowNs : ℤ) (cursorName : String)
      (watermarkMs : ℤ) (entry : BalanceEntry)

def outcome {α : Type} (r : Except RepoError α × Db) : Except ServiceError Unit × Db :=
  (liftRepo (r.1.map fun _ => ()), r.2)

def MoneyCall.exec (io : Faults) : MoneyCall → Db → Except ServiceError Unit × Db
  | .insertUser u, db => outcome (Prism.insertUser io u db)
  | .upsertPlan p, db => outcome (Prism.upsertPlan io p db)
  | .insertRedeemCode c, db => outcome (Prism.insertRedeemCode io c db)
  | .deleteRedeemCode id, db => outcome (Prism.deleteRedeemCode io id db)
  | .selfDeposit address intentID userID wantMicro nowNs, db =>
    let r := Prism.selfDeposit io address intentID userID wantMicro nowNs db
    (r.1.map fun _ => (), r.2)
  | .sweepDeposits nowNs, db => outcome (Prism.sweepDeposits io nowNs db)
  | .applyBalanceDelta entry, db => outcome (Prism.applyBalanceDelta io entry db)
  | .redeemCodeAndCredit codeHash entry nowNs, db =>
    outcome (Prism.redeemCodeAndCredit io codeHash entry nowNs db)
  | .purchasePlanWithBalance sub entry, db =>
    outcome (Prism.purchasePlanWithBalance io sub entry db)
  | .renewSubscriptionWithBalance sub expected entry, db =>
    outcome (Prism.renewSubscriptionWithBalance io sub expected entry db)
  | .creditDeposit txID amountMicro blockTSNs nowNs cursorName watermarkMs entry, db =>
    outcome (Prism.creditDeposit io txID amountMicro blockTSNs nowNs cursorName watermarkMs entry
      db)

def MoneyCall.step (db : Db) (c : Faults × MoneyCall) : Db :=
  (c.2.exec c.1 db).2

/-- The pair of money tables is untouched, or one entry has been posted; and no intent of an
amount that is not positive has come up. -/
structure MoneyStep (db db' : Db) : Prop where
  books : (db'.userBalance = db.userBalance ∧ db'.balanceLedger = db.balanceLedger) ∨
    ∃ e : BalanceEntry, e.balanceAfterMicro = db.balance e.userID + e.deltaMicro ∧
      0 ≤ e.balanceAfterMicro ∧ db'.userBalance = (db.post e).userBalance ∧
      db'.balanceLedger = (db.post e).balanceLedger
  intents : ∀ i ∈ db'.depositIntents,
    0 < i.amountMicro ∨ ∃ j ∈ db.depositIntents, i.amountMicro = j.amountMicro

structure SameMoney (db db' : Db) : Prop where
  balance : db'.userBalance = db.userBalance
  ledger : db'.balanceLedger = db.balanceLedger
  intents : db'.depositIntents = db.depositIntents

variable {db db' : Db}

theorem SameMoney.moneyStep (h : SameMoney db db') : MoneyStep db db' where
  books := .inl ⟨h.balance, h.ledger⟩
  intents i hi := .inr ⟨i, h.intents ▸ hi, rfl⟩

theorem MoneyStep.refl (db : Db) : MoneyStep db db :=
  SameMoney.moneyStep ⟨rfl, rfl, rfl⟩

theorem MoneyStep.of_admits {entry : BalanceEntry} (h : db.Admits entry)
    (hb : db'.userBalance = (db.post (db.settled entry)).userBalance)
    (hl : db'.balanceLedger = (db.post (db.settled entry)).balanceLedger)
    (hi : db'.depositIntents = db.depositIntents) : MoneyStep db db' where
  books := .inr ⟨db.settled entry, rfl, h.funds, hb, hl⟩
  intents i hmem := .inr ⟨i, hi ▸ hmem, rfl⟩

section Setup

theorem sameMoney_insertUser {u : User} (h : db.insertUser u = .ok db') : SameMoney db db' := by
  unfold Db.insertUser at h
  split_ifs at h
  rw [← Except.ok.inj h]
  exact ⟨rfl, rfl, rfl⟩

theorem sameMoney_upsertPlanRow {p : Plan} (h : db.upsertPlanRow p = .ok db') :
    SameMoney db db' := by
  unfold Db.upsertPlanRow at h
  split_ifs at h
  rw [← Except.ok.inj h]
  exact ⟨rfl, rfl, rfl⟩

theorem sameMoney_insertRedeemCode {c : RedeemCode} (h : db.insertRedeemCode c = .ok db') :
    SameMoney db db' := by
  unfold Db.insertRedeemCode at h
  split_ifs at h
  rw [← Except.ok.inj h]
  exact ⟨rfl, rfl, rfl⟩

theorem moneyStep_single {f : Db → Except RepoError Db}
    (h : ∀ db', f db = .ok db' → SameMoney db db') : MoneyStep db (single f db).2 := by
  rcases single_snd_cases f db with hsame | ⟨db', hok, hafter⟩
  · rw [hsame]
    exact .refl db
  · rw [hafter]
    exact (h db' hok).moneyStep

variable (io : Faults)

theorem moneyStep_insertUser (u : User) (db : Db) : MoneyStep db (insertUser io u db).2 := by
  refine moneyStep_single fun db' h => ?_
  exact sameMoney_insertUser (ok_of_orConflict h)

theorem moneyStep_upsertPlan (p : Plan) (db : Db) : MoneyStep db (upsertPlan io p db).2 := by
  refine moneyStep_single fun db' h => ?_
  exact sameMoney_upsertPlanRow (ok_of_orConflict h)

theorem moneyStep_insertRedeemCode (c : RedeemCode) (db : Db) :
    MoneyStep db (insertRedeemCode io c db).2 := by
  refine moneyStep_single fun db' h => ?_
  exact sameMoney_insertRedeemCode (ok_of_orConflict h)

theorem moneyStep_deleteRedeemCode (id : String) (db : Db) :
    MoneyStep db (deleteRedeemCode io id db).2 := by
  rcases deleteRedeemCode_snd_cases io id db with hsame | hdone
  · rw [hsame]
    exact .refl db
  · rw [hdone]
    exact SameMoney.moneyStep ⟨rfl, rfl, rfl⟩

end Setup

section Intents

theorem moneyStep_selfDeposit (io : Faults) (address : String) (intentID : Option String)
    (userID : String) (wantMicro nowNs : ℤ) (db : Db) :
    MoneyStep db (selfDeposit io address intentID userID wantMicro nowNs db).2 := by
  rcases selfDeposit_snd_cases io address intentID userID wantMicro nowNs db with
    hsame | ⟨id, amount, -, hmin, -, hafter⟩
  · rw [hsame]
    exact .refl db
  rw [hafter]
  refine ⟨.inl ⟨rfl, rfl⟩, fun i hi => ?_⟩
  rcases List.mem_append.mp hi with hi | hi
  · exact .inr (exists_column_of_mem_updateWhere hi fun _ => rfl)
  · rw [List.mem_singleton.mp hi]
    refine .inl ?_
    have hpos : (0 : ℤ) < depositMinMicro := by decide
    exact lt_trans hpos hmin

theorem moneyStep_sweepDeposits (io : Faults) (nowNs : ℤ) (db : Db) :
    MoneyStep db (sweepDeposits io nowNs db).2 := by
  rcases atomically_snd_cases (sweepDepositsBody io nowNs) db with hsame | ⟨n, db', hbody, hafter⟩
  · rw [sweepDeposits, hsame]
    exact .refl db
  rw [sweepDeposits, hafter, sweepDeposits_commit hbody]
  refine ⟨.inl ⟨rfl, rfl⟩, fun i hi => .inr ?_⟩
  -- neither half of the sweep writes an amount
  obtain ⟨j, hj, hij⟩ := exists_column_of_mem_updateWhere
    (g := DepositIntent.amountMicro) hi fun _ => rfl
  obtain ⟨k, hk, hjk⟩ := exists_column_of_mem_updateWhere
    (g := DepositIntent.amountMicro) hj fun _ => rfl
  exact ⟨k, hk, hij.trans hjk⟩

end Intents

section Movements

variable (io : Faults)

theorem moneyStep_applyBalanceDelta (entry : BalanceEntry) (db : Db) :
    MoneyStep db (applyBalanceDelta io entry db).2 := by
  rcases atomically_snd_cases (applyBalanceDeltaBody io entry) db with
    hsame | ⟨e, db', hbody, hafter⟩
  · rw [applyBalanceDelta, hsame]
    exact .refl db
  · obtain ⟨hadm, rfl, rfl⟩ := applyBalanceDelta_commit hbody
    rw [applyBalanceDelta, hafter]
    exact MoneyStep.of_admits hadm rfl rfl rfl

theorem moneyStep_redeemCodeAndCredit (codeHash : List UInt8) (entry : BalanceEntry) (nowNs : ℤ)
    (db : Db) : MoneyStep db (redeemCodeAndCredit io codeHash entry nowNs db).2 := by
  rcases atomically_snd_cases (redeemCodeAndCreditBody io codeHash entry nowNs) db with
    hsame | ⟨e, db', hbody, hafter⟩
  · rw [redeemCodeAndCredit, hsame]
    exact .refl db
  obtain ⟨-, hadm, rfl, rfl⟩ := redeemCodeAndCredit_commit hbody
  rw [redeemCodeAndCredit, hafter]
  -- claiming a use of the code reads and writes no balance
  have hadm' : db.Admits entry :=
    ⟨hadm.funds, hadm.creditable, hadm.accepts.request, hadm.accepts.ref, hadm.accepts.id⟩
  exact MoneyStep.of_admits hadm' rfl rfl rfl

theorem moneyStep_purchasePlanWithBalance (sub : UserSubscription) (entry : BalanceEntry) (db : Db) :
    MoneyStep db (purchasePlanWithBalance io sub entry db).2 := by
  rcases atomically_snd_cases (purchasePlanWithBalanceBody io sub entry) db with
    hsame | ⟨r, db', hbody, hafter⟩
  · rw [purchasePlanWithBalance, hsame]
    exact .refl db
  · obtain ⟨-, hadm, -, hentry, -, rfl⟩ := purchase_commit hbody
    rw [purchasePlanWithBalance, hafter, hentry]
    exact MoneyStep.of_admits hadm rfl rfl rfl

theorem moneyStep_renewSubscriptionWithBalance (sub : UserSubscription) (expected : ℤ)
    (entry : BalanceEntry) (db : Db) :
    MoneyStep db (renewSubscriptionWithBalance io sub expected entry db).2 := by
  rcases atomically_snd_cases (renewSubscriptionWithBalanceBody io sub expected entry) db with
    hsame | ⟨r, db', hbody, hafter⟩
  · rw [renewSubscriptionWithBalance, hsame]
    exact .refl db
  · obtain ⟨-, hadm, -, -, rfl⟩ := renew_commit hbody
    rw [renewSubscriptionWithBalance, hafter]
    exact MoneyStep.of_admits hadm rfl rfl rfl

end Movements

/-- The books of the state: cache and ledger agree for every user, and every deposit intent is
for a positive amount. -/
structure Db.Sound (db : Db) : Prop where
  books : Ledger.Reconciles BalanceEntry.userID BalanceEntry.deltaMicro
    BalanceEntry.balanceAfterMicro db.balance db.balanceLedger
  intents : ∀ i ∈ db.depositIntents, 0 < i.amountMicro

theorem Db.sound_empty : Db.Sound {} where
  books := Ledger.reconciles_nil
  intents := nofun

theorem Db.balance_post (db : Db) (e : BalanceEntry) :
    (db.post e).balance = update db.balance e.userID e.balanceAfterMicro := by
  funext u
  by_cases hu : u = e.userID
  · rw [hu, update_self, Db.balance_post_self]
  · rw [update_of_ne hu, Db.balance_post_of_ne db hu]

theorem Db.balance_congr (h : db'.userBalance = db.userBalance) : db'.balance = db.balance := by
  funext u
  rw [Db.balance, Db.balance, h]

theorem MoneyStep.sound (h : MoneyStep db db') (hs : db.Sound) : db'.Sound where
  books := by
    rcases h.books with ⟨hb, hl⟩ | ⟨e, hafter, hpos, hb, hl⟩
    · rw [Db.balance_congr hb, hl]
      exact hs.books
    · rw [Db.balance_congr hb, hl, Db.balance_post]
      exact hs.books.post hafter hpos
  intents i hi := by
    rcases h.intents i hi with hpos | ⟨j, hj, hij⟩
    · exact hpos
    · rw [hij]
      exact hs.intents j hj

/-- The credit of a deposit has no overdraft check: it is a money step because balances are not
negative and the amounts of intents are positive. -/
theorem moneyStep_creditDeposit (io : Faults) (txID : String) (amountMicro blockTSNs nowNs : ℤ)
    (cursorName : String) (watermarkMs : ℤ) (entry : BalanceEntry) (hs : db.Sound) :
    MoneyStep db
      (creditDeposit io txID amountMicro blockTSNs nowNs cursorName watermarkMs entry db).2 := by
  rcases atomically_snd_cases
      (creditDepositBody io txID amountMicro blockTSNs nowNs cursorName watermarkMs entry) db with
    hsame | ⟨i, db', hbody, hafter⟩
  · rw [creditDeposit, hsame]
    exact .refl db
  obtain ⟨intent, hcred, -, rfl⟩ := creditDeposit_commit hbody
  rw [creditDeposit, hafter]
  refine ⟨.inr ⟨db.creditEntry entry intent txID nowNs, rfl, ?_, rfl, rfl⟩, fun j hj => ?_⟩
  · have hbal := hs.books.nonneg intent.userID
    have hamt := hs.intents intent (Db.intentForTransfer_eq_some hcred.owner).1
    exact add_nonneg hbal (le_of_lt hamt)
  · exact .inr (exists_column_of_mem_updateWhere hj fun _ => rfl)

theorem MoneyCall.moneyStep_step (hs : db.Sound) (c : Faults × MoneyCall) :
    MoneyStep db (MoneyCall.step db c) := by
  obtain ⟨io, c⟩ := c
  cases c with
  | insertUser u => exact moneyStep_insertUser io u db
  | upsertPlan p => exact moneyStep_upsertPlan io p db
  | insertRedeemCode c => exact moneyStep_insertRedeemCode io c db
  | deleteRedeemCode id => exact moneyStep_deleteRedeemCode io id db
  | selfDeposit address intentID userID wantMicro nowNs =>
    exact moneyStep_selfDeposit io address intentID userID wantMicro nowNs db
  | sweepDeposits nowNs => exact moneyStep_sweepDeposits io nowNs db
  | applyBalanceDelta entry => exact moneyStep_applyBalanceDelta io entry db
  | redeemCodeAndCredit codeHash entry nowNs =>
    exact moneyStep_redeemCodeAndCredit io codeHash entry nowNs db
  | purchasePlanWithBalance sub entry =>
    exact moneyStep_purchasePlanWithBalance io sub entry db
  | renewSubscriptionWithBalance sub expected entry =>
    exact moneyStep_renewSubscriptionWithBalance io sub expected entry db
  | creditDeposit txID amountMicro blockTSNs nowNs cursorName watermarkMs entry =>
    exact moneyStep_creditDeposit io txID amountMicro blockTSNs nowNs cursorName watermarkMs
      entry hs

theorem MoneyCall.sound_run (hs : db.Sound) (calls : List (Faults × MoneyCall)) :
    (run MoneyCall.step db calls).Sound :=
  run_invariant (I := Db.Sound) (fun _ c hs => (MoneyCall.moneyStep_step hs c).sound hs) hs calls

theorem outcome_atomically_of_error {α : Type} {body : Db → Except RepoError (α × Option Db)}
    {e : ServiceError} (h : (outcome (atomically body db)).1 = .error e) :
    (outcome (atomically body db)).2 = db := by
  cases hfst : (atomically body db).1 with
  | ok a =>
    rw [outcome, hfst] at h
    cases h
  | error e' => exact atomically_snd_of_fst_error hfst

theorem MoneyCall.exec_of_error {io : Faults} {c : MoneyCall} {e : ServiceError}
    (h : (c.exec io db).1 = .error e) : (c.exec io db).2 = db := by
  cases c with
  | selfDeposit address intentID userID wantMicro nowNs =>
    cases hfst : (Prism.selfDeposit io address intentID userID wantMicro nowNs db).1 with
    | ok view =>
      simp only [MoneyCall.exec, hfst] at h
      cases h
    | error e' => exact selfDeposit_snd_of_error hfst
  | insertUser | upsertPlan | insertRedeemCode | deleteRedeemCode | sweepDeposits
  | applyBalanceDelta | redeemCodeAndCredit | purchasePlanWithBalance
  | renewSubscriptionWithBalance => exact outcome_atomically_of_error h
  | creditDeposit txID amountMicro blockTSNs nowNs cursorName watermarkMs entry =>
    exact outcome_atomically_of_error h

/-- **Money is conserved.**  After any sequence of calls on the empty state, under any faults: for
every user the balance is the sum of the user's ledger deltas, it is what the user's newest ledger
row recorded, and it is not negative; and a further call that returns an error leaves every table
exactly as it was. -/
theorem money_conserved (calls : List (Faults × MoneyCall)) :
    (∀ u, (run MoneyCall.step {} calls).balance u =
          Ledger.total BalanceEntry.userID BalanceEntry.deltaMicro u
            (run MoneyCall.step {} calls).balanceLedger ∧
        (run MoneyCall.step {} calls).balance u =
          Ledger.lastAfter BalanceEntry.userID BalanceEntry.balanceAfterMicro u
            (run MoneyCall.step {} calls).balanceLedger ∧
        0 ≤ (run MoneyCall.step {} calls).balance u) ∧
      ∀ io (c : MoneyCall) e, (c.exec io (run MoneyCall.step {} calls)).1 = .error e →
        (c.exec io (run MoneyCall.step {} calls)).2 = run MoneyCall.step {} calls := by
  have hs := MoneyCall.sound_run Db.sound_empty calls
  refine ⟨fun u => ⟨hs.books.total_eq u, hs.books.last_eq u, hs.books.nonneg u⟩, ?_⟩
  intro io c e h
  exact MoneyCall.exec_of_error h

end Prism
