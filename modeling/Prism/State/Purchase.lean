import Prism.State.Balance

/-!
# Buying and renewing a subscription with balance

`internal/state/repo_purchase.go`.  A purchase and a renewal are each one transaction that moves
the money and changes the subscription together.  Three guards stand inside it, and the charge is
written before the last of them:

* the request id: a request that is already in the ledger is answered with what it settled to, and
  nothing is written (`replayOf`);
* the unique indexes: of the ledger, and of the one active subscription a user;
* the period index of a renewal: the row is extended only while it still carries the period the
  caller read.
-/

namespace Prism

variable {io : Faults} {entry : BalanceEntry} {db : Db} {r : PurchaseResult}
  {sub : UserSubscription}

structure PurchaseResult where
  entry : BalanceEntry
  subscription : UserSubscription
  replayed : Bool

/-- The ledger entry of a request. -/
def Db.entryByRequest (db : Db) (userID requestID : String) : Option BalanceEntry :=
  db.balanceLedger.find? fun e => e.userID = userID && e.requestID = requestID

def Db.activeSubscription (db : Db) (userID : String) : Option UserSubscription :=
  db.userSubscriptions.find? fun s => s.userID = userID && Db.isActive s

def ledgerEntryByRequest (io : Faults) (n : ℕ) (userID requestID : String) (db : Db) :
    Except RepoError (Option BalanceEntry) :=
  orWrap "read ledger by request" (stmt io n .io (.ok (db.entryByRequest userID requestID)))

/-- A user without an active subscription gets the zero row rather than an error. -/
def activeSubscriptionTx (io : Faults) (n : ℕ) (userID : String) (db : Db) :
    Except RepoError UserSubscription :=
  orWrap "read active subscription"
    (stmt io n .io (.ok ((db.activeSubscription userID).getD {})))

/-- The first thing a purchase and a renewal look at: has this request been settled already? -/
def replayOf (io : Faults) (entry : BalanceEntry) (db : Db) :
    Except RepoError (Option PurchaseResult) :=
  if entry.requestID = "" then .ok none else do
    let settled ← ledgerEntryByRequest io 1 entry.userID entry.requestID db
    match settled with
    | none => .ok none
    | some e => do
      let current ← activeSubscriptionTx io 2 entry.userID db
      .ok (some ⟨e, current, true⟩)

/-- The request the entry carries is already in the ledger. -/
def Db.Settled (db : Db) (entry : BalanceEntry) : Prop :=
  entry.requestID ≠ "" ∧ (db.entryByRequest entry.userID entry.requestID).isSome
  deriving Decidable

theorem replayOf_eq_none (h : replayOf io entry db = .ok none) : ¬ db.Settled entry := by
  rintro ⟨hreq, hsome⟩
  unfold replayOf ledgerEntryByRequest at h
  rw [if_neg hreq] at h
  obtain ⟨settled, hs, h⟩ := bind_eq_ok_iff.mp h
  rw [Except.ok.inj (ok_of_orWrap hs)] at hsome
  cases settled with
  | none => simp at hsome
  | some e =>
    obtain ⟨current, -, h⟩ := bind_eq_ok_iff.mp h
    simp at h

theorem replayOf_eq_some (h : replayOf io entry db = .ok (some r)) :
    db.Settled entry ∧ r.replayed = true ∧
      db.entryByRequest entry.userID entry.requestID = some r.entry := by
  unfold replayOf ledgerEntryByRequest at h
  by_cases hreq : entry.requestID = ""
  · rw [if_pos hreq] at h
    simp at h
  rw [if_neg hreq] at h
  obtain ⟨settled, hs, h⟩ := bind_eq_ok_iff.mp h
  have hs' := Except.ok.inj (ok_of_orWrap hs)
  cases settled with
  | none => simp at h
  | some e =>
    obtain ⟨current, -, h⟩ := bind_eq_ok_iff.mp h
    have hr := Option.some.inj (Except.ok.inj h)
    refine ⟨⟨hreq, by rw [hs']; rfl⟩, by rw [← hr], ?_⟩
    rw [hs', ← hr]

theorem replayOf_of_settled (h : db.Settled entry) :
    ∃ r, replayOf noFaults entry db = .ok (some r) ∧ r.replayed = true := by
  obtain ⟨e, he⟩ := Option.isSome_iff_exists.mp h.2
  refine ⟨⟨e, (db.activeSubscription entry.userID).getD {}, true⟩, ?_, rfl⟩
  unfold replayOf ledgerEntryByRequest activeSubscriptionTx
  rw [if_neg h.1]
  simp only [stmt_noFaults, he, orWrap, ok_bind]

theorem replayOf_of_not_settled (h : ¬ db.Settled entry) :
    replayOf noFaults entry db = .ok none := by
  unfold replayOf ledgerEntryByRequest
  by_cases hreq : entry.requestID = ""
  · rw [if_pos hreq]
  · rw [if_neg hreq]
    have hnone : db.entryByRequest entry.userID entry.requestID = none := by
      by_contra hne
      exact h ⟨hreq, Option.isSome_iff_ne_none.mpr hne⟩
    simp only [stmt_noFaults, hnone, orWrap, ok_bind]

/-- A call that begins with the guard was settled before, or goes on. -/
theorem settled_or_goes_on {op : String} {out : Option Db}
    {rest : Except RepoError (PurchaseResult × Option Db)}
    (h : (do
      beginTx io 0 op
      let replay ← replayOf io entry db
      match replay with
      | some r => .ok (r, none)
      | none => rest) = .ok (r, out)) :
    (db.Settled entry ∧ r.replayed = true ∧ out = none) ∨
      (¬ db.Settled entry ∧ rest = .ok (r, out)) := by
  obtain ⟨-, -, h⟩ := bind_eq_ok_iff.mp h
  obtain ⟨replay, hreplay, h⟩ := bind_eq_ok_iff.mp h
  cases replay with
  | some r' =>
    cases h
    have hr := replayOf_eq_some hreplay
    exact .inl ⟨hr.1, hr.2.1, rfl⟩
  | none => exact .inr ⟨replayOf_eq_none hreplay, h⟩

/-- The table accepts the row as a new subscription. -/
structure Db.AcceptsSubscription (db : Db) (s : UserSubscription) : Prop where
  status : s.status.isSubscriptionStatus = true
  active : ¬ Table.Taken UserSubscription.userID Db.isActive s db.userSubscriptions
  id : ∀ r ∈ db.userSubscriptions, r.id ≠ s.id
  user : db.hasUser s.userID = true
  plan : db.hasPlanOrNull s.planID = true

variable {db' : Db}

theorem Db.insertSubscription_eq_ok_iff {s : UserSubscription} : db.insertSubscription s = .ok db' ↔
      db.AcceptsSubscription s ∧
        db' = { db with userSubscriptions := db.userSubscriptions ++ [s] } := by
  unfold Db.insertSubscription
  simp only [refuse_eq_ok_iff, Bool.not_eq_true', Bool.not_eq_false, Bool.or_eq_true, not_or,
    List.any_eq_true, decide_eq_true_eq, not_exists, not_and, Except.ok.injEq]
  constructor
  · rintro ⟨hstatus, hactive, hid, ⟨huser, hplan⟩, hdb⟩
    exact ⟨⟨hstatus, hactive, hid, huser, hplan⟩, hdb.symm⟩
  · rintro ⟨⟨hstatus, hactive, hid, huser, hplan⟩, rfl⟩
    exact ⟨hstatus, hactive, hid, ⟨huser, hplan⟩, rfl⟩

/-- An empty snapshot text is stored as `{}`. -/
def snapshotOrEmpty (t : SnapshotText) : SnapshotText :=
  if t = .blank "" then .emptyObject else t

def statusOrActive (s : Status) : Status :=
  if s = .unset then .active else s

def purchasePlanWithBalanceBody (io : Faults) (sub : UserSubscription) (entry : BalanceEntry)
    (db : Db) : Except RepoError (PurchaseResult × Option Db) := do
  beginTx io 0 "begin purchase"
  let replay ← replayOf io entry db
  match replay with
  | some r => .ok (r, none)
  | none => do
    let (entry, db) ← chargeInTx io 3 entry db
    let db ← orWrap "expire previous subscription"
      (stmt io 6 .io (.ok (db.expireActiveOf entry.userID)))
    let sub := { sub with status := statusOrActive sub.status }
    let db ← orConflict "the user already has an active subscription" "write subscription"
      (stmt io 7 .io
        (db.insertSubscription { sub with planSnapshot := snapshotOrEmpty sub.planSnapshot }))
    commitTx io 8 "commit purchase"
    .ok (⟨entry, sub, false⟩, some db)

/-- Charge the entry and put the subscription in force. -/
def purchasePlanWithBalance (io : Faults) (sub : UserSubscription) (entry : BalanceEntry) :
    RepoCall PurchaseResult :=
  atomically (purchasePlanWithBalanceBody io sub entry)

def purchasedRow (sub : UserSubscription) : UserSubscription :=
  { sub with
    status := statusOrActive sub.status
    planSnapshot := snapshotOrEmpty sub.planSnapshot }

/-- **A purchase that commits** had not been settled before, was covered, and has inserted its row
after ending whatever the payer had running. -/
theorem purchase_commit (h : purchasePlanWithBalanceBody io sub entry db = .ok (r, some db')) :
    ¬ db.Settled entry ∧ db.Admits entry ∧ r.replayed = false ∧ r.entry = db.settled entry ∧
      ((db.post r.entry).expireActiveOf entry.userID).AcceptsSubscription (purchasedRow sub) ∧
      db' = { (db.post r.entry).expireActiveOf entry.userID with
        userSubscriptions :=
          ((db.post r.entry).expireActiveOf entry.userID).userSubscriptions ++
            [purchasedRow sub] } := by
  rcases settled_or_goes_on h with ⟨-, -, hnone⟩ | ⟨hnew, h⟩
  · cases hnone
  obtain ⟨⟨e1, db1⟩, hcharge, h⟩ := bind_eq_ok_iff.mp h
  obtain ⟨-, hadm, rfl, rfl⟩ := chargeInTx_eq_ok_iff.mp hcharge
  have h := next_of_stmt h
  obtain ⟨db2, hinsert, h⟩ := bind_eq_ok_iff.mp h
  obtain ⟨-, -, h⟩ := bind_eq_ok_iff.mp h
  obtain ⟨haccepted, hdb2⟩ := Db.insertSubscription_eq_ok_iff.mp (ok_of_orConflict hinsert)
  obtain ⟨rfl, hsome⟩ := Prod.mk.inj (Except.ok.inj h)
  exact ⟨hnew, hadm, rfl, rfl, haccepted, (Option.some.inj hsome).symm.trans hdb2⟩

theorem purchase_return (h : purchasePlanWithBalanceBody io sub entry db = .ok (r, none)) :
    db.Settled entry ∧ r.replayed = true := by
  rcases settled_or_goes_on h with ⟨hsettled, hr, -⟩ | ⟨-, h⟩
  · exact ⟨hsettled, hr⟩
  obtain ⟨⟨e1, db1⟩, -, h⟩ := bind_eq_ok_iff.mp h
  obtain ⟨db2, -, h⟩ := bind_eq_ok_iff.mp h
  obtain ⟨db3, -, h⟩ := bind_eq_ok_iff.mp h
  obtain ⟨-, -, h⟩ := bind_eq_ok_iff.mp h
  have hpair := Prod.mk.inj (Except.ok.inj h)
  cases hpair.2

/-- The body of the transaction. -/
def renewSubscriptionWithBalanceBody (io : Faults) (sub : UserSubscription) (expected : ℤ)
    (entry : BalanceEntry) (db : Db) : Except RepoError (PurchaseResult × Option Db) := do
  beginTx io 0 "begin renewal"
  let replay ← replayOf io entry db
  match replay with
  | some r => .ok (r, none)
  | none => do
    let (entry, db) ← chargeInTx io 3 entry db
    let (n, db) ← orWrap "extend subscription"
      (stmt io 6 .io (db.renewRow sub (snapshotOrEmpty sub.planSnapshot) expected))
    -- another writer renewed it first, or the row is gone: this charge must not stand
    if n = 0 then .error (.conflict "the subscription was renewed by another writer") else do
      commitTx io 7 "commit renewal"
      .ok (⟨entry, sub, false⟩, some db)

/-- Charge the entry and extend the subscription, if its row still carries the expected period. -/
def renewSubscriptionWithBalance (io : Faults) (sub : UserSubscription) (expected : ℤ)
    (entry : BalanceEntry) : RepoCall PurchaseResult :=
  atomically (renewSubscriptionWithBalanceBody io sub expected entry)

def Db.renewed (db : Db) (sub : UserSubscription) (expected : ℤ) : Db :=
  { db with
    userSubscriptions := Table.updateWhere (fun r => r.id = sub.id && r.periodIndex = expected)
      (Db.renewColumns sub (snapshotOrEmpty sub.planSnapshot)) db.userSubscriptions }

/-- The row is there at the expected period, and its user has no other active row. -/
structure Db.Renewable (db : Db) (sub : UserSubscription) (expected : ℤ)
    (row : UserSubscription) : Prop where
  at_period : db.atPeriod sub.id expected = some row
  alone : db.activeElsewhere row.id row.userID = false

variable {expected : ℤ}

theorem Db.renewRow_eq_ok_iff {n : ℕ} (hn : n ≠ 0) :
    db.renewRow sub (snapshotOrEmpty sub.planSnapshot) expected = .ok (n, db') ↔
      n = 1 ∧ (∃ row, db.Renewable sub expected row) ∧ db' = db.renewed sub expected := by
  unfold Db.renewRow Db.renewed
  cases hat : db.atPeriod sub.id expected with
  | none =>
    constructor
    · intro h
      have hpair := Prod.mk.inj (Except.ok.inj h)
      exact absurd hpair.1.symm hn
    · rintro ⟨-, ⟨row, hrow⟩, -⟩
      exact absurd hrow.at_period (by rw [hat]; simp)
  | some row =>
    cases helse : db.activeElsewhere row.id row.userID with
    | true =>
      simp only [helse, if_true]
      constructor
      · intro h
        cases h
      · rintro ⟨-, ⟨row', hrow⟩, -⟩
        have hrow' : row = row' := Option.some.inj (hat.symm.trans hrow.at_period)
        rw [← hrow'] at hrow
        cases hrow.alone.symm.trans helse
    | false =>
      simp only [helse, Bool.false_eq_true, if_false]
      constructor
      · intro h
        have hpair := Prod.mk.inj (Except.ok.inj h)
        exact ⟨hpair.1.symm, ⟨row, hat, helse⟩, hpair.2.symm⟩
      · rintro ⟨rfl, -, rfl⟩
        rfl

/-- **A renewal that commits** had not been settled before, was covered, found its row at the
expected period, and has extended it. -/
theorem renew_commit
    (h : renewSubscriptionWithBalanceBody io sub expected entry db = .ok (r, some db')) :
    ¬ db.Settled entry ∧ db.Admits entry ∧ r = ⟨db.settled entry, sub, false⟩ ∧
      (∃ row, db.Renewable sub expected row) ∧
      db' = (db.post (db.settled entry)).renewed sub expected := by
  rcases settled_or_goes_on h with ⟨-, -, hnone⟩ | ⟨hnew, h⟩
  · cases hnone
  obtain ⟨⟨e1, db1⟩, hcharge, h⟩ := bind_eq_ok_iff.mp h
  obtain ⟨-, hadm, rfl, rfl⟩ := chargeInTx_eq_ok_iff.mp hcharge
  obtain ⟨⟨n, db2⟩, hrenew, h⟩ := bind_eq_ok_iff.mp h
  simp only at h
  split_ifs at h with hn
  obtain ⟨-, -, h⟩ := bind_eq_ok_iff.mp h
  obtain ⟨-, ⟨row, hrow⟩, hdb2⟩ := (Db.renewRow_eq_ok_iff hn).mp (ok_of_orWrap hrenew)
  obtain ⟨rfl, hsome⟩ := Prod.mk.inj (Except.ok.inj h)
  exact ⟨hnew, hadm, rfl, ⟨row, hrow.at_period, hrow.alone⟩, (Option.some.inj hsome).symm.trans hdb2⟩

theorem renew_return (h : renewSubscriptionWithBalanceBody io sub expected entry db = .ok (r, none)) :
    db.Settled entry ∧ r.replayed = true := by
  rcases settled_or_goes_on h with ⟨hsettled, hr, -⟩ | ⟨-, h⟩
  · exact ⟨hsettled, hr⟩
  obtain ⟨⟨e1, db1⟩, -, h⟩ := bind_eq_ok_iff.mp h
  obtain ⟨⟨n, db2⟩, -, h⟩ := bind_eq_ok_iff.mp h
  simp only at h
  split_ifs at h
  obtain ⟨-, -, h⟩ := bind_eq_ok_iff.mp h
  have hpair := Prod.mk.inj (Except.ok.inj h)
  cases hpair.2

/-- Active, opted in, and inside the lead time before the expiry, in the order of the expiry.  A
subscription without an expiry does not run out. -/
def listRenewableSubscriptions (nowNs withinNs : ℤ) (db : Db) : List UserSubscription :=
  (db.userSubscriptions.filter fun s => Db.isActive s && s.autoRenew &&
    decide (0 < s.expiresAtNs) && decide (s.expiresAtNs ≤ nowNs + withinNs)).mergeSort
      fun s t => s.expiresAtNs ≤ t.expiresAtNs

theorem mem_listRenewableSubscriptions {nowNs withinNs : ℤ} {s : UserSubscription} :
    s ∈ listRenewableSubscriptions nowNs withinNs db ↔
      s ∈ db.userSubscriptions ∧ s.status = .active ∧ s.autoRenew = true ∧ 0 < s.expiresAtNs ∧
        s.expiresAtNs ≤ nowNs + withinNs := by
  unfold listRenewableSubscriptions Db.isActive
  rw [List.mem_mergeSort, List.mem_filter]
  simp [and_assoc]

/-- The committed renewals of a subscription: its `renew` rows in the ledger. -/
def renewals (id : String) (db : Db) : ℕ :=
  db.balanceLedger.countP fun e => e.reason = .renew && e.refID = id

theorem renewals_of_ledger_eq (h : db'.balanceLedger = db.balanceLedger) (id : String) :
    renewals id db' = renewals id db := by
  unfold renewals
  rw [h]

theorem renewals_post (db : Db) {e : BalanceEntry} (he : e.reason = .renew) (id : String) :
    renewals id (db.post e) = renewals id db + if e.refID = id then 1 else 0 := by
  unfold renewals Db.post
  rw [List.countP_append, List.countP_singleton]
  simp [he]

end Prism
