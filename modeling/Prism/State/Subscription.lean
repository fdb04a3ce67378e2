import Prism.Foundation.Text
import Prism.State.Account
import Prism.State.Purchase

/-!
# Writing subscriptions from the console

The writers of `user_subscriptions` in `internal/state/repo_user.go` and `repo_purchase.go` that
move no money.  Two of them carry the whole set of terms as the caller read it
(`UpdateUserSubscriptionTerms`, `UpsertUserSubscription`); the others write one column.
-/

namespace Prism

open Table

/-- The text as `strings.TrimSpace` leaves it, `{}` for a blank one. -/
def storedSnapshot : SnapshotText → SnapshotText
  | .blank _ => .emptyObject
  | .unreadable raw => .unreadable (trimSpace raw)
  | .plan p => .plan p

def storedTerms (s : UserSubscription) : UserSubscription :=
  { s with planSnapshot := storedSnapshot s.planSnapshot, status := statusOrActive s.status }

/-- Rewrite the terms of an existing subscription; the usage counters are left alone. -/
def updateUserSubscriptionTerms (io : Faults) (s : UserSubscription) : RepoCall Unit :=
  single fun db => do
    let (n, after) ← orConflict "the user already has an active subscription" ""
      (stmt io 0 .io (db.writeTerms (storedTerms s)))
    if n = 0 then .error .notFound else .ok after

/-- `INSERT INTO user_subscriptions ... ON CONFLICT(id) DO UPDATE`. -/
def Db.upsertSubscription (db : Db) (s : UserSubscription) : Except SqlError Db :=
  match db.subscription s.id with
  | none => db.insertSubscription s
  | some _ =>
    if !s.status.isSubscriptionStatus then .error .check
    else if Db.isActive s && db.activeElsewhere s.id s.userID then .error .unique
    else if !db.hasUser s.userID || !db.hasPlanOrNull s.planID then .error .foreignKey
    else .ok { db with
      userSubscriptions := updateWhere (fun r => r.id = s.id) (fun _ => s)
        db.userSubscriptions }

def upsertUserSubscription (io : Faults) (s : UserSubscription) : RepoCall Unit :=
  single fun db =>
    orConflict "the user already has an active subscription" ""
      (stmt io 0 .io (db.upsertSubscription (storedTerms s)))

/-- End a subscription: only its status moves. -/
def revokeUserSubscription (io : Faults) (id : String) : RepoCall Unit :=
  singleFound io "" (fun db => .ok (db.suspendRow id)) fun db => (db.subscription id).isSome

def setSubscriptionAutoRenew (io : Faults) (id : String) (autoRenew : Bool) : RepoCall Unit :=
  singleFound io "set auto renew" (fun db => .ok (db.writeAutoRenew id autoRenew))
    fun db => (db.subscription id).isSome

/-- Close out every active subscription whose window has closed. -/
def expireStaleSubscriptions (io : Faults) (nowNs : ℤ) : RepoCall Unit :=
  single fun db => orWrap "" (stmt io 0 .io (.ok (db.expireStale nowNs)))

variable (io : Faults)

theorem revokeUserSubscription_snd_cases (id : String) (db : Db) :
    (revokeUserSubscription io id db).2 = db ∨
      (revokeUserSubscription io id db).2 = db.suspendRow id :=
  singleFound_snd_cases io _ _ db fun db => db.suspendRow id

theorem setSubscriptionAutoRenew_snd_cases (id : String) (autoRenew : Bool) (db : Db) :
    (setSubscriptionAutoRenew io id autoRenew db).2 = db ∨
      (setSubscriptionAutoRenew io id autoRenew db).2 = db.writeAutoRenew id autoRenew :=
  singleFound_snd_cases io _ _ db fun db => db.writeAutoRenew id autoRenew

theorem expireStaleSubscriptions_snd_cases (nowNs : ℤ) (db : Db) :
    (expireStaleSubscriptions io nowNs db).2 = db ∨
      (expireStaleSubscriptions io nowNs db).2 = db.expireStale nowNs := by
  rcases single_snd_cases _ db with hsame | ⟨db', hok, hdone⟩
  · exact .inl hsame
  · exact .inr (hdone.trans (Except.ok.inj (ok_of_orWrap hok)).symm)

/-- The terms write goes through: the row is there, and no constraint stands against it. -/
structure Db.AcceptsTerms (db : Db) (s : UserSubscription) : Prop where
  row : (db.subscription s.id).isSome = true
  status : s.status.isSubscriptionStatus = true
  alone : ¬ (s.status = .active ∧ db.activeElsewhere s.id s.userID = true)
  user : db.hasUser s.userID = true
  plan : db.hasPlanOrNull s.planID = true

def Db.withTerms (db : Db) (s : UserSubscription) : Db :=
  { db with
    userSubscriptions := updateWhere (fun r => r.id = s.id) (Db.termsColumns s)
      db.userSubscriptions }

variable {s : UserSubscription} {db db' : Db}

theorem Db.writeTerms_eq_ok_iff {n : ℕ} (hn : n ≠ 0) :
    db.writeTerms s = .ok (n, db') ↔ n = 1 ∧ db.AcceptsTerms s ∧ db' = db.withTerms s := by
  unfold Db.writeTerms Db.withTerms
  cases hrow : db.subscription s.id with
  | none =>
    constructor
    · intro h
      exact absurd (Prod.mk.inj (Except.ok.inj h)).1.symm hn
    · rintro ⟨-, hacc, -⟩
      exact absurd hacc.row (by simp [hrow])
  | some r =>
    have hsome : (db.subscription s.id).isSome = true := by rw [hrow]; rfl
    simp only [refuse_eq_ok_iff, Bool.not_eq_true', Bool.not_eq_false, Bool.or_eq_true, not_or,
      Bool.and_eq_true, Db.isActive, decide_eq_true_eq, Except.ok.injEq, Prod.mk.injEq]
    constructor
    · rintro ⟨hstatus, halone, ⟨huser, hplan⟩, hone, hdb⟩
      exact ⟨hone.symm, ⟨hsome, hstatus, halone, huser, hplan⟩, hdb.symm⟩
    · rintro ⟨rfl, ⟨-, hstatus, halone, huser, hplan⟩, rfl⟩
      exact ⟨hstatus, halone, ⟨huser, hplan⟩, rfl, rfl⟩

/-- **What a terms write does**: it fails and changes nothing, or the terms of a row that is there
are replaced. -/
theorem updateUserSubscriptionTerms_cases (s : UserSubscription) (db : Db) :
    (∃ e, updateUserSubscriptionTerms io s db = (.error e, db)) ∨ db.AcceptsTerms (storedTerms s) ∧
        updateUserSubscriptionTerms io s db = (.ok (), db.withTerms (storedTerms s)) := by
  unfold updateUserSubscriptionTerms
  rcases single_cases _ db with ⟨e, -, hfail⟩ | ⟨db', hok, hdone⟩
  · exact .inl ⟨e, hfail⟩
  rw [hdone]
  obtain ⟨⟨n, after⟩, hwrite, h⟩ := bind_eq_ok_iff.mp hok
  simp only at h
  split_ifs at h with hn
  obtain ⟨-, hacc, hdb⟩ := (Db.writeTerms_eq_ok_iff hn).mp (ok_of_orConflict hwrite)
  rw [← Except.ok.inj h, hdb]
  exact .inr ⟨hacc, rfl⟩

theorem updateUserSubscriptionTerms_accepted (h : db.AcceptsTerms (storedTerms s)) :
    updateUserSubscriptionTerms noFaults s db = (.ok (), db.withTerms (storedTerms s)) := by
  have hwrite : db.writeTerms (storedTerms s) = .ok (1, db.withTerms (storedTerms s)) :=
    (Db.writeTerms_eq_ok_iff Nat.one_ne_zero).mpr ⟨rfl, h, rfl⟩
  unfold updateUserSubscriptionTerms
  simp [single, atomically, hwrite, orConflict, Except.map, bind, Except.bind]

/-- **What an upsert of a subscription does**: it fails and changes nothing, or inserts the row, or
replaces the one with its id. -/
theorem upsertUserSubscription_cases (s : UserSubscription) (db : Db) :
    (∃ e, upsertUserSubscription io s db = (.error e, db)) ∨
      (db.AcceptsSubscription (storedTerms s) ∧ upsertUserSubscription io s db =
        (.ok (), { db with userSubscriptions := db.userSubscriptions ++ [storedTerms s] })) ∨
      (db.AcceptsTerms (storedTerms s) ∧ upsertUserSubscription io s db = (.ok (), { db with
          userSubscriptions := updateWhere (fun r => r.id = (storedTerms s).id)
            (fun _ => storedTerms s) db.userSubscriptions })) := by
  unfold upsertUserSubscription
  rcases single_cases _ db with ⟨e, -, hfail⟩ | ⟨after, hok, hdone⟩
  · exact .inl ⟨e, hfail⟩
  rw [hdone]
  have hwrite := ok_of_orConflict hok
  unfold Db.upsertSubscription at hwrite
  cases hrow : db.subscription (storedTerms s).id with
  | none =>
    rw [hrow] at hwrite
    obtain ⟨hacc, hafter⟩ := Db.insertSubscription_eq_ok_iff.mp hwrite
    exact Or.inr (Or.inl ⟨hacc, by rw [hafter]⟩)
  | some row =>
    simp only [hrow] at hwrite
    split_ifs at hwrite with hstatus halone href
    simp only [Bool.or_eq_true, Bool.not_eq_true', not_or, Bool.not_eq_false] at href
    refine Or.inr (Or.inr ⟨⟨by rw [hrow]; rfl, by simpa using hstatus, ?_, href.1, href.2⟩, ?_⟩)
    · simpa [Db.isActive] using halone
    · rw [← Except.ok.inj hwrite]

theorem upsertUserSubscription_ok {io : Faults} (h : upsertUserSubscription io s db = (.ok (), db'))
    (hnew : db.subscription s.id = none) :
    db.AcceptsSubscription (storedTerms s) ∧
      db' = { db with userSubscriptions := db.userSubscriptions ++ [storedTerms s] } := by
  rcases upsertUserSubscription_cases io s db with ⟨e, hfail⟩ | ⟨hacc, hdone⟩ | ⟨hacc, -⟩
  · rw [hfail] at h
    exact absurd (Prod.mk.inj h).1 (by simp)
  · exact ⟨hacc, ((Prod.mk.inj (hdone.symm.trans h)).2).symm⟩
  · exact absurd hacc.row (by simp [storedTerms, hnew])

theorem upsertUserSubscription_error {io : Faults} {e : RepoError}
    (h : upsertUserSubscription io s db = (.error e, db')) : db' = db := by
  have hsame := atomically_snd_of_fst_error (congrArg Prod.fst h)
  exact (congrArg Prod.snd h).symm.trans hsame

/-! ## Reading a row back -/

theorem Db.subscription_of_update {p : UserSubscription → Bool}
    {f : UserSubscription → UserSubscription}
    (h : db'.userSubscriptions = updateWhere p f db.userSubscriptions)
    (hf : ∀ r, (f r).id = r.id) (id : String) :
    db'.subscription id = (db.subscription id).map fun r => if p r then f r else r := by
  unfold Db.subscription
  rw [h, lookup_updateWhere UserSubscription.id fun r _ => hf r]

theorem Db.subscription_withTerms (db : Db) (s : UserSubscription) (id : String) :
    (db.withTerms s).subscription id =
      (db.subscription id).map fun r => if r.id = s.id then Db.termsColumns s r else r := by
  have hup : (db.withTerms s).userSubscriptions =
      updateWhere (fun r => r.id = s.id) (Db.termsColumns s) db.userSubscriptions := rfl
  have h := Db.subscription_of_update hup (fun _ => rfl) id
  simpa only [decide_eq_true_eq] using h

theorem Db.subscription_renewed (db : Db) (sub : UserSubscription) (expected : ℤ) (id : String) :
    (db.renewed sub expected).subscription id =
      (db.subscription id).map fun r => if r.id = sub.id ∧ r.periodIndex = expected then
        Db.renewColumns sub (snapshotOrEmpty sub.planSnapshot) r else r := by
  have hup : (db.renewed sub expected).userSubscriptions =
      updateWhere (fun r => r.id = sub.id && r.periodIndex = expected)
        (Db.renewColumns sub (snapshotOrEmpty sub.planSnapshot)) db.userSubscriptions := rfl
  have h := Db.subscription_of_update hup (fun _ => rfl) id
  simpa only [Bool.and_eq_true, decide_eq_true_eq] using h

/-- The primary key of the table of subscriptions. -/
abbrev Db.SubsKeyed (db : Db) : Prop := KeysNodup UserSubscription.id db.userSubscriptions

theorem Db.subscription_of_atPeriod {id : String} {period : ℤ} {row : UserSubscription}
    (hkeys : db.SubsKeyed)
    (h : db.atPeriod id period = some row) :
    db.subscription id = some row ∧ row.periodIndex = period := by
  have hmem := List.mem_of_find?_eq_some h
  have hp := List.find?_some h
  simp only [Bool.and_eq_true, decide_eq_true_eq] at hp
  refine ⟨?_, hp.2⟩
  have hl := lookup_of_mem hkeys hmem
  rwa [hp.1] at hl

theorem Db.atPeriod_of_subscription {row : UserSubscription}
    (hkeys : db.SubsKeyed)
    (h : db.subscription row.id = some row) : db.atPeriod row.id row.periodIndex = some row := by
  have hmem := mem_of_lookup h
  cases hat : db.atPeriod row.id row.periodIndex with
  | none =>
    have hnone := List.find?_eq_none.mp hat row hmem
    exact absurd hnone (by simp)
  | some r =>
    have hr := (Db.subscription_of_atPeriod hkeys hat).1
    rw [Option.some.inj (hr.symm.trans h)]

end Prism
