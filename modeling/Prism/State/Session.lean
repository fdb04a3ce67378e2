import Prism.State.Account

/-!
# Sessions and the second factor

The statements of `internal/state/repo_user.go` behind a login: the sessions, the columns of the
second factor and the time of the last login.  Each is a single statement.

`AdvanceTOTPLastUsed` is a compare and set.  It writes the step only where the ledger is behind it,
and asks a second time whether there is such an account when nothing was written.
-/

namespace Prism

open Table

namespace Db

variable (db : Db)

/-- `GetSession`. -/
def session (idHash : String) : Option Session :=
  lookup Session.idHash idHash db.sessions

/-- `SELECT ... FROM users WHERE username = ?`. -/
def userNamed (username : String) : Option User :=
  lookup User.username username db.users

def insertSession (s : Session) : Except SqlError Db :=
  if db.sessions.any fun r => r.idHash = s.idHash then .error .primaryKey
  else if !db.hasUser s.userID then .error .foreignKey
  else .ok { db with sessions := db.sessions ++ [s] }

/-- `DELETE FROM sessions WHERE id_hash = ?`. -/
def deleteSession (idHash : String) : Db :=
  { db with sessions := db.sessions.filter fun r => r.idHash ≠ idHash }

/-- `DELETE FROM sessions WHERE user_id = ?`. -/
def deleteSessionsByUser (userID : String) : Db :=
  { db with sessions := db.sessions.filter fun r => r.userID ≠ userID }

/-- `UPDATE sessions SET expires_at_ns = ? WHERE id_hash = ?`. -/
def touchSession (idHash : String) (expiresAtNs : ℤ) : Db :=
  { db with
    sessions := updateWhere (fun r => r.idHash = idHash)
      (fun r => { r with expiresAtNs := expiresAtNs }) db.sessions }

/-- `UPDATE users SET totp_last_used_ns = ? WHERE id = ? AND totp_last_used_ns < ?`. -/
def advanceTOTPLastUsed (userID : String) (stepNs : ℤ) : Db :=
  { db with
    users := updateWhere (fun r => r.id = userID && r.totpLastUsedNs < stepNs)
      (fun r => { r with totpLastUsedNs := stepNs }) db.users }

/-- The account has a row that the step would advance. -/
def stepIsNew (userID : String) (stepNs : ℤ) : Bool :=
  db.users.any fun r => r.id = userID && r.totpLastUsedNs < stepNs

end Db

def insertSession (io : Faults) (s : Session) : RepoCall Unit :=
  single fun db => orWrap "" (stmt io 0 .io (db.insertSession s))

def deleteSession (io : Faults) (idHash : String) : RepoCall Unit :=
  singleFound io "" (fun db => .ok (db.deleteSession idHash)) fun db => (db.session idHash).isSome

def deleteSessionsByUser (io : Faults) (userID : String) : Db → Except RepoError ℕ × Db :=
  atomically fun db => do
    let after ← orWrap "" (stmt io 0 .io (.ok (db.deleteSessionsByUser userID)))
    pure (db.sessions.countP (fun r => r.userID = userID), some after)

def touchSession (io : Faults) (idHash : String) (expiresAtNs : ℤ) : RepoCall Unit :=
  singleFound io "" (fun db => .ok (db.touchSession idHash expiresAtNs))
    fun db => (db.session idHash).isSome

def markUserLogin (io : Faults) (id : String) (atNs : ℤ) : RepoCall Unit :=
  updateUserColumn io id true fun r => { r with lastLoginNs := atNs }

def updateUserTOTPSecret (io : Faults) (id : String) (sealed : List UInt8) : RepoCall Unit :=
  updateUserColumn io id true fun r => { r with totpSecretEnc := sealed }

def resetTOTPLastUsed (io : Faults) (id : String) : RepoCall Unit :=
  updateUserColumn io id true fun r => { r with totpLastUsedNs := 0 }

/-- Spend a step; the answer is whether this call is the one that spent it. -/
def advanceTOTPLastUsed (io : Faults) (userID : String) (stepNs : ℤ) : RepoCall Bool :=
  atomically fun db =>
    if userID = "" then .error .notFound
    else do
      let after ← orWrap "" (stmt io 0 .io (.ok (db.advanceTOTPLastUsed userID stepNs)))
      if db.stepIsNew userID stepNs then pure (true, some after)
      else do
        let found ← orWrap "" (stmt io 1 .io (.ok (db.hasUser userID)))
        if found then pure (false, some after) else .error .notFound

/-! ## What the calls do -/

variable (io : Faults)

theorem insertSession_cases (s : Session) (db : Db) :
    (∃ e, insertSession io s db = (.error e, db)) ∨ (∀ r ∈ db.sessions, r.idHash ≠ s.idHash) ∧
        insertSession io s db = (.ok (), { db with sessions := db.sessions ++ [s] }) := by
  unfold insertSession
  rcases single_cases _ db with ⟨e, -, hrun⟩ | ⟨db', hok, hrun⟩
  · exact .inl ⟨e, hrun⟩
  have hins := ok_of_orWrap hok
  unfold Db.insertSession at hins
  split_ifs at hins with hids
  refine Or.inr ⟨fun r hr heq => hids ?_, by rw [hrun, ← Except.ok.inj hins]⟩
  exact List.any_eq_true.mpr ⟨r, hr, decide_eq_true heq⟩

theorem deleteSession_snd_cases (idHash : String) (db : Db) : (deleteSession io idHash db).2 = db ∨
      (deleteSession io idHash db).2 = db.deleteSession idHash :=
  singleFound_snd_cases io "" _ db fun db => db.deleteSession idHash

theorem touchSession_snd_cases (idHash : String) (expiresAtNs : ℤ) (db : Db) :
    (touchSession io idHash expiresAtNs db).2 = db ∨
      (touchSession io idHash expiresAtNs db).2 = db.touchSession idHash expiresAtNs :=
  singleFound_snd_cases io "" _ db fun db => db.touchSession idHash expiresAtNs

theorem deleteSessionsByUser_cases (userID : String) (db : Db) :
    (∃ e, deleteSessionsByUser io userID db = (.error e, db)) ∨
      ∃ n, deleteSessionsByUser io userID db = (.ok n, db.deleteSessionsByUser userID) := by
  unfold deleteSessionsByUser atomically stmt
  cases io 0 with
  | true => exact .inl ⟨_, rfl⟩
  | false => exact .inr ⟨_, rfl⟩

theorem deleteSessionsByUser_isOk {io : Faults} (hio : io 0 = false) (userID : String) (db : Db) :
    (deleteSessionsByUser io userID db).1.isOk = true := by
  unfold deleteSessionsByUser atomically stmt
  rw [hio]
  rfl

/-- **Spending a step**: it fails or finds the step spent, and changes nothing; or the ledger of the
account was behind the step, and is at it now. -/
theorem advanceTOTPLastUsed_cases (userID : String) (stepNs : ℤ) (db : Db) :
    ((advanceTOTPLastUsed io userID stepNs db).1 ≠ .ok true ∧
        (advanceTOTPLastUsed io userID stepNs db).2 = db) ∨
      db.stepIsNew userID stepNs = true ∧ advanceTOTPLastUsed io userID stepNs db =
        (.ok true, db.advanceTOTPLastUsed userID stepNs) := by
  have hsame : db.stepIsNew userID stepNs = false → db.advanceTOTPLastUsed userID stepNs = db := by
    intro hold
    unfold Db.advanceTOTPLastUsed
    rw [updateWhere_eq_self fun r hr => ?_]
    exact Bool.eq_false_iff.mpr fun h => absurd hold
      (by rw [Bool.not_eq_false]; exact List.any_eq_true.mpr ⟨r, hr, h⟩)
  unfold advanceTOTPLastUsed
  by_cases hid : userID = ""
  · exact Or.inl (by simp [atomically, hid])
  cases h0 : io 0 with
  | true => exact Or.inl (by simp [atomically, hid, stmt, h0, orWrap, bind, Except.bind])
  | false =>
    cases hnew : db.stepIsNew userID stepNs with
    | true =>
      exact .inr ⟨rfl, by
        simp [atomically, hid, stmt, h0, orWrap, bind, Except.bind, hnew, pure, Except.pure]⟩
    | false =>
      refine .inl ?_
      cases h1 : io 1 with
      | true =>
        simp [atomically, hid, stmt, h0, h1, orWrap, bind, Except.bind, hnew]
      | false =>
        cases hfound : db.hasUser userID with
        | true =>
          simp [atomically, hid, stmt, h0, h1, orWrap, bind, Except.bind, hnew, hfound,
            pure, Except.pure, hsame hnew]
        | false =>
          simp [atomically, hid, stmt, h0, h1, orWrap, bind, Except.bind, hnew, hfound]

end Prism
