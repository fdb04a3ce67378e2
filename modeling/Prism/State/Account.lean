import Prism.State.Balance

/-!
# Accounts, plans, codes and keys

The one-statement writers of `internal/state/repo_user.go` and `repo_redeem_code.go` that give money
and access their context: the accounts a balance belongs to, the plans that are sold, the codes that
are redeemed and the keys that are minted.  Each is a single statement, so each is a transaction of
its own.
-/

namespace Prism

open Table

namespace Db

variable (db : Db)

def insertUser (u : User) : Except SqlError Db :=
  if !u.role.isKnown || !u.status.isAccountStatus then .error .check
  else if db.users.any fun r => r.username = u.username then .error .unique
  else if db.users.any fun r => r.id = u.id then .error .primaryKey
  else .ok { db with users := db.users ++ [u] }

/-- `DELETE FROM users WHERE id = ?`, with everything that references the row. -/
def deleteUser (id : String) : Db :=
  { db with
    users := db.users.filter fun r => r.id ≠ id
    userSubscriptions := db.userSubscriptions.filter fun r => r.userID ≠ id
    accessKeys := db.accessKeys.filter fun r => r.userID ≠ id
    userBalance := db.userBalance.filter fun r => r.userID ≠ id
    sessions := db.sessions.filter fun r => r.userID ≠ id }

/-- `UPDATE users SET <column> = ? WHERE id = ?`; a value the column does not admit fails where there
is a row to write it to. -/
def writeUserColumn (id : String) (admitted : Bool) (write : User → User) : Except SqlError Db :=
  if !admitted && db.hasUser id then .error .check
  else .ok { db with users := updateWhere (fun r => r.id = id) write db.users }

/-- `INSERT INTO plans ... ON CONFLICT(id) DO UPDATE`; the creation time of a stored plan stays. -/
def upsertPlanRow (p : Plan) : Except SqlError Db :=
  if db.plans.any fun r => r.id ≠ p.id && r.name = p.name then .error .unique
  else .ok { db with
    plans := upsertWith Plan.id (fun old row => { row with createdAtNs := old.createdAtNs })
      p db.plans }

def insertRedeemCode (c : RedeemCode) : Except SqlError Db :=
  if db.redeemCodes.any fun r => r.codeHash = c.codeHash then .error .unique
  else if db.redeemCodes.any fun r => r.id = c.id then .error .primaryKey
  else .ok { db with redeemCodes := db.redeemCodes ++ [c] }

def insertAccessKey (k : AccessKey) : Except SqlError Db :=
  if !k.scope.isKnown || !k.status.isAccountStatus then .error .check
  else if db.accessKeys.any fun r => r.id = k.id then .error .primaryKey
  else if !db.hasUser k.userID then .error .foreignKey
  else .ok { db with accessKeys := db.accessKeys ++ [k] }

def accessKey (id : String) : Option AccessKey :=
  lookup AccessKey.id id db.accessKeys

/-- What an update leaves of a stored key: all of it but the owner and the creation time is the
copy's. -/
def keptKey (k old : AccessKey) : AccessKey :=
  { k with id := old.id, userID := old.userID, createdAtNs := old.createdAtNs }

/-- `UPDATE access_keys SET ... WHERE id = ?`. -/
def writeAccessKey (k : AccessKey) : Except SqlError Db :=
  if (!k.scope.isKnown || !k.status.isAccountStatus) && (db.accessKey k.id).isSome then
    .error .check
  else .ok { db with
    accessKeys := updateWhere (fun r => r.id = k.id) (keptKey k) db.accessKeys }

/-- `DELETE FROM access_keys WHERE id = ?`. -/
def deleteAccessKey (id : String) : Db :=
  { db with accessKeys := db.accessKeys.filter fun r => r.id ≠ id }

def accessKeysOf (userID : String) : List AccessKey :=
  (db.accessKeys.filter fun k => k.userID = userID).mergeSort
    fun j k => j.createdAtNs ≤ k.createdAtNs

theorem mem_accessKeysOf {db : Db} {userID : String} {k : AccessKey} :
    k ∈ db.accessKeysOf userID ↔ k ∈ db.accessKeys ∧ k.userID = userID := by
  unfold accessKeysOf
  rw [List.mem_mergeSort, List.mem_filter, decide_eq_true_eq]

end Db

/-- A call that is one statement. -/
def single (f : Db → Except RepoError Db) : RepoCall Unit :=
  atomically fun db => (f db).map fun db' => ((), some db')

theorem single_cases (f : Db → Except RepoError Db) (db : Db) :
    (∃ e, f db = .error e ∧ single f db = (.error e, db)) ∨
      ∃ db', f db = .ok db' ∧ single f db = (.ok (), db') := by
  cases h : f db with
  | error e => exact Or.inl ⟨e, rfl, by simp [single, atomically, h, Except.map]⟩
  | ok db' => exact Or.inr ⟨db', rfl, by simp [single, atomically, h, Except.map]⟩

theorem single_snd_cases (f : Db → Except RepoError Db) (db : Db) :
    (single f db).2 = db ∨ ∃ db', f db = .ok db' ∧ (single f db).2 = db' := by
  rcases single_cases f db with ⟨e, -, h⟩ | ⟨db', hok, h⟩
  · exact Or.inl (by rw [h])
  · exact Or.inr ⟨db', hok, by rw [h]⟩

variable (io : Faults)

/-- One write of a row that has to be there: `ErrNotFound` where the statement met none. -/
def singleFound (op : String) (update : Db → Except SqlError Db) (found : Db → Bool) :
    RepoCall Unit :=
  single fun db => do
    let after ← orWrap op (stmt io 0 .io (update db))
    if found db then .ok after else .error .notFound

section

variable (op : String) (found : Db → Bool) (db : Db)

theorem singleFound_cases (update : Db → Except SqlError Db) :
    (∃ cause, singleFound io op update found db = (.error (.wrapped op cause), db)) ∨
      (found db = false ∧ singleFound io op update found db = (.error .notFound, db)) ∨
      ∃ db', update db = .ok db' ∧ singleFound io op update found db = (.ok (), db') := by
  unfold singleFound
  cases hstmt : stmt io 0 .io (update db) with
  | error e =>
    refine .inl ⟨e, ?_⟩
    simp [single, atomically, hstmt, orWrap, Except.map, bind, Except.bind]
  | ok after =>
    have hupdate := (stmt_eq_ok_iff.mp hstmt).2
    cases hfound : found db with
    | true =>
      refine .inr (.inr ⟨after, hupdate, ?_⟩)
      simp [single, atomically, hstmt, orWrap, Except.map, bind, Except.bind, hfound]
    | false =>
      refine .inr (.inl ⟨rfl, ?_⟩)
      simp [single, atomically, hstmt, orWrap, Except.map, bind, Except.bind, hfound]

variable (update : Db → Db)

theorem singleFound_ok_cases :
    (∃ e, singleFound io op (fun db => .ok (update db)) found db = (.error e, db)) ∨
      singleFound io op (fun db => .ok (update db)) found db = (.ok (), update db) := by
  rcases singleFound_cases io op found db (fun db => .ok (update db)) with
    ⟨_, h⟩ | ⟨-, h⟩ | ⟨db', hok, h⟩
  · exact .inl ⟨_, h⟩
  · exact .inl ⟨_, h⟩
  · exact .inr (h.trans (by rw [Except.ok.inj hok]))

theorem singleFound_snd_cases :
    (singleFound io op (fun db => .ok (update db)) found db).2 = db ∨
      (singleFound io op (fun db => .ok (update db)) found db).2 = update db := by
  rcases singleFound_ok_cases io op found db update with ⟨_, h⟩ | h
  · exact Or.inl (by rw [h])
  · exact Or.inr (by rw [h])

end

def insertUser (io : Faults) (u : User) : RepoCall Unit :=
  single fun db =>
    orConflict "username already exists" "" (stmt io 0 .io (db.insertUser u))

def deleteUser (io : Faults) (id : String) : RepoCall Unit :=
  singleFound io "" (fun db => .ok (db.deleteUser id)) fun db => db.hasUser id

def updateUserColumn (io : Faults) (id : String) (admitted : Bool) (write : User → User) :
    RepoCall Unit :=
  singleFound io "" (fun db => db.writeUserColumn id admitted write) fun db => db.hasUser id

def updateUserStatus (io : Faults) (id : String) (status : Status) : RepoCall Unit :=
  updateUserColumn io id status.isAccountStatus fun r => { r with status := status }

def updateUserRole (io : Faults) (id : String) (role : Role) : RepoCall Unit :=
  updateUserColumn io id role.isKnown fun r => { r with role := role }

def updateUserPassword (io : Faults) (id hash : String) : RepoCall Unit :=
  updateUserColumn io id true fun r => { r with passwordHash := hash }

theorem insertUser_cases (u : User) (db : Db) : (∃ e, insertUser io u db = (.error e, db)) ∨
      (∀ r ∈ db.users, r.id ≠ u.id) ∧
        insertUser io u db = (.ok (), { db with users := db.users ++ [u] }) := by
  unfold insertUser
  rcases single_cases _ db with ⟨e, -, hrun⟩ | ⟨db', hok, hrun⟩
  · exact .inl ⟨e, hrun⟩
  have hins := ok_of_orConflict hok
  unfold Db.insertUser at hins
  split_ifs at hins with _ _ hids
  refine Or.inr ⟨fun r hr heq => hids ?_, by rw [hrun, ← Except.ok.inj hins]⟩
  exact List.any_eq_true.mpr ⟨r, hr, decide_eq_true heq⟩

variable (id : String)

theorem updateUserColumn_cases (admitted : Bool) (write : User → User) (db : Db) :
    (∃ cause, updateUserColumn io id admitted write db = (.error (.wrapped "" cause), db)) ∨
      (db.user id = none ∧ updateUserColumn io id admitted write db = (.error .notFound, db)) ∨
      updateUserColumn io id admitted write db =
        (.ok (), { db with users := updateWhere (fun r => r.id = id) write db.users }) := by
  rcases singleFound_cases io "" (fun db => db.hasUser id) db
    (fun db => db.writeUserColumn id admitted write) with h | ⟨hnone, h⟩ | ⟨db', hok, h⟩
  · exact .inl h
  · exact Or.inr (Or.inl ⟨by simpa [Db.hasUser] using hnone, h⟩)
  · unfold Db.writeUserColumn at hok
    split_ifs at hok
    exact Or.inr (Or.inr (h.trans (by rw [← Except.ok.inj hok])))

variable (db : Db)

theorem deleteUser_cases : (∃ e, deleteUser io id db = (.error e, db)) ∨
      deleteUser io id db = (.ok (), db.deleteUser id) :=
  singleFound_ok_cases io "" _ db fun db => db.deleteUser id

/-- The defaults `UpsertPlan` fills in. -/
def planRow (p : Plan) : Plan :=
  { p with
    period := if p.period = "" then "30d" else p.period
    status := if p.status = .unset then .active else p.status }

def upsertPlan (io : Faults) (p : Plan) : RepoCall Unit :=
  single fun db =>
    orConflict "plan name already exists" "" (stmt io 0 .io (db.upsertPlanRow (planRow p)))

/-- The tables after the plan was written; its date of creation stays. -/
def Db.withPlan (db : Db) (p : Plan) : Db :=
  { db with
    plans := upsertWith Plan.id (fun old row => { row with createdAtNs := old.createdAtNs })
      p db.plans }

theorem Db.plan_withPlan (p : Plan) : ((db.withPlan p).plan p.id).isSome = true := by
  have hlookup := lookup_upsertWith_self Plan.id
    (fun old row => { row with createdAtNs := old.createdAtNs }) (fun _ _ _ => rfl) p db.plans
  exact Option.isSome_of_eq_some hlookup

theorem upsertPlan_cases (p : Plan) (db : Db) : (∃ e, upsertPlan io p db = (.error e, db)) ∨
      upsertPlan io p db = (.ok (), db.withPlan (planRow p)) := by
  unfold upsertPlan
  rcases single_cases _ db with ⟨e, -, hfail⟩ | ⟨after, hok, hdone⟩
  · exact .inl ⟨e, hfail⟩
  have hwrite := ok_of_orConflict hok
  unfold Db.upsertPlanRow at hwrite
  split_ifs at hwrite
  exact Or.inr (by rw [hdone, ← Except.ok.inj hwrite]; rfl)

def insertRedeemCode (io : Faults) (c : RedeemCode) : RepoCall Unit :=
  single fun db =>
    orConflict "that code already exists" "insert redeem code"
      (stmt io 0 .io (db.insertRedeemCode c))

def deleteRedeemCode (io : Faults) (id : String) : RepoCall Unit :=
  singleFound io "delete redeem code"
    (fun db => .ok { db with redeemCodes := db.redeemCodes.filter fun r => r.id ≠ id })
    fun db => db.redeemCodes.any fun r => r.id = id

theorem deleteRedeemCode_snd_cases : (deleteRedeemCode io id db).2 = db ∨
    (deleteRedeemCode io id db).2 =
      { db with redeemCodes := db.redeemCodes.filter fun r => r.id ≠ id } :=
  singleFound_snd_cases io _ _ db fun db =>
    { db with redeemCodes := db.redeemCodes.filter fun r => r.id ≠ id }

/-- The defaults an insert and an update of a key share. -/
def normalizeAccessKey (k : AccessKey) : AccessKey :=
  { k with
    scope := if k.scope = .unset then .proxy else k.scope
    status := if k.status = .unset then .active else k.status }

def insertAccessKey (io : Faults) (k : AccessKey) : RepoCall Unit :=
  single fun db =>
    if k.secretHash = [] then .error (.invalid "secret hash is empty")
    else orWrap "" (stmt io 0 .io (db.insertAccessKey (normalizeAccessKey k)))

def updateAccessKey (io : Faults) (k : AccessKey) : RepoCall Unit :=
  singleFound io "" (fun db => db.writeAccessKey (normalizeAccessKey k))
    fun db => (db.accessKey k.id).isSome

def deleteAccessKey (io : Faults) (id : String) : RepoCall Unit :=
  singleFound io "" (fun db => .ok (db.deleteAccessKey id)) fun db => (db.accessKey id).isSome

theorem insertAccessKey_cases (k : AccessKey) (db : Db) :
    (∃ e, insertAccessKey io k db = (.error e, db)) ∨
      (∀ r ∈ db.accessKeys, r.id ≠ k.id) ∧ db.hasUser k.userID = true ∧ insertAccessKey io k db =
          (.ok (), { db with accessKeys := db.accessKeys ++ [normalizeAccessKey k] }) := by
  unfold insertAccessKey
  rcases single_cases _ db with ⟨e, -, hrun⟩ | ⟨db', hok, hrun⟩
  · exact .inl ⟨e, hrun⟩
  split_ifs at hok
  have hins := ok_of_orWrap hok
  unfold Db.insertAccessKey at hins
  split_ifs at hins with _ hids huser
  have huser' : db.hasUser (normalizeAccessKey k).userID = true := by
    simpa using huser
  refine Or.inr ⟨fun r hr heq => hids ?_, huser', by rw [hrun, ← Except.ok.inj hins]⟩
  exact List.any_eq_true.mpr ⟨r, hr, decide_eq_true heq⟩

theorem updateAccessKey_cases (k : AccessKey) (db : Db) :
    (∃ e, updateAccessKey io k db = (.error e, db)) ∨ updateAccessKey io k db = (.ok (), { db with
        accessKeys := updateWhere (fun r => r.id = k.id)
          (Db.keptKey (normalizeAccessKey k)) db.accessKeys }) := by
  rcases singleFound_cases io "" (fun db => (db.accessKey k.id).isSome) db
    (fun db => db.writeAccessKey (normalizeAccessKey k)) with ⟨_, h⟩ | ⟨-, h⟩ | ⟨db', hok, h⟩
  · exact .inl ⟨_, h⟩
  · exact .inl ⟨_, h⟩
  · unfold Db.writeAccessKey at hok
    split_ifs at hok
    exact Or.inr (h.trans (by rw [← Except.ok.inj hok]; rfl))

theorem deleteAccessKey_cases : (∃ e, deleteAccessKey io id db = (.error e, db)) ∨
      deleteAccessKey io id db = (.ok (), db.deleteAccessKey id) :=
  singleFound_ok_cases io "" _ db fun db => db.deleteAccessKey id

end Prism
