import Prism.Console.Subscription

/-!
# Keys, step by step

`CreateAccessKey`, `UpdateAccessKey` and `DeleteAccessKey` of
`internal/service/control_plane_accesskey.go`.  A creation counts the user's active keys and inserts
the new one under `keyCreateMu`.  An update reads the row, patches the copy and writes it back whole,
status included, under no mutex at all; then it publishes the copy with the account as it was read.
-/

namespace Prism
namespace Console

/-- The active keys among the rows. -/
def countActive (rows : List AccessKey) : ℕ := rows.countP fun k => k.status = .active

/-- The count that a creation takes. -/
def checkKeyAllowance (userID : String) : Task (Except ServiceError Unit) := do
  match ← Task.query (.subscriptionsRead userID) fun db => maxKeysForPlan db userID with
  | .error e => pure (.error e)
  | .ok limit =>
    if limit ≤ 0 then pure (.ok ())
    else do
      let rows ← Task.write
        (fun db _ => .keysCounted userID (countActive (db.accessKeysOf userID) < limit))
        fun db => (db.accessKeysOf userID, db)
      if limit ≤ countActive rows then
        pure (.error (.conflict ("the plan allows at most " ++ toString limit ++ " active keys")))
      else pure (.ok ())

/-- Count and insert, with nobody else creating in between. -/
def insertAccessKeyWithinAllowance (io : Faults) (user : User) (row : AccessKey) :
    Task (Except ServiceError Unit) :=
  Prog.locked .keyCreate do
    match ← checkKeyAllowance user.id with
    | .error e => pure (.error e)
    | .ok () => do
      match ← Task.write (fun _ r => .keyInserted row.userID row.id r.1.isOk)
          (insertAccessKey io row) with
      | .error _ => pure (.error (.internal "insert access key"))
      | .ok () => pure (.ok ())

/-- `CreateAccessKey`. -/
def createAccessKey (mint : KeyMint) (io : Faults) (userID : String) (input : AccessKeyInput)
    (nowNs : ℤ) : Task (Except ServiceError AccessKey) :=
  if !mint.hasPepper then
    pure (.error (.internal "no pepper is configured, so access keys cannot be minted"))
  else do
    let some user ← getUser userID
      | pure (.error (.notFound "user not found"))
    match draftKey mint userID input nowNs with
    | .error e => pure (.error e)
    | .ok row => do
      match ← insertAccessKeyWithinAllowance io user row with
      | .error e => pure (.error e)
      | .ok () => do
        match ← publishKey row user with
        | .error e => pure (.error e)
        | .ok () => pure (.ok row)

def writeKey (io : Faults) (keyID : String) (row : AccessKey) : Task (Except RepoError Unit) :=
  Task.write (fun db r => .keyWritten keyID (db.accessKey keyID) (r.2.accessKey keyID))
    (Prism.updateAccessKey io row)

/-- `UpdateAccessKey`. -/
def updateAccessKey (mint : KeyMint) (io : Faults) (userID keyID : String) (patch : AccessKeyPatch) :
    Task (Except ServiceError AccessKey) :=
  if patch = {} then pure (.error (.invalidArgument "empty patch"))
  else do
    match ← Task.query (.keyRead keyID) fun db => lookupUserKey db userID keyID with
    | .error e => pure (.error e)
    | .ok row => do
      let some user ← getUser userID
        | pure (.error (.notFound "user not found"))
      match patchedKey mint.normalAddress patch row with
      | .error e => pure (.error e)
      | .ok updated => do
        match ← writeKey io keyID updated with
        | .error _ => pure (.error (.internal "update access key"))
        | .ok () => do
          match ← publishKey updated user with
          | .error e => pure (.error e)
          | .ok () => pure (.ok updated)

/-- `DeleteAccessKey`. -/
def deleteAccessKey (io : Faults) (userID keyID : String) : Task (Except ServiceError Unit) := do
  match ← Task.query (.keyRead keyID) fun db => lookupUserKey db userID keyID with
  | .error e => pure (.error e)
  | .ok _ => do
    match ← Task.write (fun _ r => .keyDeleted keyID r.1.isOk)
        (Prism.deleteAccessKey io keyID) with
    | .error _ => pure (.error (.internal "delete access key"))
    | .ok () => do
      Task.publish (.keyDropped keyID) fun s => s.delete keyID
      pure (.ok ())

/-! ## Alone -/

theorem exec_publishKey (row : AccessKey) (user : User) (s : Server) :
    (publishKey row user).exec s = publishedAs s (Prism.publishKey row user s.toPanel) := by
  unfold publishKey Prism.publishKey
  by_cases hstatus : row.status ≠ .active
  · rw [if_pos hstatus, if_pos hstatus]
    rfl
  rw [if_neg hstatus, if_neg hstatus]
  cases hsnap : Prism.userPlanSnapshot s.db row.userID with
  | error | ok =>
    simp only [userPlanSnapshot, Task.query, Prog.bind_eq, Prog.read_bind, Prog.exec_act, hsnap, id]
    rfl

theorem exec_checkKeyAllowance (userID : String) (s : Server) :
    (checkKeyAllowance userID).exec s = (Prism.checkKeyAllowance s.db userID, s) := by
  unfold checkKeyAllowance Prism.checkKeyAllowance countActive
  simp only [Task.query, Task.write, Prog.bind_eq, Prog.read_bind, Prog.step_bind, Prog.exec_act, id]
  cases hlimit : maxKeysForPlan s.db userID with
  | error e => rfl
  | ok limit =>
    simp only [ok_bind]
    by_cases hpos : limit ≤ 0
    · rw [if_pos hpos, if_pos hpos]
      rfl
    rw [if_neg hpos, if_neg hpos, Prog.exec_act]
    by_cases hroom : limit ≤ ((s.db.accessKeysOf userID).countP fun k => k.status = .active)
    · rw [if_pos hroom, if_pos hroom]
      rfl
    · rw [if_neg hroom, if_neg hroom]
      rfl

/-- **A creation alone** is the function of the service. -/
theorem exec_createAccessKey (mint : KeyMint) (io : Faults) (userID : String)
    (input : AccessKeyInput) (nowNs : ℤ) (s : Server) :
    (createAccessKey mint io userID input nowNs).exec s =
      withPanel s (Prism.createAccessKey mint io userID input nowNs s.toPanel) := by
  unfold createAccessKey Prism.createAccessKey keyRequest
  by_cases hpepper : (!mint.hasPepper) = true
  · rw [if_pos hpepper, if_pos hpepper]
    rfl
  rw [if_neg hpepper, if_neg hpepper]
  simp only [getUser, Task.query, Prog.bind_eq, Prog.read_bind, Prog.exec_act, id]
  cases huser : s.db.user userID with
  | none => rfl
  | some user =>
    have hid : user.id = userID := Table.key_of_lookup huser
    cases hdraft : draftKey mint userID input nowNs with
    | error e => rfl
    | ok row =>
      simp only [insertAccessKeyWithinAllowance, Prog.exec_bind, Prog.exec_locked, Prog.bind_eq,
        exec_checkKeyAllowance, hid, ok_bind]
      cases hallow : Prism.checkKeyAllowance s.db userID with
      | error e => rfl
      | ok _ =>
        simp only [ok_bind, Task.write, Prog.step_bind, Prog.exec_act]
        cases hins : insertAccessKey io row s.db with
        | mk answer db =>
          cases answer with
          | error e => rfl
          | ok _ =>
            simp only [Prog.exec_ret, Prog.pure_eq_ret, Prog.exec_bind, exec_publishKey]
            cases hpub : Prism.publishKey row user { s.toPanel with db := db } with
            | error | ok => rfl

end Console
end Prism
