import Prism.Console.Publish
import Prism.State.Session

/-!
# Accounts, step by step

`internal/service/control_plane_account.go` and the writers of `control_plane_tenant_user.go`.  A
role, a status or a deletion is decided on a count of the other administrators and written one
statement later; `userWriteMu` is held from before the count until after the write.  Only
`CreateAccount` goes without it, and only ever adds a row.

`UpdateTenantUser` applies up to three columns under one hold of the mutex, each with a statement of
its own, after it has judged the patch as a whole.
-/

namespace Prism

/-- The role as it is written. -/
def Role.text : Role → String
  | .admin => "admin"
  | .user => "user"
  | .other raw => raw

def Status.text : Status → String
  | .unset => ""
  | .active => "active"
  | .disabled => "disabled"
  | .expired => "expired"
  | .suspended => "suspended"
  | .other raw => raw

/-- An account that can use the console to the full. -/
def User.isActiveAdmin (u : User) : Bool :=
  u.role = .admin && u.status = .active

/-- Why a change of an account is refused. -/
inductive AccountError where
  | usernameRequired
  | unknownRole (role : Role)
  | unknownStatus (status : Status)
  | passwordTooShort
  | accountNotFound
  | lastAdmin
  | repo (e : RepoError)
  | hash
  | newID
  deriving DecidableEq

/-- What the caller is told. -/
def mapAccountWriteError (operation : String) : AccountError → ServiceError
  | .repo (.conflict _) => .conflict "a user with that username already exists"
  | .repo .notFound | .accountNotFound => .notFound "user not found"
  | .passwordTooShort =>
    .invalidArgument "service: the password must be at least 12 characters"
  | .usernameRequired => .invalidArgument "service: the username must not be empty"
  | .unknownRole role => .invalidArgument ("service: unknown role " ++ role.text.quote)
  | .unknownStatus status => .invalidArgument ("service: unknown status " ++ status.text.quote)
  | .lastAdmin => .forbidden "service: this would leave no active administrator"
  | .repo _ | .hash | .newID => .internal operation

def mapUserLookupError : RepoError → ServiceError
  | .notFound => .notFound "user not found"
  | _ => .internal "read user"

def minPasswordLength : ℕ := 12

def checkPasswordPolicy (password : String) : Except AccountError Unit :=
  if password.utf8ByteSize < minPasswordLength then .error .passwordTooShort else .ok ()

structure TenantUserPatch where
  status : Option Status := none
  role : Option Role := none
  password : Option String := none
  deriving DecidableEq

/-- What the surroundings decide for one request: the hash of the password and the identifier of the
account, where they can be had, the faults of its writes, and whether the account's sessions cannot
be ended. -/
structure AccountEnv where
  hash : Option String := some ""
  newID : Option String := none
  io : ℕ → Faults := fun _ => noFaults
  sessionsFail : Bool := false

namespace Console

variable (env : AccountEnv)

/-- `CreateAccount`. -/
def createAccount (username password : String) (role : Role) : Task (Except AccountError Unit) :=
  let username := trimSpace username
  if username = "" then pure (.error .usernameRequired)
  else if role ≠ .admin ∧ role ≠ .user then pure (.error (.unknownRole role))
  else
    match checkPasswordPolicy password, env.hash, env.newID with
    | .error e, _, _ => pure (.error e)
    | .ok (), none, _ => pure (.error .hash)
    | .ok (), some _, none => pure (.error .newID)
    | .ok (), some hash, some id => do
      let user : User :=
        { id := id, username := username, role := role, status := .active, passwordHash := hash }
      let answer ← Task.write (fun _ r => .accountInserted id r.1.isOk) (insertUser (env.io 0) user)
      pure (answer.mapError .repo)

/-- Counts the other administrators. -/
def refuseIfLastAdmin (user : User) : Task (Except AccountError Unit) :=
  if user.role ≠ .admin ∨ user.status ≠ .active then pure (.ok ())
  else do
    let users ← Task.query .usersListed fun db => db.users
    if users.countP (fun candidate => candidate.id ≠ user.id && candidate.isActiveAdmin) = 0 then
      pure (.error .lastAdmin)
    else pure (.ok ())

variable (id : String)

def writeAccount (f : RepoCall Unit) : Task (Except AccountError Unit) := do
  let answer ← Task.write (fun db r => .accountWritten id (db.user id) (r.2.user id)) f
  pure (answer.mapError .repo)

/-- What the two locked setters have in common: nothing to do where the account is `same` already,
and the check for the last administrator where the change is `guarded`. -/
def setAccountLocked (same guarded : User → Bool)
    (f : RepoCall Unit) : Task (Except AccountError Unit) := do
  let some user ← getUser id
    | pure (.error .accountNotFound)
  if same user then pure (.ok ())
  else if guarded user then do
    match ← refuseIfLastAdmin user with
    | .error e => pure (.error e)
    | .ok () => writeAccount id f
  else writeAccount id f

def setAccountStatusLocked (io : Faults) (id : String) (status : Status) :
    Task (Except AccountError Unit) :=
  setAccountLocked id (fun user => user.status = status) (fun _ => status = .disabled)
    (updateUserStatus io id status)

def setAccountRoleLocked (io : Faults) (id : String) (role : Role) :
    Task (Except AccountError Unit) :=
  setAccountLocked id (fun user => user.role = role) (fun user => user.role = .admin && role = .user)
    (updateUserRole io id role)

/-- `SetAccountStatus`. -/
def setAccountStatus (io : Faults) (id : String) (status : Status) :
    Task (Except AccountError Unit) :=
  if status ≠ .active ∧ status ≠ .disabled then pure (.error (.unknownStatus status))
  else Prog.locked .userWrite (setAccountStatusLocked io id status)

/-- `SetAccountRole`. -/
def setAccountRole (io : Faults) (id : String) (role : Role) : Task (Except AccountError Unit) :=
  if role ≠ .admin ∧ role ≠ .user then pure (.error (.unknownRole role))
  else Prog.locked .userWrite (setAccountRoleLocked io id role)

/-- The read that ends a request about a user. -/
def tenantUserView : Task (Except ServiceError Unit) := do
  let some _ ← getUser id
    | pure (.error (.notFound "user not found"))
  pure (.ok ())

def revokeSessions (io : Faults) (id : String) : Task (Except RepoError Unit) := do
  let answer ← Task.write (fun _ r => .sessionsRevoked id r.1.isOk) (deleteSessionsByUser io id)
  pure (answer.map fun _ => ())

/-- End the sessions of an account where a change to it asks for that. -/
def endSessions (ends : Bool) : Task (Except RepoError Unit) :=
  if ends then revokeSessions (fun _ => env.sessionsFail) id else pure (.ok ())

/-- What follows a change to an account: its sessions end where the change asks for it, its keys are
published, and it is read back. -/
def settleAccount (endsSessions : Bool) : Task (Except ServiceError Unit) := do
  match ← endSessions env id endsSessions with
  | .error _ => pure (.error (.internal "end account sessions"))
  | .ok () => do
    match ← republishUserKeys id with
    | .error e => pure (.error e)
    | .ok () => tenantUserView id

def setTenantUserStatus (status : Status) : Task (Except ServiceError Unit) :=
  if status ≠ .active ∧ status ≠ .disabled then
    pure (.error (.invalidArgument "status: must be active or disabled"))
  else do
    match ← setAccountStatus (env.io 0) id status with
    | .error e => pure (.error (mapAccountWriteError "set account status" e))
    | .ok () => settleAccount env id (status = .disabled)

def setTenantUserRole (role : Role) : Task (Except ServiceError Unit) := do
  match ← setAccountRole (env.io 0) id role with
  | .error e => pure (.error (mapAccountWriteError "set account role" e))
  | .ok () => settleAccount env id false

def dropKeys : List AccessKey → Task Unit
  | [] => pure ()
  | row :: rows => do
    Task.publish (.keyDropped row.id) fun s => s.delete row.id
    dropKeys rows

/-- `DeleteTenantUser`. -/
def deleteTenantUser : Task (Except ServiceError Unit) :=
  Prog.locked .userWrite do
    let some user ← getUser id
      | pure (.error (.notFound "user not found"))
    match ← refuseIfLastAdmin user with
    | .error e => pure (.error (mapAccountWriteError "delete account" e))
    | .ok () => do
      let rows ← Task.query (.keysListed id) fun db => db.accessKeysOf id
      dropKeys rows
      let answer ← Task.write (fun _ r => .accountDeleted id r.1.isOk) (deleteUser (env.io 0) id)
      pure (answer.mapError mapUserLookupError)

/-- The answer to a patch that was judged before anything was written. -/
def noFieldsChanged : ServiceError → ServiceError
  | .forbidden msg => .forbidden ("no fields were changed: " ++ msg)
  | e => e

/-- The patch judged as a whole. -/
def validateTenantUserPatch (user : User) (patch : TenantUserPatch) :
    Task (Except ServiceError Unit) :=
  let status := patch.status.getD user.status
  let role := patch.role.getD user.role
  if patch.status.isSome ∧ status ≠ .active ∧ status ≠ .disabled then
    pure (.error (.invalidArgument "no fields were changed: status: must be active or disabled"))
  else if patch.role.isSome ∧ role ≠ .admin ∧ role ≠ .user then
    pure (.error (.invalidArgument "no fields were changed: role: must be admin or user"))
  else if (patch.password.map checkPasswordPolicy).any (fun r => !r.isOk) then
    pure (.error (.invalidArgument
      "no fields were changed: service: the password must be at least 12 characters"))
  else if user.isActiveAdmin && (status ≠ .active || role ≠ .admin) then do
    let answer ← refuseIfLastAdmin user
    pure (answer.mapError fun e => noFieldsChanged (mapAccountWriteError "validate account patch" e))
  else pure (.ok ())

def forField {α ε : Type} (field : Option α) (f : α → Task (Except ε Unit)) :
    Task (Except ε Unit) :=
  match field with
  | none => pure (.ok ())
  | some a => f a

variable (patch : TenantUserPatch)

def applyTenantUserPatch (hash : String) : Task (Except ServiceError Unit) := do
  match ← forField patch.status (setAccountStatusLocked (env.io 0) id) with
  | .error e => pure (.error (mapAccountWriteError "set account status" e))
  | .ok () => do
    match ← forField patch.role (setAccountRoleLocked (env.io 1) id) with
    | .error e => pure (.error (mapAccountWriteError "set account role" e))
    | .ok () => do
      let answer ← forField patch.password fun _ =>
        writeAccount id (updateUserPassword (env.io 2) id hash)
      pure (answer.mapError (mapAccountWriteError "set account password"))

def patchHash : Except ServiceError String :=
  match patch.password, env.hash with
  | none, _ => .ok ""
  | some _, some hash => .ok hash
  | some _, none => .error (mapAccountWriteError "hash account password" .hash)

/-- `UpdateTenantUser`. -/
def updateTenantUser : Task (Except ServiceError Unit) :=
  if patch = {} then
    pure (.error (.invalidArgument "at least one of status, role or password is required"))
  else Prog.locked .userWrite do
    let some user ← getUser id
      | pure (.error (.notFound "user not found"))
    match ← validateTenantUserPatch user patch with
    | .error e => pure (.error e)
    | .ok () =>
      match patchHash env patch with
      | .error e => pure (.error e)
      | .ok hash => do
        match ← applyTenantUserPatch env id patch hash with
        | .error e => pure (.error e)
        | .ok () =>
          settleAccount env id (patch.status = some .disabled || patch.password.isSome)

end Console

/-- A step that leaves the accounts alone. -/
def Settling (s : Server) (e : ServerEvent) (s' : Server) : Prop :=
  s'.db.users = s.db.users ∧ ∀ id before after, e ≠ .accountWritten id before after

theorem Publishing.settling {s s' : Server} {e : ServerEvent} (h : Publishing s e s') :
    Settling s e s' := by
  refine ⟨by rw [h.1], ?_⟩
  rintro id before after rfl
  cases h.2.2

namespace Console

theorem steps_tenantUserView (id : String) :
    (tenantUserView id).Steps Publishing fun _ => True := by
  unfold tenantUserView
  refine steps_query rfl fun db => ?_
  cases db.user id with
  | none | some => trivial

theorem steps_revokeSessions (io : Faults) (id : String) :
    (revokeSessions io id).Steps Settling fun _ => True := by
  intro s
  refine ⟨⟨?_, by simp⟩, trivial⟩
  rcases deleteSessionsByUser_cases io id s.db with ⟨e, h⟩ | ⟨n, h⟩
  · simp only [h]
  · simp only [h, Db.deleteSessionsByUser]

theorem steps_endSessions (env : AccountEnv) (id : String) (ends : Bool) :
    (endSessions env id ends).Steps Settling fun _ => True := by
  unfold endSessions
  split
  · exact steps_revokeSessions _ id
  · trivial

theorem steps_settleAccount (env : AccountEnv) (id : String) (ends : Bool) :
    (settleAccount env id ends).Steps Settling fun _ => True := by
  refine (steps_endSessions env id ends).bind fun a _ => ?_
  cases a with
  | error e => trivial
  | ok _ =>
    refine ((steps_republishUserKeys id).mono (fun _ _ _ h => h.settling) fun _ h => h).bind
      fun a _ => ?_
    cases a with
    | error e => trivial
    | ok _ => exact (steps_tenantUserView id).mono (fun _ _ _ h => h.settling) fun _ h => h

theorem steps_dropKeys (rows : List AccessKey) :
    (dropKeys rows).Steps Publishing fun _ => True := by
  induction rows with
  | nil => trivial
  | cons row rows ih => exact steps_publish rfl ih

end Console
end Prism
