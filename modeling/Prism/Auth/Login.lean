import Prism.Auth.Limiter
import Prism.Auth.Totp
import Prism.Console.Account

/-!
# Logging in, step by step

`internal/auth/service.go`, and the account operations that change what a login is checked against:
`ChangeAccountPassword` with `HandleChangePassword`, `ConfirmTOTPEnrolment` and `DisableTOTP`.

A login reads the account once and goes by that copy to its end, the session included.  It takes no
mutex.  The writers hold `userWriteMu`, but what follows a write (ending the sessions, clearing the
ledger of spent steps) is another statement, and a handler ends the sessions after the mutex is
given back.
-/

namespace Prism

/-- The server, with the failure limiter and the clock beside it. -/
structure Portal extends Server where
  failures : AuthFailureLimiter := {}
  clockNs : ℤ := 0

/-- A program of the portal. -/
abbrev PortalTask := Prog Portal ServerEvent Mutex

/-- What has happened there. -/
abbrev PortalHistory := Hist Portal ServerEvent Mutex

/-- A request that needs neither the limiter nor the clock. -/
def Task.inPortal {α : Type} (t : Task α) : PortalTask α :=
  t.zoom Portal.toServer fun s p => { p with toServer := s }

namespace Task

variable {α β : Type}

theorem inPortal_bind (p : Task α) (f : α → Task β) :
    Task.inPortal (p.bind f) = p.inPortal.bind fun a => (f a).inPortal :=
  Prog.zoom_bind _ _ p f

theorem inPortal_locked (l : Mutex) (p : Task α) :
    Task.inPortal (Prog.locked l p) = Prog.locked l p.inPortal :=
  Prog.zoom_locked _ _ l p

variable {D : Discipline Portal ServerEvent Mutex} {i : ℕ} {Q : β → PortalHistory → Prop}
  {h : PortalHistory}

theorem safe_query_inPortal {event : ServerEvent} {f : Db → α} {g : α → PortalTask β}
    (hs : ∀ k, D.rely i h k → D.inv k → D.may k i event →
      D.Keeps i k (k.did i event k.state) ∧ D.Safe i Q (g (f k.state.db)) (k.did i event k.state)) :
    D.Safe i Q ((query event f).inPortal.bind g) h :=
  hs

theorem safe_write_inPortal {event : Db → α × Db → ServerEvent} {f : Db → α × Db}
    {g : α → PortalTask β}
    (hs : ∀ k, D.rely i h k → D.inv k → ∀ a db, f k.state.db = (a, db) →
      D.may k i (event k.state.db (a, db)) →
      D.Keeps i k (k.did i (event k.state.db (a, db)) { k.state with db := db }) ∧
        D.Safe i Q (g a) (k.did i (event k.state.db (a, db)) { k.state with db := db })) :
    D.Safe i Q ((write event f).inPortal.bind g) h :=
  fun k hr hi hm => hs k hr hi _ _ rfl hm

end Task

/-- Why a login is refused. -/
inductive LoginError where
  | tooManyAttempts
  | invalidCredentials
  | totpRequired
  | totpInvalid
  | totpAlreadyUsed
  /-- there is a second factor and nothing to open it with -/
  | noPepper
  | openFactor
  | spendFactor
  | generate
  /-- a session needs an id and a user -/
  | sessionRecord
  | storeSession
  deriving DecidableEq

/-- What a login answers with. -/
structure LoginResult where
  sessionID : String
  csrfToken : String
  user : User
  expiresAtNs : ℤ
  deriving DecidableEq

/-- What is typed, and where it comes from. -/
structure LoginRequest where
  username : String
  password : String
  totpCode : String := ""
  /-- the address the blocklist counts against; it may be empty -/
  clientKey : String := ""
  ip : String := ""
  userAgent : String := ""

/-- The random texts of a login, and its faults. -/
structure LoginEnv where
  sessionID : Option String
  csrfToken : Option String := some ""
  io : ℕ → Faults := fun _ => noFaults

/-- Why a password is not changed. -/
inductive PasswordError where
  /-- the current and the new password are both required -/
  | required
  | unchanged
  | currentWrong
  | account (e : AccountError)
  deriving DecidableEq

/-- Why a second factor is not replaced. -/
inductive TotpError where
  | noPepper
  | accountNotFound
  | alreadyEnrolled
  | notEnrolled
  | codeInvalid
  | encrypt
  | repo (e : RepoError)
  deriving DecidableEq

/-- `SessionTTL`, twelve hours. -/
def sessionTTL : ℤ := 43200000000000

/-- Half the lifetime of a session. -/
def sessionRefreshAfter : ℤ := sessionTTL / 2

/-- When a session of now is over. -/
def sessionExpiry (nowNs : ℤ) : ℤ := nowNs + sessionTTL

/-- `sessionNeedsRefresh`: alive, and past half its lifetime. -/
def sessionNeedsRefresh (expiresAtNs nowNs : ℤ) : Bool :=
  if expiresAtNs ≤ nowNs then false
  else expiresAtNs - (sessionTTL - sessionRefreshAfter) ≤ nowNs

/-- The room for a user agent. -/
def maxUserAgentBytes : ℕ := 256

/-- The longest prefix that fits, cut between characters. -/
def fitBytes (room : ℕ) : List Char → List Char
  | [] => []
  | ch :: rest => if ch.utf8Size ≤ room then ch :: fitBytes (room - ch.utf8Size) rest else []

/-- Cut a user agent to its room, between characters. -/
def truncateUserAgent (ua : String) : String :=
  if ua.utf8ByteSize ≤ maxUserAgentBytes then ua
  else String.ofList (fitBytes maxUserAgentBytes ua.toList)

variable (c : Crypto)

/-- `newSession`: only the hash of the id is stored. -/
def newSession (id userID ip ua : String) (nowNs : ℤ) : Option Session :=
  if id = "" ∨ userID = "" then none
  else some
    { idHash := c.hashSessionID id, userID := userID, createdAtNs := nowNs,
      expiresAtNs := sessionExpiry nowNs, ip := ip, ua := truncateUserAgent ua }

namespace Auth

/-- Read the clock. -/
def now : PortalTask ℤ :=
  Prog.read .clockRead Portal.clockNs

/-- Time passes. -/
def tick (ns : ℕ) : PortalTask Unit :=
  Prog.modify .clockMoved fun p => { p with clockNs := p.clockNs + ns }

/-- Ask the limiter about a key. -/
def checkBlocked (key : String) : PortalTask Bool :=
  Prog.step (fun p => .keyChecked key (p.failures.blocked key p.clockNs).1.isSome) fun p =>
    ((p.failures.blocked key p.clockNs).1.isSome,
      { p with failures := (p.failures.blocked key p.clockNs).2 })

/-- The blocklist is not asked about an empty address. -/
def clientBlocked (clientKey : String) : PortalTask Bool :=
  if clientKey = "" then pure false else checkBlocked clientKey

/-- Count a failure against a key. -/
def recordFailure (key : String) : PortalTask Unit :=
  if key = "" then pure ()
  else Prog.modify (.failureRecorded key) fun p =>
    { p with failures := p.failures.recordFailure key p.clockNs }

/-- The key an account is counted under. -/
def accountFailureKey (userID : String) : String := "user:" ++ userID

/-- Count a failure against an account. -/
def recordAccountFailure (userID : String) : PortalTask Unit :=
  if userID = "" then pure () else recordFailure (accountFailureKey userID)

/-- Forget the failures of an account. -/
def clearAccountFailures (userID : String) : PortalTask Unit :=
  if userID = "" then pure ()
  else Prog.modify (.failuresCleared (accountFailureKey userID)) fun p =>
    { p with failures := p.failures.reset (accountFailureKey userID) }

/-- Compare the password with the hash in the copy. -/
def verifyPassword (c : Crypto) (user : User) (password : String) : PortalTask Bool :=
  Prog.act (fun p => .passwordVerified user.id (c.verifyPassword user.passwordHash password) p.clockNs)
    id fun _ => .ret (c.verifyPassword user.passwordHash password)

variable (env : LoginEnv)

/-- A step of the second factor is spent by a write that accepts only a later one. -/
def spendStep (userID secret : String) (stepNs : ℤ) : PortalTask (Except LoginError Unit) := do
  match ← (Task.write (fun _ r => .stepSpent userID secret stepNs (r.1 = .ok true))
      (advanceTOTPLastUsed (env.io 0) userID stepNs)).inPortal with
  | .error _ => pure (.error .spendFactor)
  | .ok false => pure (.error .totpAlreadyUsed)
  | .ok true => pure (.ok ())

/-- `verifySecondFactor`: the secret is opened from the copy. -/
def verifySecondFactor (user : User) (code : String) : PortalTask (Except LoginError Unit) :=
  if user.totpSecretEnc = [] then pure (.ok ())
  else
    match c.pepper with
    | none => pure (.error .noPepper)
    | some pepper =>
      match pepper.decrypt user.totpSecretEnc with
      | none => pure (.error .openFactor)
      | some secret =>
        if code = "" then pure (.error .totpRequired)
        else do
          let nowNs ← now
          match verifyTOTPStep c secret code nowNs with
          | none => pure (.error .totpInvalid)
          | some stepNs => spendStep env user.id secret stepNs

variable (req : LoginRequest)

/-- Insert the session, mark the login and forget the failures counted against the account. -/
def openSession (user : User) : PortalTask (Except LoginError LoginResult) := do
  let nowNs ← now
  match env.sessionID, env.csrfToken with
  | none, _ => pure (.error .generate)
  | some _, none => pure (.error .generate)
  | some sessionID, some csrfToken =>
    match newSession c sessionID user.id req.ip req.userAgent nowNs with
    | none => pure (.error .sessionRecord)
    | some session => do
      match ← (Task.write (fun _ r => .sessionInserted session r.1.isOk)
          (insertSession (env.io 1) session)).inPortal with
      | .error _ => pure (.error .storeSession)
      | .ok () => do
        -- a login time that cannot be written does not fail the login
        let _ ← (Task.write (fun _ _ => .loginMarked user.id)
          (markUserLogin (env.io 2) user.id nowNs)).inPortal
        clearAccountFailures user.id
        pure (.ok ⟨sessionID, csrfToken, user, session.expiresAtNs⟩)

/-- A failure that counts against the address, and against the account unless it is the first step
of a login in two. -/
def refuse {α : Type} (clientKey userID : String) (e : LoginError) :
    PortalTask (Except LoginError α) := do
  recordFailure clientKey
  if e = .totpRequired then pure (.error e)
  else do
    recordAccountFailure userID
    pure (.error e)

/-- `Login`, from the account on. -/
def loginTo (user : User) : PortalTask (Except LoginError LoginResult) := do
  match ← checkBlocked (accountFailureKey user.id) with
  | true => pure (.error .tooManyAttempts)
  | false => do
    match ← verifyPassword c user req.password with
    | false => refuse req.clientKey user.id .invalidCredentials
    | true =>
      if user.status ≠ .active then pure (.error .invalidCredentials)
      else do
        match ← verifySecondFactor c env user req.totpCode with
        | .error e => refuse req.clientKey user.id e
        | .ok () => openSession c env req user

/-- The one read of the account. -/
def getUserByName (username : String) : PortalTask (Option User) :=
  (Task.query (.accountNamed username) fun db => db.userNamed username).inPortal

/-- `Login`. -/
def login : PortalTask (Except LoginError LoginResult) := do
  match ← clientBlocked req.clientKey with
  | true => pure (.error .tooManyAttempts)
  | false => do
    match ← getUserByName req.username with
    | none => do
      recordFailure req.clientKey
      pure (.error .invalidCredentials)
    | some user => loginTo c env req user

/-- A session past half its lifetime is prolonged, if the write succeeds. -/
def refreshSession (io : Faults) (user : User) (session : Session) (nowNs : ℤ) :
    Task (Option (User × Session)) :=
  if sessionNeedsRefresh session.expiresAtNs nowNs then do
    match ← Task.write (fun _ _ => .sessionTouched session.idHash)
        (touchSession io session.idHash (sessionExpiry nowNs)) with
    | .error _ => pure (some (user, session))
    | .ok () => pure (some (user, { session with expiresAtNs := sessionExpiry nowNs }))
  else pure (some (user, session))

/-- A session that is over, or whose account is, is deleted. -/
def resolveSession (io : Faults) (session : Session) (nowNs : ℤ) : Task (Option (User × Session)) :=
  if session.expiresAtNs ≤ nowNs then do
    let _ ← Task.write (fun _ _ => .sessionDeleted session.idHash) (deleteSession io session.idHash)
    pure none
  else do
    match ← Console.getUser session.userID with
    | none => pure none
    | some user =>
      if user.status ≠ .active then do
        let _ ← Console.revokeSessions io user.id
        pure none
      else refreshSession io user session nowNs

/-- `Authenticate`. -/
def authenticate (io : Faults) (sessionID : String) : PortalTask (Option (User × Session)) :=
  if sessionID = "" then pure none
  else do
    let nowNs ← now
    match ← (Task.query (.sessionRead (c.hashSessionID sessionID)) fun db =>
        db.session (c.hashSessionID sessionID)).inPortal with
    | none => pure none
    | some session => (resolveSession io session nowNs).inPortal

end Auth

namespace Console

/-- `ChangeAccountPassword`, without the end of the sessions. -/
def changeAccountPassword (env : AccountEnv) (userID current new : String) :
    Task (Except PasswordError Unit) :=
  match checkPasswordPolicy new with
  | .error e => pure (.error (.account e))
  | .ok () =>
    if current = new then pure (.error .unchanged)
    else Prog.locked .userWrite do
      match ← getUser userID with
      | none => pure (.error (.account .accountNotFound))
      | some user =>
        if !c.verifyPassword user.passwordHash current then pure (.error .currentWrong)
        else
          match env.hash with
          | none => pure (.error (.account .hash))
          | some hash => do
            let answer ← writeAccount user.id (updateUserPassword (env.io 0) user.id hash)
            pure (answer.mapError .account)

/-- Change the password and end every session.  That the sessions could not be ended is logged and
nothing else. -/
def handleChangePassword (env : AccountEnv) (userID current new : String) :
    Task (Except PasswordError Unit) :=
  if current = "" ∨ new = "" then pure (.error .required)
  else do
    match ← changeAccountPassword c env userID current new with
    | .error e => pure (.error e)
    | .ok () => do
      let _ ← revokeSessions (fun _ => env.sessionsFail) userID
      pure (.ok ())

/-- Write the sealed secret, and then clear the ledger of spent steps. -/
def replaceFactor (io : ℕ → Faults) (id : String) (sealed : List UInt8) :
    Task (Except TotpError Unit) := do
  match ← Task.write (fun _ r => .totpSecretWritten id sealed (r.1 = .ok ()))
      (updateUserTOTPSecret (io 0) id sealed) with
  | .error e => pure (.error (.repo e))
  | .ok () => do
    let answer ← Task.write (fun _ r => .totpLedgerReset id (r.1 = .ok ()))
      (resetTOTPLastUsed (io 1) id)
    pure (answer.mapError .repo)

/-- Store a secret after proving that a code matches it.  The nonce of the seal comes from outside,
if it comes. -/
def confirmTOTPEnrolment (io : ℕ → Faults) (nonce : Option (List UInt8))
    (id secret code : String) (nowNs : ℤ) : Task (Except TotpError Unit) :=
  match c.pepper with
  | none => pure (.error .noPepper)
  | some pepper => Prog.locked .userWrite do
      match ← getUser id with
      | none => pure (.error .accountNotFound)
      | some user =>
        if user.totpSecretEnc ≠ [] then pure (.error .alreadyEnrolled)
        else if !verifyTOTP c secret code nowNs then pure (.error .codeInvalid)
        else
          match nonce with
          | none => pure (.error .encrypt)
          | some nonce => replaceFactor io id (pepper.encrypt nonce secret)

/-- `DisableTOTP`. -/
def disableTOTP (io : ℕ → Faults) (id : String) : Task (Except TotpError Unit) :=
  Prog.locked .userWrite do
    match ← getUser id with
    | none => pure (.error .accountNotFound)
    | some user =>
      if user.totpSecretEnc = [] then pure (.error .notEnrolled)
      else replaceFactor io id []

end Console

/-! ## Steps beside the tables -/

/-- The limiter was used, the clock read or a password compared. -/
def ServerEvent.aside : ServerEvent → Bool
  | .clockRead | .keyChecked _ _ | .failureRecorded _ | .failuresCleared _ => true
  | .passwordVerified _ _ _ => true
  | _ => false

/-- A step that leaves the tables alone and says nothing about them. -/
def Beside (p : Portal) (e : ServerEvent) (p' : Portal) : Prop := p'.db = p.db ∧ e.aside = true

namespace Auth

theorem steps_now : now.Steps Beside fun _ => True := fun _ => ⟨⟨rfl, rfl⟩, trivial⟩

theorem steps_checkBlocked (key : String) : (checkBlocked key).Steps Beside fun _ => True :=
  fun _ => ⟨⟨rfl, rfl⟩, trivial⟩

theorem steps_clientBlocked (clientKey : String) :
    (clientBlocked clientKey).Steps Beside fun _ => True := by
  unfold clientBlocked
  split
  · trivial
  · exact steps_checkBlocked clientKey

theorem steps_recordFailure (key : String) : (recordFailure key).Steps Beside fun _ => True := by
  unfold recordFailure
  split
  · trivial
  · exact fun _ => ⟨⟨rfl, rfl⟩, trivial⟩

theorem steps_recordAccountFailure (userID : String) :
    (recordAccountFailure userID).Steps Beside fun _ => True := by
  unfold recordAccountFailure
  split
  · trivial
  · exact steps_recordFailure _

theorem steps_clearAccountFailures (userID : String) :
    (clearAccountFailures userID).Steps Beside fun _ => True := by
  unfold clearAccountFailures
  split
  · trivial
  · exact fun _ => ⟨⟨rfl, rfl⟩, trivial⟩

theorem steps_verifyPassword (user : User) (password : String) :
    (verifyPassword c user password).Steps Beside fun _ => True :=
  fun _ => ⟨⟨rfl, rfl⟩, trivial⟩

theorem steps_refuse {α : Type} (clientKey userID : String) (e : LoginError) :
    (refuse clientKey userID e : PortalTask (Except LoginError α)).Steps Beside
      fun a => a = .error e := by
  refine (steps_recordFailure clientKey).bind fun _ _ => ?_
  split
  · rfl
  · exact (steps_recordAccountFailure userID).bind fun _ _ => rfl

/-- Opening a session: steps beside the tables, one insert and one mark.  The answer has the account
that was read. -/
theorem steps_openSession {S : Portal → ServerEvent → Portal → Prop} (env : LoginEnv)
    (req : LoginRequest) (user : User) (haside : ∀ p e p', Beside p e p' → S p e p')
    (hinsert : ∀ io session (p : Portal), S p
      (.sessionInserted session (insertSession io session p.db).1.isOk)
      { p with db := (insertSession io session p.db).2 })
    (hmark : ∀ io nowNs (p : Portal), S p (.loginMarked user.id)
      { p with db := (markUserLogin io user.id nowNs p.db).2 }) :
    (openSession c env req user).Steps S fun a => ∀ r, a = .ok r → r.user = user := by
  refine (steps_now.mono haside fun _ h => h).bind fun nowNs _ => ?_
  cases env.sessionID with
  | none => exact fun _ h => nomatch h
  | some sessionID =>
    cases env.csrfToken with
    | none => exact fun _ h => nomatch h
    | some csrfToken =>
      dsimp only
      cases newSession c sessionID user.id req.ip req.userAgent nowNs with
      | none => exact fun _ h => nomatch h
      | some session =>
        refine fun p => ⟨hinsert (env.io 1) session p, ?_⟩
        dsimp only [Prog.zoom, Prog.ret_bind]
        cases (insertSession (env.io 1) session p.db).1 with
        | error e => exact fun _ h => nomatch h
        | ok _ =>
          refine fun p' => ⟨hmark (env.io 2) nowNs p', ?_⟩
          refine ((steps_clearAccountFailures user.id).mono haside fun _ h => h).bind
            fun _ _ r h => ?_
          rw [← Except.ok.inj h]

end Auth

/-- The account was looked up by name. -/
def ServerEvent.namesAccount : ServerEvent → Bool
  | .accountNamed _ => true
  | _ => false

/-- What has happened since the thread looked its account up; everything, if it never did. -/
def sinceNamed (i : ℕ) (trace : Trace) : Trace :=
  trace.takeWhile fun q => !(q.1 = i && q.2.namesAccount)

section SinceNamed

variable {i j : ℕ} {e : ServerEvent} {trace : Trace}

theorem sinceNamed_cons_of_not (he : e.namesAccount = false) :
    sinceNamed i ((j, e) :: trace) = (j, e) :: sinceNamed i trace := by
  unfold sinceNamed
  rw [List.takeWhile_cons_of_pos (by simp [he])]

theorem sinceNamed_cons_of_ne (h : j ≠ i) :
    sinceNamed i ((j, e) :: trace) = (j, e) :: sinceNamed i trace := by
  unfold sinceNamed
  rw [List.takeWhile_cons_of_pos (by simp [h])]

theorem sinceNamed_cons_self (he : e.namesAccount = true) : sinceNamed i ((i, e) :: trace) = [] := by
  unfold sinceNamed
  rw [List.takeWhile_cons_of_neg (by simp [he])]

/-- What others and the thread itself do adds to it, unless it looks an account up once more. -/
theorem sinceNamed_cons (i j : ℕ) (e : ServerEvent) (trace : Trace) :
    sinceNamed i ((j, e) :: trace) = [] ∨
      sinceNamed i ((j, e) :: trace) = (j, e) :: sinceNamed i trace := by
  by_cases hj : j = i
  · cases he : e.namesAccount with
    | true => exact .inl (hj ▸ sinceNamed_cons_self he)
    | false => exact .inr (sinceNamed_cons_of_not he)
  · exact .inr (sinceNamed_cons_of_ne hj)

end SinceNamed

end Prism
