import Prism.Auth.Login

/-!
# What a step does to the sessions

A session is inserted by a login, extended and dropped by `Authenticate`, and ended with all the
others of its account by whoever changes the account.  `SessionStep` says once what any step of the
console may do to the table, going by the event it leaves, and every operation that has to do with
an account is made of such steps.
-/

namespace Prism

/-- The step says that a session was inserted, or that the sessions of an account were deleted. -/
def ServerEvent.aboutSessions : ServerEvent → Bool
  | .sessionInserted _ _ | .sessionsRevoked _ _ => true
  | _ => false

/-- **What a step may do to the sessions**: those that are there afterwards were there before, up to
their expiry, except for one that the step says it inserted; and it does what it says. -/
structure SessionStep (db : Db) (e : ServerEvent) (db' : Db) : Prop where
  kept : ∀ r' ∈ db'.sessions, (∃ r ∈ db.sessions, r.idHash = r'.idHash ∧ r.userID = r'.userID) ∨
    e = .sessionInserted r' true
  fresh : ∀ s, e = .sessionInserted s true → ∀ r ∈ db.sessions, r.idHash ≠ s.idHash
  revoked : ∀ userID, e = .sessionsRevoked userID true → ∀ r' ∈ db'.sessions, r'.userID ≠ userID

namespace SessionStep

variable {db db' : Db} {e : ServerEvent}

theorem of_kept (he : e.aboutSessions = false)
    (hkept : ∀ r' ∈ db'.sessions, ∃ r ∈ db.sessions, r.idHash = r'.idHash ∧ r.userID = r'.userID) :
    SessionStep db e db' := by
  refine ⟨fun r' hr' => .inl (hkept r' hr'), ?_, ?_⟩
  · rintro s rfl
    cases he
  · rintro userID rfl
    cases he

theorem of_same (he : e.aboutSessions = false) (hdb : db'.sessions = db.sessions) :
    SessionStep db e db' :=
  of_kept he fun r' hr' => ⟨r', hdb ▸ hr', rfl, rfl⟩

variable (io : Faults)

theorem insert (s : Session) (db : Db) :
    SessionStep db (.sessionInserted s (insertSession io s db).1.isOk) (insertSession io s db).2 := by
  rcases insertSession_cases io s db with ⟨e, h⟩ | ⟨hfresh, h⟩
  · rw [h]
    exact ⟨fun r' hr' => Or.inl ⟨r', hr', rfl, rfl⟩, fun _ h => absurd h (by simp [Except.isOk,
      Except.toBool]), fun _ h => nomatch h⟩
  · rw [h]
    refine ⟨fun r' hr' => ?_, fun t ht => ?_, fun _ h => nomatch h⟩
    · rcases List.mem_append.mp hr' with hr' | hr'
      · exact .inl ⟨r', hr', rfl, rfl⟩
      · rw [List.mem_singleton.mp hr']
        exact .inr rfl
    · rw [← (ServerEvent.sessionInserted.inj ht).1]
      exact hfresh

theorem revoke (userID : String) (db : Db) :
    SessionStep db (.sessionsRevoked userID (deleteSessionsByUser io userID db).1.isOk)
      (deleteSessionsByUser io userID db).2 := by
  rcases deleteSessionsByUser_cases io userID db with ⟨e, h⟩ | ⟨n, h⟩
  · rw [h]
    exact ⟨fun r' hr' => .inl ⟨r', hr', rfl, rfl⟩, fun _ h => absurd h (by simp),
      fun _ h => nomatch h⟩
  · rw [h]
    refine ⟨fun r' hr' => .inl ⟨r', (List.mem_filter.mp hr').1, rfl, rfl⟩,
      fun _ h => absurd h (by simp), fun u hu r' hr' => ?_⟩
    rw [← (ServerEvent.sessionsRevoked.inj hu).1]
    exact of_decide_eq_true (List.mem_filter.mp hr').2

theorem delete (idHash : String) (db : Db) :
    SessionStep db (.sessionDeleted idHash) (deleteSession io idHash db).2 := by
  rcases deleteSession_snd_cases io idHash db with h | h
  · exact of_same rfl (by rw [h])
  · exact of_kept rfl fun r' hr' => ⟨r', by rw [h] at hr'; exact (List.mem_filter.mp hr').1, rfl, rfl⟩

theorem touch (idHash : String) (expiresAtNs : ℤ) (db : Db) :
    SessionStep db (.sessionTouched idHash) (touchSession io idHash expiresAtNs db).2 := by
  rcases touchSession_snd_cases io idHash expiresAtNs db with h | h
  · exact of_same rfl (by rw [h])
  refine of_kept rfl fun r' hr' => ?_
  rw [h] at hr'
  obtain ⟨r, hr, rfl⟩ := Table.mem_updateWhere.mp hr'
  refine ⟨r, hr, ?_⟩
  split <;> exact ⟨rfl, rfl⟩

theorem column (he : e.aboutSessions = false) (io : Faults) (id : String) (admitted : Bool)
    (write : User → User) (db : Db) :
    SessionStep db e (updateUserColumn io id admitted write db).2 := by
  rcases updateUserColumn_cases io id admitted write db with ⟨_, h⟩ | ⟨-, h⟩ | h <;>
    exact of_same he (by rw [h])

end SessionStep

def Sessional (s : Server) (e : ServerEvent) (s' : Server) : Prop := SessionStep s.db e s'.db

def PortalSessional (p : Portal) (e : ServerEvent) (p' : Portal) : Prop := SessionStep p.db e p'.db

theorem Publishing.sessional {s s' : Server} {e : ServerEvent} (h : Publishing s e s') :
    Sessional s e s' := by
  refine SessionStep.of_same ?_ (by rw [h.1])
  have he := h.2.2
  cases e <;> first | rfl | exact nomatch he

theorem Beside.sessional {p p' : Portal} {e : ServerEvent} (h : Beside p e p') :
    PortalSessional p e p' := by
  refine SessionStep.of_same ?_ (by rw [h.1])
  have he := h.2
  cases e <;> first | rfl | exact nomatch he

theorem Prog.Steps.sessional {α : Type} {A : α → Prop} {t : PortalTask α} (h : t.Steps Beside A) :
    t.Acts PortalSessional :=
  h.acts.mono fun _ _ _ hstep => hstep.sessional

theorem Prog.Acts.inPortal {α : Type} {t : Task α} (h : t.Acts Sessional) :
    t.inPortal.Acts PortalSessional :=
  h.zoom fun _ _ _ hstep => hstep

/-! ## The operations are made of such steps -/

section Acts

variable {α β : Type}

theorem acts_query {event : ServerEvent} (he : event.aboutSessions = false) (f : Db → α) :
    (Task.query event f).Acts Sessional :=
  fun _ => ⟨SessionStep.of_same he rfl, trivial⟩

theorem acts_write {event : Db → α × Db → ServerEvent} {f : Db → α × Db}
    (h : ∀ db, SessionStep db (event db (f db)) (f db).2) : (Task.write event f).Acts Sessional :=
  fun s => ⟨h s.db, trivial⟩

namespace Console

theorem acts_getUser (userID : String) : (getUser userID).Acts Sessional := acts_query rfl _

theorem acts_revokeSessions (io : Faults) (id : String) : (revokeSessions io id).Acts Sessional := by
  refine Prog.Acts.bind (acts_write ?_) fun _ => trivial
  exact fun db => SessionStep.revoke io id db

theorem acts_refuseIfLastAdmin (user : User) : (refuseIfLastAdmin user).Acts Sessional := by
  unfold refuseIfLastAdmin
  split
  · trivial
  · refine (acts_query rfl _).bind fun users => ?_
    split <;> trivial

theorem acts_writeAccount (io : Faults) (id : String) (admitted : Bool) (write : User → User) :
    (writeAccount id (updateUserColumn io id admitted write)).Acts Sessional := by
  refine Prog.Acts.bind (acts_write ?_) fun _ => trivial
  exact fun db => SessionStep.column rfl io id admitted write db

theorem acts_setAccountLocked (id : String) (same guarded : User → Bool) (io : Faults)
    (admitted : Bool) (write : User → User) :
    (setAccountLocked id same guarded (updateUserColumn io id admitted write)).Acts Sessional := by
  refine (acts_getUser id).bind fun found => ?_
  cases found with
  | none => trivial
  | some user =>
    dsimp only
    split
    · trivial
    split
    · refine (acts_refuseIfLastAdmin user).bind fun a => ?_
      cases a with
      | error e => trivial
      | ok _ => exact acts_writeAccount io id admitted write
    · exact acts_writeAccount io id admitted write

theorem acts_forField {ε : Type} {field : Option α} {f : α → Task (Except ε Unit)}
    (hf : ∀ a, (f a).Acts Sessional) : (forField field f).Acts Sessional := by
  cases field with
  | none => trivial
  | some a => exact hf a

theorem acts_validateTenantUserPatch (user : User) (patch : TenantUserPatch) :
    (validateTenantUserPatch user patch).Acts Sessional := by
  unfold validateTenantUserPatch
  dsimp only
  split
  · trivial
  split
  · trivial
  split
  · trivial
  split
  · exact (acts_refuseIfLastAdmin user).bind fun _ => trivial
  · trivial

variable (env : AccountEnv)

theorem acts_applyTenantUserPatch (id : String) (patch : TenantUserPatch) (hash : String) :
    (applyTenantUserPatch env id patch hash).Acts Sessional := by
  refine (acts_forField fun _ => acts_setAccountLocked id _ _ _ _ _).bind fun a => ?_
  cases a with
  | error e => trivial
  | ok _ =>
    refine (acts_forField fun _ => acts_setAccountLocked id _ _ _ _ _).bind fun a => ?_
    cases a with
    | error e => trivial
    | ok _ => exact (acts_forField fun _ => acts_writeAccount _ id _ _).bind fun _ => trivial

theorem acts_settleAccount (id : String) (ends : Bool) :
    (settleAccount env id ends).Acts Sessional := by
  have hends : (endSessions env id ends).Acts Sessional := by
    unfold endSessions
    split
    · exact acts_revokeSessions _ id
    · trivial
  refine hends.bind fun a => ?_
  cases a with
  | error e => trivial
  | ok _ =>
    refine ((steps_republishUserKeys id).acts.mono fun _ _ _ h => h.sessional).bind fun a => ?_
    cases a with
    | error e => trivial
    | ok _ => exact (steps_tenantUserView id).acts.mono fun _ _ _ h => h.sessional

theorem acts_updateTenantUser (id : String) (patch : TenantUserPatch) :
    (updateTenantUser env id patch).Acts Sessional := by
  unfold updateTenantUser
  split
  · trivial
  refine Prog.Acts.locked ?_ _
  refine (acts_getUser id).bind fun found => ?_
  cases found with
  | none => trivial
  | some user =>
    refine (acts_validateTenantUserPatch user patch).bind fun a => ?_
    cases a with
    | error e => trivial
    | ok _ =>
      cases patchHash env patch with
      | error e => trivial
      | ok hash =>
        refine (acts_applyTenantUserPatch env id patch hash).bind fun a => ?_
        cases a with
        | error e => trivial
        | ok _ => exact acts_settleAccount env id _

theorem acts_changeAccountPassword (c : Crypto) (env : AccountEnv) (userID current new : String) :
    (changeAccountPassword c env userID current new).Acts Sessional := by
  unfold changeAccountPassword
  cases checkPasswordPolicy new with
  | error e => trivial
  | ok _ =>
    dsimp only
    split
    · trivial
    refine Prog.Acts.locked ?_ _
    refine (acts_getUser userID).bind fun found => ?_
    cases found with
    | none => trivial
    | some user =>
      dsimp only
      split
      · trivial
      · cases env.hash with
        | none => trivial
        | some hash => exact (acts_writeAccount _ user.id _ _).bind fun _ => trivial

theorem acts_handleChangePassword (c : Crypto) (env : AccountEnv) (userID current new : String) :
    (handleChangePassword c env userID current new).Acts Sessional := by
  unfold handleChangePassword
  split
  · trivial
  refine (acts_changeAccountPassword c env userID current new).bind fun a => ?_
  cases a with
  | error e => trivial
  | ok _ => exact (acts_revokeSessions _ userID).bind fun _ => trivial

end Console

namespace Auth

theorem sessionStep_advance (io : Faults) (userID secret : String) (stepNs : ℤ) (db : Db) :
    SessionStep db (.stepSpent userID secret stepNs
      ((advanceTOTPLastUsed io userID stepNs db).1 = .ok true))
      (advanceTOTPLastUsed io userID stepNs db).2 := by
  rcases advanceTOTPLastUsed_cases io userID stepNs db with ⟨-, h⟩ | ⟨-, h⟩
  · exact SessionStep.of_same rfl (by rw [h])
  · exact SessionStep.of_same rfl (by rw [h]; rfl)

theorem acts_spendStep (env : LoginEnv) (userID secret : String) (stepNs : ℤ) :
    (spendStep env userID secret stepNs).Acts PortalSessional := by
  refine Prog.Acts.bind (acts_write ?_).inPortal fun a => ?_
  · exact fun db => sessionStep_advance (env.io 0) userID secret stepNs db
  cases a with
  | error e => trivial
  | ok spent =>
    cases spent with
    | true | false => trivial

variable (c : Crypto)

theorem acts_verifySecondFactor (env : LoginEnv) (user : User) (code : String) :
    (verifySecondFactor c env user code).Acts PortalSessional := by
  unfold verifySecondFactor
  split
  · trivial
  cases c.pepper with
  | none => trivial
  | some pepper =>
    dsimp only
    cases pepper.decrypt user.totpSecretEnc with
    | none => trivial
    | some secret =>
      dsimp only
      split
      · trivial
      refine steps_now.sessional.bind fun nowNs => ?_
      cases verifyTOTPStep c secret code nowNs with
      | none => trivial
      | some stepNs => exact acts_spendStep env user.id secret stepNs

theorem acts_openSession (env : LoginEnv) (req : LoginRequest) (user : User) :
    (openSession c env req user).Acts PortalSessional := by
  refine (steps_openSession c env req user (fun _ _ _ h => h.sessional) ?_ ?_).acts
  · exact fun io session p => SessionStep.insert io session p.db
  · exact fun io nowNs p => SessionStep.column rfl _ _ _ _ p.db

theorem acts_login (env : LoginEnv) (req : LoginRequest) :
    (login c env req).Acts PortalSessional := by
  refine (steps_clientBlocked req.clientKey).sessional.bind fun blocked => ?_
  cases blocked with
  | true => trivial
  | false =>
    refine (acts_query rfl _).inPortal.bind fun found => ?_
    cases found with
    | none => exact (steps_recordFailure req.clientKey).sessional.bind fun _ => trivial
    | some user =>
      refine (steps_checkBlocked _).sessional.bind fun blocked => ?_
      cases blocked with
      | true => trivial
      | false =>
        refine (steps_verifyPassword c user req.password).sessional.bind fun right => ?_
        cases right with
        | false => exact (steps_refuse req.clientKey user.id _).sessional
        | true =>
          dsimp only
          split
          · trivial
          refine (acts_verifySecondFactor c env user req.totpCode).bind fun a => ?_
          cases a with
          | error e => exact (steps_refuse req.clientKey user.id e).sessional
          | ok _ => exact acts_openSession c env req user

theorem steps_resolveSession (io : Faults) (session : Session) (nowNs : ℤ) :
    (resolveSession io session nowNs).Steps Sessional fun a => ∀ user s, a = some (user, s) →
      s.idHash = session.idHash ∧ s.userID = session.userID ∧ user.id = session.userID := by
  unfold resolveSession
  split
  · exact fun s => ⟨SessionStep.delete io session.idHash s.db, fun _ _ h => nomatch h⟩
  refine fun s => ⟨SessionStep.of_same rfl rfl, ?_⟩
  dsimp only [Prog.ret_bind]
  cases hread : s.db.user session.userID with
  | none => exact fun _ _ h => nomatch h
  | some user =>
    have hid : user.id = session.userID := Table.key_of_lookup hread
    dsimp only
    split
    · exact fun s' => ⟨SessionStep.revoke io user.id s'.db, fun _ _ h => nomatch h⟩
    unfold refreshSession
    split
    · refine fun s' => ⟨SessionStep.touch io session.idHash _ s'.db, ?_⟩
      dsimp only [Prog.ret_bind]
      cases (touchSession io session.idHash (sessionExpiry nowNs) s'.db).1 with
      | error | ok _ =>
        intro _ _ h
        cases h
        exact ⟨rfl, rfl, hid⟩
    · intro _ _ h
      cases h
      exact ⟨rfl, rfl, hid⟩

end Auth

end Acts

end Prism
