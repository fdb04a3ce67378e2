import Prism.Auth.Sessions
import Prism.Foundation.Answered

/-!
# A changed password and the sessions of the old one

A password change writes the new hash and then deletes the sessions of the account, in a second
statement.  A login reads the account, works for as long as a password hash takes, and then inserts
its session without another look at the account.

So a session of the old password that was inserted before the deletion is gone; one that is inserted
afterwards, by a login that had read the account before the new hash was written, is never removed,
and is extended for as long as it is used.
-/

namespace Prism

open Prog (bind_eq)

namespace ServerEvent

/-- The event writes the account. -/
def writesAccount (userID : String) : ServerEvent → Bool
  | .accountWritten id _ _ => id = userID
  | _ => false

def insertsSession (idHash : String) : ServerEvent → Bool
  | .sessionInserted s true => s.idHash = idHash
  | _ => false

def revokesSessions (userID : String) : ServerEvent → Bool
  | .sessionsRevoked id true => id = userID
  | _ => false

end ServerEvent

/-- Somebody has written the account, and then ended its sessions. -/
def overtaken (userID : String) : Trace → Bool
  | [] => false
  | (j, e) :: rest =>
    (e.revokesSessions userID && rest.any fun q => q.1 = j && q.2.writesAccount userID) ||
      overtaken userID rest

def inserter (idHash : String) (trace : Trace) : Option ℕ :=
  (trace.find? fun q => q.2.insertsSession idHash).map Prod.fst

/-- What has happened since the login behind a session read the account; everything, if the session
is older than the history. -/
def sessionAge (idHash : String) (trace : Trace) : Trace :=
  match inserter idHash trace with
  | none => trace
  | some i => sinceNamed i trace

/-- **A login that inserts its session has not been overtaken** since it read the account. -/
def InsertsInTime (h : PortalHistory) (i : ℕ) : ServerEvent → Prop
  | .sessionInserted s true => overtaken s.userID (sinceNamed i h.trace) = false
  | _ => True

instance (h : PortalHistory) (i : ℕ) (e : ServerEvent) : Decidable (InsertsInTime h i e) := by
  unfold InsertsInTime
  split <;> infer_instance

section Trace

variable {userID idHash : String} {i j : ℕ} {e : ServerEvent} {trace : Trace}

theorem overtaken_cons_of_not (he : e.revokesSessions userID = false) :
    overtaken userID ((j, e) :: trace) = overtaken userID trace := by
  simp only [overtaken, he, Bool.false_and, Bool.false_or]

theorem inserter_cons_of_not (he : e.insertsSession idHash = false) :
    inserter idHash ((j, e) :: trace) = inserter idHash trace := by
  unfold inserter
  rw [List.find?_cons_of_neg (by simp [he])]

theorem inserter_cons_of_inserts (he : e.insertsSession idHash = true) :
    inserter idHash ((j, e) :: trace) = some j := by
  unfold inserter
  rw [List.find?_cons_of_pos (by simp [he])]
  rfl

theorem overtaken_sessionAge_cons (hrevokes : e.revokesSessions userID = false)
    (hinserts : e.insertsSession idHash = false)
    (hold : overtaken userID (sessionAge idHash trace) = false) :
    overtaken userID (sessionAge idHash ((j, e) :: trace)) = false := by
  unfold sessionAge at hold ⊢
  rw [inserter_cons_of_not hinserts]
  cases hin : inserter idHash trace with
  | none =>
    rw [hin] at hold
    exact (overtaken_cons_of_not hrevokes).trans hold
  | some i =>
    rw [hin] at hold
    show overtaken userID (sinceNamed i ((j, e) :: trace)) = false
    rcases sinceNamed_cons i j e trace with h | h
    · rw [h]
      rfl
    · rw [h, overtaken_cons_of_not hrevokes]
      exact hold

theorem overtaken_of_append {newer older : Trace}
    (he : e.revokesSessions userID = true)
    (hwrote : ∃ q ∈ older, q.1 = j ∧ q.2.writesAccount userID = true) :
    overtaken userID (newer ++ (j, e) :: older) = true := by
  induction newer with
  | nil =>
    obtain ⟨q, hq, hj, hw⟩ := hwrote
    have hany : (older.any fun q => q.1 = j && q.2.writesAccount userID) = true :=
      List.any_eq_true.mpr ⟨q, hq, by simp [hj, hw]⟩
    show ((e.revokesSessions userID && _) || _) = true
    rw [he, hany]
    rfl
  | cons q newer ih =>
    obtain ⟨i, e'⟩ := q
    show (_ || overtaken userID (newer ++ (j, e) :: older)) = true
    rw [ih, Bool.or_true]

end Trace

/-! ## Every run -/

/-- No session is older than a change that has ended its predecessors. -/
def Rightful (h : PortalHistory) : Prop :=
  ∀ r ∈ h.state.db.sessions, overtaken r.userID (sessionAge r.idHash h.trace) = false

def revoking : Discipline Portal ServerEvent Mutex where
  inv := Rightful
  may := InsertsInTime
  rely i h h' := GrownBy i h.trace h'.trace
  rely_refl _ _ := .refl _ _
  rely_trans h₁ h₂ := h₁.trans h₂

theorem rightful_start (s : Portal) : Rightful { state := s } := fun _ _ => rfl

theorem Rightful.did {h : PortalHistory} (hinv : Rightful h) {i : ℕ} {e : ServerEvent} {p : Portal}
    (hmay : InsertsInTime h i e) (hstep : PortalSessional h.state e p) :
    Rightful (h.did i e p) := by
  intro r' hr'
  show overtaken r'.userID (sessionAge r'.idHash ((i, e) :: h.trace)) = false
  rcases hstep.kept r' hr' with ⟨r, hr, hid, huser⟩ | rfl
  · have hold := hinv r hr
    rw [hid, huser] at hold
    refine overtaken_sessionAge_cons ?_ ?_ hold
    · cases e with
      | sessionsRevoked u done =>
        cases done with
        | true => exact decide_eq_false fun hu => hstep.revoked u rfl r' hr' hu.symm
        | false => rfl
      | _ => rfl
    · cases e with
      | sessionInserted s done =>
        cases done with
        | true => exact decide_eq_false fun hs => hstep.fresh s rfl r hr (hid.trans hs.symm)
        | false => rfl
      | _ => rfl
  · have hin : inserter r'.idHash ((i, .sessionInserted r' true) :: h.trace) = some i :=
      inserter_cons_of_inserts (decide_eq_true rfl)
    unfold sessionAge
    rw [hin]
    show overtaken r'.userID (sinceNamed i ((i, .sessionInserted r' true) :: h.trace)) = false
    rw [sinceNamed_cons_of_not rfl, overtaken_cons_of_not rfl]
    exact hmay

section Threads

variable {α : Type} {i : ℕ} {h k : PortalHistory} {userID : String}

theorem revoking_did {e : ServerEvent} {p : Portal} (hinv : Rightful k)
    (hmay : InsertsInTime k i e) (hstep : PortalSessional k.state e p) :
    revoking.Keeps i k (k.did i e p) :=
  ⟨hinv.did hmay hstep, fun _ hj => GrownBy.did (Ne.symm hj) _ _⟩

theorem revoking_acquire (hinv : Rightful k) (l : Mutex) : revoking.Keeps i k (k.acquire i l) :=
  ⟨hinv, fun _ _ => .refl _ _⟩

theorem revoking_release (hinv : Rightful k) (l : Mutex) : revoking.Keeps i k (k.release l) :=
  ⟨hinv, fun _ _ => .refl _ _⟩

theorem safe_sessional {prog : PortalTask α} (hacts : prog.Acts PortalSessional) :
    revoking.Tame i prog h :=
  .of_acts (P := fun _ => True)
    (fun _ _ _ hinv hmay _ hstep => ⟨revoking_did hinv hmay hstep, trivial⟩)
    (fun _ l hinv _ => ⟨revoking_acquire hinv l, trivial⟩)
    (fun _ l hinv _ => ⟨revoking_release hinv l, trivial⟩) (fun _ _ _ _ _ => trivial) hacts trivial

/-- The thread has written the account. -/
def Wrote (j : ℕ) (userID : String) (trace : Trace) : Prop :=
  ∃ q ∈ trace, q.1 = j ∧ q.2.writesAccount userID = true

/-- The thread has written the account, then ended its sessions, and not written it since. -/
def Changed (j : ℕ) (userID : String) (trace : Trace) : Prop :=
  ∃ newer older, trace = newer ++ (j, .sessionsRevoked userID true) :: older ∧
    Wrote j userID older ∧ ∀ q ∈ newer, q.1 = j → q.2.writesAccount userID = false

variable {trace : Trace}

theorem Wrote.grown {trace' : Trace} (hw : Wrote i userID trace)
    (hg : GrownBy i trace trace') : Wrote i userID trace' := by
  obtain ⟨q, hq, hboth⟩ := hw
  obtain ⟨ext, rfl, -⟩ := hg
  exact ⟨q, List.mem_append_right ext hq, hboth⟩

theorem Changed.grown {trace' : Trace} (hc : Changed i userID trace)
    (hg : GrownBy i trace trace') : Changed i userID trace' := by
  obtain ⟨newer, older, rfl, hwrote, hquiet⟩ := hc
  obtain ⟨ext, rfl, hne⟩ := hg
  refine ⟨ext ++ newer, older, (List.append_assoc ..).symm, hwrote, fun q hq hqi => ?_⟩
  rcases List.mem_append.mp hq with hq | hq
  · exact absurd hqi (hne q hq)
  · exact hquiet q hq hqi

theorem Changed.did (hc : Changed i userID trace) {e : ServerEvent}
    (he : e.writesAccount userID = false) : Changed i userID ((i, e) :: trace) := by
  obtain ⟨newer, older, rfl, hwrote, hquiet⟩ := hc
  refine ⟨(i, e) :: newer, older, rfl, hwrote, fun q hq hqi => ?_⟩
  rcases List.mem_cons.mp hq with rfl | hq
  · exact he
  · exact hquiet q hq hqi

theorem safe_published {prog : Task α} (hsteps : prog.Acts Publishing)
    (hc : Changed i userID h.trace) :
    revoking.Safe i (fun _ k => Changed i userID k.trace) prog.inPortal h := by
  have hacts : prog.inPortal.Acts fun p e p' =>
      PortalSessional p e p' ∧ e.writesAccount userID = false := by
    refine hsteps.zoom fun p e s hstep => ⟨hstep.sessional, ?_⟩
    have he := hstep.2.2
    cases e with
    | accountWritten id before after => cases he
    | _ => rfl
  exact .of_acts (P := fun k => Changed i userID k.trace)
    (fun _ _ _ hinv hmay hp hstep => ⟨revoking_did hinv hmay hstep.1, hp.did hstep.2⟩)
    (fun _ l hinv hp => ⟨revoking_acquire hinv l, hp⟩)
    (fun _ l hinv hp => ⟨revoking_release hinv l, hp⟩) (fun _ _ hr _ hp => hp.grown hr) hacts hc

theorem safe_revokeSessions {io : Faults} (hio : io 0 = false) (hw : Wrote i userID h.trace) :
    revoking.Safe i (fun a k => a = .ok () ∧ Changed i userID k.trace)
      (Console.revokeSessions io userID).inPortal h := by
  unfold Console.revokeSessions
  rw [bind_eq, Task.inPortal_bind]
  refine Task.safe_write_inPortal fun k hr hinv a db hrun hmay => ?_
  have hstep := SessionStep.revoke io userID k.state.db
  rw [hrun] at hstep
  refine ⟨revoking_did hinv hmay hstep, ?_⟩
  rcases deleteSessionsByUser_cases io userID k.state.db with ⟨e, hfail⟩ | ⟨n, hdone⟩
  · have hok := deleteSessionsByUser_isOk hio userID k.state.db
    rw [hfail] at hok
    cases hok
  · cases hrun.symm.trans hdone
    intro m hr' _
    refine ⟨rfl, Changed.grown ?_ hr'⟩
    exact ⟨[], k.trace, rfl, hw.grown hr, by simp⟩

theorem safe_writeAccount (io : Faults) (admitted : Bool) (write : User → User) :
    revoking.Safe i (fun _ k => Wrote i userID k.trace)
      (Console.writeAccount userID (updateUserColumn io userID admitted write)).inPortal h := by
  unfold Console.writeAccount
  rw [bind_eq, Task.inPortal_bind]
  refine Task.safe_write_inPortal fun k hr hinv a db hrun hmay => ?_
  have hstep := SessionStep.column (e := .accountWritten userID (k.state.db.user userID)
    (db.user userID)) rfl io userID admitted write k.state.db
  rw [hrun] at hstep
  refine ⟨revoking_did hinv hmay hstep, fun m hr' _ => Wrote.grown ?_ hr'⟩
  exact ⟨_, .head _, rfl, decide_eq_true rfl⟩

end Threads

section Calls

variable {i : ℕ} {h : PortalHistory}

theorem safe_refusal {ε : Type} (e : ε) {P : PortalHistory → Prop} :
    revoking.Safe i (fun (a : Except ε Unit) m => revoking.Keeps i m (m.release .userWrite) ∧
      ∀ m', revoking.rely i (m.release .userWrite) m' → revoking.inv m' → a = .ok () → P m')
      (.ret (.error e)) h :=
  fun _ _ hm => ⟨revoking_release hm _, fun _ _ _ hok => nomatch hok⟩

variable (c : Crypto)

theorem safe_changeAccountPassword (env : AccountEnv) (userID current new : String) :
    revoking.Safe i (fun a k => a = .ok () → Wrote i userID k.trace)
      (Console.changeAccountPassword c env userID current new).inPortal h := by
  unfold Console.changeAccountPassword
  cases checkPasswordPolicy new with
  | error e => exact fun _ _ _ hok => nomatch hok
  | ok _ =>
    dsimp only
    split
    · exact fun _ _ _ hok => nomatch hok
    rw [Task.inPortal_locked]
    refine .locked fun k _ hinv _ => ⟨revoking_acquire hinv _, ?_⟩
    rw [bind_eq, Task.inPortal_bind]
    refine Task.safe_query_inPortal fun k' _ hinv' hmay =>
      ⟨revoking_did hinv' hmay (SessionStep.of_same rfl rfl), ?_⟩
    cases hread : k'.state.db.user userID with
    | none => exact safe_refusal _
    | some user =>
      have hid : user.id = userID := Table.key_of_lookup hread
      dsimp only
      split
      · exact safe_refusal _
      cases env.hash with
      | none => exact safe_refusal _
      | some hash =>
        dsimp only
        rw [hid, bind_eq, Task.inPortal_bind]
        refine (safe_writeAccount (env.io 0) true _).seq ?_
        intro a m hwrote m' hr hm'
        exact ⟨revoking_release hm' _, fun n hr' _ _ => (hwrote.grown hr).grown hr'⟩

variable {env : AccountEnv}

theorem safe_handleChangePassword (henv : env.sessionsFail = false) (userID current new : String) :
    revoking.Safe i (fun a k => a = .ok () → Changed i userID k.trace)
      (Console.handleChangePassword c env userID current new).inPortal h := by
  unfold Console.handleChangePassword
  split
  · exact fun _ _ _ hok => nomatch hok
  rw [bind_eq, Task.inPortal_bind]
  refine (safe_changeAccountPassword c env userID current new).seq ?_
  intro a k hwrote
  cases a with
  | error e => exact fun _ _ _ hok => nomatch hok
  | ok _ =>
    rw [bind_eq, Task.inPortal_bind]
    refine (safe_revokeSessions henv (hwrote rfl)).seq ?_
    exact fun _ m hend m' hr _ _ => hend.2.grown hr

theorem safe_applyTenantUserPatch (env : AccountEnv) (id : String) {patch : TenantUserPatch}
    (hpass : patch.password.isSome = true) (hash : String) :
    revoking.Safe i (fun a k => a = .ok () → Wrote i id k.trace)
      (Console.applyTenantUserPatch env id patch hash).inPortal h := by
  unfold Console.applyTenantUserPatch
  rw [bind_eq, Task.inPortal_bind]
  have hstatus : (Console.forField patch.status
      (Console.setAccountStatusLocked (env.io 0) id)).Acts Sessional :=
    Console.acts_forField fun status => Console.acts_setAccountLocked id _ _ _ _ _
  have hrole : (Console.forField patch.role
      (Console.setAccountRoleLocked (env.io 1) id)).Acts Sessional :=
    Console.acts_forField fun role => Console.acts_setAccountLocked id _ _ _ _ _
  refine (safe_sessional hstatus.inPortal).seq fun a k _ => ?_
  cases a with
  | error e => exact fun _ _ _ hok => nomatch hok
  | ok _ =>
    rw [bind_eq, Task.inPortal_bind]
    refine (safe_sessional hrole.inPortal).seq fun a k _ => ?_
    cases a with
    | error e => exact fun _ _ _ hok => nomatch hok
    | ok _ =>
      obtain ⟨password, hpassword⟩ := Option.isSome_iff_exists.mp hpass
      rw [hpassword, bind_eq, Task.inPortal_bind]
      refine (safe_writeAccount (env.io 2) true _).seq ?_
      exact fun _ m hwrote m' hr _ _ => hwrote.grown hr

theorem acts_republishUserKeys (id : String) : (Console.republishUserKeys id).Acts Publishing :=
  (Console.steps_republishUserKeys id).acts

theorem safe_settlePassword (henv : env.sessionsFail = false) {id : String} {ends : Bool}
    (hends : ends = true) (hw : Wrote i id h.trace) :
    revoking.Safe i (fun _ k => Changed i id k.trace) (Console.settleAccount env id ends).inPortal
      h := by
  unfold Console.settleAccount Console.endSessions
  rw [hends, if_pos rfl, bind_eq, Task.inPortal_bind]
  refine (safe_revokeSessions henv hw).seq fun a k hend => ?_
  obtain ⟨rfl, hchanged⟩ := hend
  rw [bind_eq, Task.inPortal_bind]
  refine (safe_published (acts_republishUserKeys id) hchanged).seq ?_
  intro a m hm
  cases a with
  | error e => exact fun m' hr _ => hm.grown hr
  | ok _ => exact safe_published (Console.steps_tenantUserView id).acts hm

theorem safe_updateTenantUser (henv : env.sessionsFail = false) (id : String)
    {patch : TenantUserPatch} (hpass : patch.password.isSome = true) :
    revoking.Safe i (fun a k => a = .ok () → Changed i id k.trace)
      (Console.updateTenantUser env id patch).inPortal h := by
  unfold Console.updateTenantUser
  split
  · exact fun _ _ _ hok => nomatch hok
  rw [Task.inPortal_locked]
  refine .locked fun k _ hinv _ => ⟨revoking_acquire hinv _, ?_⟩
  rw [bind_eq, Task.inPortal_bind]
  refine (safe_sessional (Console.acts_getUser id).inPortal).seq ?_
  intro found k' _
  cases found with
  | none => exact safe_refusal _
  | some user =>
    dsimp only
    rw [bind_eq, Task.inPortal_bind]
    have hvalid := (Console.acts_validateTenantUserPatch user patch).inPortal
    refine (safe_sessional hvalid).seq fun a k _ => ?_
    cases a with
    | error e => exact safe_refusal _
    | ok _ =>
      cases Console.patchHash env patch with
      | error e => exact safe_refusal _
      | ok hash =>
        dsimp only
        rw [bind_eq, Task.inPortal_bind]
        refine (safe_applyTenantUserPatch env id hpass hash).seq ?_
        intro a k hwrote
        cases a with
        | error e => exact safe_refusal _
        | ok _ =>
          refine (safe_settlePassword henv ?_ (hwrote rfl)).mono ?_
          · rw [hpass, Bool.or_true]
          · exact fun _ m hm hchanged => ⟨revoking_release hm _, fun m' hr _ _ => hchanged.grown hr⟩

def FoundRightful (i : ℕ) (idHash userID : String) (trace : Trace) : Prop :=
  ∃ newer older, trace = newer ++ (i, .sessionRead idHash) :: older ∧
    overtaken userID (sessionAge idHash older) = false

theorem FoundRightful.more {idHash userID : String} {trace : Trace}
    (hf : FoundRightful i idHash userID trace) (ext : Trace) :
    FoundRightful i idHash userID (ext ++ trace) := by
  obtain ⟨newer, older, rfl, hrightful⟩ := hf
  exact ⟨ext ++ newer, older, (List.append_assoc ..).symm, hrightful⟩

theorem safe_authenticate (io : Faults) (sessionID : String) :
    revoking.Safe i (fun a k => ∀ user session, a = some (user, session) →
      user.id = session.userID ∧ FoundRightful i session.idHash session.userID k.trace)
      (Auth.authenticate c io sessionID) h := by
  unfold Auth.authenticate
  split
  · exact fun _ _ _ _ _ ha => nomatch ha
  refine (safe_sessional Auth.steps_now.sessional).seq fun nowNs k _ => ?_
  refine Task.safe_query_inPortal fun k _ hinv hmay =>
    ⟨revoking_did hinv hmay (SessionStep.of_same rfl rfl), ?_⟩
  cases hread : k.state.db.session (c.hashSessionID sessionID) with
  | none => exact fun _ _ _ _ _ ha => nomatch ha
  | some session =>
    have hid : session.idHash = c.hashSessionID sessionID :=
      Table.key_of_lookup hread
    have hrightful := hinv session (Table.mem_of_lookup hread)
    have hfound : FoundRightful i session.idHash session.userID
        ((i, .sessionRead (c.hashSessionID sessionID)) :: k.trace) :=
      ⟨[], k.trace, by rw [hid]; rfl, hrightful⟩
    have hsteps : (Auth.resolveSession io session nowNs).inPortal.Steps PortalSessional _ :=
      (Auth.steps_resolveSession io session nowNs).zoom fun _ _ _ hstep => hstep
    refine (Discipline.Safe.of_steps
      (P := fun m => FoundRightful i session.idHash session.userID m.trace) ?_ ?_ hsteps
      hfound).mono ?_
    · exact fun m e p hm hmay' hp hstep => ⟨revoking_did hm hmay' hstep, hp.more [(i, e)]⟩
    · rintro m m' ⟨ext, hext, -⟩ - hp
      rw [hext]
      exact hp.more ext
    · rintro a m - ⟨hanswer, hfound⟩ user s ha
      obtain ⟨hhash, howner, huser⟩ := hanswer user s ha
      rw [hhash, howner]
      exact ⟨huser, hfound⟩

end Calls

/-- What happens behind a login: logins, changes of the password, patches, and requests. -/
inductive AuthCall where
  | login (env : LoginEnv) (req : LoginRequest)
  /-- `HandleChangePassword` -/
  | changePassword (env : AccountEnv) (userID current new : String)
  /-- `UpdateTenantUser` -/
  | patch (env : AccountEnv) (id : String) (fields : TenantUserPatch)
  | authenticate (io : Faults) (sessionID : String)

inductive AuthAnswer where
  | loggedIn (answer : Except LoginError LoginResult)
  | changed (answer : Except PasswordError Unit)
  | patched (answer : Except ServiceError Unit)
  | authenticated (answer : Option (User × Session))
  deriving DecidableEq

def AuthCall.task (c : Crypto) : AuthCall → PortalTask AuthAnswer
  | .login env req => (Auth.login c env req).bind fun a => .ret (.loggedIn a)
  | .changePassword env userID current new =>
    (Console.handleChangePassword c env userID current new).inPortal.bind
      fun a => .ret (.changed a)
  | .patch env id fields =>
    (Console.updateTenantUser env id fields).inPortal.bind fun a => .ret (.patched a)
  | .authenticate io sessionID =>
    (Auth.authenticate c io sessionID).bind fun a => .ret (.authenticated a)

/-- The call changes the password of the account, and the database does not fail to delete the
sessions. -/
def AuthCall.ChangesPassword (userID : String) : AuthCall → Prop
  | .changePassword env id _ _ => id = userID ∧ env.sessionsFail = false
  | .patch env id fields => id = userID ∧ fields.password.isSome = true ∧ env.sessionsFail = false
  | _ => False

def AuthAnswer.Succeeded (a : AuthAnswer) : Prop :=
  a = .changed (.ok ()) ∨ a = .patched (.ok ())

def AuthCall.Shows (i : ℕ) (call : AuthCall) (a : AuthAnswer) (k : PortalHistory) : Prop :=
  (∀ userID, call.ChangesPassword userID → a.Succeeded → Changed i userID k.trace) ∧
    ∀ user session, a = .authenticated (some (user, session)) →
      user.id = session.userID ∧ FoundRightful i session.idHash session.userID k.trace

theorem safe_authCall (c : Crypto) (call : AuthCall) {i : ℕ} {h : PortalHistory} :
    revoking.Safe i (call.Shows i) (call.task c) h := by
  cases call with
  | login env req =>
    refine (safe_sessional (Auth.acts_login c env req)).seq ?_
    exact fun a k _ m _ _ => ⟨fun _ hc => hc.elim, fun _ _ ha => nomatch ha⟩
  | changePassword env userID current new =>
    cases henv : env.sessionsFail with
    | true =>
      have hacts := (Console.acts_handleChangePassword c env userID current new).inPortal
      refine (safe_sessional hacts).seq ?_
      refine fun a k _ m _ _ => ⟨fun _ hc => ?_, fun _ _ ha => nomatch ha⟩
      exact absurd hc.2 (by simp [henv])
    | false =>
      refine (safe_handleChangePassword c henv userID current new).seq ?_
      refine fun a k hchanged m hr _ => ⟨fun u hc hok => ?_, fun _ _ ha => nomatch ha⟩
      have ha : a = .ok () := by simpa [AuthAnswer.Succeeded] using hok
      rw [← hc.1]
      exact (hchanged ha).grown hr
  | patch env id patch =>
    by_cases hpass : patch.password.isSome = true ∧ env.sessionsFail = false
    · refine (safe_updateTenantUser hpass.2 id hpass.1).seq ?_
      refine fun a k hchanged m hr _ => ⟨fun u hc hok => ?_, fun _ _ ha => nomatch ha⟩
      have ha : a = .ok () := by simpa [AuthAnswer.Succeeded] using hok
      rw [← hc.1]
      exact (hchanged ha).grown hr
    · refine (safe_sessional (Console.acts_updateTenantUser env id patch).inPortal).seq ?_
      exact fun a k _ m _ _ => ⟨fun _ hc => absurd hc.2 hpass, fun _ _ ha => nomatch ha⟩
  | authenticate io sessionID =>
    refine (safe_authenticate c io sessionID).seq ?_
    rintro a k hfound m ⟨ext, hext, -⟩ -
    refine ⟨fun _ hc => hc.elim, fun user session ha => ?_⟩
    obtain ⟨huser, hf⟩ := hfound user session (AuthAnswer.authenticated.inj ha)
    rw [hext]
    exact ⟨huser, hf.more ext⟩

def ReadAfterWrite (i j : ℕ) (userID : String) (trace : Trace) : Prop :=
  ∀ q ∈ sinceNamed i trace, q.1 = j → q.2.writesAccount userID = false

theorem readAfterWrite_of_rightful {userID idHash : String} {j : ℕ}
    {newer older : Trace} (hwrote : Wrote j userID older)
    (hquiet : ∀ q ∈ newer, q.1 = j → q.2.writesAccount userID = false)
    (hrightful : overtaken userID (sessionAge idHash
      (newer ++ (j, .sessionsRevoked userID true) :: older)) = false) :
    ∃ i, inserter idHash (newer ++ (j, .sessionsRevoked userID true) :: older) = some i ∧
      ReadAfterWrite i j userID (newer ++ (j, .sessionsRevoked userID true) :: older) := by
  have hrevokes : (ServerEvent.sessionsRevoked userID true).revokesSessions userID = true :=
    decide_eq_true rfl
  unfold sessionAge at hrightful
  cases hin : inserter idHash (newer ++ (j, .sessionsRevoked userID true) :: older) with
  | none =>
    simp only [hin, overtaken_of_append hrevokes hwrote] at hrightful
    cases hrightful
  | some i =>
    simp only [hin] at hrightful
    refine ⟨i, rfl, fun q hq hqj => Bool.eq_false_iff.mpr fun hwrites => ?_⟩
    have hnew : q ∉ newer := fun hmem => by
      rw [hquiet q hmem hqj] at hwrites
      cases hwrites
    -- a write of the change since the read lies behind the end of the sessions
    obtain ⟨rest, hrest⟩ : sinceNamed i (newer ++ (j, .sessionsRevoked userID true) :: older) <+:
        newer ++ (j, .sessionsRevoked userID true) :: older := List.takeWhile_prefix _
    generalize sinceNamed i (newer ++ (j, .sessionsRevoked userID true) :: older) = since at *
    rcases List.append_eq_append_iff.mp hrest with ⟨c, hc, -⟩ | ⟨c, hc, hrest⟩
    · exact hnew (hc ▸ List.mem_append_left c hq)
    cases c with
    | nil => exact hnew (by rw [hc, List.append_nil] at hq; exact hq)
    | cons x c =>
      obtain ⟨rfl, -⟩ := List.cons.inj hrest
      rw [hc] at hq hrightful
      have hqc : q ∈ c := by
        rcases List.mem_append.mp hq with hq | hq
        · exact absurd hq hnew
        · rcases List.mem_cons.mp hq with rfl | hq
          · cases hwrites
          · exact hq
      rw [overtaken_of_append hrevokes ⟨q, hqc, hqj, hwrites⟩] at hrightful
      cases hrightful

/-- **A changed password ends every session obtained with the old one**, in every run in which
logins insert their sessions in time.  A change has returned; later somebody presents a session of
the account, and it is accepted.  Then the login that inserted it had read the account after the
change had written the new hash. -/
theorem changed_password_ends_sessions (c : Crypto) (s : Portal) (calls : List AuthCall)
    (before after : List ℕ)
    (hmeets : Along Pool.step (Pool.Meets InsertsInTime)
      (Pool.start s (calls.map (AuthCall.task c))) (before ++ after))
    (j : ℕ) (change : AuthCall) (hj : calls[j]? = some change) (userID : String)
    (hchange : change.ChangesPassword userID) (answer : AuthAnswer) (hok : answer.Succeeded)
    (hreturned : (run Pool.step (Pool.start s (calls.map (AuthCall.task c))) before).answers[j]? =
      some (some answer))
    (k : ℕ) (hlater : ∀ q ∈ (run Pool.step (Pool.start s (calls.map (AuthCall.task c)))
      before).hist.trace, q.1 ≠ k)
    (user : User) (session : Session) (huser : user.id = userID)
    (haccepted : (run Pool.step (Pool.start s (calls.map (AuthCall.task c)))
      (before ++ after)).answers[k]? = some (some (.authenticated (some (user, session))))) :
    ∃ newer older i, (run Pool.step (Pool.start s (calls.map (AuthCall.task c)))
        (before ++ after)).hist.trace = newer ++ (k, .sessionRead session.idHash) :: older ∧
      inserter session.idHash older = some i ∧ ReadAfterWrite i j userID older := by
  rw [along_append] at hmeets
  rw [run_append] at haccepted ⊢
  have hkept1 := Discipline.run_safe (.of_each_call (rightful_start s)
    fun _ call _ => safe_authCall c call) hmeets.1
  have hkept2 := Discipline.run_safe hkept1 hmeets.2
  have hlength := Pool.length_run (Pool.start s (calls.map (AuthCall.task c))) before
  generalize run Pool.step (Pool.start s (calls.map (AuthCall.task c))) before = pool at *
  have hret := Pool.getElem?_answers.mp hreturned
  obtain ⟨newer1, older1, htrace, hwrote, hquiet⟩ :=
    (hkept1.answer hret change hj).1 userID hchange hok
  obtain ⟨-, ext, hext, hnone⟩ := Pool.answered_run hret after
  have hk : k < calls.length := by
    have hlt := (List.getElem?_eq_some_iff.mp (Pool.getElem?_answers.mp haccepted)).1
    rw [Pool.length_run, hlength] at hlt
    simpa [Pool.start] using hlt
  obtain ⟨howner, newer, older, hread, hrightful⟩ :=
    (hkept2.answer (Pool.getElem?_answers.mp haccepted) _
      (List.getElem?_eq_getElem hk)).2 user session rfl
  -- the session was read after the change had returned
  obtain ⟨more, hmore, hquiet'⟩ : ∃ more, older = more ++ pool.hist.trace ∧
      ∀ q ∈ more, q.1 ≠ j := by
    rw [hext] at hread
    rcases List.append_eq_append_iff.mp hread with ⟨c, hc, hrest⟩ | ⟨c, hc, hrest⟩
    · exact absurd rfl (hlater (k, .sessionRead session.idHash) (by simp [hrest]))
    cases c with
    | nil =>
      rw [List.nil_append] at hrest
      exact absurd rfl (hlater (k, .sessionRead session.idHash) (by simp [← hrest]))
    | cons x c =>
      obtain ⟨rfl, htail⟩ := List.cons.inj hrest
      exact ⟨c, htail, fun q hq => hnone q (by simp [hc, hq])⟩
  have holder : older = (more ++ newer1) ++ (j, .sessionsRevoked userID true) :: older1 := by
    rw [hmore, htrace, List.append_assoc]
  rw [← howner, huser, holder] at hrightful
  have hquiet'' : ∀ q ∈ more ++ newer1, q.1 = j → q.2.writesAccount userID = false := by
    intro q hq hqj
    rcases List.mem_append.mp hq with hq | hq
    · exact absurd hqj (hquiet' q hq)
    · exact hquiet q hq hqj
  obtain ⟨i, hin, hafter⟩ := readAfterWrite_of_rightful hwrote hquiet'' hrightful
  rw [← holder] at hin hafter
  exact ⟨newer, older, i, hread, hin, hafter⟩

/-- Passwords and session ids are stored as they are. -/
def plainCrypto : Crypto where
  verifyPassword hash password := hash = password
  hashSessionID id := id
  codeAt _ _ := none
  pepper := none

def oneAccount : Portal :=
  { db :=
      { users := [{ id := "u", username := "owner", role := .user, status := .active,
                    passwordHash := "old password" }] } }

/-- A login, a password change, and somebody who presents the session of the login. -/
def loginAndChange (password : String) : List AuthCall :=
  [.login { sessionID := some "cookie" } { username := "owner", password := password },
    .changePassword { hash := some "new password" } "u" "old password" "new password",
    .authenticate noFaults "cookie"]

def cookieSession : Session :=
  { idHash := "cookie", userID := "u", createdAtNs := 0, expiresAtNs := 43200000000000 }

def changedAccount : User :=
  { id := "u", username := "owner", role := .user, status := .active,
    passwordHash := "new password" }

theorem changed_password_ends_sessions_new : ∃ newer older i, (run Pool.step (Pool.start oneAccount
        ((loginAndChange "new password").map (AuthCall.task plainCrypto)))
        ([1, 1, 1, 1, 1] ++ [0, 0, 0, 0, 0, 0, 0, 2, 2, 2])).hist.trace =
          newer ++ (2, .sessionRead cookieSession.idHash) :: older ∧
      inserter cookieSession.idHash older = some i ∧ ReadAfterWrite i 1 "u" older :=
  changed_password_ends_sessions plainCrypto oneAccount (loginAndChange "new password")
    [1, 1, 1, 1, 1] [0, 0, 0, 0, 0, 0, 0, 2, 2, 2] (by decide +kernel) 1 _ rfl "u" ⟨rfl, rfl⟩
    (.changed (.ok ())) (.inl rfl) (by decide +kernel) 2 (by decide +kernel)
    changedAccount cookieSession rfl (by decide +kernel)

/-- **A session of the old password survives the change.**  The login has read the account and goes
on when the change has returned: its session is accepted, though its password no longer is. -/
theorem late_login_survives_change :
    let pool := run Pool.step (Pool.start oneAccount
      ((loginAndChange "old password").map (AuthCall.task plainCrypto)))
    (pool [0, 1, 1, 1, 1, 1]).answers = [none, some (.changed (.ok ())), none] ∧
      (pool ([0, 1, 1, 1, 1, 1] ++ [0, 0, 0, 0, 0, 0, 2, 2, 2])).answers =
        [some (.loggedIn (.ok ⟨"cookie", "", oneAccount.db.users.headD changedAccount,
            43200000000000⟩)),
          some (.changed (.ok ())), some (.authenticated (some (changedAccount, cookieSession)))] ∧
      plainCrypto.verifyPassword changedAccount.passwordHash "old password" = false := by
  decide +kernel

end Prism
