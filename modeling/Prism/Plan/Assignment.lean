import Prism.Plan.Stop

/-!
# A failed assignment

`AssignSubscription`, and `UpdateTenantSubscription` with a patch that makes another row active,
first end what the user has running and then write the new row.  The two writes are statements of
their own.  The index over active rows leaves one row to end, so there is one write to end it with:
if that one fails, nothing has happened (`expireActiveSubscriptions_only`).

If it goes through and the write behind it fails, the user is left without a subscription.  So a
failed call takes nothing away exactly when the write that failed is the first one.  That the second
one fails takes a failing database: the rest of what could go wrong with it, the constraints of the
table, is excluded by what was checked before.
-/

namespace Prism

open Table

/-- The active rows of a user. -/
def activeRows (userID : String) (db : Db) : List UserSubscription :=
  db.userSubscriptions.filter fun r => r.userID = userID && Db.isActive r

variable (io : ℕ → Faults)

theorem rewriteTerms_expire_none (operation : String) {rows : List UserSubscription}
    (hnone : ∀ r ∈ rows, r.status ≠ .active) (k n : ℕ) (p : Panel) :
    rewriteTerms io operation false .expire k rows n p = ((n, none), p) := by
  induction rows generalizing k with
  | nil => rfl
  | cons r rows ih =>
    have hskip : TermsChange.selects .expire r = false := decide_eq_false (hnone r (.head _))
    rw [rewriteTerms_skip hskip]
    exact ih (fun t ht => hnone t (.tail _ ht)) (k + 1)

/-- What the loop answers, and leaves, once the write of its row has been made. -/
def endedBy (operation : String) (n : ℕ) (p : Panel) :
    Except RepoError Unit × Db → (ℕ × Option ServiceError) × Panel
  | (.error e, db) => ((n, some (mapSubscriptionWriteError operation e)), { p with db := db })
  | (.ok (), db) => ((n + 1, none), { p with db := db })

variable {row : UserSubscription}

/-- **With one active row the loop makes one write**, and that decides. -/
theorem rewriteTerms_expire_only (operation : String) {rows : List UserSubscription}
    (honly : rows.filter Db.isActive = [row]) (k n : ℕ) (p : Panel) :
    ∃ j, rewriteTerms io operation false .expire k rows n p = endedBy operation n p
        (updateUserSubscriptionTerms (io j) { row with status := .expired } p.db) := by
  induction rows generalizing k with
  | nil => exact absurd honly (by simp)
  | cons r rows ih =>
    by_cases hactive : Db.isActive r = true
    · rw [List.filter_cons_of_pos hactive] at honly
      obtain ⟨rfl, hrest⟩ := List.cons.inj honly
      have hnone : ∀ t ∈ rows, t.status ≠ .active := fun t ht htactive => by
        have hmem : t ∈ rows.filter Db.isActive := List.mem_filter.mpr ⟨ht, decide_eq_true htactive⟩
        rw [hrest] at hmem
        exact absurd hmem (by simp)
      have hsel : TermsChange.selects .expire r = true := hactive
      refine ⟨k, ?_⟩
      rw [rewriteTerms, if_neg (by simp [hsel])]
      simp only [TermsChange.apply]
      cases hwrite : updateUserSubscriptionTerms (io k) { r with status := .expired } p.db with
      | mk answer db =>
        cases answer with
        | error e => rfl
        | ok _ => exact rewriteTerms_expire_none io operation hnone (k + 1) (n + 1) _
    · rw [List.filter_cons_of_neg hactive] at honly
      obtain ⟨j, hj⟩ := ih honly (k + 1)
      refine ⟨j, ?_⟩
      have hskip : TermsChange.selects .expire r = false := decide_eq_false fun h =>
        hactive (decide_eq_true h)
      rw [rewriteTerms_skip hskip, hj]

variable {userID : String}

theorem expireActiveSubscriptions_only {p : Panel} (honly : activeRows userID p.db = [row]) :
    ∃ j, expireActiveSubscriptions io userID p = endedBy "expire previous subscription" 0 p
        (updateUserSubscriptionTerms (io j) { row with status := .expired } p.db) := by
  refine rewriteTerms_expire_only io _ ?_ 0 0 p
  rw [List.filter_filter]
  refine (List.filter_congr fun r _ => ?_).trans honly
  rw [Bool.and_comm]

variable {db : Db}

theorem Db.SubsIndexed.activeRows_eq (h : db.SubsIndexed) (hrow : row ∈ db.userSubscriptions)
    (hactive : row.status = .active) : activeRows row.userID db = [row] := by
  have hnd : (activeRows row.userID db).Nodup :=
    (List.Nodup.of_map UserSubscription.id h.subs).filter _
  have hmem : ∀ r ∈ activeRows row.userID db, r = row := by
    intro r hr
    obtain ⟨hr, hboth⟩ := List.mem_filter.mp hr
    rw [Bool.and_eq_true, decide_eq_true_eq] at hboth
    exact h.eq_of_active hr hboth.2 hrow (decide_eq_true hactive) hboth.1
  have hin : row ∈ activeRows row.userID db :=
    List.mem_filter.mpr ⟨hrow, by simp [Db.isActive, hactive]⟩
  cases hrows : activeRows row.userID db with
  | nil =>
    rw [hrows] at hin
    exact absurd hin (by simp)
  | cons r rest =>
    rw [hrows] at hmem hnd
    rw [hmem r (List.mem_cons_self ..)] at hnd ⊢
    cases rest with
    | nil => rfl
    | cons t rest =>
      have ht : t = row := hmem t (by simp)
      rw [ht] at hnd
      exact absurd hnd (by simp)

theorem Db.SubsIndexed.ended (h : db.SubsIndexed) (hrow : row ∈ db.userSubscriptions)
    (hactive : row.status = .active) :
    ∀ r ∈ (db.withTerms (storedTerms { row with status := .expired })).userSubscriptions,
      r.userID = row.userID → Db.isActive r = false := by
  intro r hr huser
  obtain ⟨r0, hr0, rfl⟩ := mem_updateWhere.mp hr
  split at huser
  · rename_i hid
    rw [if_pos hid]
    rfl
  · rename_i hid
    rw [if_neg hid]
    refine Bool.eq_false_iff.mpr fun hr0active => hid ?_
    have hsame : r0 = row := h.eq_of_active hr0 hr0active hrow (decide_eq_true hactive) huser
    rw [hsame]
    exact decide_eq_true rfl

/-- **Ending what a user has running**: it fails and leaves everything as it was, or the one active
row has ended. -/
theorem exec_expireActive_cases {s : Server} (hdb : s.db.SubsIndexed)
    (hrow : row ∈ s.db.userSubscriptions) (hactive : row.status = .active) :
    (∃ n e, (expireActiveSubscriptions io row.userID s.toPanel).1.2 = some e ∧
      (Console.expireActiveSubscriptions io row.userID).exec s = ((n, some e), s)) ∨
    ∃ n, (expireActiveSubscriptions io row.userID s.toPanel).1.2 = none ∧
      (Console.expireActiveSubscriptions io row.userID).exec s = ((n, none), { s with
        db := s.db.withTerms (storedTerms { row with status := .expired }) }) := by
  obtain ⟨j, hended⟩ := expireActiveSubscriptions_only io (p := s.toPanel)
    (hdb.activeRows_eq hrow hactive)
  rw [Console.exec_expireActiveSubscriptions, hended]
  rcases updateUserSubscriptionTerms_cases (io j) { row with status := .expired } s.db with
    ⟨e, hfail⟩ | ⟨-, hdone⟩
  · rw [hfail]
    exact .inl ⟨0, _, rfl, rfl⟩
  · rw [hdone]
    exact .inr ⟨1, rfl, rfl⟩

/-! ## The second write -/

theorem Db.activeElsewhere_free {id : String}
    (hfree : ∀ r ∈ db.userSubscriptions, r.userID = userID → Db.isActive r = false) :
    db.activeElsewhere id userID = false := by
  refine Bool.eq_false_iff.mpr fun helse => ?_
  obtain ⟨r, hr, hboth⟩ := List.any_eq_true.mp helse
  simp only [Bool.and_eq_true, decide_eq_true_eq] at hboth
  rw [hfree r hr hboth.2] at hboth
  exact absurd hboth.1.2 (by simp)

theorem upsertUserSubscription_free {s : UserSubscription} (hstatus : s.status = .active)
    (hfree : ∀ r ∈ db.userSubscriptions, r.userID = s.userID → Db.isActive r = false)
    (huser : db.hasUser s.userID = true) (hplan : db.hasPlanOrNull s.planID = true) :
    ∃ db', upsertUserSubscription noFaults s db = (.ok (), db') := by
  have hstored : (storedTerms s).status = .active := by
    simp [storedTerms, statusOrActive, hstatus]
  have hok : ∃ db', db.upsertSubscription (storedTerms s) = .ok db' := by
    unfold Db.upsertSubscription
    cases hrow : db.subscription (storedTerms s).id with
    | none =>
      refine ⟨_, Db.insertSubscription_eq_ok_iff.mpr ⟨⟨by rw [hstored]; rfl, ?_, ?_, huser,
        hplan⟩, rfl⟩⟩
      · rintro ⟨-, r, hr, hractive, hruser⟩
        rw [hfree r hr hruser] at hractive
        exact absurd hractive (by simp)
      · exact (lookup_eq_none_iff UserSubscription.id).mp hrow
    | some r =>
      have helse : db.activeElsewhere (storedTerms s).id (storedTerms s).userID = false :=
        Db.activeElsewhere_free hfree
      have huser' : db.hasUser (storedTerms s).userID = true := huser
      have hplan' : db.hasPlanOrNull (storedTerms s).planID = true := hplan
      simp only [hstored, Status.isSubscriptionStatus, helse, huser', hplan', Bool.not_true,
        Bool.and_false, Bool.or_self, Bool.false_eq_true, if_false]
      exact ⟨_, rfl⟩
  obtain ⟨db', hok⟩ := hok
  refine ⟨db', ?_⟩
  unfold upsertUserSubscription
  simp [single, atomically, hok, orConflict, Except.map]

/-- The calls that put one row in the place of another. -/
inductive ReplaceCall where
  | assign (env : Console.SaleEnv) (planID : String) (durationDays nowNs : ℤ)
  /-- a patch that makes a row active -/
  | reactivate (io : ℕ → Faults) (id : String) (patch : SubscriptionPatch) (nowNs : ℤ)

def ReplaceCall.task (userID : String) : ReplaceCall → Task (Except ServiceError UserSubscription)
  | .assign env planID durationDays nowNs =>
    Console.assignSubscription env userID planID durationDays nowNs
  | .reactivate io id patch nowNs => Console.updateTenantSubscription io id patch nowNs

/-- A reactivation is of another row of the user. -/
def ReplaceCall.Replaces (userID : String) (db : Db) : ReplaceCall → Prop
  | .assign .. => True
  | .reactivate _ id patch _ => patch.status = some .active ∧
      ∃ other, db.subscription id = some other ∧ other.userID = userID ∧ other.status ≠ .active

/-- The faults of the write that follows the end of the old row. -/
def ReplaceCall.secondWrite : ReplaceCall → Faults
  | .assign env .. => env.io 0
  | .reactivate io .. => io 0

/-- The faults of the writes that end the old rows. -/
def ReplaceCall.endWrites : ReplaceCall → ℕ → Faults
  | .assign env .. => fun k => env.io (k + 1)
  | .reactivate io .. => fun k => io (k + 1)

/-- The writes that end what the user has running go through. -/
def ReplaceCall.EndsRunning (call : ReplaceCall) (userID : String) (p : Panel) : Prop :=
  (expireActiveSubscriptions call.endWrites userID p).1.2 = none
  deriving Decidable

/-- The errors that say that a write of a subscription failed. -/
def ServiceError.ofSubscriptionWrite : ServiceError → Bool
  | .conflict msg => msg = "the user already has an active subscription"
  | .notFound msg => msg = "subscription not found"
  | .internal operation =>
    operation = "expire previous subscription" || operation = "write subscription"
  | _ => false

theorem republishUserKeys_error {p : Panel} {e : ServiceError}
    (h : republishUserKeys userID p = .error e) : e.ofSubscriptionWrite = false := by
  unfold republishUserKeys at h
  cases huser : p.db.user userID with
  | none =>
    rw [huser] at h
    rw [← Except.error.inj h]
    rfl
  | some user =>
    rw [huser] at h
    cases hsnap : userPlanSnapshot p.db userID with
    | error e' =>
      simp only [hsnap, bind, Except.bind] at h
      rw [← Except.error.inj h, userPlanSnapshot_error hsnap]
      rfl
    | ok snapshot =>
      simp only [hsnap, bind, Except.bind] at h
      exact absurd h (by simp)

/-- A new row that was not written has changed nothing. -/
theorem exec_openRow_failed {io : Faults} {sub : UserSubscription} {s : Server} {e : ServiceError}
    (h : ((Console.openRow io sub).exec s).1 = .error e) (hwrite : e.ofSubscriptionWrite = true) :
    ((Console.openRow io sub).exec s).2.db = s.db ∧
      ¬ ∃ db', upsertUserSubscription io sub s.db = (.ok (), db') := by
  unfold Console.openRow at h ⊢
  simp only [Task.write, Prog.bind_eq, Prog.step_bind, Prog.exec_act] at h ⊢
  rcases hopened : upsertUserSubscription io sub s.db with ⟨answer, db'⟩
  cases answer with
  | error e' => exact ⟨upsertUserSubscription_error hopened, by simp⟩
  | ok _ =>
    simp only [hopened, Prog.exec_bind, Console.exec_republishUserKeys] at h
    generalize ((resetUser sub.userID).exec { s with db := db' }).2 = s' at h
    refine absurd hwrite (Bool.eq_false_iff.mp ?_)
    cases hpub : republishUserKeys sub.userID s'.toPanel with
    | error e' =>
      rw [hpub] at h
      rw [← Except.error.inj h]
      exact republishUserKeys_error hpub
    | ok p =>
      rw [hpub] at h
      exact absurd h (by simp [Console.publishedAs])

theorem assignablePlan_error {durationDays : ℤ} {live : Option Plan} {e : ServiceError}
    (h : Console.assignablePlan durationDays live = .error e) : e.ofSubscriptionWrite = false := by
  unfold Console.assignablePlan at h
  cases live <;> grind [ServiceError.ofSubscriptionWrite]

theorem patchedTerms_error {patch : SubscriptionPatch} {nowNs : ℤ} {other : UserSubscription}
    {e : ServiceError} (h : patchedTerms patch nowNs other = .error e) :
    e.ofSubscriptionWrite = false := by
  -- each of the three checks refuses an argument, and that is never a write
  simp only [patchedTerms, patchedStatus, patchedExtension, patchedExpiry, bind, Except.bind] at h
  split at h
  · grind [ServiceError.ofSubscriptionWrite]
  · grind [ServiceError.ofSubscriptionWrite]

theorem patchedTerms_active {patch : SubscriptionPatch} {nowNs : ℤ}
    {other updated : UserSubscription} (h : patchedTerms patch nowNs other = .ok updated)
    (hpatch : patch.status = some .active) :
    updated.id = other.id ∧ updated.userID = other.userID ∧ updated.planID = other.planID ∧
      updated.status = .active := by
  obtain ⟨s1, h1, h⟩ := bind_eq_ok_iff.mp h
  obtain ⟨s2, h2, h3⟩ := bind_eq_ok_iff.mp h
  obtain ⟨e1, rfl, -⟩ := patchedExtension_eq_ok h2
  obtain ⟨e2, rfl, -⟩ := patchedExpiry_eq_ok h3
  have hs1 : s1 = { other with status := .active } := by
    unfold patchedStatus at h1
    rw [hpatch] at h1
    exact (Except.ok.inj h1).symm
  rw [hs1]
  exact ⟨rfl, rfl, rfl, rfl⟩

theorem acceptsTerms_free {s : UserSubscription} (hrow : (db.subscription s.id).isSome)
    (hstatus : s.status = .active)
    (hfree : ∀ r ∈ db.userSubscriptions, r.userID = s.userID → Db.isActive r = false)
    (huser : db.hasUser s.userID = true) (hplan : db.hasPlanOrNull s.planID = true) :
    db.AcceptsTerms (storedTerms s) where
  row := hrow
  status := by simp [storedTerms, statusOrActive, hstatus, Status.isSubscriptionStatus]
  alone := fun ⟨_, helse⟩ => absurd helse (Bool.eq_false_iff.mp (Db.activeElsewhere_free hfree))
  user := huser
  plan := hplan

/-- What the tables guarantee of the subscriptions, with the plans they refer to. -/
structure Db.Referenced (db : Db) : Prop extends db.Owned where
  plans : ∀ r ∈ db.userSubscriptions, db.hasPlanOrNull r.planID = true

theorem hasPlan_of_assignable {planID : String} {durationDays days : ℤ} {plan : Plan}
    (h : Console.assignablePlan durationDays (db.plan planID) = .ok (plan, days)) :
    db.hasPlanOrNull plan.id = true := by
  cases hplan : db.plan planID with
  | none =>
    rw [hplan] at h
    exact absurd h (by simp [Console.assignablePlan])
  | some row =>
    have hsame : row = plan := by
      rw [hplan] at h
      grind [Console.assignablePlan]
    rw [← hsame]
    have hid : row.id = planID := key_of_lookup hplan
    simp [Db.hasPlanOrNull, hid, hplan]

section Failed

variable {s : Server} (hdb : s.db.Referenced) (hrow : row ∈ s.db.userSubscriptions)
  (hactive : row.status = .active) {e : ServiceError} (hwrite : e.ofSubscriptionWrite = true)

include hdb hrow hactive hwrite

/-- What a call that failed in a write leaves: everything, or the old row ended, and then the
database has failed the write behind it. -/
def ReplaceCall.Failed (call : ReplaceCall) (row : UserSubscription) (s : Server) : Prop :=
  ((call.task row.userID).exec s).2.db = s.db ∧ ¬ call.EndsRunning row.userID s.toPanel ∨
    ((call.task row.userID).exec s).2.db =
        s.db.withTerms (storedTerms { row with status := .expired }) ∧
      call.EndsRunning row.userID s.toPanel ∧ call.secondWrite ≠ noFaults

theorem assign_failed {env : Console.SaleEnv} {planID : String} {durationDays nowNs : ℤ}
    (hanswer : (((ReplaceCall.assign env planID durationDays nowNs).task row.userID).exec s).1 =
      .error e) : (ReplaceCall.assign env planID durationDays nowNs).Failed row s := by
  simp only [ReplaceCall.Failed, ReplaceCall.task, ReplaceCall.secondWrite, ReplaceCall.EndsRunning,
    ReplaceCall.endWrites] at hanswer ⊢
  unfold Console.assignSubscription at hanswer ⊢
  by_cases hdays : durationDays < 0
  · rw [if_pos hdays] at hanswer
    cases hanswer
    cases hwrite
  by_cases hblank : trimSpace planID = ""
  · rw [if_neg hdays, if_pos hblank] at hanswer
    cases hanswer
    cases hwrite
  rw [if_neg hdays, if_neg hblank] at hanswer ⊢
  simp only [Console.getUser, Task.query, Prog.bind_eq, Prog.read_bind, Prog.exec_act, id_eq]
    at hanswer ⊢
  cases huser : s.db.user row.userID with
  | none =>
    rw [huser] at hanswer
    cases hanswer
    cases hwrite
  | some user =>
    simp only [huser, Prog.exec_act, id_eq] at hanswer ⊢
    cases hplan : Console.assignablePlan durationDays (s.db.plan (trimSpace planID)) with
    | error e' =>
      rw [hplan] at hanswer
      cases hanswer
      exact absurd hwrite (Bool.eq_false_iff.mp (assignablePlan_error hplan))
    | ok sold =>
      obtain ⟨plan, days⟩ := sold
      cases hid : env.subID with
      | none =>
        rw [hplan, hid] at hanswer
        cases hanswer
        cases hwrite
      | some subID =>
        simp only [hplan, hid, Prog.exec_bind] at hanswer ⊢
        rcases exec_expireActive_cases (fun k => env.io (k + 1)) hdb.indexed hrow hactive
          with ⟨n, e', hended, hexec⟩ | ⟨n, hended, hexec⟩
        · rw [hexec, hended]
          exact .inl ⟨rfl, by simp⟩
        · rw [hexec] at hanswer ⊢
          obtain ⟨hsame, hfailed⟩ := exec_openRow_failed hanswer hwrite
          refine .inr ⟨hsame, hended, fun hnone => hfailed ?_⟩
          rw [hnone]
          refine upsertUserSubscription_free rfl (hdb.indexed.ended hrow hactive) ?_ ?_
          · exact Option.isSome_of_eq_some huser
          · exact hasPlan_of_assignable hplan

theorem reactivate_failed {io : ℕ → Faults} {id : String} {patch : SubscriptionPatch} {nowNs : ℤ}
    (hcall : (ReplaceCall.reactivate io id patch nowNs).Replaces row.userID s.db)
    (hanswer : (((ReplaceCall.reactivate io id patch nowNs).task row.userID).exec s).1 =
      .error e) : (ReplaceCall.reactivate io id patch nowNs).Failed row s := by
  obtain ⟨hpatch, other, hother, howner, hended⟩ := hcall
  simp only [ReplaceCall.Failed, ReplaceCall.task, ReplaceCall.secondWrite, ReplaceCall.EndsRunning,
    ReplaceCall.endWrites] at hanswer ⊢
  unfold Console.updateTenantSubscription at hanswer ⊢
  simp only [Task.query, Prog.bind_eq, Prog.read_bind, Prog.exec_act, id_eq, hother] at hanswer ⊢
  cases hpatched : patchedTerms patch nowNs other with
  | error e' =>
    rw [hpatched] at hanswer
    cases hanswer
    exact absurd hwrite (Bool.eq_false_iff.mp (patchedTerms_error hpatched))
  | ok updated =>
    obtain ⟨hid, huserID, hplanID, hstatus⟩ := patchedTerms_active hpatched hpatch
    have hmem : other ∈ s.db.userSubscriptions := mem_of_lookup hother
    have hlast : (s.db.subscription updated.id).isSome := by
      rw [hid, key_of_lookup hother, hother]
      rfl
    simp only [hpatched, Prog.exec_bind, Console.endOthers, hstatus, ne_eq, hended,
      not_false_eq_true, and_self, if_true, huserID, howner] at hanswer ⊢
    rcases exec_expireActive_cases (fun k => io (k + 1)) hdb.indexed hrow hactive
      with ⟨n, e', hended, hexec⟩ | ⟨n, hended, hexec⟩
    · rw [hexec, hended]
      exact .inl ⟨rfl, by simp⟩
    rw [hexec] at hanswer ⊢
    simp only [Prog.exec_bind, Console.exec_writeTerms] at hanswer ⊢
    rcases updateUserSubscriptionTerms_cases (io 0) updated (s.db.withTerms (storedTerms
        { row with status := .expired })) with ⟨e', hfail⟩ | ⟨-, hdone⟩
    · rw [hfail]
      refine .inr ⟨rfl, hended, fun hnone => ?_⟩
      have haccepts : (s.db.withTerms (storedTerms
          { row with status := .expired })).AcceptsTerms (storedTerms updated) := by
        refine acceptsTerms_free ?_ hstatus ?_ ?_ ?_
        · rw [Db.subscription_withTerms, Option.isSome_map]
          exact hlast
        · rw [huserID, howner]
          exact hdb.indexed.ended hrow hactive
        · rw [huserID]
          exact hdb.owners other hmem
        · rw [hplanID]
          exact hdb.plans other hmem
      rw [hnone, updateUserSubscriptionTerms_accepted haccepts] at hfail
      cases hfail
    · simp only [hdone, Prog.exec_bind, Console.exec_republishUserKeys] at hanswer
      refine absurd hwrite (Bool.eq_false_iff.mp ?_)
      generalize hpub : republishUserKeys row.userID _ = published at hanswer
      cases published with
      | error e' =>
        rw [← Except.error.inj hanswer]
        exact republishUserKeys_error hpub
      | ok p => exact absurd hanswer (by simp [Console.publishedAs])

end Failed

/-- **Exactly when a failed assignment takes nothing away.**  The user has an active subscription; a
plan is assigned, or another of the user's rows made active, and the call answers that a
subscription write failed.  What the user has active is the row it was, with its terms, if and only
if the old row was not ended; and it always is if the database does not fail the write behind
that. -/
theorem failed_assignment_keeps_active (s : Server) (hdb : s.db.Referenced)
    (row : UserSubscription) (hrow : row ∈ s.db.userSubscriptions) (hactive : row.status = .active)
    (call : ReplaceCall) (hcall : call.Replaces row.userID s.db) (e : ServiceError)
    (hanswer : ((call.task row.userID).exec s).1 = .error e)
    (hwrite : e.ofSubscriptionWrite = true) :
    (activeRows row.userID ((call.task row.userID).exec s).2.db = [row] ↔
        ¬ call.EndsRunning row.userID s.toPanel) ∧
      (call.secondWrite = noFaults →
        activeRows row.userID ((call.task row.userID).exec s).2.db = [row]) := by
  have hfailed : call.Failed row s := by
    cases call with
    | assign env planID durationDays nowNs =>
      exact assign_failed hdb hrow hactive hwrite hanswer
    | reactivate io id patch nowNs =>
      exact reactivate_failed hdb hrow hactive hwrite hcall hanswer
  rcases hfailed with ⟨hsame, hnot⟩ | ⟨hended, hdone, hfault⟩
  · rw [hsame, hdb.indexed.activeRows_eq hrow hactive]
    exact ⟨iff_of_true rfl hnot, fun _ => rfl⟩
  · have hnone : activeRows row.userID ((call.task row.userID).exec s).2.db = [] := by
      rw [hended]
      refine List.filter_eq_nil_iff.mpr fun r hr hboth => ?_
      rw [Bool.and_eq_true, decide_eq_true_eq] at hboth
      rw [hdb.indexed.ended hrow hactive r hr hboth.1] at hboth
      cases hboth.2
    rw [hnone]
    exact ⟨iff_of_false nofun (not_not.mpr hdone), fun h => absurd h hfault⟩

/-- The row that is running. -/
def runningRow : UserSubscription :=
  { id := "old", userID := "u", planID := "p", planSnapshot := planSnapshotJSON soldPlan,
    startsAtNs := 0, expiresAtNs := 100, periodStartNs := 0, periodUsedBytes := 0,
    autoRenew := true, status := .active }

def runningCustomer : Server :=
  { db :=
      { users := [.customer]
        plans := [soldPlan]
        userSubscriptions := [runningRow] } }

/-- An assignment whose write `k` fails; the new row is write 0, the ends of the old rows follow. -/
def assignFailingAt (k : ℕ) : ReplaceCall :=
  .assign { subID := some "new", io := fun j => if j = k then fun _ => true else noFaults } "p" 30 1

theorem runningCustomer_referenced : runningCustomer.db.Referenced := by
  refine ⟨⟨⟨?_, ?_⟩, ?_⟩, ?_⟩
  · exact List.nodup_singleton _
  · exact List.nodup_singleton _
  · decide +kernel
  · decide +kernel

theorem failed_assignment_keeps_active_first_write :
    (((assignFailingAt 1).task "u").exec runningCustomer).1 =
        .error (.internal "expire previous subscription") ∧
      activeRows "u" (((assignFailingAt 1).task "u").exec runningCustomer).2.db = [runningRow] := by
  have hanswer : (((assignFailingAt 1).task "u").exec runningCustomer).1 =
      .error (.internal "expire previous subscription") := by decide +kernel
  exact ⟨hanswer, (failed_assignment_keeps_active runningCustomer runningCustomer_referenced
    runningRow (List.mem_singleton.mpr rfl) rfl (assignFailingAt 1) trivial _ hanswer rfl).1.mpr
      (by decide +kernel)⟩

/-- **A failed assignment leaves the customer without a subscription.**  The old row is ended in a
write of its own, and then the write of the new row fails. -/
theorem failed_assignment_leaves_nothing : activeRows "u" runningCustomer.db = [runningRow] ∧
      (((assignFailingAt 0).task "u").exec runningCustomer).1 =
        .error (.internal "write subscription") ∧
      activeRows "u" (((assignFailingAt 0).task "u").exec runningCustomer).2.db = [] := by
  decide +kernel

end Prism
