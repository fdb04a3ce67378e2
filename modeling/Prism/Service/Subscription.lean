import Prism.Service.AccessKey
import Prism.State.Subscription

/-!
# The console's writes to a subscription

`internal/service/control_plane_tenant_subscription.go` and the two loops of
`control_plane_plan.go`.  Each of them reads subscription rows, changes some terms of the copy and
writes the whole set of terms back with `UpdateUserSubscriptionTerms`:

* `UpdateTenantSubscription`, a patch: a status, an extension, an explicit expiry;
* `applyPlanToExisting` and `stopSubscriptionsOnPlan`, over the active subscriptions of a plan;
* `expireActiveSubscriptions`, over what a user has running.

The change and the write are kept apart here, since other writers may come between the read and the
write.
-/

namespace Prism

/-- A parsed patch.  A number in it has passed through an `int64`. -/
structure SubscriptionPatch where
  status : Option Status := none
  extendDays : Option ℤ := none
  expiresAtNs : Option ℤ := none
  inRange : ∀ v, expiresAtNs = some v → v ≤ maxInt64 := by simp

variable (patch : SubscriptionPatch)

/-- The status a patch asks for, if it is one the table admits. -/
def patchedStatus (s : UserSubscription) : Except ServiceError UserSubscription :=
  match patch.status with
  | none => .ok s
  | some status =>
    if status.isSubscriptionStatus then .ok { s with status := status }
    else .error (.invalidArgument "status: must be active, expired or suspended")

/-- The extension a patch asks for, counted from now or from the expiry, whichever is later. -/
def patchedExtension (nowNs : ℤ) (s : UserSubscription) : Except ServiceError UserSubscription :=
  match patch.extendDays with
  | none => .ok s
  | some days =>
    if days ≤ 0 then .error (.invalidArgument "extend_days: must be greater than zero")
    else .ok { s with expiresAtNs := expiryFromDays days (max nowNs s.expiresAtNs) }

def patchedExpiry (s : UserSubscription) : Except ServiceError UserSubscription :=
  match patch.expiresAtNs with
  | none => .ok s
  | some v =>
    if v < 0 then .error (.invalidArgument "expires_at_ns: must not be negative")
    else .ok { s with expiresAtNs := v }

/-- The terms after a patch: status, extension and expiry in this order. -/
def patchedTerms (nowNs : ℤ) (s : UserSubscription) : Except ServiceError UserSubscription := do
  let s ← patchedStatus patch s
  let s ← patchedExtension patch nowNs s
  patchedExpiry patch s

/-- A stored snapshot with its status rewritten to disabled; one that does not decode becomes the
plan as it stands, disabled. -/
def disabledPlanSnapshot (raw : SnapshotText) (plan : Plan) : SnapshotText :=
  match planFromSnapshotJSON raw with
  | .ok stored => planSnapshotJSON { stored with status := .disabled }
  | .error _ => planSnapshotJSON { plan with status := .disabled }

/-- What an operator's write does to the copy it read. -/
inductive TermsChange where
  /-- `UpdateTenantSubscription` -/
  | patch (p : SubscriptionPatch) (nowNs : ℤ)
  /-- `applyPlanToExisting` -/
  | applyPlan (plan : Plan)
  /-- `stopSubscriptionsOnPlan` -/
  | stop (plan : Plan)
  /-- `expireActiveSubscriptions` -/
  | expire

def TermsChange.apply : TermsChange → UserSubscription → Except ServiceError UserSubscription
  | .patch p nowNs, s => patchedTerms p nowNs s
  | .applyPlan plan, s => .ok { s with planSnapshot := planSnapshotJSON plan }
  | .stop plan, s => .ok { s with planSnapshot := disabledPlanSnapshot s.planSnapshot plan }
  | .expire, s => .ok { s with status := .expired }

/-- Is the row one the change is made to?  A patch takes the row it is addressed to, the loops
only active rows, those of a plan only its own. -/
def TermsChange.selects : TermsChange → UserSubscription → Bool
  | .patch _ _, _ => true
  | .applyPlan plan, s => s.status = .active && s.planID = plan.id
  | .stop plan, s => s.status = .active && s.planID = plan.id
  | .expire, s => s.status = .active

def TermsChange.setsExpiry : TermsChange → Bool
  | .patch p _ => p.expiresAtNs.isSome
  | _ => false

/-! ## What a change keeps -/

variable {patch : SubscriptionPatch}

theorem patchedStatus_eq_ok {s t : UserSubscription} (h : patchedStatus patch s = .ok t) :
    ∃ status, t = { s with status := status } := by
  unfold patchedStatus at h
  split at h
  · exact ⟨s.status, (Except.ok.inj h).symm⟩
  · split at h
    · exact ⟨_, (Except.ok.inj h).symm⟩
    · cases h

theorem patchedExtension_eq_ok {nowNs : ℤ} {s t : UserSubscription}
    (h : patchedExtension patch nowNs s = .ok t) :
    ∃ e, t = { s with expiresAtNs := e } ∧ (s.expiresAtNs ≤ maxInt64 → s.expiresAtNs ≤ e) ∧
      (e = s.expiresAtNs ∨ e ≤ maxInt64) := by
  unfold patchedExtension at h
  split at h
  · exact ⟨s.expiresAtNs, (Except.ok.inj h).symm, fun _ => le_refl _, .inl rfl⟩
  split_ifs at h
  rename_i days _ hdays
  refine ⟨_, (Except.ok.inj h).symm, ?_, .inr ?_⟩
  · intro hs
    exact le_expiryFromDays (not_le.mp hdays) (le_max_right _ _) hs
  · exact expiryFromDays_le_maxInt64 _ _

theorem patchedExpiry_eq_ok {s t : UserSubscription} (h : patchedExpiry patch s = .ok t) :
    ∃ e, t = { s with expiresAtNs := e } ∧
      (e = s.expiresAtNs ∨ patch.expiresAtNs.isSome = true ∧ e ≤ maxInt64) := by
  unfold patchedExpiry at h
  split at h
  · exact ⟨s.expiresAtNs, (Except.ok.inj h).symm, .inl rfl⟩
  · rename_i v hv
    split_ifs at h
    exact ⟨v, (Except.ok.inj h).symm, Or.inr ⟨by rw [hv]; rfl, patch.inRange v hv⟩⟩

/-- **What a change leaves alone**: the identity of the row, its period index, and its expiry
unless the change moves it forward or sets one of its own. -/
structure KeepsPeriod (change : TermsChange) (s t : UserSubscription) : Prop where
  id : t.id = s.id
  userID : t.userID = s.userID
  periodIndex : t.periodIndex = s.periodIndex
  le_expiry : change.setsExpiry = false → s.expiresAtNs ≤ maxInt64 → s.expiresAtNs ≤ t.expiresAtNs
  expiry_le : s.expiresAtNs ≤ maxInt64 → t.expiresAtNs ≤ maxInt64

variable {change : TermsChange}

theorem TermsChange.keepsPeriod {s t : UserSubscription} (h : change.apply s = .ok t) :
    KeepsPeriod change s t := by
  cases change with
  | patch p nowNs =>
    obtain ⟨s1, h1, h⟩ := bind_eq_ok_iff.mp h
    obtain ⟨s2, h2, h3⟩ := bind_eq_ok_iff.mp h
    obtain ⟨status, rfl⟩ := patchedStatus_eq_ok h1
    obtain ⟨e1, rfl, hmono, hmax⟩ := patchedExtension_eq_ok h2
    obtain ⟨e2, rfl, hexp⟩ := patchedExpiry_eq_ok h3
    refine ⟨rfl, rfl, rfl, ?_, ?_⟩
    · intro hset hs
      rcases hexp with he | ⟨hset', -⟩
      · rw [he]
        exact hmono hs
      · exact absurd hset (by simp [TermsChange.setsExpiry, hset'])
    · intro hs
      rcases hexp with he | ⟨-, he⟩
      · rw [he]
        rcases hmax with he1 | he1
        · rw [he1]
          exact hs
        · exact he1
      · exact he
  | applyPlan | stop | expire =>
    rw [← Except.ok.inj h]
    exact ⟨rfl, rfl, rfl, fun _ _ => le_refl _, fun hs => hs⟩

/-- What the console makes of a failed write. -/
def mapSubscriptionWriteError (operation : String) : RepoError → ServiceError
  | .conflict _ => .conflict "the user already has an active subscription"
  | .notFound => .notFound "subscription not found"
  | _ => .internal operation

/-- Write the changed terms of every selected row in turn, from position `k` of the list on, and
stop at the first write that fails.  `publish` says whether the keys of the user follow. -/
def rewriteTerms (io : ℕ → Faults) (operation : String) (publish : Bool) (change : TermsChange) :
    ℕ → List UserSubscription → ℕ → Panel → (ℕ × Option ServiceError) × Panel
  | _, [], n, p => ((n, none), p)
  | k, sub :: subs, n, p =>
    if !change.selects sub then rewriteTerms io operation publish change (k + 1) subs n p
    else
      match change.apply sub with
      | .error e => ((n, some e), p)
      | .ok updated =>
        match updateUserSubscriptionTerms (io k) updated p.db with
        | (.error e, db) =>
          ((n, some (mapSubscriptionWriteError operation e)), { p with db := db })
        | (.ok (), db) =>
          if !publish then
            rewriteTerms io operation publish change (k + 1) subs (n + 1) { p with db := db }
          else
            match republishUserKeys updated.userID { p with db := db } with
            | .error e => ((n, some e), { p with db := db })
            | .ok p' => rewriteTerms io operation publish change (k + 1) subs (n + 1) p'

variable {sub : UserSubscription}

theorem rewriteTerms_skip (h : change.selects sub = false) (io : ℕ → Faults) (operation : String)
    (publish : Bool) (subs : List UserSubscription) (k n : ℕ) (p : Panel) :
    rewriteTerms io operation publish change k (sub :: subs) n p =
      rewriteTerms io operation publish change (k + 1) subs n p := by
  rw [rewriteTerms, h]
  exact if_pos rfl

theorem rewriteTerms_refused {e : ServiceError} (hsel : change.selects sub = true)
    (h : change.apply sub = .error e) (io : ℕ → Faults) (operation : String) (publish : Bool)
    (subs : List UserSubscription) (k n : ℕ) (p : Panel) :
    rewriteTerms io operation publish change k (sub :: subs) n p = ((n, some e), p) := by
  rw [rewriteTerms, if_neg (by simp [hsel]), h]

/-- **One turn of the loop**: the terms of a selected row are written, and the loop ends there or
goes on, with nothing but keys changed behind the write. -/
theorem rewriteTerms_turn {updated : UserSubscription} (hsel : change.selects sub = true)
    (h : change.apply sub = .ok updated) (io : ℕ → Faults) (operation : String) (publish : Bool)
    (subs : List UserSubscription) (k n : ℕ) (p : Panel) :
    (rewriteTerms io operation publish change k (sub :: subs) n p).2.db =
        (updateUserSubscriptionTerms (io k) updated p.db).2 ∨
      ∃ p' : Panel, p'.db = (updateUserSubscriptionTerms (io k) updated p.db).2 ∧
        rewriteTerms io operation publish change k (sub :: subs) n p =
          rewriteTerms io operation publish change (k + 1) subs (n + 1) p' := by
  rw [rewriteTerms, if_neg (by simp [hsel]), h]
  simp only
  cases hwrite : updateUserSubscriptionTerms (io k) updated p.db with
  | mk answer db =>
    cases answer with
    | error e => exact .inl rfl
    | ok u =>
      simp only
      cases publish with
      | false => exact .inr ⟨⟨db, p.keys⟩, rfl, if_pos rfl⟩
      | true =>
        rw [if_neg (by simp)]
        cases hpub : republishUserKeys updated.userID ⟨db, p.keys⟩ with
        | error e => exact .inl rfl
        | ok p' => exact .inr ⟨p', republishUserKeys_db hpub, rfl⟩

theorem rewriteTerms_invariant {I : Db → Prop} (io : ℕ → Faults) (operation : String)
    (publish : Bool) :
    ∀ (subs : List UserSubscription) (k n : ℕ) (p : Panel),
      (∀ sub ∈ subs, change.selects sub = true → ∀ updated, change.apply sub = .ok updated →
        ∀ io db, I db → I (updateUserSubscriptionTerms io updated db).2) →
      I p.db → I (rewriteTerms io operation publish change k subs n p).2.db
  | [], _, _, _, _, h => h
  | sub :: subs, k, n, p, hwrite, h => by
    have hrest : ∀ k n p, I p.db → I (rewriteTerms io operation publish change k subs n p).2.db :=
      fun k n p => rewriteTerms_invariant io operation publish subs k n p
        fun t ht => hwrite t (.tail _ ht)
    cases hsel : change.selects sub with
    | false =>
      rw [rewriteTerms_skip hsel]
      exact hrest (k + 1) n p h
    | true =>
      cases happly : change.apply sub with
      | error e =>
        rw [rewriteTerms_refused hsel happly]
        exact h
      | ok updated =>
        have hdone := hwrite sub (.head _) hsel updated happly (io k) p.db h
        rcases rewriteTerms_turn hsel happly io operation publish subs k n p with
          hstop | ⟨p', hp', hgo⟩
        · rwa [hstop]
        · rw [hgo]
          exact hrest (k + 1) (n + 1) p' (by rwa [hp'])

/-- The active subscriptions, newest start first, ties by id. -/
def listActiveUserSubscriptions (db : Db) : List UserSubscription :=
  (db.userSubscriptions.filter Db.isActive).mergeSort fun s t =>
    decide (t.startsAtNs < s.startsAtNs) ||
      (s.startsAtNs = t.startsAtNs && decide (s.id ≤ t.id))

variable (io : ℕ → Faults)

/-- Force the snapshots of the plan's active subscriptions to status disabled. -/
def stopSubscriptionsOnPlan (plan : Plan) (p : Panel) : (ℕ × Option ServiceError) × Panel :=
  rewriteTerms io "stop subscription" true (.stop plan) 0 (listActiveUserSubscriptions p.db) 0 p

def expireActiveSubscriptions (userID : String) (p : Panel) : (ℕ × Option ServiceError) × Panel :=
  rewriteTerms io "expire previous subscription" false .expire 0
    (p.db.userSubscriptions.filter fun r => r.userID = userID) 0 p

/-- Apply a patch: read, change, end what else is running on a reactivation, write, republish. -/
def updateTenantSubscription (id : String) (patch : SubscriptionPatch)
    (nowNs : ℤ) (p : Panel) : Except ServiceError UserSubscription × Panel :=
  match p.db.subscription id with
  | none => (.error (.notFound "subscription not found"), p)
  | some row =>
    match patchedTerms patch nowNs row with
    | .error e => (.error e, p)
    | .ok updated =>
      let ended :=
        if updated.status = .active ∧ row.status ≠ .active then
          expireActiveSubscriptions (fun k => io (k + 1)) updated.userID p
        else ((0, none), p)
      match ended with
      | ((_, some e), p) => (.error e, p)
      | ((_, none), p) =>
        match updateUserSubscriptionTerms (io 0) updated p.db with
        | (.error e, db) =>
          (.error (mapSubscriptionWriteError "write subscription" e), { p with db := db })
        | (.ok (), db) =>
          match republishUserKeys updated.userID { p with db := db } with
          | .error e => (.error e, { p with db := db })
          | .ok p' => (.ok updated, p')

/-- **What a patch does to the tables**: nothing; or it may end what else is running, and then the
patched terms of the row it read are written, unless ending the others failed. -/
theorem updateTenantSubscription_db_cases (id : String)
    (patch : SubscriptionPatch) (nowNs : ℤ) (p : Panel) :
    (updateTenantSubscription io id patch nowNs p).2.db = p.db ∨
      ∃ row updated, p.db.subscription id = some row ∧ patchedTerms patch nowNs row = .ok updated ∧
        ∃ p' : Panel,
          (p' = p ∨ p' = (expireActiveSubscriptions (fun k => io (k + 1)) updated.userID p).2) ∧
          ((updateTenantSubscription io id patch nowNs p).2.db = p'.db ∨
            (updateTenantSubscription io id patch nowNs p).2.db =
              (updateUserSubscriptionTerms (io 0) updated p'.db).2) := by
  unfold updateTenantSubscription
  cases hrow : p.db.subscription id with
  | none => exact .inl rfl
  | some row =>
    simp only
    cases hpatch : patchedTerms patch nowNs row with
    | error e => exact .inl rfl
    | ok updated =>
      refine .inr ⟨row, updated, rfl, hpatch, ?_⟩
      simp only
      generalize hended : (if updated.status = .active ∧ row.status ≠ .active then
          expireActiveSubscriptions (fun k => io (k + 1)) updated.userID p
        else ((0, none), p)) = ended
      have hpanel : ended.2 = p ∨
          ended.2 = (expireActiveSubscriptions (fun k => io (k + 1)) updated.userID p).2 := by
        rw [← hended]
        split
        · exact .inr rfl
        · exact .inl rfl
      obtain ⟨⟨n, failed⟩, p'⟩ := ended
      refine ⟨p', hpanel, ?_⟩
      cases failed with
      | some e => exact .inl rfl
      | none =>
        simp only
        cases hwrite : updateUserSubscriptionTerms (io 0) updated p'.db with
        | mk answer db =>
          cases answer with
          | error e => exact .inr rfl
          | ok u =>
            simp only
            cases hpub : republishUserKeys updated.userID ⟨db, p'.keys⟩ with
            | error e => exact .inr rfl
            | ok p'' => exact .inr (republishUserKeys_db hpub)

end Prism
