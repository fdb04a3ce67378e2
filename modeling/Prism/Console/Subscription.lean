import Prism.Console.Publish
import Prism.Service.Subscription

/-!
# The console's writes to a subscription, step by step

`UpdateTenantSubscription` and the loops that rewrite terms, as the sequences of their reads, writes
and publishes.
-/

namespace Prism
namespace Console

/-- One write of the terms of a subscription. -/
def writeTerms (io : Faults) (sub : UserSubscription) : Task (Except RepoError Unit) :=
  Task.write (fun _ r => .termsWritten sub (r.1 = .ok ())) (updateUserSubscriptionTerms io sub)

/-- The loop that rewrites terms: the rows it selects, in order, until a write fails; it answers
with the number written, and publishes the keys of each owner if told to. -/
def rewriteTerms (io : ℕ → Faults) (operation : String) (publish : Bool) (change : TermsChange) :
    ℕ → List UserSubscription → ℕ → Task (ℕ × Option ServiceError)
  | _, [], n => pure (n, none)
  | k, sub :: subs, n =>
    if !change.selects sub then rewriteTerms io operation publish change (k + 1) subs n
    else
      match change.apply sub with
      | .error e => pure (n, some e)
      | .ok updated => do
        match ← writeTerms (io k) updated with
        | .error e => pure (n, some (mapSubscriptionWriteError operation e))
        | .ok () =>
          if !publish then rewriteTerms io operation publish change (k + 1) subs (n + 1)
          else do
            match ← republishUserKeys updated.userID with
            | .error e => pure (n, some e)
            | .ok () => rewriteTerms io operation publish change (k + 1) subs (n + 1)

variable (io : ℕ → Faults)

/-- `expireActiveSubscriptions`: end the account's active rows, without publishing. -/
def expireActiveSubscriptions (userID : String) : Task (ℕ × Option ServiceError) := do
  let rows ← Task.query .subscriptionsListed fun db =>
    db.userSubscriptions.filter fun r => r.userID = userID
  rewriteTerms io "expire previous subscription" false .expire 0 rows 0

/-- A row that becomes active ends the account's other rows first. -/
def endOthers (row updated : UserSubscription) : Task (ℕ × Option ServiceError) :=
  if updated.status = .active ∧ row.status ≠ .active then
    expireActiveSubscriptions io updated.userID
  else pure (0, none)

/-- `UpdateTenantSubscription`: the others are ended before the row is written, in a write of its
own. -/
def updateTenantSubscription (id : String) (patch : SubscriptionPatch)
    (nowNs : ℤ) : Task (Except ServiceError UserSubscription) := do
  let some row ← Task.query (.subscriptionRead id) fun db => db.subscription id
    | pure (.error (.notFound "subscription not found"))
  match patchedTerms patch nowNs row with
  | .error e => pure (.error e)
  | .ok updated => do
    match ← endOthers (fun k => io (k + 1)) row updated with
    | (_, some e) => pure (.error e)
    | (_, none) => do
      match ← writeTerms (io 0) updated with
      | .error e => pure (.error (mapSubscriptionWriteError "write subscription" e))
      | .ok () => do
        match ← republishUserKeys updated.userID with
        | .error e => pure (.error e)
        | .ok () => pure (.ok updated)

/-- The answer of a call on the panel, and the server with the new panel. -/
def withPanel {α : Type} (s : Server) (r : α × Panel) : α × Server :=
  (r.1, { s with toPanel := r.2 })

theorem exec_writeTerms (io : Faults) (sub : UserSubscription) (s : Server) :
    (writeTerms io sub).exec s = ((updateUserSubscriptionTerms io sub s.db).1,
        { s with db := (updateUserSubscriptionTerms io sub s.db).2 }) := rfl

variable (io : ℕ → Faults)

theorem exec_rewriteTerms (operation : String) (publish : Bool) (change : TermsChange)
    (subs : List UserSubscription) (k n : ℕ) (s : Server) :
    (rewriteTerms io operation publish change k subs n).exec s =
      withPanel s (Prism.rewriteTerms io operation publish change k subs n s.toPanel) := by
  induction subs generalizing k n s with
  | nil => rfl
  | cons sub subs ih =>
    cases hsel : change.selects sub with
    | false =>
      rw [rewriteTerms_skip hsel, rewriteTerms, hsel]
      exact ih (k + 1) n s
    | true =>
      cases happly : change.apply sub with
      | error e =>
        rw [rewriteTerms_refused hsel happly, rewriteTerms, if_neg (by simp [hsel]), happly]
        rfl
      | ok updated =>
        rw [rewriteTerms, Prism.rewriteTerms, if_neg (by simp [hsel]),
          if_neg (by simp [hsel]), happly]
        simp only [Prog.bind_eq, Prog.exec_bind, exec_writeTerms]
        cases hwrite : updateUserSubscriptionTerms (io k) updated s.db with
        | mk answer db =>
          cases answer with
          | error e => rfl
          | ok _ =>
            cases publish with
            | false => exact ih (k + 1) (n + 1) { s with db := db }
            | true =>
              simp only [Bool.not_true, Bool.false_eq_true, if_false, Prog.exec_bind,
                exec_republishUserKeys]
              cases hpub : Prism.republishUserKeys updated.userID { s.toPanel with db := db } with
              | error e => rfl
              | ok p => exact ih (k + 1) (n + 1) { s with toPanel := p }

theorem exec_expireActiveSubscriptions (userID : String) (s : Server) :
    (expireActiveSubscriptions io userID).exec s =
      withPanel s (Prism.expireActiveSubscriptions io userID s.toPanel) :=
  exec_rewriteTerms io _ _ _ _ 0 0 s

/-- **A patch alone** is the function of the service. -/
theorem exec_updateTenantSubscription (id : String) (patch : SubscriptionPatch) (nowNs : ℤ)
    (s : Server) :
    (updateTenantSubscription io id patch nowNs).exec s =
      withPanel s (Prism.updateTenantSubscription io id patch nowNs s.toPanel) := by
  unfold updateTenantSubscription Prism.updateTenantSubscription
  simp only [Task.query, Prog.bind_eq, Prog.read_bind, Prog.exec_act, id_eq]
  cases hrow : s.db.subscription id with
  | none => rfl
  | some row =>
    simp only
    cases hpatch : patchedTerms patch nowNs row with
    | error e => rfl
    | ok updated =>
      simp only [Prog.exec_bind]
      have hended : (endOthers (fun k => io (k + 1)) row updated).exec s =
          withPanel s (if updated.status = .active ∧ row.status ≠ .active then
            Prism.expireActiveSubscriptions (fun k => io (k + 1)) updated.userID s.toPanel
          else ((0, none), s.toPanel)) := by
        unfold endOthers
        split
        · exact exec_expireActiveSubscriptions _ _ s
        · rfl
      rw [hended]
      generalize (if updated.status = .active ∧ row.status ≠ .active then
          Prism.expireActiveSubscriptions (fun k => io (k + 1)) updated.userID s.toPanel
        else ((0, none), s.toPanel)) = ended
      obtain ⟨⟨n, failed⟩, p⟩ := ended
      cases failed with
      | some e => rfl
      | none =>
        simp only [withPanel, Prog.exec_bind, exec_writeTerms]
        cases hwrite : updateUserSubscriptionTerms (io 0) updated p.db with
        | mk answer db =>
          cases answer with
          | error e => rfl
          | ok _ =>
            simp only [Prog.exec_bind, exec_republishUserKeys]
            cases hpub : Prism.republishUserKeys updated.userID { p with db := db } with
            | error | ok => rfl

end Console
end Prism
