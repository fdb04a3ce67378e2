import Prism.Service.Server

/-!
# Publishing, step by step

A console operation reads rows, writes rows and publishes keys, and between any two of these steps
another operation may come in.  The operations of `internal/service` are given here as the sequences
of their steps, under the names they have in the source; `exec` runs one alone, and is then what the
functions of `Prism.Service` compute.

This file has the part they share.  `republishUserKeys` reads the account, the keys and the
subscriptions one after the other, and then puts the keys into the live store one by one.
-/

namespace Prism
namespace Console

def getUser (userID : String) : Task (Option User) :=
  Task.query (.userRead userID) fun db => db.user userID

/-- The live snapshot of the row that decides the user's access. -/
def userPlanSnapshot (userID : String) : Task (Except ServiceError PlanSnapshot) :=
  Task.query (.subscriptionsRead userID) fun db => Prism.userPlanSnapshot db userID

def republishRows (user : User) (snapshot : PlanSnapshot) : List AccessKey → Task Unit
  | [] => pure ()
  | row :: rows => do
    if row.status ≠ .active then
      Task.publish (.keyDropped row.id) fun s => s.delete row.id
    else
      Task.publish (.keyPublished row.id) fun s => s.publish row user snapshot
    republishRows user snapshot rows

def republishUserKeys (userID : String) : Task (Except ServiceError Unit) := do
  let some user ← getUser userID
    | pure (.error (.notFound "user not found"))
  let rows ← Task.query (.keysListed userID) fun db => db.accessKeysOf userID
  match ← userPlanSnapshot userID with
  | .error e => pure (.error e)
  | .ok snapshot => do
    republishRows user snapshot rows
    pure (.ok ())

def publishKey (row : AccessKey) (user : User) : Task (Except ServiceError Unit) :=
  if row.status ≠ .active then do
    Task.publish (.keyDropped row.id) fun s => s.delete row.id
    pure (.ok ())
  else do
    match ← userPlanSnapshot row.userID with
    | .error e => pure (.error e)
    | .ok snapshot => do
      Task.publish (.keyPublished row.id) fun s => s.publish row user snapshot
      pure (.ok ())

end Console

/-- The event of a step that reads what is to be published, or publishes it. -/
def ServerEvent.publishes : ServerEvent → Bool
  | .userRead _ | .keysListed _ | .subscriptionsRead _ | .keyPublished _ | .keyDropped _ => true
  | _ => false

/-- A publication changes the live store and nothing else. -/
def Publishing (s : Server) (e : ServerEvent) (s' : Server) : Prop :=
  s'.db = s.db ∧ s'.usage = s.usage ∧ e.publishes = true

namespace Console

theorem steps_query {α β : Type} {A : β → Prop} {event : ServerEvent} {f : Db → α} {g : α → Task β}
    (he : event.publishes = true) (hg : ∀ db, Prog.Steps Publishing A (g (f db))) :
    Prog.Steps Publishing A ((Task.query event f).bind g) :=
  fun s => ⟨⟨rfl, rfl, he⟩, hg s.db⟩

theorem steps_publish {β : Type} {A : β → Prop} {event : ServerEvent} {f : KeyStore → KeyStore}
    {g : Unit → Task β} (he : event.publishes = true) (hg : Prog.Steps Publishing A (g ())) :
    Prog.Steps Publishing A ((Task.publish event f).bind g) :=
  fun _ => ⟨⟨rfl, rfl, he⟩, hg⟩

variable (user : User)

theorem steps_republishRows (snapshot : PlanSnapshot) (rows : List AccessKey) :
    (republishRows user snapshot rows).Steps Publishing fun _ => True := by
  induction rows with
  | nil => trivial
  | cons row rows ih =>
    unfold republishRows
    by_cases hstatus : row.status ≠ .active
    · rw [if_pos hstatus]
      exact steps_publish rfl ih
    · rw [if_neg hstatus]
      exact steps_publish rfl ih

/-- How a publication fails once the account has been read: the plan does not decode. -/
def UnlessUnreadable (a : Except ServiceError Unit) : Prop :=
  ∀ e, a = .error e → e = .internal "read plan snapshot"

theorem steps_publishing (userID : String) : Prog.Steps Publishing UnlessUnreadable (do
      let rows ← Task.query (.keysListed userID) fun db => db.accessKeysOf userID
      match ← userPlanSnapshot userID with
      | .error e => pure (.error e)
      | .ok snapshot => do
        republishRows user snapshot rows
        pure (.ok ())) := by
  refine steps_query rfl fun db1 => steps_query rfl fun db2 => ?_
  cases hsnap : Prism.userPlanSnapshot db2 userID with
  | error e => exact fun e' he => (Except.error.inj he).symm.trans (userPlanSnapshot_error hsnap)
  | ok snapshot =>
    exact (steps_republishRows user snapshot _).bind fun _ _ e he => nomatch he

variable (userID : String)

theorem steps_republishUserKeys : (republishUserKeys userID).Steps Publishing fun _ => True := by
  unfold republishUserKeys
  refine steps_query rfl fun db => ?_
  cases db.user userID with
  | none => trivial
  | some user => exact (steps_publishing user userID).mono (fun _ _ _ h => h) fun _ _ => trivial

theorem steps_publishKey (row : AccessKey) (user : User) :
    (publishKey row user).Steps Publishing fun _ => True := by
  unfold publishKey
  by_cases hstatus : row.status ≠ .active
  · rw [if_pos hstatus]
    exact steps_publish rfl trivial
  · rw [if_neg hstatus]
    refine steps_query rfl fun db => ?_
    cases Prism.userPlanSnapshot db row.userID with
    | error e => trivial
    | ok snapshot => exact steps_publish rfl trivial

/-- The answer and the server after a call that answers with a panel, or fails and changes
nothing. -/
def publishedAs (s : Server) : Except ServiceError Panel → Except ServiceError Unit × Server
  | .ok p => (.ok (), { s with toPanel := p })
  | .error e => (.error e, s)

theorem exec_republishRows (snapshot : PlanSnapshot) (rows : List AccessKey) (s : Server) :
    (republishRows user snapshot rows).exec s =
      ((), { s with keys := rows.foldl (republishRow user snapshot) s.keys }) := by
  induction rows generalizing s with
  | nil => rfl
  | cons row rows ih =>
    rw [List.foldl_cons]
    by_cases hstatus : row.status ≠ .active
    · rw [republishRow, if_pos hstatus]
      unfold republishRows
      rw [if_pos hstatus]
      exact ih _
    · rw [republishRow, if_neg hstatus]
      unfold republishRows
      rw [if_neg hstatus]
      exact ih _

/-- **Republishing alone** is the function of the service. -/
theorem exec_republishUserKeys (s : Server) : (republishUserKeys userID).exec s =
      publishedAs s (Prism.republishUserKeys userID s.toPanel) := by
  unfold republishUserKeys Prism.republishUserKeys
  cases huser : s.db.user userID with
  | none =>
    simp only [getUser, Task.query, Prog.bind_eq, Prog.read_bind, Prog.exec_act, huser]
    rfl
  | some user =>
    cases hsnap : Prism.userPlanSnapshot s.db userID with
    | error e =>
      simp only [getUser, userPlanSnapshot, Task.query, Prog.bind_eq, Prog.read_bind,
        Prog.exec_act, huser, hsnap, id]
      rfl
    | ok snapshot =>
      simp only [getUser, userPlanSnapshot, Task.query, Prog.bind_eq, Prog.read_bind,
        Prog.exec_act, huser, hsnap, id, Prog.exec_bind, exec_republishRows]
      rfl

theorem exec_republishUserKeys_db (s : Server) : ((republishUserKeys userID).exec s).2.db = s.db ∧
      ((republishUserKeys userID).exec s).2.usage = s.usage := by
  rw [exec_republishUserKeys]
  cases hpub : Prism.republishUserKeys userID s.toPanel with
  | error e => exact ⟨rfl, rfl⟩
  | ok p => exact ⟨republishUserKeys_db hpub, rfl⟩

end Console
end Prism
