import Prism.Service.AccessKey
import Prism.Usage.Counters

/-!
# The server and its requests

The server is the panel together with the live counters.  A request is a program over it: each of
its steps is one thing the source does at once (one statement or one transaction of the database,
one change to the live key store, one critical section of the counters), and between two steps
other requests run.  The mutexes are those the source takes around more than one such step.

Every step leaves an event.  An event says what was read or written and, where a statement about
interleavings turns on it, with which outcome.
-/

namespace Prism

/-- What is stored, what the data plane reads, and what it has counted. -/
structure Server extends Panel where
  usage : Counters := {}

inductive Mutex where
  /-- `ControlPlaneService.userWriteMu` -/
  | userWrite
  /-- `ControlPlaneService.keyCreateMu` -/
  | keyCreate
  /-- `Flusher.mu` -/
  | flush
  /-- `PeriodReset.mu` -/
  | period
  deriving DecidableEq

inductive ServerEvent where
  | bucketAdded (key : CounterKey) (delta : Delta)
  | bucketDrained (key : CounterKey) (delta : Delta)
  | bucketRequeued (key : CounterKey) (delta : Delta)
  | bucketsListed
  | userAdded (userID : String) (bytes : ℤ)
  | windowRead (userID : String)
  /-- the flusher charged the user's subscription, or failed to -/
  | charged (userID : String) (bytes : ℤ) (done : Bool)
  | marked (userID : String) (bytes : ℤ)
  | seedListed
  | markRead (userID : String)
  | restored (userID : String) (bytes : ℤ)
  | markStored (userID : String) (total : ℤ)
  | seedReturned
  | aggregateReset (userID : String)
  | markReset (userID : String)
  | subscriptionsListed
  | planRead (planID : String)
  | planWritten (plan : Plan) (done : Bool)
  /-- the active subscriptions were counted, plan by plan -/
  | activeCounted
  /-- the active subscriptions were listed, to rewrite those on the plan -/
  | activeListed (planID : String)
  /-- the guarded update of a period: the copy it was asked with, the row it found and the row it
  left -/
  | periodReset (sub : UserSubscription) (before after : Option UserSubscription)
  | userRead (userID : String)
  | usersListed
  | accountInserted (id : String) (done : Bool)
  /-- a column of an account was to be written: the row before and the row after -/
  | accountWritten (id : String) (before after : Option User)
  | accountDeleted (id : String) (done : Bool)
  | keysListed (userID : String)
  | keyRead (keyID : String)
  /-- the active keys of a user were counted, and there is room for another or not -/
  | keysCounted (userID : String) (room : Bool)
  | keyInserted (userID keyID : String) (done : Bool)
  /-- a key was to be written: the row before and the row after -/
  | keyWritten (keyID : String) (before after : Option AccessKey)
  | keyDeleted (keyID : String) (done : Bool)
  | keyPublished (keyID : String)
  | keyDropped (keyID : String)
  | subscriptionRead (id : String)
  /-- the subscriptions of a user were read, to find the one that decides -/
  | subscriptionsRead (userID : String)
  | renewableListed
  /-- a renewal was asked for, and went through or not -/
  | renewed (sub : UserSubscription) (done : Bool)
  /-- a purchase was asked for, and went through or not -/
  | purchased (sub : UserSubscription) (done : Bool)
  | subscriptionOpened (sub : UserSubscription) (done : Bool)
  | termsWritten (sub : UserSubscription) (done : Bool)
  | clockRead
  | clockMoved
  | keyChecked (key : String) (blocked : Bool)
  | failureRecorded (key : String)
  | failuresCleared (key : String)
  /-- a login looked its account up -/
  | accountNamed (username : String)
  | passwordVerified (userID : String) (right : Bool) (atNs : ℤ)
  /-- a login asked to spend a step of a second factor -/
  | stepSpent (userID secret : String) (stepNs : ℤ) (spent : Bool)
  | totpSecretWritten (userID : String) (sealed : List UInt8) (done : Bool)
  | totpLedgerReset (userID : String) (done : Bool)
  | loginMarked (userID : String)
  | sessionInserted (session : Session) (done : Bool)
  | sessionRead (idHash : String)
  | sessionTouched (idHash : String)
  | sessionDeleted (idHash : String)
  | sessionsRevoked (userID : String) (done : Bool)
  deriving DecidableEq

abbrev Task := Prog Server ServerEvent Mutex

/-- What the threads did, the newest first. -/
abbrev Trace := List (ℕ × ServerEvent)

/-- What the server has come to, and by which steps. -/
abbrev History := Hist Server ServerEvent Mutex

namespace Task

variable {α : Type}

def query (event : ServerEvent) (f : Db → α) : Task α :=
  Prog.read event fun s => f s.db

/-- A call of the repository, with an event that may tell what it found and what it did. -/
def write (event : Db → α × Db → ServerEvent) (f : Db → α × Db) : Task α :=
  Prog.step (fun s => event s.db (f s.db)) fun s => ((f s.db).1, { s with db := (f s.db).2 })

def publish (event : ServerEvent) (f : KeyStore → KeyStore) : Task Unit :=
  Prog.modify event fun s => { s with keys := f s.keys }

def count (event : ServerEvent) (f : Counters → Counters) : Task Unit :=
  Prog.modify event fun s => { s with usage := f s.usage }

variable {β : Type} {D : Discipline Server ServerEvent Mutex} {i : ℕ}
  {Q : β → History → Prop} {h : History}

theorem safe_query {event : ServerEvent} {f : Db → α} {g : α → Task β}
    (hs : ∀ k, D.rely i h k → D.inv k → D.may k i event →
      D.Keeps i k (k.did i event k.state) ∧ D.Safe i Q (g (f k.state.db)) (k.did i event k.state)) :
    D.Safe i Q ((query event f).bind g) h :=
  hs

theorem safe_write {event : Db → α × Db → ServerEvent} {f : Db → α × Db} {g : α → Task β}
    (hs : ∀ k, D.rely i h k → D.inv k → ∀ a db, f k.state.db = (a, db) →
      D.may k i (event k.state.db (a, db)) →
      D.Keeps i k (k.did i (event k.state.db (a, db)) { k.state with db := db }) ∧
        D.Safe i Q (g a) (k.did i (event k.state.db (a, db)) { k.state with db := db })) :
    D.Safe i Q ((write event f).bind g) h :=
  fun k hr hi hm => hs k hr hi _ _ rfl hm

end Task

end Prism
