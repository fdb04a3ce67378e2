import Prism.State.Usage
import Prism.Usage.Metering

/-!
# Flushing and seeding

`internal/usage/flush.go`, and the re-seed loop of `cmd/prism/app_runtime.go`.

A flush pass drains the buckets, writes the hourly rows, and then charges every user's bytes to the
period of the subscription in force.  The charge is guarded: the window is read when the bytes have
been drained, and the bytes are charged only if it is still the window when the charge comes.  What
has been charged moves the user's water mark, in a step of its own.

A seed restores the aggregates after a restart: it lists the subscriptions and adds to each
aggregate the part of the period's usage that lies above the mark, and moves the mark there.

The hourly rows are not modelled: nothing here reads them.  That writing them can fail is, since the
batch is then put back.
-/

namespace Prism

/-- What a pass depends on beside the server: the orders its loops over maps happen to take, and
which of its writes fail. -/
structure FlushEnv where
  requeueOrder : MapOrder := .inserted
  windowOrder : MapOrder := .inserted
  chargeOrder : MapOrder := .inserted
  hourlyFails : Bool := false
  chargeIO : String → Faults := fun _ => noFaults

structure SubscriptionWindow where
  id : String
  periodStartNs : ℤ
  deriving DecidableEq

structure FlushResult where
  rows : ℕ := 0
  bytes : ℤ := 0
  subscriptions : ℕ := 0
  rolledBytes : ℤ := 0
  unclaimedBytes : ℤ := 0

/-- `perUser[key.UserID] += delta.Total()`; traffic without a user belongs to nobody. -/
def addPerUser (sums : List (String × ℤ)) (entry : CounterKey × Delta) : List (String × ℤ) :=
  if entry.1.userID = "" then sums
  else Table.upsertWith Prod.fst (fun old row => (row.1, old.2 + row.2))
    (entry.1.userID, entry.2.total) sums

def perUser (batch : Batch) : List (String × ℤ) := batch.foldl addPerUser []

def windowOf (userID : String) (db : Db) : Option SubscriptionWindow :=
  (db.activeSubscription userID).map fun sub => ⟨sub.id, sub.periodStartNs⟩

def readWindows : List (String × ℤ) → FlushResult →
    Task (List (String × ℤ × SubscriptionWindow) × FlushResult)
  | [], result => pure ([], result)
  | (userID, bytes) :: sums, result => do
    let window ← Task.query (.windowRead userID) (windowOf userID)
    match window with
    | none => readWindows sums { result with unclaimedBytes := result.unclaimedBytes + bytes }
    | some window => do
      let (windows, result) ← readWindows sums result
      pure ((userID, bytes, window) :: windows, result)

/-- Charge bytes to a subscription's period, unless the period has moved on.  The answer says
whether they were charged. -/
def chargeSubscription (io : Faults) (userID : String) (window : SubscriptionWindow) (bytes : ℤ) :
    Task (Except RepoError Bool) := do
  let current ← Task.query (.windowRead userID) (windowOf userID)
  match current with
  | none => pure (.error .notFound)
  | some current =>
    if current ≠ window then pure (.ok false)
    else do
      let answer ← Task.write (fun _ r => .charged userID bytes (r.1 = .ok ()))
        (addSubscriptionUsedBytes io window.id bytes)
      pure (answer.map fun _ => true)

def chargeAll (env : FlushEnv) :
    List (String × ℤ × SubscriptionWindow) → FlushResult → Task FlushResult
  | [], result => pure result
  | (userID, bytes, window) :: windows, result => do
    let charged ← chargeSubscription (env.chargeIO userID) userID window bytes
    match charged with
    | .error _ =>
      chargeAll env windows { result with unclaimedBytes := result.unclaimedBytes + bytes }
    | .ok false =>
      chargeAll env windows { result with rolledBytes := result.rolledBytes + bytes }
    | .ok true => do
      Task.count (.marked userID bytes) fun c => c.markPersisted userID bytes
      chargeAll env windows { result with subscriptions := result.subscriptions + 1 }

/-- What a pass does once it has drained a batch; the answer is nothing if the hourly rows could
not be written. -/
def flushBatch (env : FlushEnv) (batch : Batch) : Task (Option FlushResult) := do
  if env.hourlyFails then do
    requeue (env.requeueOrder.visit batch)
    pure none
  else do
    let result : FlushResult :=
      { rows := batch.length, bytes := (batch.map fun entry => entry.2.total).sum }
    let (windows, result) ← readWindows (env.windowOrder.visit (perUser batch)) result
    let result ← chargeAll env (env.chargeOrder.visit windows) result
    pure (some result)

def flushOnce (env : FlushEnv) : Task (Option FlushResult) :=
  Prog.locked .flush do
    let keys ← Prog.read .bucketsListed fun s => s.usage.keys
    if keys = [] then pure (some {})
    else do
      let batch ← drain keys []
      if batch = [] then pure (some {}) else flushBatch env batch

/-- Is the row one a seed restores?  The usage of the subscription in force, if there is any. -/
def seedable (nowNs : ℤ) (sub : UserSubscription) : Bool :=
  sub.userID ≠ "" && decide (0 < sub.periodUsedBytes) && Db.isActive sub &&
    !(decide (0 < sub.expiresAtNs) && decide (0 < nowNs) && decide (sub.expiresAtNs < nowNs))

/-- Restore one aggregate: add what the row has above the mark, and move the mark there.  The
answer says whether anything was missing. -/
def seedOne (sub : UserSubscription) : Task Bool := do
  let mark ← Prog.read (.markRead sub.userID) fun s => s.usage.persisted sub.userID
  if 0 < sub.periodUsedBytes - mark then do
    Task.count (.restored sub.userID (sub.periodUsedBytes - mark)) fun c =>
      c.addToUser sub.userID (sub.periodUsedBytes - mark)
    Task.count (.markStored sub.userID sub.periodUsedBytes) fun c =>
      c.storeMark sub.userID sub.periodUsedBytes
    pure true
  else do
    Task.count (.markStored sub.userID sub.periodUsedBytes) fun c =>
      c.storeMark sub.userID sub.periodUsedBytes
    pure false

def seedFromSubscriptions (nowNs : ℤ) : List UserSubscription → ℕ → Task ℕ
  | [], seeded => pure seeded
  | sub :: subs, seeded =>
    if !seedable nowNs sub then seedFromSubscriptions nowNs subs seeded
    else do
      let restored ← seedOne sub
      seedFromSubscriptions nowNs subs (if restored then seeded + 1 else seeded)

def pendingUsageSeed (nowNs : ℤ) : List UserSubscription → Task (List UserSubscription)
  | [] => pure []
  | sub :: subs =>
    if !seedable nowNs sub then pendingUsageSeed nowNs subs
    else do
      let mark ← Prog.read (.markRead sub.userID) fun s => s.usage.persisted sub.userID
      let rest ← pendingUsageSeed nowNs subs
      pure (if sub.periodUsedBytes ≤ mark then rest else sub :: rest)

/-- A seed: at startup over everything listed, in the re-seed loop over what is pending at the
instant the loop looks. -/
def seedUsage (pendingAt : Option ℤ) (nowNs : ℤ) : Task ℕ := do
  let subs ← Task.query .seedListed listUserSubscriptions
  let subs ← match pendingAt with
    | none => pure subs
    | some t => pendingUsageSeed t subs
  let seeded ← seedFromSubscriptions nowNs subs 0
  Prog.read .seedReturned fun _ => seeded

end Prism
