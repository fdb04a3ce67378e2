import Prism.Service.Server

/-!
# Counting, draining, putting back

The calls of `internal/usage/counters.go` that take more than one step.

* `Add` counts a delta in its bucket and then, if it carries bytes, in the user's aggregate.
* `Drain` removes the buckets of a list of keys one after the other and collects what they held.
* `Requeue` puts a batch back into the buckets, one after the other, and leaves the aggregates
  alone.

A batch is a Go map: a key drained twice keeps the later amount, and a loop over it visits the
entries in no particular order, which is the `MapOrder` a call is given.
-/

namespace Prism

/-- The order a loop over a map happens to visit its entries in. -/
structure MapOrder where
  visit : {α : Type} → List α → List α
  perm : ∀ {α : Type} (l : List α), (visit l).Perm l

def MapOrder.inserted : MapOrder := ⟨id, List.Perm.refl⟩

/-- What was drained, key by key. -/
abbrev Batch := List (CounterKey × Delta)

/-- `drained[key] = delta`. -/
def Batch.put (batch : Batch) (key : CounterKey) (delta : Delta) : Batch :=
  Table.upsertWith Prod.fst (fun _ row => row) (key, delta) batch

/-- What the batch has of a key. -/
def Batch.amount (batch : Batch) (key : CounterKey) : Delta :=
  (batch.map fun row => if row.1 = key then row.2 else 0).sum

namespace Batch

variable {batch : Batch} {key : CounterKey} {delta : Delta}

theorem amount_cons (other : CounterKey) :
    amount ((key, delta) :: batch) other = (if key = other then delta else 0) + batch.amount other := by
  simp [amount]

theorem put_eq_append (hfree : key ∉ batch.map Prod.fst) :
    batch.put key delta = batch ++ [(key, delta)] := by
  refine if_neg fun hany => hfree ?_
  obtain ⟨row, hrow, hkey⟩ := List.any_eq_true.mp hany
  exact List.mem_map.mpr ⟨row, hrow, of_decide_eq_true hkey⟩

theorem amount_put (hfree : key ∉ batch.map Prod.fst) (other : CounterKey) :
    (batch.put key delta).amount other = batch.amount other + if key = other then delta else 0 := by
  simp [amount, put_eq_append hfree]

theorem amount_perm {batch' : Batch} (h : batch.Perm batch') (other : CounterKey) :
    batch.amount other = batch'.amount other :=
  (h.map _).sum_eq

end Batch

/-- `Add`. -/
def add (key : CounterKey) (delta : Delta) : Task Unit :=
  if delta = 0 then pure () else do
    Task.count (.bucketAdded key delta) fun c => c.addToBuckets key delta
    if delta.total ≠ 0 ∧ key.userID ≠ "" then
      Task.count (.userAdded key.userID delta.total) fun c => c.addToUser key.userID delta.total

def drainOne (key : CounterKey) : Task Delta :=
  Prog.step (fun s => .bucketDrained key (s.usage.drainOne key).1)
    fun s => ((s.usage.drainOne key).1, { s with usage := (s.usage.drainOne key).2 })

/-- `Drain`. -/
def drain : List CounterKey → Batch → Task Batch
  | [], batch => pure batch
  | key :: keys, batch => do
    let delta ← drainOne key
    drain keys (if delta = 0 then batch else batch.put key delta)

/-- `Requeue`. -/
def requeue : Batch → Task Unit
  | [] => pure ()
  | (key, delta) :: batch =>
    if delta = 0 then requeue batch else do
      Task.count (.bucketRequeued key delta) fun c => c.addToBuckets key delta
      requeue batch

inductive MeterCall where
  | add (key : CounterKey) (delta : Delta)
  /-- drain some keys, and keep the batch or put it back -/
  | drain (keys : List CounterKey) (keep : Bool) (order : MapOrder)

def MeterCall.task : MeterCall → Task Unit
  | .add key delta => Prism.add key delta
  | .drain keys keep order => do
    let batch ← Prism.drain keys []
    if keep then pure () else requeue (order.visit batch)

end Prism
