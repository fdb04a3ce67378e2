import Prism.Foundation.Table
import Prism.Foundation.Text

/-!
# The node pool

`internal/node/entry.go` and the map of `internal/topology/pool.go`.  A node is known by the hash of
its options.  Every subscription that lists it holds a reference; the first reference puts the node
into the pool and the last one takes it out again.

A node starts with its circuit open: it has to prove itself.  `RecordOutcome` opens and closes the
circuit, and `UpdateNodeEgressIP` notes where the traffic of the node comes out.  Of the times that
the source keeps beside these, only whether the circuit is open is looked at here.

Each function below is one critical section of the source.  The second component, where there is
one, says whether platforms are told.
-/

namespace Prism

open Table

/-- `node.Hash`. -/
abbrev Hash := ℕ

/-- `netip.Addr`; the zero address is `none`. -/
abbrev Addr := Option String

structure NodeEntry where
  hash : Hash
  rawOptions : String := ""
  protocol : String := ""
  subscriptionIDs : List String := []
  failureCount : ℤ := 0
  /-- zero while the circuit is closed -/
  circuitOpenSince : ℤ := 0
  egressIP : Addr := none
  egressRegion : String := ""
  hasOutbound : Bool := false
  hasLatency : Bool := false
  lastError : String := ""

namespace NodeEntry

variable (e : NodeEntry)

def addSubscriptionID (subID : String) : NodeEntry :=
  if subID ∈ e.subscriptionIDs then e
  else { e with subscriptionIDs := e.subscriptionIDs ++ [subID] }

theorem columns_addSubscriptionID (subID : String) : (e.addSubscriptionID subID).hash = e.hash ∧
      (e.addSubscriptionID subID).rawOptions = e.rawOptions := by
  unfold addSubscriptionID
  split <;> exact ⟨rfl, rfl⟩

def removeSubscriptionID (subID : String) : NodeEntry :=
  { e with subscriptionIDs := e.subscriptionIDs.erase subID }

def isCircuitOpen : Bool := e.circuitOpenSince ≠ 0

def isHealthy : Bool := !e.isCircuitOpen && e.hasOutbound

def hasEnabledSubscription (enabled : String → Hash → Bool) : Bool :=
  e.subscriptionIDs.any fun subID => enabled subID e.hash

end NodeEntry

/-- `GlobalNodePool.nodes`. -/
abbrev NodePool := List NodeEntry

namespace NodePool

variable (pool : NodePool)

def getEntry (hash : Hash) : Option NodeEntry :=
  lookup NodeEntry.hash hash pool

def modify (hash : Hash) (f : NodeEntry → NodeEntry) : NodePool :=
  updateWhere (fun e => e.hash = hash) f pool

def newEntry (hash : Hash) (rawOptions : String) (createdAtNs : ℤ) : NodeEntry :=
  { hash := hash, rawOptions := rawOptions, circuitOpenSince := createdAtNs }

/-- Add a reference, and the node with the first one. -/
def addReference (hash : Hash) (rawOptions subID : String) (nowNs : ℤ) : NodePool :=
  upsertWith NodeEntry.hash (fun old _ => old.addSubscriptionID subID)
    ((newEntry hash rawOptions nowNs).addSubscriptionID subID) pool

/-- Remove a reference, and the node with the last one. -/
def removeReference (hash : Hash) (subID : String) : NodePool :=
  match pool.getEntry hash with
  | none => pool
  | some e =>
    if (e.removeSubscriptionID subID).subscriptionIDs = [] then
      pool.filter fun e => e.hash ≠ hash
    else NodePool.modify pool hash fun e => e.removeSubscriptionID subID

/-- Health after a probe: a success closes the circuit, and enough failures in a row open it. -/
def recordOutcome (maxConsecutiveFailures : ℤ) (pool : NodePool) (hash : Hash) (success : Bool)
    (nowNs : ℤ) : Bool × NodePool :=
  match pool.getEntry hash with
  | none => (false, pool)
  | some e =>
    if success then
      (e.isCircuitOpen,
        NodePool.modify pool hash fun e => { e with failureCount := 0, circuitOpenSince := 0 })
    else if 0 < maxConsecutiveFailures ∧ maxConsecutiveFailures ≤ e.failureCount + 1 ∧
        e.circuitOpenSince = 0 then
      (true, NodePool.modify pool hash fun e =>
        { e with failureCount := e.failureCount + 1, circuitOpenSince := nowNs })
    else
      (false, NodePool.modify pool hash fun e => { e with failureCount := e.failureCount + 1 })

def normalizeRegion (region : String) : String := toLower (trimSpace region)

/-- The region after an update: it is set, kept, or cleared with the address it belonged to. -/
def regionAfter (e : NodeEntry) (ip : Option Addr) (loc : Option String) : String :=
  match loc, ip with
  | some loc, _ => normalizeRegion loc
  | none, none => e.egressRegion
  | none, some ip => if e.egressIP = ip then e.egressRegion else ""

/-- Where the traffic of the node comes out, as far as it was observed. -/
def updateEgressIP (hash : Hash) (ip : Option Addr) (loc : Option String) : Bool × NodePool :=
  match pool.getEntry hash with
  | none => (false, pool)
  | some e =>
    (decide (e.egressIP ≠ ip.getD e.egressIP) || decide (e.egressRegion ≠ regionAfter e ip loc),
      NodePool.modify pool hash fun e =>
        { e with egressIP := ip.getD e.egressIP, egressRegion := regionAfter e ip loc })

/-! ## What is left of the other nodes -/

variable {pool : NodePool} {hash hash' : Hash}

theorem getEntry_modify {f : NodeEntry → NodeEntry} (hf : ∀ e, (f e).hash = e.hash) (hash' : Hash) :
    (NodePool.modify pool hash f).getEntry hash' =
      if hash' = hash then (pool.getEntry hash').map f else pool.getEntry hash' := by
  unfold getEntry NodePool.modify
  rw [lookup_updateWhere NodeEntry.hash fun e _ => hf e]
  cases hentry : lookup NodeEntry.hash hash' pool with
  | none => simp
  | some e =>
    have hhash : e.hash = hash' := key_of_lookup hentry
    by_cases h : hash' = hash <;> simp [hhash, h]

theorem getEntry_addReference_of_ne (h : hash' ≠ hash) (rawOptions subID : String) (nowNs : ℤ) :
    (pool.addReference hash rawOptions subID nowNs).getEntry hash' = pool.getEntry hash' := by
  refine lookup_upsertWith_of_ne NodeEntry.hash _ (fun old row hrow => ?_) _ ?_ pool
  · rw [(old.columns_addSubscriptionID subID).1, hrow]
  · rw [(NodeEntry.columns_addSubscriptionID _ subID).1]
    exact h

theorem getEntry_removeReference_of_ne (h : hash' ≠ hash) (subID : String) :
    (pool.removeReference hash subID).getEntry hash' = pool.getEntry hash' := by
  unfold removeReference
  split
  · rfl
  · split
    · unfold getEntry
      rw [lookup_filter_ne, if_neg h]
    · rw [getEntry_modify, if_neg h]
      exact fun _ => rfl

theorem getEntry_recordOutcome_of_ne (h : hash' ≠ hash) (limit : ℤ) (success : Bool) (nowNs : ℤ) :
    (recordOutcome limit pool hash success nowNs).2.getEntry hash' = pool.getEntry hash' := by
  unfold recordOutcome
  split
  · rfl
  split
  · rw [getEntry_modify, if_neg h]
    exact fun _ => rfl
  · split
    · rw [getEntry_modify, if_neg h]
      exact fun _ => rfl
    · rw [getEntry_modify, if_neg h]
      exact fun _ => rfl

theorem getEntry_updateEgressIP_of_ne (h : hash' ≠ hash) (ip : Option Addr) (loc : Option String) :
    (updateEgressIP pool hash ip loc).2.getEntry hash' = pool.getEntry hash' := by
  unfold updateEgressIP
  split
  · rfl
  · rw [getEntry_modify, if_neg h]
    exact fun _ => rfl

/-! ## One entry a node -/

theorem keysNodup_addReference (h : KeysNodup NodeEntry.hash pool)
    (rawOptions subID : String) (nowNs : ℤ) :
    KeysNodup NodeEntry.hash (pool.addReference hash rawOptions subID nowNs) := by
  refine keysNodup_upsertWith NodeEntry.hash _ (fun old row hrow => ?_) _ h
  rw [← hrow]
  exact (old.columns_addSubscriptionID subID).1

theorem keysNodup_modify {f : NodeEntry → NodeEntry} (hf : ∀ e, (f e).hash = e.hash)
    (h : KeysNodup NodeEntry.hash pool) :
    KeysNodup NodeEntry.hash (NodePool.modify pool hash f) :=
  keysNodup_updateWhere (fun e _ => hf e) h

section

variable (h : KeysNodup NodeEntry.hash pool)

include h

theorem keysNodup_removeReference (subID : String) :
    KeysNodup NodeEntry.hash (pool.removeReference hash subID) := by
  unfold removeReference
  split
  · exact h
  · split
    · exact h.sublist (List.filter_sublist.map _)
    · exact keysNodup_modify (fun _ => rfl) h

theorem keysNodup_recordOutcome (limit : ℤ) (success : Bool) (nowNs : ℤ) :
    KeysNodup NodeEntry.hash (recordOutcome limit pool hash success nowNs).2 := by
  unfold recordOutcome
  split
  · exact h
  · split
    · exact keysNodup_modify (fun _ => rfl) h
    · split <;> exact keysNodup_modify (fun _ => rfl) h

theorem keysNodup_updateEgressIP (ip : Option Addr) (loc : Option String) :
    KeysNodup NodeEntry.hash (updateEgressIP pool hash ip loc).2 := by
  unfold updateEgressIP
  split
  · exact h
  · exact keysNodup_modify (fun _ => rfl) h

end

/-- The subscription refers to the node. -/
def Refers (pool : NodePool) (subID : String) (hash : Hash) : Prop :=
  ∃ e ∈ pool, e.hash = hash ∧ subID ∈ e.subscriptionIDs

def RefsNodup (pool : NodePool) : Prop :=
  ∀ e ∈ pool, e.subscriptionIDs.Nodup
  deriving Decidable

variable {subID : String} {e : NodeEntry}

theorem nodup_addSubscriptionID (h : e.subscriptionIDs.Nodup) :
    (e.addSubscriptionID subID).subscriptionIDs.Nodup := by
  unfold NodeEntry.addSubscriptionID
  split
  · exact h
  · rename_i hnot
    refine List.nodup_append.mpr ⟨h, List.nodup_singleton _, fun a ha b hb heq => ?_⟩
    obtain rfl := List.mem_singleton.mp hb
    exact hnot (heq ▸ ha)

theorem mem_addReference {rawOptions : String} {nowNs : ℤ}
    (he : e ∈ pool.addReference hash rawOptions subID nowNs) :
    e ∈ pool ∨ (∃ old ∈ pool, old.hash = hash ∧ e = old.addSubscriptionID subID) ∨
      e = (newEntry hash rawOptions nowNs).addSubscriptionID subID := by
  have hnew := ((newEntry hash rawOptions nowNs).columns_addSubscriptionID subID).1
  rcases mem_upsertWith NodeEntry.hash _ he with he | he | ⟨old, hold, hkey, he⟩
  · exact .inl he
  · exact .inr (.inr he)
  · exact .inr (.inl ⟨old, hold, hkey.trans hnew, he⟩)

theorem refers_addReference {rawOptions : String} {nowNs : ℤ}
    (h : Refers (pool.addReference hash rawOptions subID nowNs) subID hash') :
    Refers pool subID hash' ∨ hash' = hash := by
  obtain ⟨e, he, hhash, hmem⟩ := h
  rcases mem_addReference he with he | ⟨old, hold, hkey, rfl⟩ | rfl
  · exact .inl ⟨e, he, hhash, hmem⟩
  · rw [(old.columns_addSubscriptionID subID).1] at hhash
    exact .inr (hhash.symm.trans hkey)
  · rw [(NodeEntry.columns_addSubscriptionID _ subID).1] at hhash
    exact .inr hhash.symm

theorem refsNodup_addReference (h : RefsNodup pool) (rawOptions : String) (nowNs : ℤ) :
    RefsNodup (pool.addReference hash rawOptions subID nowNs) := by
  intro e he
  rcases mem_addReference he with he | ⟨old, hold, -, rfl⟩ | rfl
  · exact h e he
  · exact nodup_addSubscriptionID (h old hold)
  · exact nodup_addSubscriptionID List.nodup_nil

theorem mem_removeReference (he : e ∈ pool.removeReference hash subID) :
    (e ∈ pool ∧ e.hash ≠ hash) ∨
      ∃ old ∈ pool, old.hash = hash ∧ e = old.removeSubscriptionID subID := by
  unfold removeReference at he
  split at he
  · rename_i hnone
    exact .inl ⟨he, (lookup_eq_none_iff NodeEntry.hash).mp hnone e he⟩
  split at he
  · obtain ⟨hmem, hne⟩ := List.mem_filter.mp he
    exact .inl ⟨hmem, of_decide_eq_true hne⟩
  obtain ⟨old, hold, heq⟩ := List.mem_map.mp he
  split at heq
  · rename_i hkey
    exact .inr ⟨old, hold, of_decide_eq_true hkey, heq.symm⟩
  · rename_i hkey
    exact .inl ⟨heq ▸ hold, heq ▸ fun h => hkey (decide_eq_true h)⟩

theorem refers_removeReference (hnd : RefsNodup pool)
    (h : Refers (pool.removeReference hash subID) subID hash') :
    Refers pool subID hash' ∧ hash' ≠ hash := by
  obtain ⟨e, he, rfl, hmem⟩ := h
  rcases mem_removeReference he with ⟨he, hne⟩ | ⟨old, hold, -, rfl⟩
  · exact ⟨⟨e, he, rfl, hmem⟩, hne⟩
  · exact absurd hmem (hnd old hold).not_mem_erase

theorem refsNodup_removeReference (h : RefsNodup pool) :
    RefsNodup (pool.removeReference hash subID) := by
  intro e he
  rcases mem_removeReference he with ⟨he, -⟩ | ⟨old, hold, -, rfl⟩
  · exact h e he
  · exact (h old hold).erase subID

end NodePool

end Prism
