import Prism.Foundation.Thread
import Prism.Service.Helpers
import Prism.Topology.Pool

/-!
# Subscriptions of nodes

`internal/subscription/subscription.go`, `internal/topology/subscription_scheduler.go`,
`internal/topology/subscription_cleanup.go` and the operations of
`internal/service/control_plane_subscription.go`.  A subscription is an object in memory, a row, and
the references its nodes have in the pool.

A refresh takes a number, reads what to fetch and the version of that, fetches and parses without
any lock, and applies the result under the lock of the object.  A result is discarded there if the
configuration has changed since, or if an attempt with a higher number has been applied.  A document
without nodes is taken for a failure if there are managed nodes; this is looked at before the lock
is taken.  Names, the switches and the fetch configuration are set without that lock; a rename
references the managed nodes again under it.

There is one subscription here, and its references in a pool that others may refer to as well.
-/

namespace Prism

/-! ## Managed nodes -/

/-- One node of a subscription; an evicted one is still listed, without a reference. -/
structure ManagedNode where
  hash : Hash
  tags : List String := []
  evicted : Bool := false

abbrev ManagedNodes := List ManagedNode

namespace ManagedNodes

variable (nodes : ManagedNodes)

def load (hash : Hash) : Option ManagedNode :=
  Table.lookup ManagedNode.hash hash nodes

def store (n : ManagedNode) : ManagedNodes :=
  Table.upsertWith ManagedNode.hash (fun _ new => new) n nodes

structure Diff where
  added : List Hash
  kept : List Hash
  removed : List Hash
  deriving DecidableEq

def diffHashes (old new : ManagedNodes) : Diff where
  added := (new.filter fun n => (old.load n.hash).isNone).map ManagedNode.hash
  kept := (new.filter fun n => (old.load n.hash).isSome).map ManagedNode.hash
  removed := (old.filter fun n => (new.load n.hash).isNone).map ManagedNode.hash

def inheritEvictions (old new : ManagedNodes) : ManagedNodes :=
  new.map fun n =>
    if (old.load n.hash).any ManagedNode.evicted then { n with evicted := true } else n

def hashes : List Hash := nodes.map ManagedNode.hash

variable {hash : Hash}

theorem isSome_load {nodes : ManagedNodes} :
    (nodes.load hash).isSome = true ↔ hash ∈ nodes.hashes := by
  unfold load hashes
  rw [Table.lookup_isSome_iff, List.mem_map]

theorem mem_hashes_of_added {old new : ManagedNodes} (h : hash ∈ (old.diffHashes new).added) :
    hash ∈ new.hashes :=
  (List.filter_sublist.map ManagedNode.hash).subset h

theorem mem_hashes_of_kept {old new : ManagedNodes} (h : hash ∈ (old.diffHashes new).kept) :
    hash ∈ new.hashes :=
  (List.filter_sublist.map ManagedNode.hash).subset h

theorem mem_hashes_or_removed {old new : ManagedNodes} (h : hash ∈ old.hashes) :
    hash ∈ new.hashes ∨ hash ∈ (old.diffHashes new).removed := by
  by_cases hnew : hash ∈ new.hashes
  · exact .inl hnew
  · obtain ⟨n, hn, rfl⟩ := List.mem_map.mp h
    refine .inr (List.mem_map.mpr ⟨n, List.mem_filter.mpr ⟨hn, ?_⟩, rfl⟩)
    rw [← isSome_load] at hnew
    simpa using hnew

end ManagedNodes

/-- A node of a document. -/
structure ParsedNode where
  tag : String
  rawOptions : String
  deriving DecidableEq

/-- What a document was parsed to: its nodes, and what is said about the nodes that were skipped. -/
structure ParseResult where
  nodes : List ParsedNode := []
  skipped : List String := []

structure Importer where
  hashFromRawOptions : String → Hash
  /-- the report, and the error if there is one -/
  parseWithReport : String → ParseResult × Option String
  summarizeParseResult : ParseResult → String

namespace Importer

variable (imp : Importer)

def refreshed (parsed : List ParsedNode) : ManagedNodes :=
  parsed.foldl (fun nodes p =>
    let hash := imp.hashFromRawOptions p.rawOptions
    let existing := (nodes.load hash).getD { hash := hash }
    nodes.store { existing with tags := existing.tags ++ [p.tag] }) []

def rawByHash (parsed : List ParsedNode) (hash : Hash) : String :=
  (parsed.find? fun p => imp.hashFromRawOptions p.rawOptions = hash).elim "" ParsedNode.rawOptions

end Importer

/-- Where the document comes from. -/
inductive SourceType where
  | remote
  | local
  deriving DecidableEq

/-- `subscription.Subscription`. -/
structure NodeSubscription where
  id : String
  name : String := ""
  url : String := ""
  sourceType : SourceType := .remote
  content : String := ""
  updateIntervalNs : ℤ := 0
  enabled : Bool := true
  ephemeral : Bool := false
  incrementalAliveNodes : Bool := false
  ephemeralNodeEvictDelayNs : ℤ := 0
  autoIntel : Bool := true
  createdAtNs : ℤ := 0
  updatedAtNs : ℤ := 0
  lastCheckedNs : ℤ := 0
  lastUpdatedNs : ℤ := 0
  lastError : String := ""
  attemptSeq : ℤ := 0
  lastAppliedSeq : ℤ := 0
  managedNodes : ManagedNodes := []
  parseSummary : Option String := none
  configVersion : ℤ := 1

namespace NodeSubscription

variable (s : NodeSubscription)

def setFetchConfig (url : String) (updateIntervalNs : ℤ) : NodeSubscription :=
  { s with
    url := url
    updateIntervalNs := updateIntervalNs
    configVersion :=
      if s.url ≠ url ∨ s.updateIntervalNs ≠ updateIntervalNs then s.configVersion + 1
      else s.configVersion }

def setContent (content : String) : NodeSubscription :=
  { s with
    content := content
    configVersion := if s.content ≠ content then s.configVersion + 1 else s.configVersion }

def current (seq version : ℤ) : Bool :=
  s.configVersion = version && !decide (seq < s.lastAppliedSeq)

def recordParseReport (imp : Importer) (result : ParseResult) : NodeSubscription :=
  { s with parseSummary := some (imp.summarizeParseResult result) }

def markApplied (imp : Importer) (result : ParseResult) (seq nowNs : ℤ) : NodeSubscription :=
  { s.recordParseReport imp result with
    lastCheckedNs := nowNs, lastUpdatedNs := nowNs, lastAppliedSeq := seq, lastError := "" }

def markFailed (imp : Importer) (report : Option ParseResult) (err : String) (nowNs : ℤ) :
    NodeSubscription :=
  { (report.elim s (s.recordParseReport imp)) with lastCheckedNs := nowNs, lastError := err }

end NodeSubscription

/-- A row of the table `subscriptions`. -/
structure SubscriptionRow where
  id : String
  name : String
  sourceType : SourceType
  url : String
  content : String
  updateIntervalNs : ℤ
  enabled : Bool
  ephemeral : Bool
  incrementalAliveNodes : Bool
  ephemeralNodeEvictDelayNs : ℤ
  autoIntel : Bool
  userAgent : String := ""
  createdAtNs : ℤ
  updatedAtNs : ℤ

structure Feed where
  sub : NodeSubscription
  registered : Bool := true
  row : Option SubscriptionRow := none
  nodes : NodePool := []

/-- `shouldRemoveUnhealthyNodeForIncrementalMode` and `shouldCleanupSubscriptionNode`. -/
def shouldCleanupSubscriptionNode (e : NodeEntry) : Bool :=
  e.isCircuitOpen || (!e.hasOutbound && e.lastError ≠ "")

namespace Feed

variable (f : Feed)

def onSub (g : NodeSubscription → NodeSubscription) : Feed := { f with sub := g f.sub }

/-- What the managed nodes become.  The incremental mode keeps what is still usable. -/
def mergedManagedNodes (refreshed : ManagedNodes) : ManagedNodes :=
  let old := f.sub.managedNodes
  let merged :=
    if f.sub.incrementalAliveNodes then
      refreshed.foldl ManagedNodes.store (old.filter fun n => n.evicted ||
        (f.nodes.getEntry n.hash).any fun e => !shouldCleanupSubscriptionNode e)
    else refreshed
  old.inheritEvictions merged

variable (next : ManagedNodes)

def swapManagedNodes : Feed :=
  f.onSub fun s => { s with managedNodes := next }

/-- Reference a node that is managed, unless it was evicted or nothing is known about it. -/
def reference (raw : String) (nowNs : ℤ) (hash : Hash) : Feed :=
  if (next.load hash).any ManagedNode.evicted then f
  else
    let raw := if raw = "" then (f.nodes.getEntry hash).elim "" NodeEntry.rawOptions else raw
    if raw = "" then f
    else { f with nodes := f.nodes.addReference hash raw f.sub.id nowNs }

/-- Reference a node again that is in the pool. -/
def referenceAgain (nowNs : ℤ) (hash : Hash) : Feed :=
  match f.nodes.getEntry hash with
  | none => f
  | some e => { f with nodes := f.nodes.addReference hash e.rawOptions f.sub.id nowNs }

/-- `RemoveNodeFromSub`. -/
def release (hash : Hash) : Feed := { f with nodes := f.nodes.removeReference hash f.sub.id }

def cleanupCandidates (shouldRemove : NodeEntry → Bool) : List Hash :=
  (f.sub.managedNodes.filter fun n =>
    !n.evicted && (f.nodes.getEntry n.hash).any shouldRemove).map ManagedNode.hash

def confirmed (shouldRemove : NodeEntry → Bool) (candidates : List Hash) : List Hash :=
  (f.cleanupCandidates shouldRemove).filter fun hash => hash ∈ candidates

def evict (hashes : List Hash) : Feed :=
  f.swapManagedNodes (f.sub.managedNodes.map fun n =>
    if n.hash ∈ hashes then { n with evicted := true } else n)

def References (hash : Hash) (nowNs : ℤ) (f' : Feed) : Prop :=
  f' = f ∨ ∃ raw, f' = { f with nodes := f.nodes.addReference hash raw f.sub.id nowNs }

theorem references_reference (raw : String) (nowNs : ℤ)
    (hash : Hash) : f.References hash nowNs (f.reference next raw nowNs hash) := by
  unfold reference
  split
  · exact .inl rfl
  dsimp only
  split
  · split
    · exact .inl rfl
    · exact .inr ⟨_, rfl⟩
  · exact .inr ⟨raw, rfl⟩

theorem references_referenceAgain (nowNs : ℤ) (hash : Hash) :
    f.References hash nowNs (f.referenceAgain nowNs hash) := by
  unfold referenceAgain
  split
  · exact .inl rfl
  · exact .inr ⟨_, rfl⟩

end Feed

/-- What happens to a subscription. -/
inductive FeedEvent where
  | lookedUp (found : Bool)
  | attemptNumbered (seq : ℤ)
  | configRead
  /-- the number of managed nodes was read, without the lock -/
  | managedSized (size : ℕ)
  | refreshGuarded (seq : ℤ) (passed : Bool)
  /-- the managed nodes were replaced, with what was parsed and what there was before -/
  | nodesSwapped (seq : ℤ) (parsed : List ParsedNode) (before : ManagedNodes)
  | nodeReferenced (hash : Hash)
  | nodeReleased (hash : Hash)
  /-- an attempt was recorded as applied, with the number recorded before -/
  | attemptRecorded (seq : ℤ) (before : ℤ)
  | failureGuarded (seq : ℤ) (passed : Bool)
  | failureRecorded (seq : ℤ)
  | rowWritten
  | configApplied
  | renamed
  | enabledSet
  | rowDeleted
  | rowKept
  | unregistered
  | nodesScanned
  | nodesEvicted

/-- `Subscription.opMu`. -/
inductive FeedLock where
  | opMu
  deriving DecidableEq

abbrev FeedTask (α : Type) := Prog Feed FeedEvent FeedLock α

abbrev FeedHistory := Hist Feed FeedEvent FeedLock

inductive RefreshAnswer where
  | applied (seq : ℤ)
  /-- a success that came too late -/
  | discarded (seq : ℤ)
  | failed (seq : ℤ)
  /-- a failure that came too late -/
  | failureIgnored (seq : ℤ)
  | notFound
  deriving DecidableEq

def errEmptyRefresh : String := "subscription returned no usable nodes; keeping previous nodes"

namespace Feed

/-- A loop over hashes that adds a reference for each. -/
def referenceEach (reference : Hash → Feed → Feed) : List Hash → FeedTask Unit
  | [] => pure ()
  | hash :: hashes => do
    Prog.modify (.nodeReferenced hash) (reference hash)
    referenceEach reference hashes

variable (imp : Importer)

def referenceOn (parsed : List ParsedNode) (next : ManagedNodes) (nowNs : ℤ) :
    List Hash → FeedTask Unit :=
  referenceEach fun hash f => f.reference next (imp.rawByHash parsed hash) nowNs hash

def releaseOn : List Hash → FeedTask Unit
  | [] => pure ()
  | hash :: hashes => do
    Prog.modify (.nodeReleased hash) fun f => f.release hash
    releaseOn hashes

def applyRefresh (seq : ℤ) (result : ParseResult) (nowNs : ℤ) : FeedTask Unit := do
  let (old, next) ← Prog.step
    (fun f => .nodesSwapped seq result.nodes f.sub.managedNodes)
    fun f =>
      let next := f.mergedManagedNodes (imp.refreshed result.nodes)
      ((f.sub.managedNodes, next), f.swapManagedNodes next)
  let diff := old.diffHashes next
  referenceOn imp result.nodes next nowNs diff.added
  referenceOn imp result.nodes next nowNs diff.kept
  releaseOn diff.removed
  Prog.step (fun f => .attemptRecorded seq f.sub.lastAppliedSeq) fun f =>
    ((), f.onSub fun s => s.markApplied imp result seq nowNs)

def landRefresh (seq version : ℤ) (result : ParseResult) (nowNs : ℤ) : FeedTask RefreshAnswer :=
  Prog.locked .opMu do
    let passed ← Prog.step (fun f => .refreshGuarded seq (f.sub.current seq version))
      fun f => (f.sub.current seq version, f)
    if passed then do
      applyRefresh imp seq result nowNs
      pure (.applied seq)
    else pure (.discarded seq)

def handleUpdateFailure (seq version : ℤ) (err : String)
    (report : Option ParseResult) (nowNs : ℤ) : FeedTask RefreshAnswer :=
  Prog.locked .opMu do
    let passed ← Prog.step (fun f => .failureGuarded seq (f.sub.current seq version))
      fun f => (f.sub.current seq version, f)
    if passed then do
      Prog.modify (.failureRecorded seq) fun f => f.onSub fun s =>
        s.markFailed imp report err nowNs
      pure (.failed seq)
    else pure (.failureIgnored seq)

variable (fetch : String → Except String String)

/-- Fetch and parse: the document, or the error and the report there is. -/
def fetchAndParse (url : String)
    (sourceType : SourceType) (content : String) : Except (String × Option ParseResult) ParseResult :=
  match (if sourceType = .local then .ok content else fetch url) with
  | .error err => .error (err, none)
  | .ok body =>
    match imp.parseWithReport body with
    | (result, some err) => .error (err, some result)
    | (result, none) => .ok result

/-- `UpdateSubscription` of the scheduler. -/
def updateSubscription (nowNs : ℤ) : FeedTask RefreshAnswer := do
  let seq ← Prog.step (fun f => .attemptNumbered (f.sub.attemptSeq + 1)) fun f =>
    (f.sub.attemptSeq + 1, f.onSub fun s => { s with attemptSeq := s.attemptSeq + 1 })
  let url ← Prog.read .configRead fun f => f.sub.url
  let sourceType ← Prog.read .configRead fun f => f.sub.sourceType
  let content ← Prog.read .configRead fun f => f.sub.content
  let version ← Prog.read .configRead fun f => f.sub.configVersion
  match fetchAndParse imp fetch url sourceType content with
  | .error (err, report) => handleUpdateFailure imp seq version err report nowNs
  | .ok result =>
    if result.nodes = [] then do
      let size ← Prog.step (fun f => .managedSized f.sub.managedNodes.length) fun f =>
        (f.sub.managedNodes.length, f)
      if 0 < size then
        handleUpdateFailure imp seq version errEmptyRefresh (some result) nowNs
      else landRefresh imp seq version result nowNs
    else landRefresh imp seq version result nowNs

def lookup : FeedTask Bool :=
  Prog.step (fun f => .lookedUp f.registered) fun f => (f.registered, f)

/-- `RefreshSubscription`, and a refresh that is due. -/
def refreshSubscription (nowNs : ℤ) : FeedTask RefreshAnswer := do
  let found ← lookup
  if found then updateSubscription imp fetch nowNs else pure .notFound

end Feed

/-- A parsed patch. -/
structure FeedPatch where
  name : Option String := none
  url : Option String := none
  content : Option String := none
  updateInterval : Option ℤ := none
  enabled : Option Bool := none
  ephemeral : Option Bool := none
  incrementalAliveNodes : Option Bool := none
  ephemeralNodeEvictDelay : Option ℤ := none
  autoIntel : Option Bool := none

def minSubscriptionUpdateInterval : ℤ := 30 * 1000000000

namespace FeedPatch

variable (p : FeedPatch)

/-- The checks of the fields, in the order they are made. -/
def validate (parseHTTPAbsoluteURL : String → Except ServiceError Unit) (s : NodeSubscription) :
    Except ServiceError Unit := do
  if p.name.any fun name => trimSpace name = "" then
    throw (.invalidArgument "name: must be a non-empty string")
  match p.url with
  | none => pure ()
  | some url =>
    if s.sourceType ≠ .remote then
      throw (.invalidArgument "url: field is not allowed for local subscription")
    parseHTTPAbsoluteURL url
  match p.content with
  | none => pure ()
  | some content =>
    if s.sourceType ≠ .local then
      throw (.invalidArgument "content: field is not allowed for remote subscription")
    if trimSpace content = "" then
      throw (.invalidArgument "content: must be a non-empty string")
  if p.updateInterval.any fun d => d < minSubscriptionUpdateInterval then
    throw (.invalidArgument "update_interval: must be >= 30s")
  if p.ephemeralNodeEvictDelay.any fun d => d < 0 then
    throw (.invalidArgument "ephemeral_node_evict_delay: must be non-negative")

def row (s : NodeSubscription) (nowNs : ℤ) : SubscriptionRow where
  id := s.id
  name := p.name.elim s.name trimSpace
  sourceType := s.sourceType
  url := p.url.getD s.url
  content := p.content.getD s.content
  updateIntervalNs := p.updateInterval.getD s.updateIntervalNs
  enabled := p.enabled.getD s.enabled
  ephemeral := p.ephemeral.getD s.ephemeral
  incrementalAliveNodes := p.incrementalAliveNodes.getD s.incrementalAliveNodes
  ephemeralNodeEvictDelayNs := p.ephemeralNodeEvictDelay.getD s.ephemeralNodeEvictDelayNs
  autoIntel := p.autoIntel.getD s.autoIntel
  createdAtNs := s.createdAtNs
  updatedAtNs := nowNs

end FeedPatch

namespace Feed

/-- The switches that are set one after the other, without the lock. -/
def applySwitches (r : SubscriptionRow) (s : NodeSubscription) : NodeSubscription :=
  { s with
    ephemeral := r.ephemeral
    incrementalAliveNodes := r.incrementalAliveNodes
    ephemeralNodeEvictDelayNs := r.ephemeralNodeEvictDelayNs
    autoIntel := r.autoIntel
    updatedAtNs := r.updatedAtNs }

def referenceAgainOn (nowNs : ℤ) : List Hash → FeedTask Unit :=
  referenceEach fun hash f => f.referenceAgain nowNs hash

def renameSubscription (name : String) (nowNs : ℤ) : FeedTask Unit :=
  Prog.locked .opMu do
    let hashes ← Prog.step (fun _ => .renamed) fun f =>
      ((f.sub.managedNodes.filter fun n => !n.evicted).map ManagedNode.hash,
        f.onSub fun s => { s with name := name })
    referenceAgainOn nowNs hashes

/-- `SetSubscriptionEnabled`; the platforms are rebuilt after it. -/
def setSubscriptionEnabled (enabled : Bool) : FeedTask Unit :=
  Prog.locked .opMu
    (Prog.modify .enabledSet fun f => f.onSub fun s => { s with enabled := enabled })

def renameIfChanged (old name : String) (nowNs : ℤ) : FeedTask Unit :=
  if name ≠ old then renameSubscription name nowNs else pure ()

def enableIfChanged (old enabled : Bool) : FeedTask Unit :=
  if enabled ≠ old then setSubscriptionEnabled enabled else pure ()

/-- `UpdateSubscription` of the service.  It answers whether a refresh is started. -/
def patchSubscription (parseHTTPAbsoluteURL : String → Except ServiceError Unit)
    (p : FeedPatch) (dbFails : Bool) (nowNs : ℤ) : FeedTask (Except ServiceError Bool) := do
  let found ← lookup
  if !found then pure (.error (.notFound "subscription not found"))
  else
    let s ← Prog.read .configRead fun f => f.sub
    match p.validate parseHTTPAbsoluteURL s with
    | .error e => pure (.error e)
    | .ok () =>
      let r := p.row s nowNs
      if dbFails || r.updateIntervalNs < minSubscriptionUpdateInterval then
        pure (.error (.internal "persist subscription"))
      else
        Prog.modify .rowWritten fun f => { f with row := some r }
        Prog.modify .configApplied fun f => f.onSub fun s =>
          s.setFetchConfig r.url r.updateIntervalNs
        Prog.modify .configApplied fun f => f.onSub fun s => s.setContent r.content
        Prog.modify .configApplied fun f => f.onSub (applySwitches r)
        renameIfChanged s.name r.name nowNs
        enableIfChanged s.enabled r.enabled
        pure (.ok (r.url ≠ s.url || r.content ≠ s.content))

/-! ## Deletion and cleanups -/

/-- What `DeleteSubscription` does under the lock. -/
def deleteLocked (dbFails : Bool) : FeedTask (Except ServiceError Unit) := do
  let found ← lookup
  if !found then pure (.error (.notFound "subscription not found"))
  else
    let hashes ← Prog.read .nodesScanned fun f => f.sub.managedNodes.map ManagedNode.hash
    let deleted ← Prog.step
      (fun f => if dbFails || f.row.isNone then .rowKept else .rowDeleted)
      fun f => (f.row.isSome, if dbFails then f else { f with row := none })
    if dbFails then pure (.error (.internal "delete subscription"))
    else if !deleted then pure (.error (.notFound "subscription not found"))
    else
      releaseOn hashes
      Prog.modify .unregistered fun f => { f with registered := false }
      pure (.ok ())

def deleteSubscription (dbFails : Bool) : FeedTask (Except ServiceError Unit) := do
  let found ← lookup
  if !found then pure (.error (.notFound "subscription not found"))
  else Prog.locked .opMu (deleteLocked dbFails)

def cleanupWithConfirm (shouldRemove : NodeEntry → Bool) : FeedTask ℕ := do
  let candidates ← Prog.read .nodesScanned fun f => f.cleanupCandidates shouldRemove
  let evicted ← Prog.step (fun _ => .nodesEvicted) fun f =>
    (f.confirmed shouldRemove candidates, f.evict (f.confirmed shouldRemove candidates))
  releaseOn evicted
  pure evicted.length

def cleanupSubscriptionCircuitOpenNodes : FeedTask (Except ServiceError ℕ) := do
  let found ← lookup
  if !found then pure (.error (.notFound "subscription not found"))
  else
    Prog.locked .opMu do
      let found ← lookup
      if !found then pure (.error (.notFound "subscription not found"))
      else do
        let n ← cleanupWithConfirm shouldCleanupSubscriptionNode
        pure (.ok n)

/-- A node whose circuit has been open for too long, or whose outbound could not be built. -/
def shouldEvictEntry (nowNs evictDelayNs : ℤ) (e : NodeEntry) : Bool :=
  (!e.hasOutbound && e.lastError ≠ "") ||
    (0 < e.circuitOpenSince && evictDelayNs < nowNs - e.circuitOpenSince)

/-- `sweepOneSubscription` of the ephemeral cleaner, for a subscription it has listed. -/
def sweepOneSubscription (nowNs : ℤ) : FeedTask Unit := do
  let found ← lookup
  if !found then pure ()
  else
    Prog.locked .opMu do
      let delay ← Prog.read .configRead fun f => f.sub.ephemeralNodeEvictDelayNs
      let _ ← cleanupWithConfirm (shouldEvictEntry nowNs delay)
      pure ()

end Feed

end Prism
