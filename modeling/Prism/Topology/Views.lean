import Prism.Foundation.Thread
import Prism.Topology.Pool

/-!
# Routable views

`internal/topology/pool.go` and `internal/platform/platform.go`.  Every platform keeps the set of
nodes that its traffic may take, its *view*.  Views are kept up to date in two ways.  A change of a
node is followed by a notification: the registered platforms are listed, and each of them looks at
the node again.  And a platform that is created or replaced is rebuilt as a whole before it is
registered.

Whether a node qualifies is decided by the gates of `MatchNodeCriteria` (an enabled subscription,
health, a known address, a latency) and by what the operator selects, which is any function of the
subscriptions, the address, the region and the protocol of the node.  Subscriptions and the intel
projection are fixed.

A view is *in step* with the pool at a node if it holds the node exactly when the node qualifies.
-/
namespace Prism

open Table

/-- What a platform knows of a node. -/
structure Selection where
  hash : Hash
  subscriptionIDs : List String
  egressIP : Addr
  egressRegion : String
  protocol : String

def NodeEntry.selection (e : NodeEntry) : Selection :=
  ⟨e.hash, e.subscriptionIDs, e.egressIP, e.egressRegion, e.protocol⟩

/-- A platform, with its view. -/
structure PlatformObject where
  id : String
  name : String := ""
  selects : Selection → Bool := fun _ => true
  view : List Hash := []

namespace PlatformObject

variable (enabled : String → Hash → Bool)

/-- `MatchNodeCriteria`, the gates and what the operator selects. -/
def evaluateNode (p : PlatformObject) (e : NodeEntry) : Bool :=
  e.hasEnabledSubscription enabled && e.isHealthy && e.egressIP.isSome && p.selects e.selection &&
    e.hasLatency

/-- `FullRebuild`. -/
def fullRebuild (nodes : NodePool) (p : PlatformObject) : PlatformObject :=
  { p with view := (nodes.filter (p.evaluateNode enabled)).map NodeEntry.hash }

/-- `NotifyDirty`. -/
def notifyDirty (nodes : NodePool) (hash : Hash) (p : PlatformObject) : PlatformObject :=
  if (nodes.getEntry hash).any (p.evaluateNode enabled) then
    { p with view := p.view.insert hash }
  else { p with view := p.view.filter fun h => h ≠ hash }

end PlatformObject

/-- The pool, and the platforms.  An object is known by its place in `objects`. -/
structure Topology where
  nodes : NodePool := []
  objects : List PlatformObject := []
  byID : List (String × ℕ) := []
  byName : List (String × ℕ) := []
  /-- the subscription holds the node, is enabled and has not evicted it -/
  enabled : String → Hash → Bool := fun _ _ => true
  maxConsecutiveFailures : ℤ := 3

namespace Topology

variable (t : Topology)

def registered : List ℕ := t.byID.map Prod.snd

variable (object : ℕ)

def viewOf : List Hash := (t.objects[object]?).elim [] PlatformObject.view

/-- Whether the node qualifies for the platform. -/
def admits (hash : Hash) : Bool :=
  (t.objects[object]?).any fun p => (t.nodes.getEntry hash).any (p.evaluateNode t.enabled)

def onObject (f : PlatformObject → PlatformObject) : Topology :=
  { t with objects := t.objects.modify object f }

def setKey (key : String) (object : ℕ) (rows : List (String × ℕ)) : List (String × ℕ) :=
  (rows.filter fun r => r.1 ≠ key) ++ [(key, object)]

/-- `RegisterPlatform`, if the id is free. -/
def register : Option Topology :=
  match t.objects[object]? with
  | none => none
  | some p =>
    if (lookup Prod.fst p.id t.byID).isSome then none
    else some { t with
      byID := t.byID ++ [(p.id, object)]
      byName := if p.name = "" then t.byName else setKey p.name object t.byName }

/-- The swap of `ReplacePlatform`. -/
def swap : Option Topology :=
  match t.objects[object]? with
  | none => none
  | some next =>
    match lookup Prod.fst next.id t.byID with
    | none => none
    | some current =>
      if next.name ≠ "" ∧
          ((lookup Prod.fst next.name t.byName).any fun r => r.2 ≠ current.2) then none
      else
        let currentName := ((t.objects[current.2]?).elim "" PlatformObject.name)
        let rest := t.byName.filter fun r => ¬(r.1 = currentName ∧ r.2 = current.2)
        some { t with
          byID := setKey next.id object t.byID
          byName := if next.name = "" then rest else setKey next.name object rest }

/-- `UnregisterPlatform`. -/
def unregister (id : String) : Topology :=
  match lookup Prod.fst id t.byID with
  | none => t
  | some current =>
    let name := (t.objects[current.2]?).elim "" PlatformObject.name
    { t with
      byID := t.byID.filter fun r => r.1 ≠ id
      byName := t.byName.filter fun r => ¬(r.1 = name ∧ r.2 = current.2) }

end Topology

/-- The view is right about the node. -/
def InStep (t : Topology) (object : ℕ) (hash : Hash) : Prop :=
  hash ∈ t.viewOf object ↔ t.admits object hash = true

section InStep

variable {t t' : Topology} {object object' : ℕ} {hash hash' : Hash}

theorem InStep.congr (h : InStep t object hash) (hobject : t'.objects[object]? = t.objects[object]?)
    (hsame : ∀ p : PlatformObject, (t'.nodes.getEntry hash).any (p.evaluateNode t'.enabled) =
      (t.nodes.getEntry hash).any (p.evaluateNode t.enabled)) : InStep t' object hash := by
  unfold InStep Topology.viewOf Topology.admits at h ⊢
  simp only [hobject, hsame]
  exact h

theorem InStep.of_same (h : InStep t object hash)
    (hobject : t'.objects[object]? = t.objects[object]?) (hnodes : t'.nodes = t.nodes)
    (henabled : t'.enabled = t.enabled) : InStep t' object hash :=
  h.congr hobject fun p => by rw [hnodes, henabled]

theorem getElem?_onObject_of_ne (h : object' ≠ object) (f : PlatformObject → PlatformObject) :
    (t.onObject object f).objects[object']? = t.objects[object']? :=
  List.getElem?_modify_ne f t.objects (Ne.symm h)

theorem getElem?_onObject (f : PlatformObject → PlatformObject) :
    (t.onObject object f).objects[object]? = t.objects[object]?.map f :=
  List.getElem?_modify_eq f object t.objects

theorem inStep_notifyDirty :
    InStep (t.onObject object (PlatformObject.notifyDirty t.enabled t.nodes hash)) object hash := by
  unfold InStep Topology.viewOf Topology.admits
  rw [getElem?_onObject]
  cases t.objects[object]? with
  | none => simp
  | some p =>
    show hash ∈ (p.notifyDirty t.enabled t.nodes hash).view ↔
      (t.nodes.getEntry hash).any ((p.notifyDirty t.enabled t.nodes hash).evaluateNode t.enabled)
    unfold PlatformObject.notifyDirty
    split
    · rename_i hany
      exact ⟨fun _ => hany, fun _ => List.mem_insert_self⟩
    · rename_i hany
      refine ⟨fun hmem => ?_, fun hmem => absurd hmem hany⟩
      exact absurd (List.mem_filter.mp hmem).2 (by simp)

theorem InStep.notifyDirty (h : InStep t object hash') (hne : hash' ≠ hash) :
    InStep (t.onObject object (PlatformObject.notifyDirty t.enabled t.nodes hash)) object hash' := by
  unfold InStep Topology.viewOf Topology.admits at h ⊢
  rw [getElem?_onObject]
  cases hp : t.objects[object]? with
  | none => simp
  | some p =>
    rw [hp] at h
    have hmem : hash' ∈ (p.notifyDirty t.enabled t.nodes hash).view ↔ hash' ∈ p.view := by
      unfold PlatformObject.notifyDirty
      split
      · rw [List.mem_insert_iff, or_iff_right hne]
      · rw [List.mem_filter]
        exact and_iff_left (decide_eq_true hne)
    have hselects : (p.notifyDirty t.enabled t.nodes hash).evaluateNode t.enabled =
        p.evaluateNode t.enabled := by
      unfold PlatformObject.notifyDirty
      split <;> rfl
    show hash' ∈ (p.notifyDirty t.enabled t.nodes hash).view ↔
      (t.nodes.getEntry hash').any ((p.notifyDirty t.enabled t.nodes hash).evaluateNode t.enabled)
    rw [hmem, hselects]
    exact h

theorem mem_fullRebuild (hnodes : KeysNodup NodeEntry.hash t.nodes) (p : PlatformObject)
    (hash : Hash) : hash ∈ (p.fullRebuild t.enabled t.nodes).view ↔
      (t.nodes.getEntry hash).any (p.evaluateNode t.enabled) = true := by
  show hash ∈ (t.nodes.filter (p.evaluateNode t.enabled)).map NodeEntry.hash ↔ _
  rw [List.mem_map, Option.any_eq_true]
  constructor
  · rintro ⟨e, he, rfl⟩
    obtain ⟨hmem, hok⟩ := List.mem_filter.mp he
    exact ⟨e, lookup_of_mem hnodes hmem, hok⟩
  · rintro ⟨e, he, hok⟩
    exact ⟨e, List.mem_filter.mpr ⟨mem_of_lookup he, hok⟩, key_of_lookup he⟩

theorem inStep_fullRebuild (hnodes : KeysNodup NodeEntry.hash t.nodes) :
    InStep (t.onObject object (PlatformObject.fullRebuild t.enabled t.nodes)) object hash := by
  unfold InStep Topology.viewOf Topology.admits
  rw [getElem?_onObject]
  cases t.objects[object]? with
  | none => simp
  | some p => exact mem_fullRebuild hnodes p hash

end InStep

/-- What happens to nodes and platforms. -/
inductive TopologyEvent where
  /-- a node was changed, and the platforms will be told -/
  | nodeChanged (hash : Hash)
  /-- a node was looked up or counted against, and nobody will be told -/
  | nodeTouched (hash : Hash)
  /-- the platforms that are told about a node -/
  | platformsListed (hash : Hash) (objects : List ℕ)
  | nodeEvaluated (object : ℕ) (hash : Hash)
  | platformBuilt (object : ℕ)
  /-- an object was registered or swapped in -/
  | platformPublished (object : ℕ)
  | platformRefused (object : ℕ)
  | rebuildListed (objects : List ℕ)
  | platformRebuilt (object : ℕ)
  | platformDropped (id : String)

abbrev TopologyTask (α : Type) := Prog Topology TopologyEvent Empty α

abbrev TopologyHistory := Hist Topology TopologyEvent Empty

/-- The order in which a walk over a map, and the workers it is handed to, come by. -/
structure Walk where
  order : List ℕ → List ℕ := id
  mem_order : ∀ l object, object ∈ order l ↔ object ∈ l := by intros; rfl

namespace Topology

def evaluateOn (hash : Hash) : List ℕ → TopologyTask Unit
  | [] => pure ()
  | object :: objects => do
    Prog.modify (.nodeEvaluated object hash) fun t =>
      t.onObject object (PlatformObject.notifyDirty t.enabled t.nodes hash)
    evaluateOn hash objects

variable (walk : Walk)

/-- The notification after a change. -/
def notifyAllPlatformsDirty (hash : Hash) : TopologyTask Unit :=
  Prog.act (fun t => .platformsListed hash t.registered) id fun t =>
    evaluateOn hash (walk.order t.registered)

/-- Change a node, and tell the platforms if they have to know. -/
def changeNode (hash : Hash) (f : Topology → Bool × NodePool) : TopologyTask Unit :=
  Prog.act (fun t => if (f t).1 then .nodeChanged hash else .nodeTouched hash)
    (fun t => { t with nodes := (f t).2 })
    fun t => if (f t).1 then notifyAllPlatformsDirty walk hash else .ret ()

def addNodeFromSub (hash : Hash) (rawOptions subID : String) (nowNs : ℤ) : TopologyTask Unit :=
  changeNode walk hash fun t => (true, t.nodes.addReference hash rawOptions subID nowNs)

def removeNodeFromSub (hash : Hash) (subID : String) : TopologyTask Unit :=
  changeNode walk hash fun t => (true, t.nodes.removeReference hash subID)

def recordOutcome (walk : Walk) (hash : Hash) (success : Bool) (nowNs : ℤ) : TopologyTask Unit :=
  changeNode walk hash fun t =>
    NodePool.recordOutcome t.maxConsecutiveFailures t.nodes hash success nowNs

def updateNodeEgressIP (hash : Hash) (ip : Option Addr) (loc : Option String) : TopologyTask Unit :=
  changeNode walk hash fun t => NodePool.updateEgressIP t.nodes hash ip loc

/-- A new object, rebuilt before anybody can see it. -/
def buildPlatform (p : PlatformObject) : TopologyTask ℕ :=
  Prog.step (fun t => .platformBuilt t.objects.length) fun t =>
    (t.objects.length, { t with objects := t.objects ++ [p.fullRebuild t.enabled t.nodes] })

def publish (object : ℕ) (f : Topology → Option Topology) : TopologyTask Bool :=
  Prog.step
    (fun t => if (f t).isSome then .platformPublished object else .platformRefused object)
    fun t => ((f t).isSome, (f t).getD t)

/-- Built first, then registered. -/
def createPlatform (p : PlatformObject) : TopologyTask Bool := do
  let object ← buildPlatform p
  publish object fun t => t.register object

def replacePlatform (next : PlatformObject) : TopologyTask Bool :=
  if next.id = "" then pure false
  else do
    let object ← buildPlatform next
    publish object fun t => t.swap object

def rebuildOn : List ℕ → TopologyTask Unit
  | [] => pure ()
  | object :: objects => do
    Prog.modify (.platformRebuilt object) fun t =>
      t.onObject object (PlatformObject.fullRebuild t.enabled t.nodes)
    rebuildOn objects

/-- `RebuildAllPlatforms`. -/
def rebuildAllPlatforms : TopologyTask Unit :=
  Prog.act (fun t => .rebuildListed t.registered) id fun t => rebuildOn (walk.order t.registered)

def unregisterPlatform (id : String) : TopologyTask Unit :=
  Prog.modify (.platformDropped id) fun t => t.unregister id

end Topology

end Prism
