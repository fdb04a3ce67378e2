import Prism.Routing.Lease

/-!
# Repairing the cache

`RepairConsistency` of `internal/state/consistency.go`.  The tables of `cache.db` refer to each
other and to the subscriptions and platforms of `state.db` without foreign keys.  At start the rows
that refer to nothing are deleted, by five statements in one transaction.

A node and the subscription rows that list it need each other.  One pass is enough all the same: a
row that the first statement keeps is a reference to its node, so the second statement keeps that
node.  What is left is the greatest part of the tables in which every reference leads somewhere.
-/

namespace Prism

/-- A row of `subscription_nodes`. -/
structure SubscriptionNode where
  subscriptionID : String
  nodeHash : String
  evicted : Bool
  tagsJSON : String

/-- A row of `nodes_static`, `nodes_dynamic` or `node_latency`: the hash of a node, and columns the
repair does not look at. -/
structure NodeRow where
  hash : String
  columns : List String

structure CacheTables where
  subscriptionNodes : List SubscriptionNode
  nodesStatic : List NodeRow
  nodesDynamic : List NodeRow
  nodeLatency : List NodeRow
  leases : List LeaseRow

/-- `DELETE ... WHERE p`. -/
def deleteWhere {α : Type*} (p : α → Prop) [DecidablePred p] (rows : List α) : List α :=
  rows.filter fun r => ¬ p r

namespace CacheTables

/-- `SELECT hash FROM nodes_static`. -/
def hashes (c : CacheTables) : List String := c.nodesStatic.map NodeRow.hash

/-- `SELECT node_hash FROM subscription_nodes WHERE evicted = 0`. -/
def listed (c : CacheTables) : List String :=
  (c.subscriptionNodes.filter fun r => r.evicted = false).map SubscriptionNode.nodeHash

/-- The statements one after the other, with the ids of `state.db`. -/
def repairConsistency (subscriptions platforms : List String) (c : CacheTables) : CacheTables :=
  let c := { c with
    subscriptionNodes := deleteWhere (fun r =>
      r.subscriptionID ∉ subscriptions ∨ r.evicted = false ∧ r.nodeHash ∉ c.hashes)
      c.subscriptionNodes }
  let c := { c with nodesStatic := deleteWhere (fun n => n.hash ∉ c.listed) c.nodesStatic }
  let c := { c with nodesDynamic := deleteWhere (fun n => n.hash ∉ c.hashes) c.nodesDynamic }
  let c := { c with nodeLatency := deleteWhere (fun n => n.hash ∉ c.hashes) c.nodeLatency }
  { c with
    leases := deleteWhere (fun l => l.platformID ∉ platforms ∨ l.nodeHash ∉ c.hashes) c.leases }

/-- Every reference leads somewhere, and every node is referred to. -/
structure Consistent (subscriptions platforms : List String) (c : CacheTables) : Prop where
  subscribed : ∀ r ∈ c.subscriptionNodes, r.subscriptionID ∈ subscriptions
  known : ∀ r ∈ c.subscriptionNodes, r.evicted = false → ∃ n ∈ c.nodesStatic, n.hash = r.nodeHash
  used : ∀ n ∈ c.nodesStatic, ∃ r ∈ c.subscriptionNodes, r.evicted = false ∧ r.nodeHash = n.hash
  dynamic : ∀ d ∈ c.nodesDynamic, ∃ n ∈ c.nodesStatic, n.hash = d.hash
  latency : ∀ d ∈ c.nodeLatency, ∃ n ∈ c.nodesStatic, n.hash = d.hash
  leased : ∀ l ∈ c.leases, l.platformID ∈ platforms ∧ ∃ n ∈ c.nodesStatic, n.hash = l.nodeHash

/-- Some of the rows of every table. -/
structure Within (s c : CacheTables) : Prop where
  subscriptionNodes : s.subscriptionNodes.Sublist c.subscriptionNodes
  nodesStatic : s.nodesStatic.Sublist c.nodesStatic
  nodesDynamic : s.nodesDynamic.Sublist c.nodesDynamic
  nodeLatency : s.nodeLatency.Sublist c.nodeLatency
  leases : s.leases.Sublist c.leases

theorem Within.antisymm {s c : CacheTables} (h : s.Within c) (h' : c.Within s) : s = c := by
  cases s
  cases c
  simp only [mk.injEq]
  exact ⟨h.1.antisymm h'.1, h.2.antisymm h'.2, h.3.antisymm h'.3, h.4.antisymm h'.4,
    h.5.antisymm h'.5⟩

theorem mem_hashes {c : CacheTables} {hash : String} :
    hash ∈ c.hashes ↔ ∃ n ∈ c.nodesStatic, n.hash = hash :=
  List.mem_map

theorem mem_listed {c : CacheTables} {hash : String} :
    hash ∈ c.listed ↔ ∃ r ∈ c.subscriptionNodes, r.evicted = false ∧ r.nodeHash = hash := by
  simp [listed, and_assoc]

section Repair

variable {α : Type*} {p : α → Prop} [DecidablePred p] {rows part : List α}

theorem mem_deleteWhere {r : α} : r ∈ deleteWhere p rows ↔ r ∈ rows ∧ ¬ p r := by
  simp [deleteWhere]

theorem sublist_deleteWhere (h : part.Sublist rows) (hp : ∀ r ∈ part, ¬ p r) :
    part.Sublist (deleteWhere p rows) := by
  have hself : deleteWhere p part = part := List.filter_eq_self.mpr (by simpa using hp)
  exact hself ▸ h.filter _

variable (subscriptions platforms : List String) (c : CacheTables)

theorem repairConsistency_within : (c.repairConsistency subscriptions platforms).Within c :=
  ⟨List.filter_sublist, List.filter_sublist, List.filter_sublist, List.filter_sublist,
    List.filter_sublist⟩

theorem consistent_repairConsistency :
    (c.repairConsistency subscriptions platforms).Consistent subscriptions platforms := by
  refine ⟨fun r hr => ?_, fun r hr hlive => ?_, fun n hn => ?_, fun d hd => ?_, fun d hd => ?_,
    fun l hl => ?_⟩
  · have hkept := (mem_deleteWhere.mp hr).2
    tauto
  · have hkept := (mem_deleteWhere.mp hr).2
    obtain ⟨n, hn, hash⟩ := mem_hashes.mp (show r.nodeHash ∈ c.hashes by tauto)
    -- the row itself is what keeps its node
    refine ⟨n, mem_deleteWhere.mpr ⟨hn, not_not_intro (mem_listed.mpr ⟨r, hr, hlive, ?_⟩)⟩, hash⟩
    exact hash.symm
  · exact mem_listed.mp (not_not.mp (mem_deleteWhere.mp hn).2)
  · exact mem_hashes.mp (not_not.mp (mem_deleteWhere.mp hd).2)
  · exact mem_hashes.mp (not_not.mp (mem_deleteWhere.mp hd).2)
  · have hkept := (mem_deleteWhere.mp hl).2
    rw [not_or, not_not, not_not] at hkept
    exact ⟨hkept.1, mem_hashes.mp hkept.2⟩

theorem within_repairConsistency {s : CacheTables} (h : s.Within c)
    (hs : s.Consistent subscriptions platforms) :
    s.Within (c.repairConsistency subscriptions platforms) := by
  have hnodes : s.subscriptionNodes.Sublist
      (c.repairConsistency subscriptions platforms).subscriptionNodes := by
    refine sublist_deleteWhere h.subscriptionNodes fun r hr hgone => ?_
    rcases hgone with hgone | ⟨hlive, hgone⟩
    · exact hgone (hs.subscribed r hr)
    · obtain ⟨n, hn, hash⟩ := hs.known r hr hlive
      exact hgone (mem_hashes.mpr ⟨n, h.nodesStatic.subset hn, hash⟩)
  have hstatic : s.nodesStatic.Sublist
      (c.repairConsistency subscriptions platforms).nodesStatic := by
    refine sublist_deleteWhere h.nodesStatic fun n hn => not_not_intro ?_
    obtain ⟨r, hr, huse⟩ := hs.used n hn
    exact mem_listed.mpr ⟨r, hnodes.subset hr, huse⟩
  have hknown : ∀ {hash}, (∃ n ∈ s.nodesStatic, n.hash = hash) →
      hash ∈ (c.repairConsistency subscriptions platforms).hashes :=
    fun ⟨n, hn, hash⟩ => mem_hashes.mpr ⟨n, hstatic.subset hn, hash⟩
  refine ⟨hnodes, hstatic, ?_, ?_, ?_⟩
  · exact sublist_deleteWhere h.nodesDynamic fun d hd => not_not_intro (hknown (hs.dynamic d hd))
  · exact sublist_deleteWhere h.nodeLatency fun d hd => not_not_intro (hknown (hs.latency d hd))
  · refine sublist_deleteWhere h.leases fun l hl hgone => ?_
    exact hgone.elim (fun hp => hp (hs.leased l hl).1) fun hn => hn (hknown (hs.leased l hl).2)

end Repair

/-- **Repair keeps the greatest consistent part of the cache**, and has nothing to do a second
time. -/
theorem repairConsistency_greatest (subscriptions platforms : List String) (c : CacheTables) :
    let repaired := c.repairConsistency subscriptions platforms
    repaired.Within c ∧ repaired.Consistent subscriptions platforms ∧
    (∀ s : CacheTables, s.Within c → s.Consistent subscriptions platforms → s.Within repaired) ∧
    repaired.repairConsistency subscriptions platforms = repaired := by
  intro repaired
  have hcons : repaired.Consistent subscriptions platforms :=
    consistent_repairConsistency subscriptions platforms c
  have hself : repaired.Within repaired := ⟨.refl _, .refl _, .refl _, .refl _, .refl _⟩
  refine ⟨repairConsistency_within _ _ c, hcons, fun s h hs => ?_, ?_⟩
  · exact within_repairConsistency _ _ c h hs
  · exact (repairConsistency_within _ _ repaired).antisymm
      (within_repairConsistency _ _ repaired hself hcons)

end CacheTables

end Prism
