import Prism.State.DirtySet
import Prism.Topology.Pool

/-!
# The persisted pool

`AddNodeFromSub` and `RemoveNodeFromSub` of `internal/topology/pool.go`, with the callbacks that
`cmd/prism/main.go` sets on the pool.  The first reference to a node puts it into the map and the
last one takes it out; each of these is one section of the map.  Only after the section the callback
marks the hash: for an upsert if the node is new, for deletion if it has gone.

Between the section and its callback, other references may come and go.  A node that is dropped by
one subscription and taken up by another may so be marked for deletion last, although it is in the
pool, and a flush does not look at the pool for a key that is marked for deletion.  What is enough
is that a deletion callback that finds the node back in the pool is followed by the callback of an
addition.
-/

namespace Prism

open Table

/-- `model.NodeStatic`, without the time of creation. -/
structure NodeStatic where
  hash : Hash
  rawOptions : String

variable (pool : NodePool)

/-- The reader of `nodes_static`. -/
def NodePool.readNodeStatic (hash : Hash) : Option NodeStatic :=
  (pool.getEntry hash).map fun e => { hash := hash, rawOptions := e.rawOptions }

namespace NodePool

variable {pool : NodePool} {hash hash' : Hash}

@[simp] theorem isSome_readNodeStatic :
    (pool.readNodeStatic hash).isSome = (pool.getEntry hash).isSome := by
  unfold readNodeStatic
  rw [Option.isSome_map]

theorem readNodeStatic_of_getEntry_eq {pool' : NodePool}
    (h : pool'.getEntry hash = pool.getEntry hash) :
    pool'.readNodeStatic hash = pool.readNodeStatic hash := by
  unfold readNodeStatic
  rw [h]

theorem readNodeStatic_addReference (hold : (pool.getEntry hash).isSome) (rawOptions subID : String)
    (nowNs : ℤ) :
    (pool.addReference hash rawOptions subID nowNs).readNodeStatic hash =
      pool.readNodeStatic hash := by
  have hadd := fun e : NodeEntry => e.columns_addSubscriptionID subID
  obtain ⟨e, he⟩ := Option.isSome_iff_exists.mp hold
  have hself := lookup_upsertWith_self NodeEntry.hash
    (fun old _ => old.addSubscriptionID subID) (fun old row hrow => (hadd old).1.trans hrow)
    ((newEntry hash rawOptions nowNs).addSubscriptionID subID) pool
  rw [(hadd _).1] at hself
  have hentry : (pool.addReference hash rawOptions subID nowNs).getEntry hash =
      some (e.addSubscriptionID subID) := by
    refine hself.trans ?_
    have hlookup : lookup NodeEntry.hash (newEntry hash rawOptions nowNs).hash pool = some e := he
    rw [hlookup]
  unfold readNodeStatic
  rw [hentry, he]
  show some (NodeStatic.mk hash (e.addSubscriptionID subID).rawOptions) = _
  rw [(hadd e).2]
  rfl

theorem readNodeStatic_removeReference {e : NodeEntry} (he : pool.getEntry hash = some e)
    {subID : String} (hrest : (e.removeSubscriptionID subID).subscriptionIDs ≠ []) :
    (pool.removeReference hash subID).readNodeStatic hash = pool.readNodeStatic hash := by
  have hentry : (pool.removeReference hash subID).getEntry hash =
      some (e.removeSubscriptionID subID) := by
    unfold removeReference
    simp only [he, if_neg hrest]
    rw [getEntry_modify, if_pos rfl, he]
    · rfl
    · exact fun _ => rfl
  unfold readNodeStatic
  rw [hentry, he]
  rfl

end NodePool

/-- The pool, the callbacks and the table. -/
structure PersistedPool where
  pool : NodePool
  /-- what the sections have done and their callbacks have not marked yet -/
  callbacks : List (Hash × DirtyOp) := []
  nodesStatic : DirtyTable Hash NodeStatic

inductive PersistedPoolStep where
  | addNodeFromSub (hash : Hash) (rawOptions subID : String) (nowNs : ℤ)
  | removeNodeFromSub (hash : Hash) (subID : String)
  /-- one of the calls goes on to its callback -/
  | callback (i : ℕ)
  | drain
  | classify (hash : Hash)
  | commit
  | fail
  | merge

namespace PersistedPool

def boot : PersistedPool where
  pool := pool
  nodesStatic := { rows := pool.readNodeStatic }

def addedCallback (hash : Hash) : List (Hash × DirtyOp) :=
  if (pool.getEntry hash).isSome then [] else [(hash, .upsert)]

def removedCallback (hash : Hash) (subID : String) : List (Hash × DirtyOp) :=
  match pool.getEntry hash with
  | none => []
  | some e =>
    if (e.removeSubscriptionID subID).subscriptionIDs = [] then [(hash, .delete)] else []

variable (s : PersistedPool)

def step : PersistedPoolStep → PersistedPool
  | .addNodeFromSub hash rawOptions subID nowNs =>
    { s with
      pool := s.pool.addReference hash rawOptions subID nowNs
      callbacks := s.callbacks ++ addedCallback s.pool hash }
  | .removeNodeFromSub hash subID =>
    { s with
      pool := s.pool.removeReference hash subID
      callbacks := s.callbacks ++ removedCallback s.pool hash subID }
  | .callback i =>
    match s.callbacks[i]? with
    | none => s
    | some (hash, op) =>
      { s with
        callbacks := s.callbacks.eraseIdx i
        nodesStatic := s.nodesStatic.mark hash op }
  | .drain => { s with nodesStatic := s.nodesStatic.drain }
  | .classify hash =>
    { s with nodesStatic := s.nodesStatic.classify s.pool.readNodeStatic hash }
  | .commit => { s with nodesStatic := s.nodesStatic.commit }
  | .fail => { s with nodesStatic := s.nodesStatic.fail }
  | .merge => { s with nodesStatic := s.nodesStatic.merge }

def Finished : Prop := s.callbacks = [] ∧ s.nodesStatic.stage = .idle

def flushed : Hash → Option NodeStatic :=
  (s.nodesStatic.flushDirtySets s.pool.readNodeStatic true).rows

/-- A deletion callback runs while the node is out of the pool, or before the callback of an addition
of the node. -/
def Timely : PersistedPoolStep → Prop
  | .callback i => ∀ cb ∈ s.callbacks[i]?, cb.2 = .delete →
      (s.pool.getEntry cb.1).isSome → (cb.1, .upsert) ∈ s.callbacks
  | _ => True

instance (s : PersistedPool) : ∀ a, Decidable (s.Timely a)
  | .callback i => inferInstanceAs (Decidable (∀ cb ∈ s.callbacks[i]?, cb.2 = .delete →
      (s.pool.getEntry cb.1).isSome → (cb.1, .upsert) ∈ s.callbacks))
  | .addNodeFromSub .. => isTrue trivial
  | .removeNodeFromSub .. => isTrue trivial
  | .drain => isTrue trivial
  | .classify _ => isTrue trivial
  | .commit => isTrue trivial
  | .fail => isTrue trivial
  | .merge => isTrue trivial

/-- The marks of the node lead to its row, or a callback will see to it.  The callback of a deletion
counts only while the node is out of the pool. -/
def Covered (hash : Hash) : Prop :=
  s.nodesStatic.Agrees hash (s.pool.readNodeStatic hash) ∨ (hash, .upsert) ∈ s.callbacks ∨
    ((hash, .delete) ∈ s.callbacks ∧ s.pool.getEntry hash = none)

variable {s : PersistedPool} {hash : Hash}

theorem covered_boot (hash : Hash) : (boot pool).Covered hash := Or.inl rfl

theorem Covered.of_table (h : s.Covered hash) {table : DirtyTable Hash NodeStatic}
    (htable : s.nodesStatic.Agrees hash (s.pool.readNodeStatic hash) →
      table.Agrees hash (s.pool.readNodeStatic hash)) :
    Covered { s with nodesStatic := table } hash :=
  h.imp_left htable

theorem Covered.of_pool (h : s.Covered hash) {pool : NodePool} {owed : List (Hash × DirtyOp)}
    (hentry : pool.readNodeStatic hash = s.pool.readNodeStatic hash) :
    Covered { s with pool := pool, callbacks := s.callbacks ++ owed } hash := by
  have hnone : pool.getEntry hash = none ↔ s.pool.getEntry hash = none := by
    rw [← Option.not_isSome_iff_eq_none, ← Option.not_isSome_iff_eq_none,
      ← NodePool.isSome_readNodeStatic, hentry, NodePool.isSome_readNodeStatic]
  rcases h with hagrees | hup | ⟨hdel, hout⟩
  · exact .inl (hentry ▸ hagrees)
  · exact .inr (.inl (List.mem_append_left _ hup))
  · exact .inr (.inr ⟨List.mem_append_left _ hdel, hnone.mpr hout⟩)

theorem Covered.addNodeFromSub (h : s.Covered hash) (added : Hash) (rawOptions subID : String)
    (nowNs : ℤ) : (s.step (.addNodeFromSub added rawOptions subID nowNs)).Covered hash := by
  by_cases heq : hash = added
  · subst heq
    by_cases hold : (s.pool.getEntry hash).isSome
    · exact h.of_pool (NodePool.readNodeStatic_addReference hold rawOptions subID nowNs)
    · refine .inr (.inl (List.mem_append_right _ ?_))
      unfold addedCallback
      rw [if_neg hold]
      exact List.mem_singleton_self _
  · exact h.of_pool (NodePool.readNodeStatic_of_getEntry_eq
      (NodePool.getEntry_addReference_of_ne heq rawOptions subID nowNs))

theorem Covered.removeNodeFromSub (h : s.Covered hash) (removed : Hash) (subID : String) :
    (s.step (.removeNodeFromSub removed subID)).Covered hash := by
  by_cases heq : hash = removed
  · subst heq
    cases hentry : s.pool.getEntry hash with
    | none =>
      refine h.of_pool (NodePool.readNodeStatic_of_getEntry_eq ?_)
      unfold NodePool.removeReference
      simp only [hentry]
    | some e =>
      by_cases hlast : (e.removeSubscriptionID subID).subscriptionIDs = []
      · refine .inr (.inr ⟨List.mem_append_right _ ?_, ?_⟩)
        · unfold removedCallback
          simp only [hentry, if_pos hlast]
          exact List.mem_singleton_self _
        · show (s.pool.removeReference hash subID).getEntry hash = none
          unfold NodePool.removeReference NodePool.getEntry
          simp only [show lookup NodeEntry.hash hash s.pool = some e from hentry, if_pos hlast]
          rw [lookup_filter_ne, if_pos rfl]
      · exact h.of_pool (NodePool.readNodeStatic_removeReference hentry hlast)
  · exact h.of_pool (NodePool.readNodeStatic_of_getEntry_eq
      (NodePool.getEntry_removeReference_of_ne heq subID))

theorem mem_eraseIdx_of_ne {callbacks : List (Hash × DirtyOp)} {i : ℕ} {ran cb : Hash × DirtyOp}
    (hran : callbacks[i]? = some ran) (hcb : cb ∈ callbacks) (hne : cb ≠ ran) :
    cb ∈ callbacks.eraseIdx i := by
  obtain ⟨j, hj, rfl⟩ := List.mem_iff_getElem.mp hcb
  refine List.mem_eraseIdx_iff_getElem.mpr ⟨j, hj, fun hji => hne ?_, rfl⟩
  rw [← hji, List.getElem?_eq_getElem hj] at hran
  exact Option.some.inj hran

theorem Covered.callback (h : s.Covered hash) {i : ℕ} (htimely : s.Timely (.callback i)) :
    (s.step (.callback i)).Covered hash := by
  cases hcb : s.callbacks[i]? with
  | none =>
    have hskip : s.step (.callback i) = s := by
      simp only [step, hcb]
    rw [hskip]
    exact h
  | some ran =>
    obtain ⟨marked, op⟩ := ran
    have hstep : s.step (.callback i) =
        { s with callbacks := s.callbacks.eraseIdx i
                 nodesStatic := s.nodesStatic.mark marked op } := by
      simp only [step, hcb]
    rw [hstep]
    by_cases heq : hash = marked
    · subst heq
      cases op with
      | upsert => exact .inl (DirtyTable.agrees_mark_self (.inl rfl))
      | delete =>
        cases hentry : s.pool.getEntry hash with
        | none =>
          refine .inl (DirtyTable.agrees_mark_self (.inr ?_))
          unfold NodePool.readNodeStatic
          rw [hentry]
          rfl
        | some e =>
          have hup := htimely (hash, .delete) hcb rfl (by rw [hentry]; rfl)
          exact .inr (.inl (mem_eraseIdx_of_ne hcb hup (by simp)))
    · have hother : ∀ op', (hash, op') ≠ (marked, op) := fun op' hpair =>
        heq (congrArg Prod.fst hpair)
      rcases h with hagrees | hup | ⟨hdel, hout⟩
      · exact .inl ((DirtyTable.agrees_mark_of_ne heq op).mpr hagrees)
      · exact .inr (.inl (mem_eraseIdx_of_ne hcb hup (hother _)))
      · exact .inr (.inr ⟨mem_eraseIdx_of_ne hcb hdel (hother _), hout⟩)

theorem Covered.step (h : s.Covered hash) {a : PersistedPoolStep} (htimely : s.Timely a) :
    (s.step a).Covered hash := by
  cases a with
  | addNodeFromSub added rawOptions subID nowNs => exact h.addNodeFromSub added rawOptions subID nowNs
  | removeNodeFromSub removed subID => exact h.removeNodeFromSub removed subID
  | callback i => exact h.callback htimely
  | drain => exact h.of_table fun hagrees => hagrees.drain
  | classify looked => exact h.of_table fun hagrees => hagrees.classify fun _ => rfl
  | commit => exact h.of_table fun hagrees => hagrees.commit
  | fail => exact h.of_table fun hagrees => hagrees.fail
  | merge => exact h.of_table fun hagrees => hagrees.merge

theorem Covered.agrees (h : s.Covered hash) (hdone : s.Finished) :
    s.nodesStatic.Agrees hash (s.pool.readNodeStatic hash) := by
  rcases h with hagrees | hup | ⟨hdel, -⟩
  · exact hagrees
  · rw [hdone.1] at hup
    cases hup
  · rw [hdone.1] at hdel
    cases hdel

end PersistedPool

open PersistedPool

/-- **The persisted pool is the pool**, in every run in which no deletion callback comes after the
node was taken up again and marked. -/
theorem live_nodes_persisted (pool : NodePool) (steps : List PersistedPoolStep)
    (htimely : Along PersistedPool.step PersistedPool.Timely (.boot pool) steps)
    (hdone : (run PersistedPool.step (.boot pool) steps).Finished) (hash : Hash) :
    ((run PersistedPool.step (.boot pool) steps).flushed hash).isSome ↔
      ((run PersistedPool.step (.boot pool) steps).pool.getEntry hash).isSome := by
  have hcovered : ∀ hash, (run step (.boot pool) steps).Covered hash :=
    Along.invariant (I := fun s => ∀ hash, s.Covered hash)
      (fun s a ha hs hash => (hs hash).step ha) htimely (covered_boot pool)
  have hrows := DirtyTable.rows_flushDirtySets hdone.2 fun hash => (hcovered hash).agrees hdone
  unfold flushed
  rw [hrows, NodePool.isSome_readNodeStatic]

/-- The last subscription drops a node and another one takes it up at once, the callbacks in order,
with a flush that fails in between. -/
theorem live_nodes_persisted_moved : ((run PersistedPool.step (.boot [])
      [.addNodeFromSub 7 "opts" "a" 1, .callback 0, .drain, .removeNodeFromSub 7 "a",
        .addNodeFromSub 7 "opts" "b" 2, .callback 0, .classify 7, .fail, .callback 0,
        .merge]).flushed 7).isSome := by
  refine (live_nodes_persisted _ _ ?_ ⟨?_, ?_⟩ 7).mpr ?_
  · decide
  · decide
  · rfl
  · decide

/-- **A node in the pool loses its row.**  The callbacks of the removal and of the addition run in
the other order. -/
theorem live_node_lost : (run PersistedPool.step (.boot [])
      [.addNodeFromSub 7 "opts" "a" 1, .callback 0, .drain, .classify 7, .commit,
        .removeNodeFromSub 7 "a", .addNodeFromSub 7 "opts" "b" 2, .callback 1, .callback 0]).Finished ∧
    ((run PersistedPool.step (.boot [])
      [.addNodeFromSub 7 "opts" "a" 1, .callback 0, .drain, .classify 7, .commit,
        .removeNodeFromSub 7 "a", .addNodeFromSub 7 "opts" "b" 2, .callback 1,
        .callback 0]).pool.getEntry 7).isSome ∧
    (run PersistedPool.step (.boot [])
      [.addNodeFromSub 7 "opts" "a" 1, .callback 0, .drain, .classify 7, .commit,
        .removeNodeFromSub 7 "a", .addNodeFromSub 7 "opts" "b" 2, .callback 1,
        .callback 0]).flushed 7 = none := by
  refine ⟨⟨?_, ?_⟩, ?_, ?_⟩
  · decide
  · rfl
  · decide
  · decide

end Prism
