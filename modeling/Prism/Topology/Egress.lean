import Prism.Foundation.Run
import Prism.Topology.Pool

/-!
# The egress index

`UpdateNodeEgressIP` and the index of `internal/topology/pool.go` that finds the nodes of an egress
address.  An update loads the entry of a node, reads its address, stores the new one, and moves the
hash from the bucket of the address it has read to that of the new one.  Only the move is made under
the lock of the index.  A removal takes the entry out of the pool and then drops the hash from all
buckets.

Two updates of a node that have read the same address leave the hash in two buckets
(`two_updates_two_buckets`); an update that has loaded an entry before its removal puts the hash
back; and a removal that comes to drop the hash after the node was added again takes the new one
along.

A bucket is a set of hashes.  The index is kept here by hash: the buckets that the hash is in.
-/

namespace Prism

open Function

/-- `netip.Addr`, as far as the index looks at it. -/
inductive EgressAddr where
  | invalid
  | v4 (a : ℕ)
  | v4In6 (a : ℕ)
  | v6 (a : ℕ)
  deriving DecidableEq

/-- The key of the bucket of an address: `Unmap`, for one that is valid. -/
def EgressAddr.bucket : EgressAddr → Option EgressAddr
  | .invalid => none
  | .v4In6 a => some (.v4 a)
  | ip => some ip

inductive UpdateStage where
  | loaded
  | read (oldIP : EgressAddr)
  | stored (oldIP : EgressAddr)
  deriving DecidableEq

/-- A call of `UpdateNodeEgressIP` that is under way. -/
structure EgressUpdate where
  entry : ℕ
  ip : EgressAddr
  stage : UpdateStage
  deriving DecidableEq

/-- What there is of one hash.  Entries are numbered, and a removed one may still be written to. -/
structure EgressNode where
  entry : Option ℕ := none
  subs : List String := []
  egressIP : ℕ → EgressAddr := fun _ => .invalid
  created : ℕ := 0
  buckets : List EgressAddr := []
  updates : List EgressUpdate := []
  drops : ℕ := 0

inductive EgressStep where
  | addNodeFromSub (subID : String)
  | removeNodeFromSub (subID : String)
  | removeEgressIndex
  | load (ip : EgressAddr)
  | advance (u : EgressUpdate)

/-- `indexEgressIP`, for one hash. -/
def indexEgressIP (oldIP newIP : EgressAddr) (buckets : List EgressAddr) : List EgressAddr :=
  newIP.bucket.toList ++ (buckets.filter fun k => oldIP.bucket ≠ some k)

namespace EgressNode

variable (s : EgressNode)

def advance (u : EgressUpdate) : EgressNode :=
  let rest := s.updates.erase u
  match u.stage with
  | .loaded =>
    if s.egressIP u.entry = u.ip then { s with updates := rest }
    else { s with updates := { u with stage := .read (s.egressIP u.entry) } :: rest }
  | .read oldIP =>
    { s with
      egressIP := update s.egressIP u.entry u.ip
      updates := { u with stage := .stored oldIP } :: rest }
  | .stored oldIP =>
    { s with buckets := indexEgressIP oldIP u.ip s.buckets, updates := rest }

def addNodeFromSub (subID : String) : EgressNode :=
  match s.entry with
  | some _ => { s with subs := subID :: s.subs.erase subID }
  | none => { s with entry := some s.created, subs := [subID], created := s.created + 1 }

def removeNodeFromSub (subID : String) : EgressNode :=
  if s.entry = none then s
  else if s.subs.erase subID = [] then { s with entry := none, subs := [], drops := s.drops + 1 }
  else { s with subs := s.subs.erase subID }

def removeEgressIndex : EgressNode :=
  if s.drops = 0 then s else { s with buckets := [], drops := s.drops - 1 }

def load (ip : EgressAddr) : EgressNode :=
  match s.entry with
  | some e => { s with updates := ⟨e, ip, .loaded⟩ :: s.updates }
  | none => s

def step : EgressStep → EgressNode
  | .addNodeFromSub subID => s.addNodeFromSub subID
  | .removeNodeFromSub subID => s.removeNodeFromSub subID
  | .removeEgressIndex => s.removeEgressIndex
  | .load ip => s.load ip
  | .advance u => if u ∈ s.updates then s.advance u else s

abbrev Idle : Prop := s.updates = [] ∧ s.drops = 0

/-- **An update starts alone, and no node is removed during one.** -/
def Calm : EgressStep → Prop
  | .load _ => s.entry = none ∨ s.Idle
  | .removeNodeFromSub _ => s.updates = []
  | _ => True

instance (s : EgressNode) (a : EgressStep) : Decidable (s.Calm a) := by
  cases a <;> unfold Calm <;> infer_instance

/-- The hash is in the bucket of the address alone. -/
def Listed (ip : EgressAddr) : Prop := ∀ k, k ∈ s.buckets ↔ ip.bucket = some k

def current : EgressAddr := s.entry.elim .invalid s.egressIP

def Knows (u : EgressUpdate) : Prop :=
  match u.stage with
  | .loaded => s.Listed (s.egressIP u.entry)
  | .read oldIP => s.egressIP u.entry = oldIP ∧ s.Listed oldIP
  | .stored oldIP => s.egressIP u.entry = u.ip ∧ s.Listed oldIP

/-- **The index agrees**, or something is going on that it waits for. -/
structure Indexed (s : EgressNode) : Prop where
  created : ∀ e, s.entry = some e → e < s.created
  blank : ∀ e, s.created ≤ e → s.egressIP e = .invalid
  state : s.updates = [] ∧ (if s.drops = 0 then s.Listed s.current else s.current = .invalid) ∨
    ∃ u, s.updates = [u] ∧ s.drops = 0 ∧ s.entry = some u.entry ∧ s.Knows u

variable {s : EgressNode}

theorem mem_indexEgressIP {oldIP newIP k : EgressAddr} {buckets : List EgressAddr} :
    k ∈ indexEgressIP oldIP newIP buckets ↔
      newIP.bucket = some k ∨ k ∈ buckets ∧ oldIP.bucket ≠ some k := by
  unfold indexEgressIP
  rw [List.mem_append, Option.mem_toList, List.mem_filter, decide_eq_true_eq]

theorem Indexed.advance {u : EgressUpdate} (h : s.Indexed) (hu : s.updates = [u])
    (hdrops : s.drops = 0) (hentry : s.entry = some u.entry) (hknows : s.Knows u) :
    (s.advance u).Indexed := by
  have hrest : s.updates.erase u = [] := by rw [hu, List.erase_cons_head]
  have hcurrent : s.current = s.egressIP u.entry := by
    unfold EgressNode.current
    rw [hentry]
    rfl
  unfold EgressNode.advance
  unfold Knows at hknows
  rw [hrest]
  cases hstage : u.stage with
  | loaded =>
    rw [hstage] at hknows
    dsimp only
    split
    · refine ⟨h.created, h.blank, .inl ⟨rfl, ?_⟩⟩
      rw [if_pos hdrops]
      exact hcurrent ▸ hknows
    · exact ⟨h.created, h.blank, .inr ⟨_, rfl, hdrops, hentry, rfl, hknows⟩⟩
  | read oldIP =>
    rw [hstage] at hknows
    refine ⟨h.created, fun e he => ?_, .inr ⟨_, rfl, hdrops, hentry, ?_, hknows.2⟩⟩
    · have hlt := h.created u.entry hentry
      dsimp only at he ⊢
      rw [update_of_ne (by omega)]
      exact h.blank e he
    · exact update_self u.entry u.ip s.egressIP
  | stored oldIP =>
    rw [hstage] at hknows
    refine ⟨h.created, h.blank, .inl ⟨rfl, ?_⟩⟩
    rw [if_pos hdrops]
    intro k
    show k ∈ indexEgressIP oldIP u.ip s.buckets ↔ s.current.bucket = some k
    rw [mem_indexEgressIP, hcurrent, hknows.1]
    constructor
    · rintro (hnew | ⟨hmem, hother⟩)
      · exact hnew
      · exact absurd ((hknows.2 k).mp hmem) hother
    · exact .inl

theorem Indexed.addNodeFromSub (h : s.Indexed) (subID : String) :
    (s.addNodeFromSub subID).Indexed := by
  unfold EgressNode.addNodeFromSub
  split
  · exact ⟨h.created, h.blank, h.state⟩
  rename_i hentry
  refine ⟨fun e he => ?_, fun e he => h.blank e (Nat.le_of_succ_le he), .inl ?_⟩
  · cases he
    exact Nat.lt_succ_self _
  -- the new entry has no address, like the node that was not there
  have hsame : s.current = s.egressIP s.created := by
    rw [h.blank _ (le_refl _)]
    unfold current
    rw [hentry]
    rfl
  have hstate := h.state.resolve_right fun ⟨u, _, _, hlive, _⟩ => nomatch hentry.symm.trans hlive
  rw [hsame] at hstate
  exact hstate

theorem Indexed.removeEgressIndex (h : s.Indexed) : s.removeEgressIndex.Indexed := by
  unfold EgressNode.removeEgressIndex
  split
  · exact h
  rename_i hdrops
  obtain ⟨hidle, hlist⟩ := h.state.resolve_right fun ⟨u, _, hnone, _⟩ => hdrops hnone
  rw [if_neg hdrops] at hlist
  refine ⟨h.created, h.blank, .inl ⟨hidle, ?_⟩⟩
  show if s.drops - 1 = 0 then ∀ k, k ∈ [] ↔ s.current.bucket = some k else s.current = .invalid
  rw [hlist]
  split
  · exact fun k => iff_of_false (by simp) nofun
  · rfl

theorem Indexed.load (h : s.Indexed) {ip : EgressAddr} (ha : s.entry = none ∨ s.Idle) :
    (s.load ip).Indexed := by
  unfold EgressNode.load
  split
  · rename_i e hentry
    obtain ⟨hidle, hdrops⟩ := ha.resolve_left (by simp [hentry])
    obtain ⟨-, hlist⟩ := h.state.resolve_right fun ⟨u, hu, _⟩ => nomatch hidle.symm.trans hu
    rw [if_pos hdrops] at hlist
    unfold current at hlist
    rw [hentry] at hlist
    exact ⟨h.created, h.blank, .inr ⟨_, congrArg (List.cons _) hidle, hdrops, hentry, hlist⟩⟩
  · exact h

theorem Indexed.step (h : s.Indexed) {a : EgressStep} (ha : s.Calm a) : (s.step a).Indexed := by
  cases a with
  | addNodeFromSub subID => exact h.addNodeFromSub subID
  | removeNodeFromSub subID =>
    show (s.removeNodeFromSub subID).Indexed
    unfold EgressNode.removeNodeFromSub
    split
    · exact h
    split
    · exact ⟨nofun, h.blank, .inl ⟨ha, rfl⟩⟩
    · exact ⟨h.created, h.blank, h.state⟩
  | removeEgressIndex => exact h.removeEgressIndex
  | load ip => exact h.load ha
  | advance u =>
    show (if u ∈ s.updates then s.advance u else s).Indexed
    split
    · rename_i hmem
      rcases h.state with ⟨hidle, -⟩ | ⟨u', hu, hdrops, hentry, hknows⟩
      · rw [hidle] at hmem
        cases hmem
      · obtain rfl := List.mem_singleton.mp (hu ▸ hmem)
        exact h.advance hu hdrops hentry hknows
    · exact h

end EgressNode

/-- All nodes. -/
abbrev EgressPool := Hash → EgressNode

namespace EgressPool

def step (s : EgressPool) (c : Hash × EgressStep) : EgressPool :=
  update s c.1 ((s c.1).step c.2)

def Calm (s : EgressPool) (c : Hash × EgressStep) : Prop := (s c.1).Calm c.2
  deriving Decidable

def egressIPOwners (s : EgressPool) (ip : EgressAddr) : Set Hash :=
  { hash | ∃ k, ip.bucket = some k ∧ k ∈ (s hash).buckets }

end EgressPool

open EgressPool

/-- **The egress index agrees with the pool.**  In every run of updates, additions and removals on
any nodes from the empty pool, in which an update starts alone and no node is removed during one:
once all have finished, the owners of a valid address are the nodes of the pool whose address it
is. -/
theorem egress_index_agrees (steps : List (Hash × EgressStep))
    (hcalm : Along EgressPool.step EgressPool.Calm (fun _ => {}) steps)
    (hdone : ∀ hash, (run EgressPool.step (fun _ => {}) steps hash).Idle)
    (ip : EgressAddr) (hip : ip ≠ .invalid) (hash : Hash) :
    hash ∈ (run EgressPool.step (fun _ => {}) steps).egressIPOwners ip ↔
      ∃ e, (run EgressPool.step (fun _ => {}) steps hash).entry = some e ∧
        ((run EgressPool.step (fun _ => {}) steps hash).egressIP e).bucket = ip.bucket := by
  have hindexed : ∀ hash, (run step (fun _ => {}) steps hash).Indexed := by
    refine hcalm.invariant (I := fun s : EgressPool => ∀ hash, (s hash).Indexed)
      (fun s c hc hs hash => ?_) fun _ => ⟨nofun, fun _ _ => rfl, .inl ⟨rfl, fun _ => ?_⟩⟩
    · by_cases hown : hash = c.1
      · subst hown
        rw [step, update_self]
        exact (hs c.1).step hc
      · rw [step, update_of_ne hown]
        exact hs hash
    · exact iff_of_false (by simp) nofun
  have hlisted : (run step (fun _ => {}) steps hash).Listed
      (run step (fun _ => {}) steps hash).current := by
    rcases (hindexed hash).state with ⟨-, hlist⟩ | ⟨u, hu, -⟩
    · rwa [if_pos (hdone hash).2] at hlist
    · exact nomatch (hdone hash).1.symm.trans hu
  obtain ⟨k, hk⟩ : ∃ k, ip.bucket = some k := by
    cases ip with
    | invalid => exact absurd rfl hip
    | _ => exact ⟨_, rfl⟩
  show (∃ k, ip.bucket = some k ∧ k ∈ _) ↔ _
  simp only [hk, Option.some.injEq, exists_eq_left', hlisted k]
  unfold EgressNode.current
  cases (run step (fun _ => {}) steps hash).entry with
  | none => simp [EgressAddr.bucket]
  | some e => simp

def oneUpdate : List (Hash × EgressStep) :=
  [(7, .addNodeFromSub "s"), (7, .load (.v4In6 1)), (7, .advance ⟨0, .v4In6 1, .loaded⟩),
    (7, .advance ⟨0, .v4In6 1, .read .invalid⟩), (7, .advance ⟨0, .v4In6 1, .stored .invalid⟩)]

theorem egress_index_agrees_one :
    7 ∈ (run EgressPool.step (fun _ => {}) oneUpdate).egressIPOwners (.v4 1) := by
  refine (egress_index_agrees oneUpdate (by decide +kernel) (fun hash => ?_) (.v4 1) (by decide)
    7).mpr ⟨0, by decide +kernel, by decide +kernel⟩
  by_cases hhash : hash = 7
  · subst hhash
    decide +kernel
  · have hother : run step (fun _ => {}) oneUpdate hash = {} := by
      simp [oneUpdate, run, step, update_of_ne hhash]
    rw [hother]
    exact ⟨rfl, rfl⟩

/-- Two updates of a node that has no address yet, and both have read that. -/
def twoUpdates : List (Hash × EgressStep) :=
  [.addNodeFromSub "s", .load (.v4 1), .load (.v4 2), .advance ⟨0, .v4 1, .loaded⟩,
    .advance ⟨0, .v4 2, .loaded⟩, .advance ⟨0, .v4 1, .read .invalid⟩,
    .advance ⟨0, .v4 2, .read .invalid⟩, .advance ⟨0, .v4 1, .stored .invalid⟩,
    .advance ⟨0, .v4 2, .stored .invalid⟩].map fun a => (7, a)

theorem two_updates_two_buckets :
    let s := run EgressPool.step (fun _ => {}) twoUpdates
    (s 7).Idle ∧ (s 7).current = .v4 2 ∧ 7 ∈ s.egressIPOwners (.v4 1) :=
  ⟨by decide +kernel, by decide +kernel, .v4 1, rfl, by decide +kernel⟩

end Prism
