import Prism.Foundation.Run
import Mathlib.Data.Finset.Card
import Mathlib.Data.List.FinRange
import Mathlib.Data.Set.Function

/-!
# The routable view as a set

`internal/platform/routableview.go`.  The hashes of a view are spread over shards.  A shard keeps
its hashes in a slice, so that one can be picked by its place, with an index that says where each of
them is.  A hash that goes leaves its place to the last one of its shard, and the size of the view
is counted apart.

What `Range` visits, in its order, is one list; a random pick is the entry of that list at the
number that is drawn.
-/

namespace Prism

open Function

/-- The bytes of a `node.Hash`. -/
abbrev HashBytes := Vector UInt8 16

structure Shard where
  nodes : List HashBytes := []
  index : HashBytes → Option ℕ := fun _ => none

namespace Shard

variable {s : Shard} {h x : HashBytes}

/-- Slice and index are inverse to each other. -/
def Inverse (s : Shard) : Prop := ∀ h i, s.index h = some i ↔ s.nodes[i]? = some h

theorem Inverse.mem_iff (hs : s.Inverse) : x ∈ s.nodes ↔ (s.index x).isSome := by
  rw [List.mem_iff_getElem?, Option.isSome_iff_exists]
  exact exists_congr fun i => (hs x i).symm

theorem Inverse.nodup (hs : s.Inverse) : s.nodes.Nodup := by
  refine List.nodup_iff_getElem?_ne_getElem?.mpr fun i j hij hj heq => ?_
  rw [List.getElem?_eq_getElem hj] at heq
  have hi := (hs _ _).mpr heq
  rw [(hs _ _).mpr (List.getElem?_eq_getElem hj)] at hi
  exact hij.ne' (Option.some.inj hi)

def push (s : Shard) (h : HashBytes) : Shard :=
  { nodes := s.nodes ++ [h], index := update s.index h (some s.nodes.length) }

def drop (s : Shard) (h : HashBytes) (idx : ℕ) : Shard :=
  let last := s.nodes.length - 1
  let t : Shard :=
    match s.nodes[last]? with
    | some moved =>
      if idx ≠ last then
        { nodes := s.nodes.set idx moved, index := update s.index moved (some idx) }
      else s
    | none => s
  { nodes := t.nodes.take last, index := update t.index h none }

theorem Inverse.push (hs : s.Inverse) (hnew : s.index h = none) : (s.push h).Inverse := by
  intro x i
  have hnone : s.nodes[i]? ≠ some h := fun he => by simp [(hs h i).mpr he] at hnew
  have := hs x i
  have hlen := @List.getElem?_eq_none_iff HashBytes s.nodes i
  unfold Shard.push
  grind

theorem Inverse.drop_cases {idx : ℕ} (hs : s.Inverse) (hidx : s.index h = some idx) :
    (s.drop h idx).Inverse ∧ ∀ x, ((s.drop h idx).index x).isSome ↔ x ≠ h ∧ (s.index x).isSome := by
  have hat := (hs h idx).mp hidx
  have hlt : idx < s.nodes.length := (List.getElem?_eq_some_iff.mp hat).1
  obtain ⟨moved, hmoved⟩ : ∃ moved, s.nodes[s.nodes.length - 1]? = some moved :=
    ⟨_, List.getElem?_eq_getElem (by omega)⟩
  have hm := (hs moved _).mpr hmoved
  unfold Shard.drop
  simp only [hmoved]
  by_cases hlast : idx = s.nodes.length - 1
  · simp only [hlast, ne_eq, not_true_eq_false, if_false]
    refine ⟨fun x i => ?_, fun x => by grind⟩
    have := hs x
    grind
  · simp only [ne_eq, hlast, not_false_eq_true, if_true]
    refine ⟨fun x i => ?_, fun x => by grind⟩
    have := hs x
    grind

end Shard

def numShards : ℕ := 64

def shardFor (h : HashBytes) : Fin numShards :=
  ⟨h[0].toNat % numShards, Nat.mod_lt _ (by decide)⟩

structure RoutableView where
  shards : Fin numShards → Shard := fun _ => {}
  size : ℤ := 0

namespace RoutableView

variable (v : RoutableView)

def contains (h : HashBytes) : Bool := ((v.shards (shardFor h)).index h).isSome

/-- `Range` with what `fn` carries along; an error is the state in which `fn` broke off. -/
def range {σ : Type} (fn : σ → HashBytes → Except σ σ) (a : σ) : Except σ σ :=
  (List.finRange numShards).foldlM (fun a i => (v.shards i).nodes.foldlM fn a) a

def pickFrom : List Shard → ℕ → Option HashBytes
  | [], _ => none
  | s :: shards, target =>
    if target < s.nodes.length then s.nodes[target]? else pickFrom shards (target - s.nodes.length)

/-- `RandomPick`, with the number that is drawn. -/
def randomPick (target : ℕ) : Option HashBytes :=
  if v.size = 0 then none else pickFrom ((List.finRange numShards).map v.shards) target

def add (h : HashBytes) : RoutableView :=
  let s := v.shards (shardFor h)
  match s.index h with
  | some _ => v
  | none => { shards := update v.shards (shardFor h) (s.push h), size := v.size + 1 }

def remove (h : HashBytes) : RoutableView :=
  let s := v.shards (shardFor h)
  match s.index h with
  | none => v
  | some idx => { shards := update v.shards (shardFor h) (s.drop h idx), size := v.size - 1 }

end RoutableView

inductive ViewOp where
  | add (h : HashBytes)
  | remove (h : HashBytes)

/-- What a call does to the set of hashes. -/
def ViewOp.apply (set : Finset HashBytes) : ViewOp → Finset HashBytes
  | .add h => insert h set
  | .remove h => set.erase h

namespace RoutableView

def step (v : RoutableView) : ViewOp → RoutableView
  | .add h => v.add h
  | .remove h => v.remove h

/-- The view holds the set, each hash in its own shard. -/
structure Holds (v : RoutableView) (set : Finset HashBytes) : Prop where
  inverse : ∀ i, (v.shards i).Inverse
  mem : ∀ i h, ((v.shards i).index h).isSome ↔ shardFor h = i ∧ h ∈ set
  size : v.size = set.card

variable {v : RoutableView} {set : Finset HashBytes}

theorem Holds.update {set' : Finset HashBytes} {h : HashBytes} {t : Shard} {n : ℤ}
    (hv : v.Holds set) (ht : t.Inverse)
    (hmem : ∀ x, (t.index x).isSome ↔ shardFor x = shardFor h ∧ x ∈ set')
    (hother : ∀ x, x ≠ h → (x ∈ set' ↔ x ∈ set)) (hn : n = set'.card) :
    Holds { shards := update v.shards (shardFor h) t, size := n } set' := by
  refine ⟨fun i => ?_, fun i x => ?_, hn⟩
  · by_cases hi : i = shardFor h
    · simpa [hi] using ht
    · simpa [hi] using hv.inverse i
  · by_cases hi : i = shardFor h
    · simpa [hi] using hmem x
    · have hx : shardFor x = i → x ≠ h := fun hxi hxh => hi (by rw [← hxi, hxh])
      simpa [hi, hv.mem] using fun hxi => (hother x (hx hxi)).symm

theorem Holds.step (hv : v.Holds set) (op : ViewOp) : (v.step op).Holds (op.apply set) := by
  cases op with
  | add h =>
    have hs := hv.inverse (shardFor h)
    have hiff := hv.mem (shardFor h)
    unfold RoutableView.step add ViewOp.apply
    dsimp only
    cases hidx : (v.shards (shardFor h)).index h with
    | some idx =>
      have hmem : h ∈ set := ((hiff h).mp (by simp [hidx])).2
      simpa [Finset.insert_eq_of_mem hmem] using hv
    | none =>
      have hnot : h ∉ set := fun hm => by simpa [hidx] using (hiff h).mpr ⟨rfl, hm⟩
      refine hv.update (hs.push hidx) (fun x => ?_) (fun x hx => by simp [hx]) ?_
      · by_cases hx : x = h
        · simp [hx, Shard.push]
        · simp [hx, Shard.push, hiff]
      · simp [hv.size, Finset.card_insert_of_notMem hnot]
  | remove h =>
    have hs := hv.inverse (shardFor h)
    have hiff := hv.mem (shardFor h)
    unfold RoutableView.step remove ViewOp.apply
    dsimp only
    cases hidx : (v.shards (shardFor h)).index h with
    | none =>
      have hnot : h ∉ set := fun hm => by simpa [hidx] using (hiff h).mpr ⟨rfl, hm⟩
      simpa [Finset.erase_eq_of_notMem hnot] using hv
    | some idx =>
      have hmem : h ∈ set := ((hiff h).mp (by simp [hidx])).2
      obtain ⟨ht, hleft⟩ := hs.drop_cases hidx
      refine hv.update ht (fun x => ?_) (fun x hx => by simp [hx]) ?_
      · rw [hleft, hiff, Finset.mem_erase]
        exact and_left_comm
      · rw [hv.size, ← Finset.card_erase_add_one hmem]
        simp

theorem Holds.run (hv : v.Holds set) (ops : List ViewOp) :
    (run RoutableView.step v ops).Holds (run ViewOp.apply set ops) := by
  induction ops generalizing v set with
  | nil => exact hv
  | cons op ops ih => exact ih (hv.step op)

theorem holds_empty : Holds {} ∅ :=
  ⟨fun _ _ _ => by simp, fun _ _ => by simp, rfl⟩

/-- The hashes of the shards, one shard after the other. -/
def hashes (v : RoutableView) : List HashBytes :=
  (List.finRange numShards).flatMap fun i => (v.shards i).nodes

theorem pickFrom_eq (shards : List Shard) (target : ℕ) :
    pickFrom shards target = (shards.flatMap Shard.nodes)[target]? := by
  induction shards generalizing target with
  | nil => rfl
  | cons s shards ih =>
    rw [pickFrom, List.flatMap_cons, List.getElem?_append, ih]

theorem Holds.mem_hashes (hv : v.Holds set) (h : HashBytes) : h ∈ v.hashes ↔ h ∈ set := by
  simp [hashes, (hv.inverse _).mem_iff, hv.mem]

theorem Holds.nodup_hashes (hv : v.Holds set) : v.hashes.Nodup := by
  refine List.nodup_flatMap.mpr ⟨fun i _ => (hv.inverse i).nodup, ?_⟩
  refine (List.nodup_finRange _).imp fun {i j} hij => List.disjoint_left.mpr fun x hi hj => hij ?_
  rw [(hv.inverse _).mem_iff, hv.mem] at hi hj
  exact hi.1.symm.trans hj.1

theorem Holds.length_hashes (hv : v.Holds set) : v.hashes.length = set.card := by
  rw [← List.toFinset_card_of_nodup hv.nodup_hashes]
  exact congrArg _ (Finset.ext fun h => by simp [hv.mem_hashes])

theorem Holds.randomPick_eq (hv : v.Holds set) (target : ℕ) :
    v.randomPick target = v.hashes[target]? := by
  have hpick := pickFrom_eq ((List.finRange numShards).map v.shards) target
  rw [List.flatMap_map] at hpick
  unfold randomPick
  split
  · next hzero =>
    have hlen := hv.length_hashes
    have hsize := hv.size
    exact (List.getElem?_eq_none (by omega)).symm
  · exact hpick

theorem range_eq (v : RoutableView) :
    v.range (fun seen h => pure (seen ++ [h])) [] = .ok v.hashes := by
  unfold range hashes
  simp only [List.foldlM_pure, List.foldl_append_eq_append, ← List.flatMap_def,
    List.flatMap_singleton', List.nil_append]
  rfl

theorem Holds.pick_bijOn (hv : v.Holds set) :
    Set.BijOn v.randomPick {target | (target : ℤ) < v.size} (some '' (set : Set HashBytes)) := by
  have hlen := hv.length_hashes
  have hsize := hv.size
  have hlt {i : ℕ} : (i : ℤ) < v.size ↔ i < v.hashes.length := by omega
  refine ⟨fun i hi => ?_, fun i hi j hj heq => ?_, ?_⟩
  · rw [hv.randomPick_eq, List.getElem?_eq_getElem (hlt.mp hi)]
    exact ⟨_, (hv.mem_hashes _).mp (List.getElem_mem _), rfl⟩
  · rw [hv.randomPick_eq, hv.randomPick_eq] at heq
    exact (List.getElem?_inj (hlt.mp hi) hv.nodup_hashes).mp heq
  · rintro _ ⟨h, hh, rfl⟩
    obtain ⟨i, hi⟩ := List.mem_iff_getElem?.mp ((hv.mem_hashes h).mpr hh)
    have hib := (List.getElem?_eq_some_iff.mp hi).1
    exact ⟨i, hlt.mpr hib, (hv.randomPick_eq i).trans hi⟩

/-- **A view is the set of the hashes added and not removed since.** -/
theorem view_is_set (ops : List ViewOp) :
    let v := run step {} ops
    let set := run ViewOp.apply ∅ ops
    (∀ i, (v.shards i).Inverse) ∧ (∀ h, v.contains h ↔ h ∈ set) ∧ v.size = set.card ∧
      (∃ seen, v.range (fun seen h => pure (seen ++ [h])) [] = .ok seen ∧ seen.Nodup ∧
        ∀ h, h ∈ seen ↔ h ∈ set) ∧
      Set.BijOn v.randomPick {target | (target : ℤ) < v.size} (some '' (set : Set HashBytes)) := by
  intro v set
  have hv : v.Holds set := holds_empty.run ops
  exact ⟨hv.inverse, fun h => by simp [contains, hv.mem], hv.size,
    ⟨_, v.range_eq, hv.nodup_hashes, hv.mem_hashes⟩, hv.pick_bijOn⟩

end RoutableView

end Prism
