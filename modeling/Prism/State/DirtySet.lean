import Prism.Foundation.Run
import Mathlib.Data.List.AList

/-!
# Dirty sets

`internal/state/dirtyset.go`, and what `internal/state/engine.go` and `repo_cache.go` do with one of
the sets.  What the process holds in memory is written behind it: a change only marks its key, and a
flush later stores what the marked keys have.

A pass drains the set, looks at the drained keys one after the other and writes the outcome in one
transaction.  A key marked for deletion is deleted; a key marked for an upsert is read from memory,
and is deleted if there is nothing to be read.  If the transaction fails, the drained marks are put
back behind the marks that have come since.
-/

namespace Prism

open Function

/-- What a mark asks for. -/
inductive DirtyOp where
  | upsert
  | delete
  deriving DecidableEq

abbrev DirtySet (κ : Type) := AList fun _ : κ => DirtyOp

def DirtyOp.of {ν : Type} : Option ν → DirtyOp
  | some _ => .upsert
  | none => .delete

namespace DirtySet

variable {κ : Type} [DecidableEq κ]

def markUpsert (d : DirtySet κ) (key : κ) : DirtySet κ := AList.insert key DirtyOp.upsert d

def markDelete (d : DirtySet κ) (key : κ) : DirtySet κ := AList.insert key DirtyOp.delete d

def mark (d : DirtySet κ) (key : κ) : DirtyOp → DirtySet κ
  | .upsert => d.markUpsert key
  | .delete => d.markDelete key

/-- Only keys that have not been marked again are restored. -/
def merge (d old : DirtySet κ) : DirtySet κ := d ∪ old

variable (d old : DirtySet κ)

@[simp] theorem lookup_mark_self (key : κ) (op : DirtyOp) :
    (d.mark key op).lookup key = some op := by
  cases op with
  | upsert | delete => exact AList.lookup_insert d

theorem lookup_mark_of_ne {key key' : κ} (h : key' ≠ key) (op : DirtyOp) :
    (d.mark key op).lookup key' = d.lookup key' := by
  cases op with
  | upsert | delete => exact AList.lookup_insert_ne h

theorem lookup_merge (key : κ) : (d.merge old).lookup key = (d.lookup key).or (old.lookup key) := by
  unfold merge
  by_cases hmem : key ∈ d
  · obtain ⟨op, hop⟩ := Option.isSome_iff_exists.mp (AList.lookup_isSome.mpr hmem)
    rw [AList.lookup_union_left hmem, hop]
    rfl
  · rw [AList.lookup_union_right hmem, AList.lookup_eq_none.mpr hmem]
    rfl

end DirtySet

/-! ## One pass -/

/-- What a pass has collected so far.  Only drained keys are collected, and a key marked for deletion
is never stored. -/
structure FlushPass (κ ν : Type) [DecidableEq κ] where
  drained : DirtySet κ
  upserts : List (κ × ν) := []
  deletes : List κ := []
  known : ∀ key, key ∈ upserts.map Prod.fst ∨ key ∈ deletes → key ∈ drained
  deleted : ∀ key, drained.lookup key = some .delete → key ∉ upserts.map Prod.fst

section FlushTx

variable {κ ν : Type} [DecidableEq κ]

def upsertRows (upserts : List (κ × ν)) (rows : κ → Option ν) : κ → Option ν :=
  upserts.foldl (fun rows row => update rows row.1 (some row.2)) rows

def deleteRows (deletes : List κ) (rows : κ → Option ν) : κ → Option ν :=
  deletes.foldl (fun rows key => update rows key none) rows

/-- `FlushTx`, for one table: the upserts, and then the deletes. -/
def flushTx (upserts : List (κ × ν)) (deletes : List κ) (rows : κ → Option ν) : κ → Option ν :=
  deleteRows deletes (upsertRows upserts rows)

theorem deleteRows_apply (deletes : List κ) (rows : κ → Option ν) (key : κ) :
    deleteRows deletes rows key = if key ∈ deletes then none else rows key := by
  induction deletes generalizing rows with
  | nil => rfl
  | cons gone deletes ih =>
    show deleteRows deletes (update rows gone none) key = _
    rw [ih]
    by_cases hlater : key ∈ deletes
    · rw [if_pos hlater, if_pos (List.mem_cons_of_mem gone hlater)]
    rw [if_neg hlater]
    by_cases hkey : key = gone
    · subst hkey
      rw [update_self, if_pos (List.mem_cons_self ..)]
    · rw [update_of_ne hkey, if_neg]
      simp [hkey, hlater]

variable {upserts : List (κ × ν)} {key : κ}

theorem upsertRows_of_not_mem (h : key ∉ upserts.map Prod.fst) (rows : κ → Option ν) :
    upsertRows upserts rows key = rows key := by
  induction upserts generalizing rows with
  | nil => rfl
  | cons row upserts ih =>
    rw [List.map_cons, List.mem_cons, not_or] at h
    show upsertRows upserts (update rows row.1 (some row.2)) key = _
    rw [ih h.2, update_of_ne h.1]

theorem upsertRows_append_singleton (upserts : List (κ × ν)) (row : κ × ν) (rows : κ → Option ν) :
    upsertRows (upserts ++ [row]) rows = update (upsertRows upserts rows) row.1 (some row.2) :=
  List.foldl_append

theorem flushTx_apply (upserts : List (κ × ν)) (deletes : List κ) (rows : κ → Option ν) (key : κ) :
    flushTx upserts deletes rows key =
      if key ∈ deletes then none else upsertRows upserts rows key :=
  deleteRows_apply deletes _ key

variable {deletes : List κ}

theorem flushTx_of_not_mem (hup : key ∉ upserts.map Prod.fst) (hdel : key ∉ deletes)
    (rows : κ → Option ν) : flushTx upserts deletes rows key = rows key := by
  rw [flushTx_apply, if_neg hdel, upsertRows_of_not_mem hup]

theorem flushTx_upsert_of_ne {key' : κ} (h : key' ≠ key) (v : ν) (rows : κ → Option ν) :
    flushTx (upserts ++ [(key, v)]) deletes rows key' = flushTx upserts deletes rows key' := by
  rw [flushTx_apply, flushTx_apply, upsertRows_append_singleton, update_of_ne h]

theorem flushTx_upsert_self (h : key ∉ deletes) (v : ν) (rows : κ → Option ν) :
    flushTx (upserts ++ [(key, v)]) deletes rows key = some v := by
  rw [flushTx_apply, if_neg h, upsertRows_append_singleton, update_self]

theorem flushTx_delete_of_ne {key' : κ} (h : key' ≠ key) (rows : κ → Option ν) :
    flushTx upserts (deletes ++ [key]) rows key' = flushTx upserts deletes rows key' := by
  have hmem : key' ∈ deletes ++ [key] ↔ key' ∈ deletes := by simp [h]
  rw [flushTx_apply, flushTx_apply]
  simp only [hmem]

theorem flushTx_delete_self (upserts : List (κ × ν)) (deletes : List κ) (key : κ)
    (rows : κ → Option ν) : flushTx upserts (deletes ++ [key]) rows key = none := by
  rw [flushTx_apply, if_pos (by simp)]

end FlushTx

namespace FlushPass

variable {κ ν : Type} [DecidableEq κ]

def start (drained : DirtySet κ) : FlushPass κ ν where
  drained := drained
  known := fun key h => absurd h (by simp)
  deleted := fun key _ => by simp

variable (pass : FlushPass κ ν)

def Classified (key : κ) : Prop :=
  key ∈ pass.upserts.map Prod.fst ∨ key ∈ pass.deletes
  deriving Decidable

def addDelete (key : κ) (h : key ∈ pass.drained) : FlushPass κ ν where
  drained := pass.drained
  upserts := pass.upserts
  deletes := pass.deletes ++ [key]
  known := by
    intro key' hkey'
    rcases hkey' with hup | hdel
    · exact pass.known key' (.inl hup)
    · rcases List.mem_append.mp hdel with hdel | hdel
      · exact pass.known key' (.inr hdel)
      · exact List.mem_singleton.mp hdel ▸ h
  deleted := pass.deleted

def addUpsert (key : κ) (v : ν) (h : pass.drained.lookup key = some .upsert) : FlushPass κ ν where
  drained := pass.drained
  upserts := pass.upserts ++ [(key, v)]
  deletes := pass.deletes
  known := by
    intro key' hkey'
    rw [List.map_append, List.mem_append] at hkey'
    rcases hkey' with (hup | hup) | hdel
    · exact pass.known key' (.inl hup)
    · obtain rfl : key' = key := by simpa using hup
      exact AList.lookup_isSome.mp (by rw [h]; rfl)
    · exact pass.known key' (.inr hdel)
  deleted := by
    intro key' hkey' hmem
    rw [List.map_append, List.mem_append] at hmem
    rcases hmem with hup | hup
    · exact pass.deleted key' hkey' hup
    · obtain rfl : key' = key := by simpa using hup
      rw [h] at hkey'
      cases hkey'

/-- One turn of the loop of `classifyDirtySet`. -/
def classify (reader : κ → Option ν) (key : κ) : FlushPass κ ν :=
  match h : pass.drained.lookup key with
  | none => pass
  | some .delete => pass.addDelete key (AList.lookup_isSome.mp (by rw [h]; rfl))
  | some .upsert =>
    match reader key with
    | none => pass.addDelete key (AList.lookup_isSome.mp (by rw [h]; rfl))
    | some v => pass.addUpsert key v h

def commit (rows : κ → Option ν) : κ → Option ν :=
  flushTx pass.upserts pass.deletes rows

variable {pass : FlushPass κ ν} {reader : κ → Option ν} {key : κ}

theorem classify_cases (pass : FlushPass κ ν) (reader : κ → Option ν) (key : κ) :
    (key ∉ pass.drained ∧ pass.classify reader key = pass) ∨
    (∃ h, (pass.drained.lookup key = some .delete ∨ reader key = none) ∧
      pass.classify reader key = pass.addDelete key h) ∨
    (∃ h v, reader key = some v ∧ pass.classify reader key = pass.addUpsert key v h) := by
  unfold classify
  split
  · rename_i hnone
    exact .inl ⟨AList.lookup_eq_none.mp hnone, rfl⟩
  · rename_i hdel
    have hmem : key ∈ pass.drained := AList.lookup_isSome.mp (by rw [hdel]; rfl)
    exact .inr (.inl ⟨hmem, .inl hdel, rfl⟩)
  · rename_i hup
    split
    · rename_i hread
      have hmem : key ∈ pass.drained := AList.lookup_isSome.mp (by rw [hup]; rfl)
      exact .inr (.inl ⟨hmem, .inr hread, rfl⟩)
    · rename_i v hread
      exact .inr (.inr ⟨hup, v, hread, rfl⟩)

@[simp] theorem drained_classify : (pass.classify reader key).drained = pass.drained := by
  rcases pass.classify_cases reader key with ⟨-, h⟩ | ⟨_, -, h⟩ | ⟨_, v, -, h⟩
  · rw [h]
  · rw [h]
    rfl
  · rw [h]
    rfl

variable {key' : κ}

theorem classified_classify_of_ne (h : key' ≠ key) :
    (pass.classify reader key).Classified key' ↔ pass.Classified key' := by
  rcases pass.classify_cases reader key with ⟨-, hpass⟩ | ⟨_, -, hpass⟩ | ⟨_, v, -, hpass⟩
  · rw [hpass]
  · rw [hpass]
    simp [Classified, addDelete, h]
  · rw [hpass]
    simp [Classified, addUpsert, h]

theorem classified_classify_self (h : key ∈ pass.drained) :
    (pass.classify reader key).Classified key := by
  rcases pass.classify_cases reader key with ⟨hnot, -⟩ | ⟨_, -, hpass⟩ | ⟨_, v, -, hpass⟩
  · exact absurd h hnot
  · rw [hpass]
    exact .inr (List.mem_append_right _ (List.mem_singleton_self key))
  · rw [hpass]
    exact Or.inl (by simp [addUpsert])

theorem Classified.mono (h : pass.Classified key') :
    (pass.classify reader key).Classified key' := by
  by_cases hkey : key' = key
  · subst hkey
    exact classified_classify_self (pass.known key' h)
  · exact (classified_classify_of_ne hkey).mpr h

theorem commit_classify_of_ne (h : key' ≠ key) (rows : κ → Option ν) :
    (pass.classify reader key).commit rows key' = pass.commit rows key' := by
  rcases pass.classify_cases reader key with ⟨-, hpass⟩ | ⟨_, -, hpass⟩ | ⟨_, v, -, hpass⟩
  · rw [hpass]
  · rw [hpass]
    exact flushTx_delete_of_ne h rows
  · rw [hpass]
    exact flushTx_upsert_of_ne h v rows

theorem commit_classify_self (hop : pass.drained.lookup key = some .upsert)
    (hnew : ¬ pass.Classified key) (rows : κ → Option ν) :
    (pass.classify reader key).commit rows key = reader key := by
  rcases pass.classify_cases reader key with ⟨hnot, -⟩ | ⟨_, hread, hpass⟩ | ⟨_, v, hread, hpass⟩
  · exact absurd hop (by rw [AList.lookup_eq_none.mpr hnot]; exact nofun)
  · have hnone : reader key = none := by
      rcases hread with hread | hread
      · rw [hop] at hread
        cases hread
      · exact hread
    rw [hpass, hnone]
    exact flushTx_delete_self pass.upserts pass.deletes key rows
  · rw [hpass, hread]
    exact flushTx_upsert_self (fun hdel => hnew (.inr hdel)) v rows

theorem commit_of_not_mem (h : key ∉ pass.drained) (rows : κ → Option ν) :
    pass.commit rows key = rows key :=
  flushTx_of_not_mem (fun hup => h (pass.known key (.inl hup)))
    (fun hdel => h (pass.known key (.inr hdel))) rows

theorem commit_of_delete (hop : pass.drained.lookup key = some .delete)
    (hcl : pass.Classified key) (rows : κ → Option ν) : pass.commit rows key = none := by
  unfold commit
  rw [flushTx_apply, if_pos (hcl.resolve_left (pass.deleted key hop))]

end FlushPass

/-! ## The set, the pass and the table -/

/-- Where a pass of `FlushDirtySets` stands. -/
inductive FlushStage (κ ν : Type) [DecidableEq κ] where
  | idle
  | classifying (pass : FlushPass κ ν)
  /-- the transaction failed and the marks are not back yet -/
  | failed (drained : DirtySet κ)

/-- One dirty set of the `StateEngine`, the table it stands for, and the pass of the one flusher. -/
structure DirtyTable (κ ν : Type) [DecidableEq κ] where
  dirty : DirtySet κ := ∅
  stage : FlushStage κ ν := .idle
  rows : κ → Option ν

namespace DirtyTable

variable {κ ν : Type} [DecidableEq κ]

def mark (t : DirtyTable κ ν) (key : κ) (op : DirtyOp) : DirtyTable κ ν :=
  { t with dirty := t.dirty.mark key op }

variable (t : DirtyTable κ ν)

/-- The set is swapped for a fresh one; there is one flusher, so no other pass is under way. -/
def drain : DirtyTable κ ν :=
  match t.stage with
  | .idle => { t with dirty := ∅, stage := .classifying (.start t.dirty) }
  | .classifying _ => t
  | .failed _ => t

/-- The loop of `classifyDirtySet` comes to a key, in whatever order the map hands the keys out. -/
def classify (t : DirtyTable κ ν) (reader : κ → Option ν) (key : κ) : DirtyTable κ ν :=
  match t.stage with
  | .idle => t
  | .classifying pass =>
    if pass.Classified key then t
    else { t with stage := .classifying (pass.classify reader key) }
  | .failed _ => t

/-- The transaction commits, once every drained key has been looked at. -/
def commit (t : DirtyTable κ ν) : DirtyTable κ ν :=
  match t.stage with
  | .idle => t
  | .classifying pass =>
    if ∀ key ∈ pass.drained.keys, pass.Classified key then
      { t with stage := .idle, rows := pass.commit t.rows }
    else t
  | .failed _ => t

def fail : DirtyTable κ ν :=
  match t.stage with
  | .idle => t
  | .classifying pass =>
    if ∀ key ∈ pass.drained.keys, pass.Classified key then
      { t with stage := .failed pass.drained }
    else t
  | .failed _ => t

def merge (t : DirtyTable κ ν) : DirtyTable κ ν :=
  match t.stage with
  | .idle => t
  | .classifying _ => t
  | .failed drained => { t with dirty := t.dirty.merge drained, stage := .idle }

def flushDirtySets (reader : κ → Option ν) (ok : Bool) : DirtyTable κ ν :=
  let classified := t.dirty.keys.foldl (fun t key => t.classify reader key) t.drain
  if ok then classified.commit else classified.fail.merge

/-- The pass leaves the table with this value under the key. -/
def StageAgrees (rows : κ → Option ν) (key : κ) (v : Option ν) : FlushStage κ ν → Prop
  | .idle => rows key = v
  | .classifying pass =>
    match pass.drained.lookup key with
    | none => rows key = v
    | some .delete => v = none
    -- a key that has not been looked at will be read
    | some .upsert => pass.Classified key → pass.commit rows key = v
  | .failed drained =>
    match drained.lookup key with
    | none => rows key = v
    | some .delete => v = none
    | some .upsert => True

/-- The marks of a key lead to the value: the set and the pass, left alone with a memory that holds
it, end with it in the table. -/
def Agrees (key : κ) (v : Option ν) : Prop :=
  match t.dirty.lookup key with
  | some .upsert => True
  | some .delete => v = none
  | none => StageAgrees t.rows key v t.stage

variable {t : DirtyTable κ ν} {key key' : κ} {v : Option ν}

theorem Agrees.rows (h : t.Agrees key v) (hdirty : t.dirty = ∅) (hidle : t.stage = .idle) :
    t.rows key = v := by
  unfold Agrees at h
  rw [hdirty, hidle] at h
  exact h

theorem agrees_mark_self {op : DirtyOp} (h : op = .upsert ∨ v = none) :
    (t.mark key op).Agrees key v := by
  unfold Agrees mark
  rw [DirtySet.lookup_mark_self]
  cases op with
  | upsert => trivial
  | delete => exact h.resolve_left nofun

theorem agrees_mark_of_ne (h : key' ≠ key) (op : DirtyOp) :
    (t.mark key op).Agrees key' v ↔ t.Agrees key' v := by
  unfold Agrees mark
  rw [DirtySet.lookup_mark_of_ne _ h]

section

variable (h : t.Agrees key v)

include h

theorem Agrees.of_stage {t' : DirtyTable κ ν} (hdirty : t'.dirty = t.dirty)
    (hstage : StageAgrees t.rows key v t.stage → StageAgrees t'.rows key v t'.stage) :
    t'.Agrees key v := by
  unfold Agrees at h ⊢
  rw [hdirty]
  cases hmark : t.dirty.lookup key with
  | none =>
    rw [hmark] at h
    exact hstage h
  | some op =>
    rw [hmark] at h
    cases op with
    | upsert => trivial
    | delete => exact h

theorem Agrees.drain : t.drain.Agrees key v := by
  unfold DirtyTable.drain
  split
  · rename_i hidle
    unfold Agrees at h
    rw [hidle] at h
    show StageAgrees t.rows key v (.classifying (.start t.dirty))
    simp only [StageAgrees, FlushPass.start]
    cases hop : t.dirty.lookup key with
    | none =>
      rw [hop] at h
      exact h
    | some op =>
      rw [hop] at h
      cases op with
      | upsert => exact nofun
      | delete => exact h
  · exact h
  · exact h

variable {reader : κ → Option ν}

/-- **A look at a key keeps the agreement, if it reads the value.**  A look at another key keeps it
in any case. -/
theorem Agrees.classify {looked : κ} (hread : looked = key → reader key = v) :
    (t.classify reader looked).Agrees key v := by
  unfold DirtyTable.classify
  split
  · exact h
  · rename_i pass hstage
    split
    · exact h
    rename_i hnew
    refine h.of_stage rfl fun hpass => ?_
    rw [hstage] at hpass
    simp only [StageAgrees, FlushPass.drained_classify] at hpass ⊢
    cases hop : pass.drained.lookup key with
    | none =>
      rw [hop] at hpass
      exact hpass
    | some op =>
      rw [hop] at hpass
      cases op with
      | delete => exact hpass
      | upsert =>
        intro hcl
        by_cases hkey : key = looked
        · subst hkey
          exact (FlushPass.commit_classify_self hop hnew t.rows).trans (hread rfl)
        · rw [FlushPass.commit_classify_of_ne hkey]
          exact hpass ((FlushPass.classified_classify_of_ne hkey).mp hcl)
  · exact h

theorem Agrees.commit : t.commit.Agrees key v := by
  unfold DirtyTable.commit
  split
  · exact h
  · rename_i pass hstage
    split
    · rename_i hall
      refine h.of_stage rfl fun hpass => ?_
      rw [hstage] at hpass
      simp only [StageAgrees] at hpass
      cases hop : pass.drained.lookup key with
      | none =>
        rw [hop] at hpass
        exact (FlushPass.commit_of_not_mem (AList.lookup_eq_none.mp hop) t.rows).trans hpass
      | some op =>
        have hcl : pass.Classified key := hall key (AList.lookup_isSome.mp (by rw [hop]; rfl))
        rw [hop] at hpass
        cases op with
        | delete => exact (FlushPass.commit_of_delete hop hcl t.rows).trans hpass.symm
        | upsert => exact hpass hcl
    · exact h
  · exact h

theorem Agrees.fail : t.fail.Agrees key v := by
  unfold DirtyTable.fail
  split
  · exact h
  · rename_i pass hstage
    split
    · refine h.of_stage rfl fun hpass => ?_
      rw [hstage] at hpass
      simp only [StageAgrees] at hpass ⊢
      cases hop : pass.drained.lookup key with
      | none =>
        rw [hop] at hpass
        exact hpass
      | some op =>
        rw [hop] at hpass
        cases op with
        | delete => exact hpass
        | upsert => trivial
    · exact h
  · exact h

/-- The marks that come back are behind the ones that have come since. -/
theorem Agrees.merge : t.merge.Agrees key v := by
  unfold DirtyTable.merge
  split
  · exact h
  · exact h
  rename_i drained hstage
  unfold Agrees at h ⊢
  rw [hstage] at h
  rw [DirtySet.lookup_merge]
  cases hmark : t.dirty.lookup key with
  | some op =>
    rw [hmark] at h
    cases op with
    | upsert => trivial
    | delete => exact h
  | none =>
    rw [hmark] at h
    simp only [StageAgrees] at h
    cases hop : drained.lookup key with
    | none =>
      rw [hop] at h
      exact h
    | some op =>
      rw [hop] at h
      cases op with
      | upsert => trivial
      | delete => exact h

end

/-! ## A pass alone -/

theorem classified_foldl (reader : κ → Option ν) {pass : FlushPass κ ν}
    (hstage : t.stage = .classifying pass) (keys : List κ) :
    ∃ pass' : FlushPass κ ν,
      (keys.foldl (fun t key => t.classify reader key) t).stage = .classifying pass' ∧
        (keys.foldl (fun t key => t.classify reader key) t).dirty = t.dirty ∧
        pass'.drained = pass.drained ∧
        ∀ key, pass.Classified key ∨ (key ∈ keys ∧ key ∈ pass.drained) → pass'.Classified key := by
  induction keys generalizing t pass with
  | nil =>
    refine ⟨pass, hstage, rfl, rfl, fun key h => h.resolve_right ?_⟩
    rintro ⟨hmem, -⟩
    cases hmem
  | cons looked keys ih =>
    by_cases hold : pass.Classified looked
    · have hskip : t.classify reader looked = t := by
        unfold DirtyTable.classify
        simp only [hstage, if_pos hold]
      obtain ⟨pass', hstage', hdirty, hdrained, hcl⟩ := ih hstage
      rw [List.foldl_cons, hskip]
      refine ⟨pass', hstage', hdirty, hdrained, fun key h => hcl key ?_⟩
      rcases h with h | ⟨hmem, hkey⟩
      · exact .inl h
      · rcases List.mem_cons.mp hmem with rfl | hmem
        · exact .inl hold
        · exact .inr ⟨hmem, hkey⟩
    · have hlook : (t.classify reader looked).stage =
          .classifying (pass.classify reader looked) := by
        unfold DirtyTable.classify
        simp only [hstage, if_neg hold]
      have hsame : (t.classify reader looked).dirty = t.dirty := by
        unfold DirtyTable.classify
        simp only [hstage, if_neg hold]
      obtain ⟨pass', hstage', hdirty, hdrained, hcl⟩ := ih hlook
      rw [FlushPass.drained_classify] at hdrained hcl
      refine ⟨pass', hstage', hdirty.trans hsame, hdrained, fun key h => hcl key ?_⟩
      rcases h with h | ⟨hmem, hkey⟩
      · exact .inl h.mono
      · rcases List.mem_cons.mp hmem with rfl | hmem
        · exact .inl (FlushPass.classified_classify_self hkey)
        · exact .inr ⟨hmem, hkey⟩

theorem Agrees.classify_foldl (hread : reader key = v) (h : t.Agrees key v) (keys : List κ) :
    (keys.foldl (fun t key => t.classify reader key) t).Agrees key v := by
  induction keys generalizing t with
  | nil => exact h
  | cons looked keys ih => exact ih (h.classify fun _ => hread)

/-- **A pass that succeeds with nobody else about stores what is in memory.** -/
theorem rows_flushDirtySets (hidle : t.stage = .idle) (h : ∀ key, t.Agrees key (reader key))
    (key : κ) : (t.flushDirtySets reader true).rows key = reader key := by
  have hdrain : t.drain.stage = .classifying (.start t.dirty) := by
    unfold DirtyTable.drain
    simp only [hidle]
  have hempty : t.drain.dirty = ∅ := by
    unfold DirtyTable.drain
    simp only [hidle]
  obtain ⟨pass, hstage, hdirty, hdrained, hcl⟩ := classified_foldl reader hdrain t.dirty.keys
  have hagrees := ((h key).drain.classify_foldl rfl t.dirty.keys).commit
  have hall : ∀ key ∈ pass.drained.keys, pass.Classified key := by
    intro key hkey
    rw [hdrained] at hkey
    exact hcl key (.inr ⟨hkey, hkey⟩)
  refine hagrees.rows ?_ ?_
  · unfold DirtyTable.commit
    simp only [hstage, if_pos hall]
    exact hdirty.trans hempty
  · unfold DirtyTable.commit
    simp only [hstage, if_pos hall]

end DirtyTable

/-! ## Memory and the marks that changes owe -/

/-- A memory that is written behind.  Every change owes its key a mark of the kind that fits it. -/
structure WriteBehind (κ ν : Type) [DecidableEq κ] where
  memory : κ → Option ν
  /-- the marks a key is owed, the oldest first -/
  awaited : κ → List DirtyOp := fun _ => []
  table : DirtyTable κ ν

inductive WriteBehindStep (κ ν : Type) where
  /-- the value of the key becomes another one, or none -/
  | change (key : κ) (v : Option ν)
  /-- the oldest mark the key is owed -/
  | mark (key : κ)
  | drain
  | classify (key : κ)
  | commit
  | fail
  | merge

namespace WriteBehind

variable {κ ν : Type} [DecidableEq κ]

def boot (rows : κ → Option ν) : WriteBehind κ ν where
  memory := rows
  table := { rows := rows }

variable (s : WriteBehind κ ν)

/-- A step that is not possible does nothing. -/
def step : WriteBehindStep κ ν → WriteBehind κ ν
  | .change key v =>
    { s with
      memory := update s.memory key v
      awaited := update s.awaited key (s.awaited key ++ [.of v]) }
  | .mark key =>
    match s.awaited key with
    | [] => s
    | op :: later =>
      { s with
        awaited := update s.awaited key later
        table := s.table.mark key op }
  | .drain => { s with table := s.table.drain }
  | .classify key => { s with table := s.table.classify s.memory key }
  | .commit => { s with table := s.table.commit }
  | .fail => { s with table := s.table.fail }
  | .merge => { s with table := s.table.merge }

def Quiet : Prop :=
  (∀ key, s.awaited key = []) ∧ s.table.dirty = ∅ ∧ s.table.stage = .idle

/-- A key that is owed marks gets the one that fits its value last; a key that is owed none has
marks that lead to its value. -/
def Sound : Prop :=
  ∀ key, match (s.awaited key).getLast? with
    | some op => op = .of (s.memory key)
    | none => s.table.Agrees key (s.memory key)

variable {s : WriteBehind κ ν}

theorem sound_boot (rows : κ → Option ν) : (boot rows).Sound := fun _ => rfl

theorem Sound.of_table (h : s.Sound) {table : DirtyTable κ ν}
    (htable : ∀ key, s.table.Agrees key (s.memory key) → table.Agrees key (s.memory key)) :
    Sound { s with table := table } := by
  intro key
  have hkey := h key
  cases hlast : (s.awaited key).getLast? with
  | some op =>
    rw [hlast] at hkey
    exact hkey
  | none =>
    rw [hlast] at hkey
    exact htable key hkey

theorem Sound.change (h : s.Sound) (changed : κ) (v : Option ν) :
    (s.step (.change changed v)).Sound := by
  intro key
  show match (update s.awaited changed (s.awaited changed ++ [.of v]) key).getLast? with
    | some op => op = .of (update s.memory changed v key)
    | none => s.table.Agrees key (update s.memory changed v key)
  by_cases hkey : key = changed
  · subst hkey
    rw [update_self, update_self, List.getLast?_concat]
  · rw [update_of_ne hkey, update_of_ne hkey]
    exact h key

theorem Sound.mark (h : s.Sound) (marked : κ) : (s.step (.mark marked)).Sound := by
  cases howed : s.awaited marked with
  | nil =>
    have hskip : s.step (.mark marked) = s := by
      simp only [step, howed]
    rw [hskip]
    exact h
  | cons op later =>
    have hstep : s.step (.mark marked) =
        { s with awaited := update s.awaited marked later
                 table := s.table.mark marked op } := by
      simp only [step, howed]
    rw [hstep]
    intro key
    have hkey := h key
    show match (update s.awaited marked later key).getLast? with
      | some op => op = .of (s.memory key)
      | none => (s.table.mark marked op).Agrees key (s.memory key)
    by_cases heq : key = marked
    · subst heq
      rw [update_self]
      cases hlater : later with
      | nil =>
        rw [howed, hlater] at hkey
        refine DirtyTable.agrees_mark_self ?_
        rw [show op = .of (s.memory key) from hkey]
        cases s.memory key with
        | none => exact .inr rfl
        | some v => exact .inl rfl
      | cons next rest =>
        rw [howed, hlater, List.getLast?_cons_cons] at hkey
        exact hkey
    · rw [update_of_ne heq]
      cases hlast : (s.awaited key).getLast? with
      | some op' =>
        rw [hlast] at hkey
        exact hkey
      | none =>
        rw [hlast] at hkey
        exact (DirtyTable.agrees_mark_of_ne heq op).mpr hkey

theorem Sound.step (h : s.Sound) (a : WriteBehindStep κ ν) : (s.step a).Sound := by
  cases a with
  | change key v => exact h.change key v
  | mark key => exact h.mark key
  | drain => exact h.of_table fun _ hkey => hkey.drain
  | classify key => exact h.of_table fun _ hkey => hkey.classify fun _ => rfl
  | commit => exact h.of_table fun _ hkey => hkey.commit
  | fail => exact h.of_table fun _ hkey => hkey.fail
  | merge => exact h.of_table fun _ hkey => hkey.merge

theorem Sound.rows (h : s.Sound) (hquiet : s.Quiet) (key : κ) :
    s.table.rows key = s.memory key := by
  have hkey := h key
  rw [hquiet.1 key] at hkey
  exact DirtyTable.Agrees.rows hkey hquiet.2.1 hquiet.2.2

end WriteBehind

/-- **The dirty-set protocol converges.**  However changes, marks and passes are interleaved, in a
quiet state every key has the row that memory asks for. -/
theorem dirty_set_converges {κ ν : Type} [DecidableEq κ] (rows : κ → Option ν)
    (steps : List (WriteBehindStep κ ν))
    (hquiet : (run WriteBehind.step (WriteBehind.boot rows) steps).Quiet) (key : κ) :
    (run WriteBehind.step (WriteBehind.boot rows) steps).table.rows key =
      (run WriteBehind.step (WriteBehind.boot rows) steps).memory key :=
  (run_invariant (fun _ a hs => hs.step a) (WriteBehind.sound_boot rows) steps).rows hquiet key

theorem dirty_set_converges_after_failure :
    (run WriteBehind.step (WriteBehind.boot fun _ : Bool => (none : Option ℕ))
      [.change true (some 7), .mark true, .drain, .classify true, .change true (some 8), .fail,
        .mark true, .change false (some 1), .merge, .mark false, .drain, .classify false,
        .change false none, .classify true, .mark false, .commit, .drain, .classify false,
        .commit]).table.rows true = some 8 := by
  refine (dirty_set_converges _ _ ⟨?_, ?_, ?_⟩ true).trans ?_
  · decide
  · rfl
  · rfl
  · rfl

end Prism
