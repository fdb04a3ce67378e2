import Mathlib.Data.List.Nodup
import Mathlib.Data.Set.Function

/-!
# Keyed tables as lists of rows

A table of a relational store is a list of rows in insertion order, with a *key* read off every
row.  This file has the four things a statement does to such a list, and what each of them leaves
alone:

* `lookup`: `SELECT ... WHERE key = k`, the first row with the key;
* `updateWhere`: `UPDATE ... WHERE p`, every matching row rewritten in place;
* `upsertWith`: `INSERT ... ON CONFLICT(key) DO UPDATE`, the new row merged into the one that
  holds its key, or appended;
* `Taken`: the test of a partial unique index, `UNIQUE (key) WHERE p`.

Nothing here asks for distinct keys.  Where distinctness matters it is the predicate `KeysNodup`,
and every operation has a lemma saying that it keeps it.
-/

namespace Prism
namespace Table

variable {α κ : Type*} [DecidableEq κ] (key : α → κ)

/-- The first row with the key. -/
def lookup (k : κ) (rows : List α) : Option α :=
  rows.find? fun r => key r = k

@[simp] theorem lookup_nil (k : κ) : lookup key k ([] : List α) = none := rfl

theorem lookup_cons (k : κ) (r : α) (rows : List α) :
    lookup key k (r :: rows) = if key r = k then some r else lookup key k rows := by
  unfold lookup
  rw [List.find?_cons]
  by_cases h : key r = k <;> simp [h]

variable {rows : List α} {r : α} {k : κ}

theorem mem_of_lookup {key : α → κ} (h : lookup key k rows = some r) : r ∈ rows :=
  List.mem_of_find?_eq_some h

theorem key_of_lookup {key : α → κ} (h : lookup key k rows = some r) : key r = k := by
  have h' := List.find?_some h
  exact of_decide_eq_true h'

theorem lookup_eq_none_iff : lookup key k rows = none ↔ ∀ r ∈ rows, key r ≠ k := by
  unfold lookup
  rw [List.find?_eq_none]
  simp

theorem lookup_isSome_iff : (lookup key k rows).isSome = true ↔ k ∈ rows.map key := by
  unfold lookup
  rw [List.find?_isSome]
  simp

theorem lookup_append (k : κ) (rows rows' : List α) :
    lookup key k (rows ++ rows') = (lookup key k rows).or (lookup key k rows') := by
  unfold lookup
  rw [List.find?_append]

/-! ## Distinct keys -/

/-- The primary key: no two rows carry one key. -/
def KeysNodup (rows : List α) : Prop :=
  (rows.map key).Nodup

instance (rows : List α) : Decidable (KeysNodup key rows) := by
  unfold KeysNodup
  infer_instance

theorem lookup_of_mem {key : α → κ} (hnd : KeysNodup key rows) (hr : r ∈ rows) :
    lookup key (key r) rows = some r := by
  induction rows with
  | nil => simp at hr
  | cons s rows ih =>
    unfold KeysNodup at hnd
    rw [List.map_cons, List.nodup_cons] at hnd
    rw [lookup_cons]
    rcases List.mem_cons.mp hr with rfl | hr
    · rw [if_pos rfl]
    · have hne : key s ≠ key r := fun h => hnd.1 (h ▸ List.mem_map_of_mem hr)
      rw [if_neg hne]
      exact ih hnd.2 hr

variable {s : α}

theorem eq_of_mem_of_key_eq {key : α → κ} (hnd : KeysNodup key rows) (hr : r ∈ rows) (hs : s ∈ rows)
    (h : key r = key s) : r = s := by
  have hr' := lookup_of_mem hnd hr
  have hs' := lookup_of_mem hnd hs
  rw [h, hs'] at hr'
  exact (Option.some.inj hr').symm

omit [DecidableEq κ] in
theorem keysNodup_append_singleton {key : α → κ} (hnd : KeysNodup key rows)
    (hr : ∀ s ∈ rows, key s ≠ key r) :
    KeysNodup key (rows ++ [r]) := by
  unfold KeysNodup at hnd ⊢
  rw [List.map_append, List.nodup_append]
  refine ⟨hnd, by simp, ?_⟩
  intro a ha b hb
  obtain ⟨s, hs, rfl⟩ := List.mem_map.mp ha
  have hb' : b = key r := by simpa using hb
  rw [hb']
  exact hr s hs

/-- `UPDATE ...  WHERE`: rewrite the rows that match. -/
def updateWhere (p : α → Bool) (f : α → α) (rows : List α) : List α :=
  rows.map fun r => if p r then f r else r

theorem updateWhere_cons (p : α → Bool) (f : α → α) (r : α) (rows : List α) :
    updateWhere p f (r :: rows) = (if p r then f r else r) :: updateWhere p f rows := rfl

variable {p : α → Bool} {f : α → α}

theorem mem_updateWhere : s ∈ updateWhere p f rows ↔ ∃ r ∈ rows, (if p r then f r else r) = s := by
  unfold updateWhere
  rw [List.mem_map]

theorem exists_column_of_mem_updateWhere {β : Type*} {g : α → β} (hs : s ∈ updateWhere p f rows)
    (hf : ∀ r, g (f r) = g r) : ∃ r ∈ rows, g s = g r := by
  obtain ⟨r, hr, rfl⟩ := mem_updateWhere.mp hs
  refine ⟨r, hr, ?_⟩
  by_cases hp : p r = true
  · rw [if_pos hp, hf]
  · rw [if_neg hp]

theorem updateWhere_eq_self (h : ∀ r ∈ rows, p r = false) : updateWhere p f rows = rows := by
  induction rows with
  | nil => rfl
  | cons r rows ih =>
    rw [updateWhere_cons, h r (List.mem_cons_self ..), ih fun s hs => h s (.tail _ hs)]
    rfl

section

variable (hf : ∀ r, p r = true → key (f r) = key r)

include hf

omit [DecidableEq κ] in
theorem map_key_updateWhere (rows : List α) : (updateWhere p f rows).map key = rows.map key := by
  induction rows with
  | nil => rfl
  | cons r rows ih =>
    rw [updateWhere_cons, List.map_cons, List.map_cons, ih]
    by_cases hp : p r = true
    · rw [if_pos hp, hf r hp]
    · rw [if_neg hp]

variable {key} in
omit [DecidableEq κ] in
theorem keysNodup_updateWhere (hnd : KeysNodup key rows) :
    KeysNodup key (updateWhere p f rows) := by
  unfold KeysNodup at hnd ⊢
  rwa [map_key_updateWhere key hf]

theorem lookup_updateWhere (k : κ) (rows : List α) : lookup key k (updateWhere p f rows) =
      (lookup key k rows).map fun r => if p r then f r else r := by
  induction rows with
  | nil => rfl
  | cons r rows ih =>
    rw [updateWhere_cons, lookup_cons, lookup_cons, ih]
    have hkey : key (if p r then f r else r) = key r := by
      by_cases hp : p r = true
      · rw [if_pos hp, hf r hp]
      · rw [if_neg hp]
    rw [hkey]
    by_cases h : key r = k
    · rw [if_pos h, if_pos h, Option.map_some]
    · rw [if_neg h, if_neg h]

end

/-! ## Insert or merge -/

/-- `INSERT ... ON CONFLICT(key) DO UPDATE`: merge the row into the one that holds its key, or
append it. -/
def upsertWith (merge : α → α → α) (row : α) (rows : List α) : List α :=
  if rows.any fun r => key r = key row then
    updateWhere (fun r => key r = key row) (fun old => merge old row) rows
  else rows ++ [row]

variable (merge : α → α → α)

theorem mem_upsertWith_replace {row : α} :
    s ∈ upsertWith key (fun _ row => row) row rows ↔ s = row ∨ s ∈ rows ∧ key s ≠ key row := by
  unfold upsertWith
  by_cases hany : (rows.any fun r => key r = key row) = true
  · rw [if_pos hany, mem_updateWhere]
    obtain ⟨old, hold, hkey⟩ := List.any_eq_true.mp hany
    constructor
    · rintro ⟨r, hr, rfl⟩
      split
      · exact .inl rfl
      · rename_i hne
        exact .inr ⟨hr, fun heq => hne (decide_eq_true heq)⟩
    · rintro (rfl | ⟨hs, hne⟩)
      · exact ⟨old, hold, if_pos hkey⟩
      · exact ⟨s, hs, if_neg (by simpa using hne)⟩
  · rw [if_neg hany, List.mem_append, List.mem_singleton]
    constructor
    · rintro (hs | rfl)
      · refine .inr ⟨hs, fun heq => hany ?_⟩
        exact List.any_eq_true.mpr ⟨s, hs, decide_eq_true heq⟩
      · exact .inl rfl
    · rintro (rfl | ⟨hs, -⟩)
      · exact .inr rfl
      · exact .inl hs

theorem mem_upsertWith {row : α} (hs : s ∈ upsertWith key merge row rows) :
    s ∈ rows ∨ s = row ∨ ∃ old ∈ rows, key old = key row ∧ s = merge old row := by
  unfold upsertWith at hs
  split at hs
  · obtain ⟨old, hold, rfl⟩ := mem_updateWhere.mp hs
    split
    · exact .inr (.inr ⟨old, hold, of_decide_eq_true ‹_›, rfl⟩)
    · exact .inl hold
  · rcases List.mem_append.mp hs with hs | hs
    · exact .inl hs
    · exact .inr (.inl (List.mem_singleton.mp hs))

section

variable (hm : ∀ old row, key old = key row → key (merge old row) = key row)

include hm

theorem key_merge {row : α} (r : α) (hr : decide (key r = key row) = true) :
    key (merge r row) = key r :=
  (hm r row (of_decide_eq_true hr)).trans (of_decide_eq_true hr).symm

theorem lookup_upsertWith_self (row : α) (rows : List α) :
    lookup key (key row) (upsertWith key merge row rows) =
      some (match lookup key (key row) rows with
        | some old => merge old row
        | none => row) := by
  unfold upsertWith
  by_cases hany : (rows.any fun r => key r = key row) = true
  · rw [if_pos hany, lookup_updateWhere key (key_merge key merge hm)]
    cases hl : lookup key (key row) rows with
    | none =>
      obtain ⟨r, hr, hk⟩ := List.any_eq_true.mp hany
      exact absurd (of_decide_eq_true hk) ((lookup_eq_none_iff key).mp hl r hr)
    | some old =>
      have hold : key old = key row := key_of_lookup hl
      simp [hold]
  · rw [if_neg hany]
    have hnone : lookup key (key row) rows = none := by
      refine (lookup_eq_none_iff key).mpr fun r hr hk => hany ?_
      exact List.any_eq_true.mpr ⟨r, hr, decide_eq_true hk⟩
    rw [lookup_append, hnone]
    simp [lookup_cons]

theorem lookup_upsertWith_of_ne (row : α) (hk : k ≠ key row) (rows : List α) :
    lookup key k (upsertWith key merge row rows) = lookup key k rows := by
  unfold upsertWith
  by_cases hany : (rows.any fun r => key r = key row) = true
  · rw [if_pos hany, lookup_updateWhere key (key_merge key merge hm)]
    cases hl : lookup key k rows with
    | none => rfl
    | some old =>
      have hold : key old ≠ key row := fun h => hk ((key_of_lookup hl).symm.trans h)
      simp [hold]
  · rw [if_neg hany, lookup_append, lookup_cons, if_neg (Ne.symm hk), lookup_nil, Option.or_none]

theorem mem_keys_upsertWith (row : α) :
    k ∈ (upsertWith key merge row rows).map key ↔ k ∈ rows.map key ∨ k = key row := by
  rw [← lookup_isSome_iff, ← lookup_isSome_iff]
  by_cases hk : k = key row
  · rw [hk, lookup_upsertWith_self key merge hm]
    simp
  · rw [lookup_upsertWith_of_ne key merge hm row hk]
    simp [hk]

theorem keysNodup_upsertWith (row : α) (hnd : KeysNodup key rows) :
    KeysNodup key (upsertWith key merge row rows) := by
  unfold upsertWith
  by_cases hany : (rows.any fun r => key r = key row) = true
  · rw [if_pos hany]
    exact keysNodup_updateWhere (key_merge key merge hm) hnd
  · rw [if_neg hany]
    refine keysNodup_append_singleton hnd fun r hr hk => hany ?_
    exact List.any_eq_true.mpr ⟨r, hr, decide_eq_true hk⟩

end

/-- A row that replaces the one with its key is found under it, and the others are as they were. -/
theorem lookup_replace (row : α) (k : κ) (rows : List α) :
    lookup key k (upsertWith key (fun _ row => row) row rows) =
      if k = key row then some row else lookup key k rows := by
  by_cases hk : k = key row
  · rw [if_pos hk, hk, lookup_upsertWith_self key _ fun _ _ _ => rfl]
    split <;> rfl
  · rw [if_neg hk, lookup_upsertWith_of_ne key _ (fun _ _ _ => rfl) row hk]

theorem lookup_filter_ne (d k : κ) (rows : List α) :
    lookup key k (rows.filter fun r => key r ≠ d) = if k = d then none else lookup key k rows := by
  by_cases h : k = d
  · rw [if_pos h, lookup_eq_none_iff]
    intro r hr
    rw [h]
    simpa using (List.mem_filter.mp hr).2
  · rw [if_neg h]
    unfold lookup
    rw [List.find?_filter]
    congr 1
    funext r
    by_cases hr : key r = k
    · simp [hr, h]
    · simp [hr]

/-! ## Partial unique indexes -/

/-- `UNIQUE (key) WHERE p` refuses the row: the row is in the index, and another row of the
index has its key. -/
def Taken (p : α → Bool) (row : α) (rows : List α) : Prop :=
  p row = true ∧ ∃ r ∈ rows, p r = true ∧ key r = key row

instance (p : α → Bool) (row : α) (rows : List α) : Decidable (Taken key p row rows) := by
  unfold Taken
  infer_instance

/-- What the index guarantees: the rows it covers have distinct keys. -/
def UniqueWhere (p : α → Bool) (rows : List α) : Prop :=
  ((rows.filter p).map key).Nodup

instance (p : α → Bool) (rows : List α) : Decidable (UniqueWhere key p rows) := by
  unfold UniqueWhere
  infer_instance

omit [DecidableEq κ] in
theorem uniqueWhere_append_singleton {row : α} (hu : UniqueWhere key p rows)
    (hfree : ¬ Taken key p row rows) : UniqueWhere key p (rows ++ [row]) := by
  unfold UniqueWhere at hu ⊢
  rw [List.filter_append, List.map_append]
  by_cases hp : p row = true
  · rw [List.filter_cons_of_pos hp, List.filter_nil]
    have happ : KeysNodup key (rows.filter p ++ [row]) := by
      refine keysNodup_append_singleton hu fun s hs hks => hfree ⟨hp, s, ?_⟩
      obtain ⟨hs1, hs2⟩ := List.mem_filter.mp hs
      exact ⟨hs1, hs2, hks⟩
    rwa [KeysNodup, List.map_append] at happ
  · rw [List.filter_cons_of_neg hp, List.filter_nil]
    simpa using hu

theorem UniqueWhere.eq_of_mem (hu : UniqueWhere key p rows) (hr : r ∈ rows) (hpr : p r = true)
    (hs : s ∈ rows) (hps : p s = true) (h : key r = key s) : r = s := by
  have hnd : KeysNodup key (rows.filter p) := hu
  exact eq_of_mem_of_key_eq hnd (List.mem_filter.mpr ⟨hr, hpr⟩)
    (List.mem_filter.mpr ⟨hs, hps⟩) h

variable {q : α → Bool}

omit [DecidableEq κ] in
theorem uniqueWhere_updateWhere (hu : UniqueWhere key p rows)
    (hf : ∀ r ∈ rows, q r = true → p (f r) = true → p r = true ∧ key (f r) = key r) :
    UniqueWhere key p (updateWhere q f rows) := by
  have hsub : (((updateWhere q f rows).filter p).map key).Sublist ((rows.filter p).map key) := by
    clear hu
    induction rows with
    | nil => exact .refl _
    | cons r rows ih =>
      have ih' := ih fun s hs => hf s (.tail _ hs)
      have hr := hf r (.head _)
      rw [updateWhere_cons]
      by_cases hq : q r = true
      · rw [if_pos hq]
        by_cases hpf : p (f r) = true
        · obtain ⟨hpr, hk⟩ := hr hq hpf
          rw [List.filter_cons_of_pos hpf, List.filter_cons_of_pos hpr, List.map_cons,
            List.map_cons, hk]
          exact List.Sublist.cons_cons _ ih'
        · rw [List.filter_cons_of_neg hpf]
          refine ih'.trans ?_
          exact List.Sublist.map _ (List.Sublist.filter _ (List.sublist_cons_self r rows))
      · rw [if_neg hq]
        by_cases hpr : p r = true
        · rw [List.filter_cons_of_pos hpr, List.filter_cons_of_pos hpr, List.map_cons,
            List.map_cons]
          exact List.Sublist.cons_cons _ ih'
        · rw [List.filter_cons_of_neg hpr, List.filter_cons_of_neg hpr]
          exact ih'
  exact hsub.nodup hu

omit [DecidableEq κ] in
theorem uniqueWhere_iff_pairwise : UniqueWhere key p rows ↔
      rows.Pairwise fun r s => p r = true → p s = true → key r ≠ key s := by
  unfold UniqueWhere List.Nodup
  rw [List.pairwise_map, List.pairwise_filter]

omit [DecidableEq κ] in
theorem uniqueWhere_updateWhere_of_alone {ι : Type*} {id : α → ι} (hids : KeysNodup id rows)
    (hu : UniqueWhere key p rows)
    (hq : ∀ r ∈ rows, ∀ s ∈ rows, q r = true → q s = true → id r = id s)
    (hf : ∀ r ∈ rows, q r = true → ∀ s ∈ rows, id s ≠ id r → p s = true → key s ≠ key (f r)) :
    UniqueWhere key p (updateWhere q f rows) := by
  rw [uniqueWhere_iff_pairwise] at hu ⊢
  unfold updateWhere
  rw [List.pairwise_map]
  have hpair : rows.Pairwise fun r s => id r ≠ id s := List.pairwise_map.mp hids
  refine (hpair.and hu).imp_of_mem fun {r s} hr hs ⟨hne, hrs⟩ => ?_
  by_cases hqr : q r = true
  · have hqs : ¬ q s = true := fun hqs => hne (hq r hr s hs hqr hqs)
    rw [if_pos hqr, if_neg hqs]
    intro _ hps heq
    exact hf r hr hqr s hs hne.symm hps heq.symm
  · rw [if_neg hqr]
    by_cases hqs : q s = true
    · rw [if_pos hqs]
      intro hpr _ heq
      exact hf s hs hqs r hr hne hpr heq
    · rw [if_neg hqs]
      exact hrs

theorem UniqueWhere.countP_le_one (hu : UniqueWhere key p rows) (k : κ) :
    rows.countP (fun r => p r && decide (key r = k)) ≤ 1 := by
  have hcount : rows.countP (fun r => p r && decide (key r = k)) =
      ((rows.filter p).map key).count k := by
    rw [List.count_eq_countP, List.countP_map, List.countP_filter]
    refine List.countP_congr fun r _ => ?_
    simp [and_comm]
  rw [hcount]
  exact List.nodup_iff_count_le_one.mp hu k

omit [DecidableEq κ] in
theorem filter_updateWhere_of_out (h : ∀ r ∈ rows, q r = true → p r = false ∧ p (f r) = false) :
    (updateWhere q f rows).filter p = rows.filter p := by
  induction rows with
  | nil => rfl
  | cons r rows ih =>
    rw [updateWhere_cons, List.filter_cons, List.filter_cons, ih fun s hs => h s (.tail _ hs)]
    by_cases hq : q r = true
    · obtain ⟨hout, hout'⟩ := h r (.head _) hq
      simp [hq, hout, hout']
    · rw [if_neg hq]

theorem filter_updateWhere_perm (hkeys : KeysNodup key rows) (hr : r ∈ rows) (hout : p r = false)
    (hin : p (f r) = true) :
    ((updateWhere (fun s => decide (key s = key r)) f rows).filter p).Perm
      (f r :: rows.filter p) := by
  obtain ⟨l1, l2, rfl⟩ := List.append_of_mem hr
  unfold KeysNodup at hkeys
  rw [List.map_append, List.map_cons, List.nodup_append] at hkeys
  obtain ⟨-, hnd, hdisj⟩ := hkeys
  have h1 : updateWhere (fun s => decide (key s = key r)) f l1 = l1 := by
    refine updateWhere_eq_self fun s hs => ?_
    exact decide_eq_false (hdisj _ (List.mem_map_of_mem hs) _ (by simp))
  have h2 : updateWhere (fun s => decide (key s = key r)) f l2 = l2 := by
    refine updateWhere_eq_self fun s hs => ?_
    refine decide_eq_false fun heq => (List.nodup_cons.mp hnd).1 ?_
    rw [← heq]
    exact List.mem_map_of_mem hs
  have hup : updateWhere (fun s => decide (key s = key r)) f (l1 ++ r :: l2) = l1 ++ f r :: l2 := by
    unfold updateWhere at h1 h2 ⊢
    rw [List.map_append, List.map_cons, h1, h2]
    simp
  rw [hup, List.filter_append, List.filter_append, List.filter_cons_of_pos hin,
    List.filter_cons_of_neg (by simp [hout])]
  exact List.perm_middle

theorem countP_updateWhere_le (hkeys : KeysNodup key rows) (k : κ) :
    (updateWhere (fun r => decide (key r = k)) f rows).countP q ≤
      rows.countP q + if (lookup key k rows).any (fun r => !q r && q (f r)) = true then 1 else 0 := by
  induction rows with
  | nil => exact Nat.zero_le _
  | cons r rows ih =>
    have hnd := List.nodup_cons.mp hkeys
    rw [updateWhere_cons, lookup_cons]
    by_cases hr : key r = k
    · have hrest : updateWhere (fun r => decide (key r = k)) f rows = rows := by
        refine updateWhere_eq_self fun s hs => decide_eq_false fun hs' => hnd.1 ?_
        rw [hr, ← hs']
        exact List.mem_map_of_mem hs
      rw [hrest, if_pos hr, if_pos (by simpa using hr), List.countP_cons, List.countP_cons]
      cases hq : q r <;> cases hqf : q (f r) <;> simp [hq, hqf]
    · rw [if_neg hr, if_neg (by simpa using hr), List.countP_cons, List.countP_cons]
      have hle := ih hnd.2
      omega

/-- Two lists without repetitions that are the columns of one list of pairs are in bijection, by the
function that list is. -/
theorem exists_bijOn_of_pairs {β : Type*} [Nonempty β] {pairs : List (α × β)}
    (h1 : (pairs.map Prod.fst).Nodup) (h2 : (pairs.map Prod.snd).Nodup) :
    ∃ f : α → β, (∀ q ∈ pairs, f q.1 = q.2) ∧
      Set.BijOn f {a | a ∈ pairs.map Prod.fst} {b | b ∈ pairs.map Prod.snd} := by
  classical
  -- the partner of `a` is the second column of the one pair it heads
  have hex : ∀ a, ∃ b, a ∈ pairs.map Prod.fst → (a, b) ∈ pairs := by
    intro a
    by_cases ha : a ∈ pairs.map Prod.fst
    · obtain ⟨⟨a', b⟩, hmem, rfl⟩ := List.mem_map.mp ha
      exact ⟨b, fun _ => hmem⟩
    · exact ⟨Classical.arbitrary β, fun h => absurd h ha⟩
  choose f hf using hex
  have hval : ∀ q ∈ pairs, f q.1 = q.2 := by
    intro q hq
    have hmem := hf q.1 (List.mem_map_of_mem hq)
    exact (Prod.ext_iff.mp (eq_of_mem_of_key_eq h1 hmem hq rfl)).2
  refine ⟨f, hval, fun a ha => List.mem_map.mpr ⟨_, hf a ha, rfl⟩, fun a ha a' ha' heq => ?_, ?_⟩
  · have hpair := eq_of_mem_of_key_eq h2 (hf a ha) (hf a' ha') heq
    exact (Prod.mk.inj hpair).1
  · intro b hb
    obtain ⟨q, hq, rfl⟩ := List.mem_map.mp hb
    exact ⟨q.1, List.mem_map_of_mem hq, hval q hq⟩

end Table
end Prism
