import Prism.Foundation.Table
import Prism.Foundation.Thread
import Mathlib.Algebra.BigOperators.Group.List.Basic

/-!
# Adding up rows and events

Two kinds of sums are compared when a store is checked against what was put into it: over the rows
it holds, and over the events of a history.

* Over rows: `sum_map_upsertWith` and `sum_map_eq_filter_add_lookup` say what merging a row into a
  keyed table and taking one out do to a sum, as long as the keys are distinct.
* Over events: `tally f trace` adds `f` up over a history, `own i trace` is what one thread did,
  `openBy f trace` are the threads in the middle of something, and `tally_eq_sum_threads` adds the
  threads up one by one.
-/

namespace Prism

/-! ## Rows -/

namespace Table

variable {α κ M : Type*} [DecidableEq κ] [AddCommMonoid M] {key : α → κ} {rows : List α}

theorem sum_map_upsertWith {f : α → M} {merge : α → α → α} {row : α} (hnd : KeysNodup key rows)
    (hadd : ∀ old, key old = key row → f (merge old row) = f old + f row) :
    ((upsertWith key merge row rows).map f).sum = (rows.map f).sum + f row := by
  unfold upsertWith
  by_cases hany : (rows.any fun r => key r = key row) = true
  · rw [if_pos hany]
    induction rows with
    | nil => cases hany
    | cons r rows ih =>
      unfold KeysNodup at hnd
      rw [List.map_cons, List.nodup_cons] at hnd
      rw [updateWhere_cons, List.map_cons, List.map_cons, List.sum_cons, List.sum_cons]
      by_cases hr : key r = key row
      · -- the key is distinct, so the rest of the table has no row to merge with
        have hrest : ∀ s ∈ rows, decide (key s = key row) = false := fun s hs =>
          decide_eq_false fun h => hnd.1 (hr ▸ h ▸ List.mem_map_of_mem hs)
        rw [updateWhere_eq_self hrest, if_pos (decide_eq_true hr), hadd r hr, add_assoc,
          add_comm (f row), ← add_assoc]
      · have hany' : (rows.any fun r => key r = key row) = true := by
          rw [List.any_cons, Bool.or_eq_true] at hany
          exact hany.resolve_left (by simp [hr])
        rw [if_neg (by simp [hr]), ih hnd.2 hany', add_assoc]
  · rw [if_neg hany, List.map_append, List.sum_append, List.map_singleton, List.sum_singleton]

theorem sum_map_eq_filter_add_lookup {f : α → M} (hnd : KeysNodup key rows) (k : κ) :
    (rows.map f).sum =
      ((rows.filter fun r => key r ≠ k).map f).sum + (lookup key k rows).elim 0 f := by
  induction rows with
  | nil => simp
  | cons r rows ih =>
    unfold KeysNodup at hnd
    rw [List.map_cons, List.nodup_cons] at hnd
    rw [List.map_cons, List.sum_cons, lookup_cons]
    by_cases hr : key r = k
    · have hrest : rows.filter (fun s => key s ≠ k) = rows := by
        refine List.filter_eq_self.mpr fun s hs => decide_eq_true fun h => hnd.1 ?_
        rw [hr, ← h]
        exact List.mem_map_of_mem hs
      rw [List.filter_cons_of_neg (by simp [hr]), hrest, if_pos hr, add_comm]
      rfl
    · rw [List.filter_cons_of_pos (by simp [hr]), if_neg hr, List.map_cons, List.sum_cons,
        add_assoc, ← ih hnd.2]

omit [DecidableEq κ] in
theorem keysNodup_filter {p : α → Bool} (hnd : KeysNodup key rows) :
    KeysNodup key (rows.filter p) :=
  hnd.sublist (List.filter_sublist.map key)

end Table

section Events

variable {ε M β : Type*} [AddCommMonoid M]

/-- Add `f` up over the events of a history. -/
def tally (f : ε → M) (trace : List (ℕ × ε)) : M :=
  (trace.map fun p => f p.2).sum

variable (f : ε → M)

@[simp] theorem tally_nil : tally f [] = 0 := rfl

@[simp] theorem tally_cons (p : ℕ × ε) (trace : List (ℕ × ε)) :
    tally f (p :: trace) = f p.2 + tally f trace := by
  unfold tally
  rw [List.map_cons, List.sum_cons]

def own (i : ℕ) (trace : List (ℕ × ε)) : List (ℕ × ε) :=
  trace.filter fun p => p.1 = i

@[simp] theorem own_nil (i : ℕ) : own i ([] : List (ℕ × ε)) = [] := rfl

@[simp] theorem own_cons_self (i : ℕ) (e : ε) (trace : List (ℕ × ε)) :
    own i ((i, e) :: trace) = (i, e) :: own i trace := by
  simp [own]

theorem own_cons_of_ne {i j : ℕ} (h : j ≠ i) (e : ε) (trace : List (ℕ × ε)) :
    own i ((j, e) :: trace) = own i trace := by
  simp [own, h]

variable {trace : List (ℕ × ε)}

theorem mem_iff_of_own {i : ℕ} {e : ε} {trace' : List (ℕ × ε)} (hown : own i trace' = own i trace) :
    (i, e) ∈ trace' ↔ (i, e) ∈ trace := by
  have hmem : ∀ t : List (ℕ × ε), (i, e) ∈ own i t ↔ (i, e) ∈ t := by
    intro t
    unfold own
    rw [List.mem_filter]
    exact and_iff_left (decide_eq_true rfl)
  rw [← hmem trace', hown, hmem]

theorem sum_map_single {j : ℕ} (c : M) {l : List ℕ} (hnd : l.Nodup) (hj : j ∈ l) :
    (l.map fun i => if i = j then c else 0).sum = c := by
  induction l with
  | nil => cases hj
  | cons i l ih =>
    rw [List.nodup_cons] at hnd
    rw [List.map_cons, List.sum_cons]
    by_cases h : i = j
    · have hrest : (l.map fun i => if i = j then c else 0).sum = 0 := by
        refine List.sum_eq_zero fun x hx => ?_
        obtain ⟨k, hk, rfl⟩ := List.mem_map.mp hx
        have hkj : k ≠ j := fun hkj => hnd.1 (by rw [h, ← hkj]; exact hk)
        exact if_neg hkj
      rw [if_pos h, hrest, add_zero]
    · rw [if_neg h, zero_add]
      exact ih hnd.2 ((List.mem_cons.mp hj).resolve_left (Ne.symm h))

theorem tally_eq_sum_own {n : ℕ} (hids : ∀ p ∈ trace, p.1 < n) :
    tally f trace = ((List.range n).map fun i => tally f (own i trace)).sum := by
  induction trace with
  | nil => simp
  | cons p trace ih =>
    obtain ⟨j, e⟩ := p
    have hj : j < n := hids (j, e) (by simp)
    have hown : ∀ i, tally f (own i ((j, e) :: trace)) =
        (if i = j then f e else 0) + tally f (own i trace) := by
      intro i
      by_cases h : i = j
      · rw [if_pos h, h, own_cons_self, tally_cons]
      · rw [if_neg h, own_cons_of_ne (Ne.symm h), zero_add]
    have hone : ((List.range n).map fun i => if i = j then f e else 0).sum = f e :=
      sum_map_single (f e) List.nodup_range (List.mem_range.mpr hj)
    rw [tally_cons, ih fun q hq => hids q (by simp [hq]), List.map_congr_left fun i _ => hown i,
      List.sum_map_add, hone]

/-- The threads that have begun something and not ended it: an event begins it (`true`), ends it
(`false`) or has nothing to do with it. -/
def openBy (f : ε → Option Bool) : List (ℕ × ε) → List ℕ
  | [] => []
  | (i, e) :: trace =>
    match f e with
    | some true => i :: openBy f trace
    | some false => (openBy f trace).filter fun j => j ≠ i
    | none => openBy f trace

section OpenBy

variable {f : ε → Option Bool} {e : ε} (i : ℕ) (trace : List (ℕ × ε))

@[simp] theorem openBy_nil : openBy f ([] : List (ℕ × ε)) = [] := rfl

theorem openBy_begin (h : f e = some true) : openBy f ((i, e) :: trace) = i :: openBy f trace := by
  simp only [openBy, h]

theorem openBy_end (h : f e = some false) :
    openBy f ((i, e) :: trace) = (openBy f trace).filter fun j => j ≠ i := by
  simp only [openBy, h]

theorem openBy_other (h : f e = none) : openBy f ((i, e) :: trace) = openBy f trace := by
  simp only [openBy, h]

theorem mem_openBy_cons {p : ℕ × ε} : i ∈ openBy f (p :: trace) ↔
    f p.2 = some true ∧ i = p.1 ∨ i ∈ openBy f trace ∧ (f p.2 = some false → i ≠ p.1) := by
  cases h : f p.2 with
  | none => simp [openBy, h]
  | some b => cases b <;> simp [openBy, h]

theorem mem_openBy_own : i ∈ openBy f (own i trace) ↔ i ∈ openBy f trace := by
  induction trace with
  | nil => rfl
  | cons p trace ih =>
    obtain ⟨j, e⟩ := p
    by_cases hj : j = i
    · subst hj
      rw [own_cons_self, mem_openBy_cons, mem_openBy_cons, ih]
    · rw [own_cons_of_ne hj, ih, mem_openBy_cons]
      simp [Ne.symm hj]

variable {trace : List (ℕ × ε)} {i : ℕ}

theorem mem_openBy_of_own {trace' : List (ℕ × ε)} (hown : own i trace' = own i trace) :
    i ∈ openBy f trace' ↔ i ∈ openBy f trace := by
  rw [← mem_openBy_own i trace', hown, mem_openBy_own]

theorem nodup_openBy_begin (h : f e = some true) (hnd : (openBy f trace).Nodup)
    (hi : i ∉ openBy f trace) : (openBy f ((i, e) :: trace)).Nodup := by
  rw [openBy_begin _ _ h]
  exact List.nodup_cons.mpr ⟨hi, hnd⟩

theorem nodup_openBy_end (h : f e = some false) (hnd : (openBy f trace).Nodup) :
    (openBy f ((i, e) :: trace)).Nodup := by
  rw [openBy_end _ _ h]
  exact hnd.filter _

theorem length_openBy_end (h : f e = some false) (hnd : (openBy f trace).Nodup)
    (hi : i ∈ openBy f trace) :
    (openBy f ((i, e) :: trace)).length + 1 = (openBy f trace).length := by
  rw [openBy_end _ _ h]
  have herase : (openBy f trace).filter (fun j => decide (j ≠ i)) = (openBy f trace).erase i := by
    rw [hnd.erase_eq_filter]
    exact List.filter_congr fun j _ => by simp [bne, Bool.beq_eq_decide_eq]
  rw [herase, List.length_erase_of_mem hi]
  have hpos := List.length_pos_of_mem hi
  omega

theorem mem_openBy_append (older : List (ℕ × ε)) (hi : i ∈ openBy f trace) :
    i ∈ openBy f (trace ++ older) := by
  induction trace with
  | nil => cases hi
  | cons p trace ih =>
    rw [List.cons_append]
    rw [mem_openBy_cons] at hi ⊢
    exact hi.imp_right fun h => ⟨ih h.1, h.2⟩

theorem exists_begin_of_mem_openBy (hi : i ∈ openBy f trace) :
    ∃ e, (i, e) ∈ trace ∧ f e = some true := by
  induction trace with
  | nil => cases hi
  | cons p trace ih =>
    rcases (mem_openBy_cons ..).mp hi with ⟨hbegin, rfl⟩ | ⟨hi, -⟩
    · exact ⟨p.2, .head _, hbegin⟩
    · obtain ⟨e, he, hbegin⟩ := ih hi
      exact ⟨e, .tail _ he, hbegin⟩

theorem openBy_subset (hi : i ∈ openBy f trace) : i ∈ trace.map Prod.fst := by
  obtain ⟨e, he, -⟩ := exists_begin_of_mem_openBy hi
  exact List.mem_map_of_mem he

end OpenBy

/-- **A history adds up to what its threads did**, when each of them did `g` of what it was asked
for. -/
theorem tally_eq_sum_threads {f : ε → M} {g : β → M} {calls : List β}
    (hids : ∀ p ∈ trace, p.1 < calls.length)
    (hown : ∀ i b, calls[i]? = some b → tally f (own i trace) = g b) :
    tally f trace = (calls.map g).sum := by
  rw [tally_eq_sum_own f hids]
  congr 1
  refine List.ext_getElem (by simp) fun i h1 h2 => ?_
  have hi : i < calls.length := by simpa using h2
  rw [List.getElem_map, List.getElem_map, List.getElem_range]
  exact hown i calls[i] (List.getElem?_eq_getElem hi)

end Events

end Prism
