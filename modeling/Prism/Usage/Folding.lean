import Prism.Service.Helpers
import Prism.Usage.Counters

/-!
# Folding hours into days

`UpsertUsageHourly`, `SummarizeUsageHourlyBefore` and the two usage queries of
`internal/state/repo_user.go`.  Usage is stored by the hour; a summary moves the hours before a
cutoff into the table of days, and hours of a day that was summarized may still come.  A query adds
up both tables.

An hour and the day it was folded into belong to one *slot*: a key, a platform and a UTC day.  What
the two tables hold of a slot together is what was ever stored for it, and no operation but the
first moves it (`Folded`).  The queries look at windows of whole days, so of a slot they see both
tables or neither.
-/

namespace Prism

open Table

def hourNs : ℤ := 3600 * 1000000000

/-- A row of `usage_hourly` or of `usage_daily`. -/
structure UsageRow where
  key : CounterKey
  tsNs : ℤ
  counters : Delta

namespace UsageRow

variable (r : UsageRow)

/-- The primary key of both tables leaves the user out. -/
def primaryKey : String × String × ℤ := (r.key.keyID, r.key.platformID, r.tsNs)

def groupKey : CounterKey × ℤ := (r.key, r.tsNs)

/-- SQLite divides towards zero. -/
def ofDay : UsageRow := { r with tsNs := r.tsNs.tdiv dayNs * dayNs }

def slot : String × String × ℤ := r.ofDay.primaryKey

def add (old row : UsageRow) : UsageRow := { old with counters := old.counters + row.counters }

end UsageRow

open UsageRow (primaryKey groupKey ofDay slot)

/-- Add rows to a table, each into the row of its key if there is one.  Added to the empty table,
they are grouped by the key. -/
def absorb {κ : Type} [DecidableEq κ] (key : UsageRow → κ) (rows table : List UsageRow) :
    List UsageRow :=
  rows.foldl (fun table row => upsertWith key UsageRow.add row table) table

structure UsageTables where
  hourly : List UsageRow := []
  daily : List UsageRow := []

namespace UsageTables

variable (s : UsageTables)

def upsertUsageHourly (rows : List UsageRow) : UsageTables :=
  { s with hourly := absorb primaryKey rows s.hourly }

def summarizeUsageHourlyBefore (cutoffNs : ℤ) : UsageTables × ℕ :=
  let old := s.hourly.filter fun r => r.tsNs < cutoffNs
  ({ hourly := s.hourly.filter fun r => ¬ r.tsNs < cutoffNs
     daily := absorb primaryKey
       (absorb groupKey (old.map ofDay) []) s.daily }, old.length)

/-- The rows of both tables that are asked for, grouped by day. -/
def listUsage (daily hourly : UsageRow → Bool) : List UsageRow :=
  absorb groupKey
    (s.daily.filter daily ++ (s.hourly.filter hourly).map ofDay) []

def listUsageByUser (userID : String) (fromNs toNs : ℤ) : List UsageRow :=
  let asked := fun r : UsageRow => decide (r.key.userID = userID ∧ fromNs ≤ r.tsNs ∧ r.tsNs < toNs)
  (s.listUsage asked asked).mergeSort fun r t => t.tsNs ≤ r.tsNs

def listUsageDailyRange (fromNs toNs : ℤ) : List UsageRow :=
  (s.listUsage (fun r => fromNs ≤ r.tsNs ∧ r.tsNs < toNs)
    fun r => fromNs < r.tsNs + hourNs ∧ r.tsNs < toNs).mergeSort
      fun r t => t.tsNs < r.tsNs ∨ t.tsNs = r.tsNs ∧ r.key.userID ≤ t.key.userID

end UsageTables

inductive UsageOp where
  | upsert (rows : List UsageRow)
  | summarize (cutoffNs : ℤ)

def UsageTables.step (s : UsageTables) : UsageOp → UsageTables
  | .upsert rows => s.upsertUsageHourly rows
  | .summarize cutoffNs => (s.summarizeUsageHourlyBefore cutoffNs).1

def UsageOp.rows : UsageOp → List UsageRow
  | .upsert rows => rows
  | .summarize _ => []

def amount (k : String × String × ℤ) (rows : List UsageRow) : Delta :=
  (rows.map fun r => if r.slot = k then r.counters else 0).sum

/-! ## Adding rows to a table -/

section Absorb

variable {κ : Type} [DecidableEq κ] {key : UsageRow → κ} {rows table : List UsageRow} {r : UsageRow}

theorem slot_ofDay (r : UsageRow) : r.ofDay.slot = r.slot := by
  simp only [slot, ofDay, primaryKey, Int.mul_tdiv_cancel _ (show dayNs ≠ 0 by decide)]

theorem slot_of_groupKey {t : UsageRow} (h : r.groupKey = t.groupKey) : r.slot = t.slot := by
  obtain ⟨hkey, hts⟩ := Prod.mk.inj h
  simp only [slot, ofDay, primaryKey, hkey, hts]

theorem slot_of_primaryKey {t : UsageRow} (h : r.primaryKey = t.primaryKey) : r.slot = t.slot := by
  simp only [primaryKey, Prod.mk.injEq] at h
  simp only [slot, ofDay, primaryKey, h]

def SameUsage (rows rows' : List UsageRow) : Prop :=
  ∀ k, amount k rows = amount k rows' ∧ (k ∈ rows.map slot ↔ k ∈ rows'.map slot)

namespace SameUsage

variable {a b c d : List UsageRow}

theorem refl (a : List UsageRow) : SameUsage a a := fun _ => ⟨rfl, Iff.rfl⟩

theorem trans (h : SameUsage a b) (h' : SameUsage b c) : SameUsage a c := fun k =>
  ⟨(h k).1.trans (h' k).1, (h k).2.trans (h' k).2⟩

theorem of_perm (h : a.Perm b) : SameUsage a b := fun _ =>
  ⟨(h.map _).sum_eq, (h.map _).mem_iff⟩

theorem append (h : SameUsage a b) (h' : SameUsage c d) : SameUsage (a ++ c) (b ++ d) := by
  intro k
  unfold amount
  simp only [List.map_append, List.sum_append, List.mem_append, (h k).2, (h' k).2]
  exact ⟨congrArg₂ _ (h k).1 (h' k).1, trivial⟩

theorem days (a : List UsageRow) : SameUsage (a.map ofDay) a := by
  intro k
  unfold amount
  simp only [List.map_map, Function.comp_def, slot_ofDay]
  exact ⟨rfl, trivial⟩

end SameUsage

structure Keyed (key : UsageRow → κ) : Prop where
  add : ∀ r t : UsageRow, key (r.add t) = key r
  slot : ∀ {r t}, key r = key t → r.slot = t.slot

theorem keyed_primaryKey : Keyed primaryKey := ⟨fun _ _ => rfl, slot_of_primaryKey⟩

theorem keyed_groupKey : Keyed groupKey := ⟨fun _ _ => rfl, slot_of_groupKey⟩

omit [DecidableEq κ] in
theorem Keyed.merges (hkey : Keyed key) (old row : UsageRow) (h : key old = key row) :
    key (old.add row) = key row :=
  (hkey.add old row).trans h

theorem Keyed.put (hkey : Keyed key) (hnd : KeysNodup key table) (row : UsageRow) :
    SameUsage (upsertWith key UsageRow.add row table) (table ++ [row]) := by
  refine fun k => ⟨?_, fun hk => ?_, fun hk => ?_⟩
  · refine (sum_map_upsertWith hnd fun old hold => ?_).trans ?_
    · rw [show (old.add row).slot = old.slot from rfl, hkey.slot hold]
      split <;> simp [UsageRow.add]
    · simp [amount]
  · obtain ⟨r, hr, rfl⟩ := List.mem_map.mp hk
    rw [List.map_append, List.mem_append, List.map_singleton, List.mem_singleton]
    rcases mem_upsertWith key _ hr with hr | rfl | ⟨old, hold, -, rfl⟩
    · exact .inl (List.mem_map_of_mem hr)
    · exact .inr rfl
    · exact .inl (List.mem_map.mpr ⟨old, hold, rfl⟩)
  · obtain ⟨r, hr, rfl⟩ := List.mem_map.mp hk
    have hmem : key r ∈ (upsertWith key UsageRow.add row table).map key := by
      rw [mem_keys_upsertWith key _ hkey.merges]
      refine (List.mem_append.mp hr).imp List.mem_map_of_mem fun hr => ?_
      rw [List.mem_singleton.mp hr]
    obtain ⟨t, ht, hsame⟩ := List.mem_map.mp hmem
    exact List.mem_map.mpr ⟨t, ht, hkey.slot hsame⟩

theorem Keyed.absorb (hkey : Keyed key) (rows : List UsageRow) (hnd : KeysNodup key table) :
    KeysNodup key (Prism.absorb key rows table) ∧
      SameUsage (Prism.absorb key rows table) (table ++ rows) := by
  induction rows generalizing table with
  | nil =>
    rw [List.append_nil]
    exact ⟨hnd, .refl table⟩
  | cons row rows ih =>
    obtain ⟨hnd', hsame⟩ := ih (keysNodup_upsertWith key _ hkey.merges row hnd)
    refine ⟨hnd', hsame.trans ?_⟩
    rw [List.append_cons]
    exact (hkey.put hnd row).append (.refl rows)

theorem forall_absorb {P : CounterKey × ℤ → Prop} (htable : ∀ r ∈ table, P r.groupKey)
    (hrows : ∀ r ∈ rows, P r.groupKey) : ∀ r ∈ absorb key rows table, P r.groupKey := by
  induction rows generalizing table with
  | nil => exact htable
  | cons row rows ih =>
    obtain ⟨hrow, hrows⟩ := List.forall_mem_cons.mp hrows
    refine ih (fun r hr => ?_) hrows
    rcases mem_upsertWith key _ hr with hr | rfl | ⟨old, hold, -, rfl⟩
    · exact htable r hr
    · exact hrow
    · exact htable old hold

end Absorb

/-- A row as the callers make them: of a key with one owner, and for an hour. -/
def Proper (owner : String → String) (g : CounterKey × ℤ) : Prop :=
  g.1.userID = owner g.1.keyID ∧ 0 ≤ g.2 ∧ hourNs ∣ g.2

def ProperDay (owner : String → String) (g : CounterKey × ℤ) : Prop :=
  Proper owner g ∧ dayNs ∣ g.2

/-- **The two tables hold what was stored.** -/
structure Folded (owner : String → String) (all : List UsageRow) (s : UsageTables) : Prop where
  same : SameUsage (s.daily ++ s.hourly) all
  hourlyKeys : KeysNodup primaryKey s.hourly
  dailyKeys : KeysNodup primaryKey s.daily
  hourly : ∀ r ∈ s.hourly, Proper owner r.groupKey
  daily : ∀ r ∈ s.daily, ProperDay owner r.groupKey

section Tables

variable {owner : String → String} {all rows : List UsageRow} {s : UsageTables}

theorem Folded.upsert (h : Folded owner all s) (hrows : ∀ r ∈ rows, Proper owner r.groupKey) :
    Folded owner (all ++ rows) (s.upsertUsageHourly rows) := by
  obtain ⟨hnd, hsame⟩ := keyed_primaryKey.absorb rows h.hourlyKeys
  refine ⟨((SameUsage.refl s.daily).append hsame).trans ?_, hnd, h.dailyKeys,
    forall_absorb h.hourly hrows, h.daily⟩
  rw [← List.append_assoc]
  exact h.same.append (.refl rows)

theorem ofDay_tsNs {r : UsageRow} (h : 0 ≤ r.tsNs) : r.ofDay.tsNs = r.tsNs / dayNs * dayNs :=
  congrArg (· * dayNs) (Int.tdiv_eq_ediv_of_nonneg h)

theorem Folded.days (h : Folded owner all s) (asked : UsageRow → Bool) :
    ∀ r ∈ (s.hourly.filter asked).map ofDay, ProperDay owner r.groupKey := by
  intro r hr
  obtain ⟨t, ht, rfl⟩ := List.mem_map.mp hr
  obtain ⟨howner, hnonneg, hhour⟩ := h.hourly t (List.mem_filter.mp ht).1
  have hday := ofDay_tsNs hnonneg
  simp only [ProperDay, Proper, groupKey, dayNs, hourNs] at *
  exact ⟨⟨howner, by omega, by omega⟩, by omega⟩

theorem le_ofDay {r : UsageRow} {midnight : ℤ} (hmidnight : dayNs ∣ midnight) (h : 0 ≤ r.tsNs) :
    midnight ≤ r.ofDay.tsNs ↔ midnight ≤ r.tsNs := by
  rw [ofDay_tsNs h]
  simp only [dayNs] at *
  omega

theorem Folded.summarize (h : Folded owner all s) (cutoffNs : ℤ) :
    Folded owner all (s.summarizeUsageHourlyBefore cutoffNs).1 := by
  have hnil : KeysNodup groupKey ([] : List UsageRow) := List.nodup_nil
  have hsum := (keyed_groupKey.absorb
    ((s.hourly.filter fun r => r.tsNs < cutoffNs).map ofDay) hnil).2
  obtain ⟨hnd, hsame⟩ := keyed_primaryKey.absorb _ h.dailyKeys
  refine ⟨?_, keysNodup_filter h.hourlyKeys, hnd, fun r hr => ?_,
    forall_absorb h.daily (forall_absorb (List.forall_mem_nil _) (h.days _))⟩
  · have hday := hsame.trans ((SameUsage.refl s.daily).append (hsum.trans (.days _)))
    refine (hday.append (.refl _)).trans (.trans (.of_perm ?_) h.same)
    rw [List.append_assoc]
    have hsplit := List.filter_append_perm (fun r : UsageRow => r.tsNs < cutoffNs) s.hourly
    simp only [← decide_not] at hsplit
    exact (List.Perm.refl _).append hsplit
  · exact h.hourly r (List.mem_filter.mp hr).1

/-- A page of the slots in a window: one row for each, with all that was stored for it. -/
structure UsagePage (all : List UsageRow) (window : String × String × ℤ → Prop)
    (page : List UsageRow) : Prop where
  nodup : KeysNodup primaryKey page
  slots : ∀ k, k ∈ page.map primaryKey ↔ window k ∧ k ∈ all.map slot
  sums : ∀ r ∈ page, r.counters = amount r.primaryKey all

theorem amount_filter (window : String × String × ℤ → Prop) [DecidablePred window]
    {k : String × String × ℤ} (hk : window k) (rows : List UsageRow) :
    amount k (rows.filter fun r => window r.slot) = amount k rows := by
  induction rows with
  | nil => rfl
  | cons r rows ih =>
    unfold amount at ih ⊢
    by_cases hr : window r.slot
    · simp [hr, ih]
    · have hne : r.slot ≠ k := fun h => hr (h ▸ hk)
      simp [hr, hne, ih]

theorem amount_of_mem {page : List UsageRow} {r : UsageRow}
    (hnd : KeysNodup primaryKey page) (hslot : ∀ t ∈ page, t.slot = t.primaryKey)
    (hr : r ∈ page) : amount r.primaryKey page = r.counters := by
  unfold amount
  rw [sum_map_eq_filter_add_lookup hnd r.primaryKey, lookup_of_mem hnd hr]
  have hrest : ((page.filter fun t => t.primaryKey ≠ r.primaryKey).map fun t =>
      if t.slot = r.primaryKey then t.counters else 0).sum = 0 := by
    refine List.sum_eq_zero fun x hx => ?_
    obtain ⟨t, ht, rfl⟩ := List.mem_map.mp hx
    obtain ⟨hmem, hne⟩ := List.mem_filter.mp ht
    rw [hslot t hmem]
    exact if_neg (of_decide_eq_true hne)
  rw [hrest, zero_add]
  exact if_pos (hslot r hr)

theorem Folded.listUsage (h : Folded owner all s) (window : String × String × ℤ → Prop)
    [DecidablePred window] {daily hourly : UsageRow → Bool}
    (hdaily : ∀ r ∈ s.daily, daily r = decide (window r.slot))
    (hhourly : ∀ r ∈ s.hourly, hourly r = decide (window r.slot)) :
    UsagePage all window (s.listUsage daily hourly) := by
  have hnil : KeysNodup groupKey ([] : List UsageRow) := List.nodup_nil
  obtain ⟨hgroup, hsame⟩ := keyed_groupKey.absorb
    (s.daily.filter daily ++ (s.hourly.filter hourly).map ofDay) hnil
  have hproper : ∀ r ∈ s.listUsage daily hourly, ProperDay owner r.groupKey :=
    forall_absorb (List.forall_mem_nil _) (List.forall_mem_append.mpr
      ⟨fun r hr => h.daily r (List.mem_filter.mp hr).1, h.days hourly⟩)
  have hslot : ∀ r ∈ s.listUsage daily hourly, r.slot = r.primaryKey := fun r hr => by
    have hday := Int.tdiv_mul_cancel (hproper r hr).2
    exact congrArg (fun ts => (r.key.keyID, r.key.platformID, ts)) hday
  have hnd : KeysNodup primaryKey (s.listUsage daily hourly) := by
    refine List.Nodup.map_on (fun r hr t ht heq => ?_) (List.Nodup.of_map _ hgroup)
    refine eq_of_mem_of_key_eq hgroup hr ht ?_
    simp only [primaryKey, Prod.mk.injEq] at heq
    have huser : r.key.userID = t.key.userID :=
      (hproper r hr).1.1.trans ((congrArg owner heq.1).trans (hproper t ht).1.1.symm)
    show (CounterKey.mk r.key.keyID r.key.userID r.key.platformID, r.tsNs) = t.groupKey
    rw [heq.1, heq.2.1, heq.2.2, huser]
    rfl
  -- what is seen of the two tables
  have hseen : SameUsage (s.listUsage daily hourly)
      ((s.daily ++ s.hourly).filter fun r => window r.slot) := by
    rw [List.filter_append, ← List.filter_congr hdaily, ← List.filter_congr hhourly]
    rw [List.nil_append] at hsame
    exact hsame.trans ((SameUsage.refl _).append (.days _))
  have hslots : ∀ k, k ∈ (s.listUsage daily hourly).map primaryKey ↔
      window k ∧ k ∈ all.map slot := by
    intro k
    rw [← List.map_congr_left hslot, (hseen k).2, ← (h.same k).2]
    simp only [List.mem_map, List.mem_filter, decide_eq_true_eq]
    constructor
    · rintro ⟨r, ⟨hr, hw⟩, rfl⟩
      exact ⟨hw, r, hr, rfl⟩
    · rintro ⟨hw, r, hr, rfl⟩
      exact ⟨r, ⟨hr, hw⟩, rfl⟩
  refine ⟨hnd, hslots, fun r hr => ?_⟩
  have hwindow := ((hslots _).mp (List.mem_map_of_mem hr)).1
  rw [← (h.same _).1, ← amount_filter window hwindow, ← (hseen _).1, amount_of_mem hnd hslot hr]

theorem UsagePage.mergeSort {window : String × String × ℤ → Prop} {page : List UsageRow}
    (h : UsagePage all window page) (le : UsageRow → UsageRow → Bool) :
    UsagePage all window (page.mergeSort le) := by
  have hperm := List.mergeSort_perm page le
  refine ⟨((hperm.map _).nodup_iff).mpr h.nodup, fun k => ?_, fun r hr => h.sums r ?_⟩
  · rw [(hperm.map _).mem_iff]
    exact h.slots k
  · exact hperm.mem_iff.mp hr

theorem folded_run {ops : List UsageOp} (hrows : ∀ r ∈ ops.flatMap UsageOp.rows,
    Proper owner r.groupKey) (h : Folded owner all s) :
    Folded owner (all ++ ops.flatMap UsageOp.rows) (run UsageTables.step s ops) := by
  induction ops generalizing all s with
  | nil => simpa using h
  | cons op ops ih =>
    rw [List.flatMap_cons, ← List.append_assoc, run_cons]
    refine ih (fun r hr => hrows r ?_) ?_
    · exact List.mem_append_right _ hr
    · cases op with
      | upsert rows => exact h.upsert fun r hr => hrows r (List.mem_append_left _ hr)
      | summarize cutoffNs =>
        rw [UsageOp.rows, List.append_nil]
        exact h.summarize cutoffNs

end Tables

/-- **Folding never changes a usage page.**  After any sequence of stores and summaries, a query for
a window of whole days has one row for every key, platform and day of the window that something was
stored for, with all that was stored. -/
theorem usage_pages_exact (owner : String → String) (ops : List UsageOp)
    (hrows : ∀ r ∈ ops.flatMap UsageOp.rows,
      r.key.userID = owner r.key.keyID ∧ 0 ≤ r.tsNs ∧ hourNs ∣ r.tsNs)
    (fromNs toNs : ℤ) (hfrom : dayNs ∣ fromNs) (hto : dayNs ∣ toNs) :
    (∀ userID, UsagePage (ops.flatMap UsageOp.rows)
      (fun k => owner k.1 = userID ∧ fromNs ≤ k.2.2 ∧ k.2.2 < toNs)
      ((run UsageTables.step {} ops).listUsageByUser userID fromNs toNs)) ∧
    UsagePage (ops.flatMap UsageOp.rows) (fun k => fromNs ≤ k.2.2 ∧ k.2.2 < toNs)
      ((run UsageTables.step {} ops).listUsageDailyRange fromNs toNs) := by
  have hstart : Folded owner [] {} := ⟨.refl _, List.nodup_nil, List.nodup_nil, nofun, nofun⟩
  have h := folded_run hrows hstart
  rw [List.nil_append] at h
  have hwindow : ∀ r : UsageRow, Proper owner r.groupKey →
      (fromNs ≤ r.ofDay.tsNs ∧ r.ofDay.tsNs < toNs ↔ fromNs ≤ r.tsNs ∧ r.tsNs < toNs) := by
    intro r hr
    rw [← not_le, ← not_le, le_ofDay hfrom hr.2.1, le_ofDay hto hr.2.1]
  constructor
  · intro userID
    have hasked : ∀ r : UsageRow, Proper owner r.groupKey →
        decide (r.key.userID = userID ∧ fromNs ≤ r.tsNs ∧ r.tsNs < toNs) =
          decide (owner r.key.keyID = userID ∧ fromNs ≤ r.ofDay.tsNs ∧ r.ofDay.tsNs < toNs) := by
      intro r hr
      rw [decide_eq_decide, hwindow r hr, show r.key.userID = _ from hr.1]
      rfl
    exact (h.listUsage _ (fun r hr => hasked r (h.daily r hr).1)
      fun r hr => hasked r (h.hourly r hr)).mergeSort _
  · refine (h.listUsage (fun k => fromNs ≤ k.2.2 ∧ k.2.2 < toNs) (fun r hr => ?_)
      fun r hr => ?_).mergeSort _
    · exact decide_eq_decide.mpr (hwindow r (h.daily r hr).1).symm
    · -- both are hours, so an hour that reaches into the window starts in it
      refine decide_eq_decide.mpr (.trans ?_ (hwindow r (h.hourly r hr)).symm)
      have hhour := (h.hourly r hr).2.2
      simp only [groupKey, dayNs, hourNs] at *
      omega

theorem usage_pages_exact_late :
    let ops : List UsageOp := [.upsert [⟨⟨"k", "u", "p"⟩, 0, ⟨1, 2, 3, 4⟩⟩], .summarize 5,
      .upsert [⟨⟨"k", "u", "p"⟩, 0, ⟨1, 1, 1, 1⟩⟩]]
    UsagePage (ops.flatMap UsageOp.rows) (fun k => 0 ≤ k.2.2 ∧ k.2.2 < dayNs)
      ((run UsageTables.step {} ops).listUsageDailyRange 0 dayNs) :=
  (usage_pages_exact (fun _ => "u") _ (by decide) 0 dayNs (by decide) (by decide)).2

end Prism
