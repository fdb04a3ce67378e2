import Prism.Usage.Accounting
import Prism.Usage.Flush
import Mathlib.Algebra.Order.Group.Int

/-!
# Seeding beside the flusher

A seed adds to a user's aggregate what the period's usage on disk has above the water mark.  The
flusher charges the subscription, and then marks what it charged.  Between those steps the disk is
ahead of the mark by bytes that are in the aggregate already, and a seed that looks at that moment
adds them a second time.  The other way round, a seed that has listed the subscriptions carries a
total that a charge may since have left behind, and stores it over a newer mark.

What is needed is that no seed lists while another is under way or while a charge waits for its
mark, and no charge is made while a seed is under way (`Exclusive`).  Then the mark is always what
this process has marked, plus the usage found at the start once a seed has stored it, and an
aggregate ends up with that usage restored once.
-/

namespace Prism

open Function Table
open Hist (did_trace)

variable {r sub : UserSubscription} {rows subs : List UserSubscription} {userID : String}
  {e : ServerEvent} {h h' : History} {nowNs : ℤ}

/-- A seed runs from its listing to its return. -/
def seedSpan : ServerEvent → Option Bool
  | .seedListed => some true
  | .seedReturned => some false
  | _ => none

def chargeSpan (userID : String) : ServerEvent → Option Bool
  | .charged u _ done => if u = userID ∧ done = true then some true else none
  | .marked u _ => if u = userID then some false else none
  | _ => none

def chargedTo (userID : String) : ServerEvent → ℤ
  | .charged u bytes done => if u = userID ∧ done = true then bytes else 0
  | _ => 0

def markedFor (userID : String) : ServerEvent → ℤ
  | .marked u bytes => if u = userID then bytes else 0
  | _ => 0

def restoredTo (userID : String) : ServerEvent → ℤ
  | .restored u bytes => if u = userID then bytes else 0
  | _ => 0

def storesMark (userID : String) : ServerEvent → Bool
  | .markStored u _ => u = userID
  | _ => false

def Seeded (userID : String) (trace : Trace) : Prop :=
  ∃ p ∈ trace, storesMark userID p.2 = true
  deriving Decidable

/-- **Seeds and charges keep apart**: a seed lists the subscriptions while no other seed is under
way and no charge to the user waits for its mark, and the user is charged while no seed is under
way. -/
def Exclusive (userID : String) (h : History) (_ : ℕ) : ServerEvent → Prop
  | .seedListed => openBy seedSpan h.trace = [] ∧ openBy (chargeSpan userID) h.trace = []
  | .charged u _ done => u = userID → done = true → openBy seedSpan h.trace = []
  | _ => True

instance (userID : String) (h : History) (i : ℕ) (e : ServerEvent) :
    Decidable (Exclusive userID h i e) := by
  unfold Exclusive
  split <;> infer_instance

/-! ## Where it starts -/

/-- The subscription without its usage: what a flush and a seed leave alone. -/
def clearUsed (r : UserSubscription) : UserSubscription := { r with periodUsedBytes := 0 }

theorem columns_of_clearUsed {s : UserSubscription} (h : clearUsed r = clearUsed s) :
    r.id = s.id ∧ r.userID = s.userID ∧ r.status = s.status ∧ r.expiresAtNs = s.expiresAtNs := by
  simp only [clearUsed, UserSubscription.mk.injEq] at h
  exact ⟨h.1, h.2.1, h.2.2.2.2.2.2.2.2.2.2, h.2.2.2.2.2.1⟩

structure SoleSubscription (userID : String) (sub : UserSubscription)
    (rows : List UserSubscription) : Prop where
  user : userID ≠ ""
  ids : KeysNodup UserSubscription.id rows
  mem : sub ∈ rows
  owner : sub.userID = userID
  active : Db.isActive sub = true
  only : ∀ r ∈ rows, r.userID = userID → Db.isActive r = true → r = sub
  used : 0 ≤ sub.periodUsedBytes

theorem exists_clearUsed_eq {rows' : List UserSubscription}
    (hshape : rows'.map clearUsed = rows.map clearUsed) (hr : r ∈ rows') :
    ∃ r0 ∈ rows, clearUsed r0 = clearUsed r := by
  have hmem : clearUsed r ∈ rows.map clearUsed := hshape ▸ List.mem_map_of_mem hr
  exact List.mem_map.mp hmem

theorem SoleSubscription.eq_of_active {rows' : List UserSubscription}
    (hs : SoleSubscription userID sub rows) (hshape : rows'.map clearUsed = rows.map clearUsed)
    (hr : r ∈ rows') (howner : r.userID = userID) (hactive : Db.isActive r = true) :
    clearUsed r = clearUsed sub := by
  obtain ⟨r0, hr0, heq⟩ := exists_clearUsed_eq hshape hr
  obtain ⟨-, howner0, hstatus, -⟩ := columns_of_clearUsed heq
  have hactive0 : Db.isActive r0 = true := by
    unfold Db.isActive at hactive ⊢
    rw [hstatus]
    exact hactive
  rw [← heq, hs.only r0 hr0 (howner0.trans howner) hactive0]

theorem SoleSubscription.window_id_iff {db : Db} (hs : SoleSubscription userID sub rows)
    (hshape : db.userSubscriptions.map clearUsed = rows.map clearUsed) {v : String}
    {w : SubscriptionWindow} (hw : windowOf v db = some w) : w.id = sub.id ↔ v = userID := by
  obtain ⟨r, hfind, rfl⟩ := Option.map_eq_some_iff.mp hw
  have hr : r ∈ db.userSubscriptions := List.mem_of_find?_eq_some hfind
  have hprop : r.userID = v ∧ Db.isActive r = true := by
    simpa using List.find?_some hfind
  constructor
  · intro hid
    obtain ⟨r0, hr0, heq⟩ := exists_clearUsed_eq hshape hr
    obtain ⟨hid0, howner, -, -⟩ := columns_of_clearUsed heq
    have hsub : r0 = sub :=
      eq_of_mem_of_key_eq hs.ids hr0 hs.mem (hid0.trans hid)
    rw [← hprop.1, ← howner, hsub, hs.owner]
  · intro hv
    have heq := hs.eq_of_active hshape hr (hprop.1.trans hv) hprop.2
    exact (columns_of_clearUsed heq).1

inductive UsageCall where
  /-- traffic: byte counts are not negative -/
  | add (key : CounterKey) (delta : Delta) (nonneg : 0 ≤ delta.total)
  | flush (env : FlushEnv)
  | seed (pendingAt : Option ℤ) (nowNs : ℤ)

namespace UsageCall

def task : UsageCall → Task Unit
  | .add key delta _ => Prism.add key delta
  | .flush env => do
    let _ ← flushOnce env
    pure ()
  | .seed pendingAt nowNs => do
    let _ ← seedUsage pendingAt nowNs
    pure ()

def bytes (userID : String) : UsageCall → ℤ
  | .add key delta _ => if key.userID = userID then delta.total else 0
  | _ => 0

def isSeed : UsageCall → Bool
  | .seed _ _ => true
  | _ => false

/-- No seed looks at the subscription after it has expired. -/
def Unexpired (sub : UserSubscription) : UsageCall → Prop
  | .seed pendingAt nowNs =>
    ∀ t, t = nowNs ∨ pendingAt = some t → 0 < sub.expiresAtNs → 0 < t → t ≤ sub.expiresAtNs
  | _ => True

end UsageCall

/-! ## The invariant -/

section

variable (userID : String) (sub : UserSubscription) (rows : List UserSubscription)

/-- **Disk, mark and aggregate of one user against the history**, while seeds and charges keep
apart. -/
structure Reseeding (h : History) : Prop where
  shape : h.state.db.userSubscriptions.map clearUsed = rows.map clearUsed
  used : ∀ r ∈ h.state.db.userSubscriptions, r.id = sub.id →
    r.periodUsedBytes = sub.periodUsedBytes + tally (chargedTo userID) h.trace
  charged : 0 ≤ tally (chargedTo userID) h.trace
  held : ∀ b ∈ h.state.usage.entries, 0 ≤ b.held.total
  aggregate : (h.state.usage.users userID).getD 0 =
    tally (countedFor userID) h.trace + tally (restoredTo userID) h.trace
  mark : h.state.usage.persisted userID =
    (if Seeded userID h.trace then sub.periodUsedBytes else 0) + tally (markedFor userID) h.trace
  alone : ∀ i ∈ openBy seedSpan h.trace, openBy seedSpan h.trace = [i]
  apart : openBy seedSpan h.trace ≠ [] → openBy (chargeSpan userID) h.trace = []
  settled : openBy (chargeSpan userID) h.trace = [] →
    tally (chargedTo userID) h.trace = tally (markedFor userID) h.trace
  holding : ∀ i ∈ openBy (chargeSpan userID) h.trace, h.holder .flush = some i
  restored : openBy seedSpan h.trace = [] → tally (restoredTo userID) h.trace =
    if Seeded userID h.trace then sub.periodUsedBytes else 0

/-- What a thread relies on: its own part of the history; nobody charges or marks while it holds
the flusher's mutex; nothing a seed works with moves while its seed is under way. -/
structure SeedRely (i : ℕ) (h h' : History) : Prop where
  own : own i h'.trace = own i h.trace
  seeded : Seeded userID h.trace → Seeded userID h'.trace
  holding : h.holder .flush = some i → h'.holder .flush = some i ∧
    tally (chargedTo userID) h'.trace = tally (chargedTo userID) h.trace ∧
    tally (markedFor userID) h'.trace = tally (markedFor userID) h.trace
  seeding : i ∈ openBy seedSpan h.trace →
    h'.state.usage.persisted userID = h.state.usage.persisted userID ∧
    tally (chargedTo userID) h'.trace = tally (chargedTo userID) h.trace ∧
    tally (restoredTo userID) h'.trace = tally (restoredTo userID) h.trace ∧
    (Seeded userID h'.trace → Seeded userID h.trace)

def reseeding : Discipline Server ServerEvent Mutex where
  inv := Reseeding userID sub rows
  may := Exclusive userID
  rely := SeedRely userID
  rely_refl _ _ := ⟨rfl, id, fun h => ⟨h, rfl, rfl⟩, fun _ => ⟨rfl, rfl, rfl, id⟩⟩
  rely_trans {i h₁ h₂ h₃} r₁ r₂ := by
    refine ⟨r₂.own.trans r₁.own, r₂.seeded ∘ r₁.seeded, fun hh => ?_, fun hs => ?_⟩
    · obtain ⟨a₁, b₁, c₁⟩ := r₁.holding hh
      obtain ⟨a₂, b₂, c₂⟩ := r₂.holding a₁
      exact ⟨a₂, b₂.trans b₁, c₂.trans c₁⟩
    · obtain ⟨a₁, b₁, c₁, d₁⟩ := r₁.seeding hs
      obtain ⟨a₂, b₂, c₂, d₂⟩ := r₂.seeding ((mem_openBy_of_own r₁.own).mpr hs)
      exact ⟨a₂.trans a₁, b₂.trans b₁, c₂.trans c₁, d₁ ∘ d₂⟩

end

theorem seeded_cons {i : ℕ} {trace : Trace} :
    Seeded userID ((i, e) :: trace) ↔ storesMark userID e = true ∨ Seeded userID trace := by
  unfold Seeded
  simp

/-- The event is none of those that are tallied. -/
structure Quiet (userID : String) (e : ServerEvent) : Prop where
  seed : seedSpan e = none := by rfl
  charge : chargeSpan userID e = none := by rfl
  charged : chargedTo userID e = 0 := by rfl
  marked : markedFor userID e = 0 := by rfl
  restored : restoredTo userID e = 0 := by rfl
  stored : storesMark userID e = false := by rfl

section Steps

variable {userID : String} {sub : UserSubscription} {rows : List UserSubscription}
  {h : History} {i : ℕ} {e : ServerEvent} {s : Server}

section

variable (hinv : Reseeding userID sub rows h)

include hinv

/-- **A step that neither charges nor marks.**  The aggregate moves by what the step counts and
restores; what is asked of the seeds is asked of the history after it. -/
theorem Reseeding.step
    (hshape : s.db.userSubscriptions.map clearUsed = h.state.db.userSubscriptions.map clearUsed)
    (hused : ∀ r ∈ s.db.userSubscriptions, r.id = sub.id → r.periodUsedBytes = sub.periodUsedBytes +
      tally (chargedTo userID) h.trace) (hcharge : chargeSpan userID e = none)
    (hcharged : chargedTo userID e = 0) (hmarked : markedFor userID e = 0)
    (hheld : ∀ b ∈ s.usage.entries, 0 ≤ b.held.total) (hagg : (s.usage.users userID).getD 0 =
      countedFor userID e + restoredTo userID e + (h.state.usage.users userID).getD 0)
    (hmark : s.usage.persisted userID = (if Seeded userID ((i, e) :: h.trace) then
      sub.periodUsedBytes else 0) + tally (markedFor userID) h.trace)
    (halone : ∀ j ∈ openBy seedSpan ((i, e) :: h.trace), openBy seedSpan ((i, e) :: h.trace) = [j])
    (hapart : openBy seedSpan ((i, e) :: h.trace) ≠ [] → openBy (chargeSpan userID) h.trace = [])
    (hrestored : openBy seedSpan ((i, e) :: h.trace) = [] → restoredTo userID e + tally (restoredTo
      userID) h.trace = if Seeded userID ((i, e) :: h.trace) then sub.periodUsedBytes else 0)
    (hothers : ∀ j, j ≠ i → j ∈ openBy seedSpan h.trace → s.usage.persisted userID =
      h.state.usage.persisted userID ∧ restoredTo userID e = 0 ∧ storesMark userID e = false) :
    (reseeding userID sub rows).Keeps i h (h.did i e s) := by
  have hcharges : openBy (chargeSpan userID) ((i, e) :: h.trace) =
      openBy (chargeSpan userID) h.trace := openBy_other i h.trace hcharge
  constructor
  · refine ⟨hshape.trans hinv.shape, ?_, ?_, hheld, ?_, ?_, halone, ?_, ?_, ?_, ?_⟩ <;>
      simp only [did_trace, Hist.did_state, Hist.did_holder, hcharges, tally_cons, hcharged,
        hmarked, zero_add]
    · exact hused
    · exact hinv.charged
    · have haggregate := hinv.aggregate
      omega
    · exact hmark
    · exact hapart
    · exact hinv.settled
    · exact hinv.holding
    · exact hrestored
  · intro j hj
    refine ⟨own_cons_of_ne (Ne.symm hj) _ _, fun hs => seeded_cons.mpr (.inr hs),
      fun hh => ⟨hh, ?_, ?_⟩, fun hs => ?_⟩
    · simp [hcharged]
    · simp [hmarked]
    · obtain ⟨hsame, hnone, hstored⟩ := hothers j hj hs
      exact ⟨hsame, by simp [hcharged], by simp [hnone], by simp [seeded_cons, hstored]⟩

/-- **A quiet step**: it leaves the user's disk and mark alone, and moves the aggregate by what it
counts. -/
theorem Reseeding.quiet (he : Quiet userID e)
    (hshape : s.db.userSubscriptions.map clearUsed = h.state.db.userSubscriptions.map clearUsed)
    (hused : ∀ r ∈ s.db.userSubscriptions, r.id = sub.id → r.periodUsedBytes = sub.periodUsedBytes +
      tally (chargedTo userID) h.trace) (hheld : ∀ b ∈ s.usage.entries, 0 ≤ b.held.total)
    (hagg : (s.usage.users userID).getD 0 = countedFor userID e + (h.state.usage.users userID).getD
      0) (hmark : s.usage.persisted userID = h.state.usage.persisted userID) :
    (reseeding userID sub rows).Keeps i h (h.did i e s) := by
  have hseeds : openBy seedSpan ((i, e) :: h.trace) = openBy seedSpan h.trace :=
    openBy_other i h.trace he.seed
  have hstored : Seeded userID ((i, e) :: h.trace) ↔ Seeded userID h.trace := by
    simp [seeded_cons, he.stored]
  refine hinv.step hshape hused he.charge he.charged he.marked hheld ?_ ?_ ?_ ?_ ?_
    fun j _ _ => ⟨hmark, he.restored, he.stored⟩
  · rw [hagg, he.restored, add_zero]
  · simp only [hstored]
    exact hmark.trans hinv.mark
  · rw [hseeds]
    exact hinv.alone
  · rw [hseeds]
    exact hinv.apart
  · simp only [hseeds, hstored, he.restored, zero_add]
    exact hinv.restored

theorem Reseeding.quiet_of_db (he : Quiet userID e) (hdb : s.db = h.state.db)
    (hheld : ∀ b ∈ s.usage.entries, 0 ≤ b.held.total) (hagg : (s.usage.users userID).getD 0 =
      countedFor userID e + (h.state.usage.users userID).getD 0)
    (hmark : s.usage.persisted userID = h.state.usage.persisted userID) :
    (reseeding userID sub rows).Keeps i h (h.did i e s) :=
  hinv.quiet he (by rw [hdb]) (by rw [hdb]; exact hinv.used) hheld hagg hmark

theorem Reseeding.reads (he : Quiet userID e) (hcount : countedFor userID e = 0) :
    (reseeding userID sub rows).Keeps i h (h.did i e h.state) :=
  hinv.quiet_of_db he rfl hinv.held (by rw [hcount, zero_add]) rfl

theorem Reseeding.relock {holder : Mutex → Option ℕ}
    (hholding : ∀ j ∈ openBy (chargeSpan userID) h.trace, holder .flush = some j)
    (hothers : ∀ j, j ≠ i → h.holder .flush = some j → holder .flush = some j) :
    (reseeding userID sub rows).Keeps i h { h with holder := holder } := by
  constructor
  · exact ⟨hinv.shape, hinv.used, hinv.charged, hinv.held, hinv.aggregate, hinv.mark, hinv.alone,
      hinv.apart, hinv.settled, hholding, hinv.restored⟩
  · intro j hj
    exact ⟨rfl, id, fun hh => ⟨hothers j hj hh, rfl, rfl⟩, fun _ => ⟨rfl, rfl, rfl, id⟩⟩

end

theorem shape_addUsed (db : Db) (id : String) (delta : ℤ) :
    (db.addUsed id delta).userSubscriptions.map clearUsed = db.userSubscriptions.map clearUsed := by
  unfold Db.addUsed updateWhere
  rw [List.map_map]
  refine List.map_congr_left fun r _ => ?_
  simp only [comp_apply]
  split <;> rfl

theorem used_addUsed {db : Db} {id : String} {delta : ℤ}
    (hr : r ∈ (db.addUsed id delta).userSubscriptions) :
    ∃ r0 ∈ db.userSubscriptions, r.id = r0.id ∧ r.periodUsedBytes =
        if r0.id = id then max 0 (r0.periodUsedBytes + delta) else r0.periodUsedBytes := by
  obtain ⟨r0, hr0, rfl⟩ := mem_updateWhere.mp hr
  refine ⟨r0, hr0, ?_⟩
  by_cases hid : r0.id = id <;> simp [hid]

theorem Reseeding.no_charge (hinv : Reseeding userID sub rows h) (hhold : h.holder .flush = some i)
    (hclosed : i ∉ openBy (chargeSpan userID) h.trace) :
    openBy (chargeSpan userID) h.trace = [] := by
  refine List.eq_nil_iff_forall_not_mem.mpr fun j hj => hclosed ?_
  rwa [Hist.holder_unique (hinv.holding j hj) hhold]

/-- Nobody else counts on anything while the mutex is held and no seed is under way. -/
theorem SeedRely.of_holder {j : ℕ} (hhold : h.holder .flush = some i)
    (hnoseed : openBy seedSpan h.trace = []) (hj : j ≠ i) : SeedRely userID j h (h.did i e s) := by
  refine ⟨own_cons_of_ne (Ne.symm hj) _ _, fun hs => seeded_cons.mpr (.inr hs), fun hh => ?_,
    fun hs => ?_⟩
  · exact absurd (Hist.holder_unique hhold hh) hj
  · rw [hnoseed] at hs
    cases hs

theorem Reseeding.charge (hinv : Reseeding userID sub rows h) (hhold : h.holder .flush = some i)
    (hclosed : i ∉ openBy (chargeSpan userID) h.trace) {bytes : ℤ} (hbytes : 0 ≤ bytes)
    (hused : 0 ≤ sub.periodUsedBytes) (hmay : openBy seedSpan h.trace = []) :
    (reseeding userID sub rows).Keeps i h (h.did i (.charged userID bytes true)
      { h.state with db := h.state.db.addUsed sub.id bytes }) := by
  have hnone := hinv.no_charge hhold hclosed
  have hseeds : openBy seedSpan ((i, ServerEvent.charged userID bytes true) :: h.trace) = [] := by
    rw [openBy_other i h.trace rfl, hmay]
  have hcharges : openBy (chargeSpan userID) ((i, ServerEvent.charged userID bytes true) :: h.trace) =
      [i] := by
    rw [openBy_begin i h.trace (by simp [chargeSpan]), hnone]
  have hstored : Seeded userID ((i, ServerEvent.charged userID bytes true) :: h.trace) ↔
      Seeded userID h.trace := by simp [seeded_cons, storesMark]
  have hcharged := hinv.charged
  constructor
  · refine ⟨(shape_addUsed ..).trans hinv.shape, ?_, ?_, hinv.held, ?_, ?_, ?_, ?_, ?_, ?_, ?_⟩ <;>
      simp only [did_trace, Hist.did_state, Hist.did_holder, hseeds, hcharges, hstored,
        tally_cons, chargedTo, markedFor, restoredTo, countedFor, and_self, if_true, zero_add]
    · intro r hr hid
      obtain ⟨r0, hr0, hid0, hval⟩ := used_addUsed hr
      rw [hid] at hid0
      rw [hval, if_pos hid0.symm, hinv.used r0 hr0 hid0.symm]
      omega
    · omega
    · exact hinv.aggregate
    · exact hinv.mark
    · simp
    · simp
    · simp
    · intro j hj
      rw [List.mem_singleton.mp hj]
      exact hhold
    · exact fun _ => hinv.restored hmay
  · exact fun j hj => .of_holder hhold hmay hj

theorem same_markPersisted (c : Counters) (v : String) (bytes : ℤ) :
    (c.markPersisted v bytes).entries = c.entries ∧ (c.markPersisted v bytes).users = c.users ∧
      ∀ u, u ≠ v → (c.markPersisted v bytes).persisted u = c.persisted u := by
  unfold Counters.markPersisted
  split
  · exact ⟨rfl, rfl, fun _ _ => rfl⟩
  · exact ⟨rfl, rfl, fun _ hu => update_of_ne hu _ _⟩

section

variable (hinv : Reseeding userID sub rows h)

include hinv

theorem Reseeding.marks (hhold : h.holder .flush = some i) (huser : userID ≠ "")
    (hopen : i ∈ openBy (chargeSpan userID) h.trace) {bytes : ℤ}
    (hbytes : tally (chargedTo userID) h.trace = tally (markedFor userID) h.trace + bytes) :
    (reseeding userID sub rows).Keeps i h (h.did i (.marked userID bytes)
      { h.state with usage := h.state.usage.markPersisted userID bytes }) := by
  have honly : ∀ j ∈ openBy (chargeSpan userID) h.trace, j = i := fun j hj =>
    Hist.holder_unique hhold (hinv.holding j hj)
  have hseeds : openBy seedSpan ((i, ServerEvent.marked userID bytes) :: h.trace) =
      openBy seedSpan h.trace := openBy_other i h.trace rfl
  have hnoseed : openBy seedSpan h.trace = [] := by
    by_contra hne
    rw [hinv.apart hne] at hopen
    cases hopen
  have hcharges : openBy (chargeSpan userID) ((i, ServerEvent.marked userID bytes) :: h.trace) = [] := by
    rw [openBy_end i h.trace (by simp [chargeSpan])]
    exact List.filter_eq_nil_iff.mpr fun j hj => by simp [honly j hj]
  have hstored : Seeded userID ((i, ServerEvent.marked userID bytes) :: h.trace) ↔
      Seeded userID h.trace := by simp [seeded_cons, storesMark]
  have hpersisted : (h.state.usage.markPersisted userID bytes).persisted userID =
      h.state.usage.persisted userID + bytes := by
    unfold Counters.markPersisted
    by_cases hz : bytes = 0
    · rw [if_pos (Or.inl hz), hz, add_zero]
    · rw [if_neg (by simp [hz, huser])]
      exact update_self ..
  have hsame := same_markPersisted h.state.usage userID bytes
  constructor
  · refine ⟨hinv.shape, ?_, ?_, ?_, ?_, ?_, ?_, ?_, ?_, ?_, ?_⟩ <;>
      simp only [did_trace, Hist.did_state, Hist.did_holder, hseeds, hcharges, hstored,
        tally_cons, chargedTo, markedFor, restoredTo, countedFor, if_true, zero_add, hsame.1,
        hsame.2.1, hpersisted]
    · exact hinv.used
    · exact hinv.charged
    · exact hinv.held
    · exact hinv.aggregate
    · rw [hinv.mark]
      omega
    · exact hinv.alone
    · simp
    · intro _
      omega
    · simp
    · exact hinv.restored
  · exact fun j hj => .of_holder hhold hnoseed hj

theorem Reseeding.begins
    (hmay : openBy seedSpan h.trace = [] ∧ openBy (chargeSpan userID) h.trace = []) :
    (reseeding userID sub rows).Keeps i h (h.did i .seedListed h.state) := by
  have hseeds : openBy seedSpan ((i, ServerEvent.seedListed) :: h.trace) = [i] := by
    rw [openBy_begin i h.trace rfl, hmay.1]
  have hstored : Seeded userID ((i, ServerEvent.seedListed) :: h.trace) ↔ Seeded userID h.trace := by
    simp [seeded_cons, storesMark]
  refine hinv.step rfl hinv.used rfl rfl rfl hinv.held (zero_add _).symm ?_ ?_ (fun _ => hmay.2) ?_
    fun j _ hs => ?_
  · simp only [hstored]
    exact hinv.mark
  · simp [hseeds]
  · simp [hseeds]
  · rw [hmay.1] at hs
    cases hs

theorem Reseeding.seeds (hopen : i ∈ openBy seedSpan h.trace) {c : Counters}
    (hspan : seedSpan e = none) (hcharge : chargeSpan userID e = none)
    (hcharged : chargedTo userID e = 0) (hmarked : markedFor userID e = 0)
    (hentries : c.entries = h.state.usage.entries) (hagg : (c.users userID).getD 0 = countedFor
      userID e + restoredTo userID e + (h.state.usage.users userID).getD 0)
    (hmark : c.persisted userID = (if Seeded userID ((i, e) :: h.trace) then sub.periodUsedBytes
      else 0) + tally (markedFor userID) h.trace) :
    (reseeding userID sub rows).Keeps i h (h.did i e { h.state with usage := c }) := by
  have hseeds : openBy seedSpan ((i, e) :: h.trace) = [i] := by
    rw [openBy_other i h.trace hspan, hinv.alone i hopen]
  refine hinv.step rfl hinv.used hcharge hcharged hmarked (hentries ▸ hinv.held) hagg hmark ?_
    (fun _ => hinv.apart (List.ne_nil_of_mem hopen)) ?_ fun j hj hs => ?_
  · simp [hseeds]
  · simp [hseeds]
  · rw [hinv.alone i hopen] at hs
    exact absurd (List.mem_singleton.mp hs) hj

theorem Reseeding.returns (hopen : i ∈ openBy seedSpan h.trace) (hrestored : tally (restoredTo
      userID) h.trace = if Seeded userID h.trace then sub.periodUsedBytes else 0) :
    (reseeding userID sub rows).Keeps i h (h.did i .seedReturned h.state) := by
  have hseeds : openBy seedSpan ((i, ServerEvent.seedReturned) :: h.trace) = [] := by
    rw [openBy_end i h.trace rfl, hinv.alone i hopen]
    simp
  have hstored : Seeded userID ((i, ServerEvent.seedReturned) :: h.trace) ↔ Seeded userID h.trace := by
    simp [seeded_cons, storesMark]
  refine hinv.step rfl hinv.used rfl rfl rfl hinv.held (zero_add _).symm ?_ ?_ ?_ (fun _ => ?_)
    fun j hj hs => ?_
  · simp only [hstored]
    exact hinv.mark
  · simp [hseeds]
  · simp [hseeds]
  · simp only [hstored, restoredTo, zero_add]
    exact hrestored
  · rw [hinv.alone i hopen] at hs
    exact absurd (List.mem_singleton.mp hs) hj

end

end Steps

section Calls

variable {userID : String} {sub : UserSubscription} {rows : List UserSubscription} {i : ℕ}

/-- The thread has counted that many bytes for the user. -/
def Brought (userID : String) (i : ℕ) (bytes : ℤ) (h : History) : Prop :=
  tally (countedFor userID) (own i h.trace) = bytes

variable {bytes : ℤ}

theorem Brought.of_rely (hb : Brought userID i bytes h) (hr : SeedRely userID i h h') :
    Brought userID i bytes h' := by
  unfold Brought
  rw [hr.own]
  exact hb

variable {s : Server}

theorem Brought.did (hb : Brought userID i bytes h) (he : countedFor userID e = 0) :
    Brought userID i bytes (h.did i e s) := by
  unfold Brought
  rw [did_trace, own_cons_self, tally_cons, he, zero_add]
  exact hb

structure Aside (userID : String) (i : ℕ) (bytes : ℤ) (h : History) : Prop where
  brought : Brought userID i bytes h
  idle : i ∉ openBy seedSpan h.trace

theorem Aside.of_rely (ha : Aside userID i bytes h) (hr : SeedRely userID i h h') :
    Aside userID i bytes h' :=
  ⟨ha.brought.of_rely hr, fun hmem => ha.idle ((mem_openBy_of_own hr.own).mp hmem)⟩

theorem Aside.relock {holder : Mutex → Option ℕ} (ha : Aside userID i bytes h) :
    Aside userID i bytes { h with holder := holder } :=
  ⟨ha.brought, ha.idle⟩

theorem Aside.did (ha : Aside userID i bytes h) (hcount : countedFor userID e = 0)
    (hspan : seedSpan e = none) : Aside userID i bytes (h.did i e s) := by
  refine ⟨ha.brought.did hcount, ?_⟩
  rw [did_trace, openBy_other i h.trace hspan]
  exact ha.idle

variable {delta : Delta}

theorem held_addToBuckets {c : Counters} (hheld : ∀ b ∈ c.entries, 0 ≤ b.held.total)
    (key : CounterKey) {delta : Delta} (hdelta : 0 ≤ delta.total) :
    ∀ b ∈ (c.addToBuckets key delta).entries, 0 ≤ b.held.total := by
  intro b hb
  dsimp only [Counters.addToBuckets] at hb
  rcases mem_upsertWith Bucket.key _ hb with hb | rfl | ⟨old, hold, -, rfl⟩
  · exact hheld b hb
  · exact hdelta
  · rw [Delta.total_add]
    exact add_nonneg (hheld old hold) hdelta

theorem held_drainOne {c : Counters} (hheld : ∀ b ∈ c.entries, 0 ≤ b.held.total)
    (key : CounterKey) :
    0 ≤ (c.drainOne key).1.total ∧ ∀ b ∈ (c.drainOne key).2.entries, 0 ≤ b.held.total := by
  unfold Counters.drainOne
  cases hl : lookup Bucket.key key c.entries with
  | none => exact ⟨le_refl 0, hheld⟩
  | some b =>
    refine ⟨hheld b (mem_of_lookup hl), fun b' hb' => ?_⟩
    exact hheld b' (List.mem_filter.mp hb').1

theorem safe_traffic (key : CounterKey) (hdelta : 0 ≤ delta.total) (huser : userID ≠ "")
    (hstart : Aside userID i 0 h) :
    (reseeding userID sub rows).Safe i
      (fun _ => Aside userID i (if key.userID = userID then delta.total else 0))
      (add key delta) h := by
  unfold add
  by_cases hzero : delta = 0
  · rw [if_pos hzero]
    intro k hr _
    have hk := hstart.of_rely hr
    simpa [hzero] using hk
  rw [if_neg hzero]
  intro k hr hinv _
  have hk := hstart.of_rely hr
  refine ⟨hinv.quiet_of_db {} rfl (held_addToBuckets hinv.held key hdelta)
    (zero_add _).symm rfl, ?_⟩
  have hk1 : Aside userID i 0 (k.did i (.bucketAdded key delta)
      { k.state with usage := k.state.usage.addToBuckets key delta }) := hk.did rfl rfl
  by_cases hbytes : delta.total ≠ 0 ∧ key.userID ≠ ""
  · rw [if_pos hbytes]
    intro k' hr' hinv' _
    have hk' := hk1.of_rely hr'
    refine ⟨hinv'.quiet_of_db {} rfl hinv'.held (Counters.getD_addToUser ..) rfl, ?_⟩
    intro k'' hr'' _
    refine Aside.of_rely ⟨?_, ?_⟩ hr''
    · have hbrought : tally (countedFor userID) (own i k'.trace) = 0 := hk'.brought
      unfold Brought
      rw [did_trace, own_cons_self, tally_cons, hbrought, add_zero]
      rfl
    · rw [did_trace, openBy_other i k'.trace rfl]
      exact hk'.idle
  · rw [if_neg hbytes]
    intro k' hr' _
    have hk' := hk1.of_rely hr'
    have hnone : (if key.userID = userID then delta.total else 0) = 0 := by
      split_ifs with hu
      · by_contra hne
        exact hbytes ⟨hne, hu ▸ huser⟩
      · rfl
    rw [hnone]
    exact hk'

structure Flushing (userID : String) (i : ℕ) (h : History) : Prop where
  holds : h.holder .flush = some i
  closed : i ∉ openBy (chargeSpan userID) h.trace
  aside : Aside userID i 0 h

theorem Flushing.of_rely (hf : Flushing userID i h) (hr : SeedRely userID i h h') :
    Flushing userID i h' :=
  ⟨(hr.holding hf.holds).1, fun hc => hf.closed ((mem_openBy_of_own hr.own).mp hc),
    hf.aside.of_rely hr⟩

theorem Flushing.did (hf : Flushing userID i h) (hspan : chargeSpan userID e = none)
    (hcount : countedFor userID e = 0) (hseed : seedSpan e = none) :
    Flushing userID i (h.did i e s) := by
  refine ⟨hf.holds, ?_, hf.aside.did hcount hseed⟩
  rw [did_trace, openBy_other i h.trace hspan]
  exact hf.closed

def Batch.Nonneg (batch : Batch) : Prop := ∀ entry ∈ batch, 0 ≤ entry.2.total

theorem Batch.Nonneg.put {batch : Batch} (hb : batch.Nonneg) (key : CounterKey) {delta : Delta}
    (hdelta : 0 ≤ delta.total) : (batch.put key delta).Nonneg := by
  intro entry hentry
  rcases mem_upsertWith Prod.fst _ hentry with hentry | rfl | ⟨old, -, -, rfl⟩
  · exact hb entry hentry
  · exact hdelta
  · exact hdelta

theorem addPerUser_nonneg {sums : List (String × ℤ)} (hsums : ∀ p ∈ sums, 0 ≤ p.2)
    {entry : CounterKey × Delta} (hentry : 0 ≤ entry.2.total) :
    ∀ p ∈ addPerUser sums entry, 0 ≤ p.2 := by
  intro p hp
  unfold addPerUser at hp
  split at hp
  · exact hsums p hp
  · rcases mem_upsertWith Prod.fst _ hp with hp | rfl | ⟨old, hold, -, rfl⟩
    · exact hsums p hp
    · exact hentry
    · exact add_nonneg (hsums old hold) hentry

theorem perUser_nonneg {batch : Batch} (hb : batch.Nonneg) : ∀ p ∈ perUser batch, 0 ≤ p.2 := by
  have key : ∀ (l : Batch) (sums : List (String × ℤ)), l.Nonneg → (∀ p ∈ sums, 0 ≤ p.2) →
      ∀ p ∈ l.foldl addPerUser sums, 0 ≤ p.2 := by
    intro l
    induction l with
    | nil => exact fun sums _ hsums => hsums
    | cons entry l ih =>
      intro sums hl hsums
      refine ih _ (fun e he => hl e (.tail _ he)) ?_
      exact addPerUser_nonneg hsums (hl entry (.head _))
  exact key batch [] hb (by simp)

theorem safe_flush_drain : ∀ (keys : List CounterKey) (batch : Batch) (h : History),
      Flushing userID i h → batch.Nonneg →
      (reseeding userID sub rows).Safe i (fun batch k => Flushing userID i k ∧ batch.Nonneg)
        (drain keys batch) h
  | [], _, _, hf, hb => fun _ hr _ => ⟨hf.of_rely hr, hb⟩
  | key :: keys, batch, h, hf, hb => by
    intro k hr hinv _
    have hk := hf.of_rely hr
    obtain ⟨hdelta, hleft⟩ := held_drainOne hinv.held key
    obtain ⟨husers, hpersisted⟩ := k.state.usage.users_drainOne key
    refine ⟨hinv.quiet_of_db {} rfl hleft ?_ (congrFun hpersisted userID), ?_⟩
    · simp only [husers, countedFor, zero_add]
    · refine safe_flush_drain keys _ _ (hk.did rfl rfl rfl) ?_
      split
      · exact hb
      · exact hb.put key hdelta

theorem safe_flush_requeue : ∀ (batch : Batch) (h : History), Flushing userID i h → batch.Nonneg →
      (reseeding userID sub rows).Safe i (fun _ => Flushing userID i) (requeue batch) h
  | [], _, hf, _ => fun _ hr _ => hf.of_rely hr
  | (key, delta) :: batch, h, hf, hb => by
    have hrest : Batch.Nonneg batch := fun e he => hb e (.tail _ he)
    unfold requeue
    split
    · exact safe_flush_requeue batch h hf hrest
    · intro k hr hinv _
      refine ⟨hinv.quiet_of_db {} rfl (held_addToBuckets hinv.held key (hb (key, delta) (.head _)))
        (zero_add _).symm rfl, ?_⟩
      exact safe_flush_requeue batch _ ((hf.of_rely hr).did rfl rfl rfl) hrest

/-- The charges a pass is about to make: none negative, and the user's own subscription charged
with the user's bytes alone. -/
def ChargesFor (userID : String) (sub : UserSubscription)
    (windows : List (String × ℤ × SubscriptionWindow)) : Prop :=
  ∀ w ∈ windows, 0 ≤ w.2.1 ∧ (w.2.2.id = sub.id ↔ w.1 = userID)

theorem safe_readWindows (hs : SoleSubscription userID sub rows) :
    ∀ (sums : List (String × ℤ)) (result : FlushResult) (h : History),
      Flushing userID i h → (∀ p ∈ sums, 0 ≤ p.2) →
      (reseeding userID sub rows).Safe i
        (fun r k => Flushing userID i k ∧ ChargesFor userID sub r.1) (readWindows sums result) h
  | [], _, _, hf, _ => fun _ hr _ => ⟨hf.of_rely hr, fun _ hw => nomatch hw⟩
  | (v, bytes) :: sums, result, h, hf, hsums => by
    have hrest : ∀ p ∈ sums, 0 ≤ p.2 := fun p hp => hsums p (.tail _ hp)
    intro k hr hinv _
    have hk : Flushing userID i (k.did i (.windowRead v) k.state) := (hf.of_rely hr).did rfl rfl rfl
    refine ⟨hinv.reads {} rfl, ?_⟩
    simp only [Prog.pure_eq_ret, Prog.ret_bind]
    cases hw : windowOf v k.state.db with
    | none => exact safe_readWindows hs sums _ _ hk hrest
    | some w =>
      refine (safe_readWindows hs sums result _ hk hrest).seq ?_
      rintro ⟨windows, result'⟩ k' ⟨hf', hall⟩
      intro k'' hr'' _
      refine ⟨hf'.of_rely hr'', fun w' hw' => ?_⟩
      rcases List.mem_cons.mp hw' with rfl | hw'
      · exact ⟨hsums (v, bytes) (.head _), hs.window_id_iff hinv.shape hw⟩
      · exact hall w' hw'

/-- A charge of the user's has been made and waits for its mark; one of anybody else's is none of
the user's business. -/
structure Charging (userID : String) (i : ℕ) (v : String) (bytes : ℤ) (h : History) : Prop where
  holds : h.holder .flush = some i
  open_iff : i ∈ openBy (chargeSpan userID) h.trace ↔ v = userID
  ahead : v = userID →
    tally (chargedTo userID) h.trace = tally (markedFor userID) h.trace + bytes
  aside : Aside userID i 0 h

theorem Charging.of_rely {v : String} (hc : Charging userID i v bytes h)
    (hr : SeedRely userID i h h') : Charging userID i v bytes h' := by
  obtain ⟨hholds, hcharged, hmarked⟩ := hr.holding hc.holds
  refine ⟨hholds, (mem_openBy_of_own hr.own).trans hc.open_iff, fun hv => ?_, hc.aside.of_rely hr⟩
  rw [hcharged, hmarked]
  exact hc.ahead hv

theorem safe_chargeSubscription (hs : SoleSubscription userID sub rows) (io : Faults) {v : String}
    {window : SubscriptionWindow} (hbytes : 0 ≤ bytes) (hwindow : window.id = sub.id ↔ v = userID)
    (hf : Flushing userID i h) :
    (reseeding userID sub rows).Safe i
      (fun r k => if r = .ok true then Charging userID i v bytes k else Flushing userID i k)
      (chargeSubscription io v window bytes) h := by
  refine Task.safe_query fun k hr hinv _ => ⟨hinv.reads {} rfl, ?_⟩
  have hk : Flushing userID i (k.did i (.windowRead v) k.state) := (hf.of_rely hr).did rfl rfl rfl
  cases hw : windowOf v k.state.db with
  | none => exact fun k' hr' _ => by simpa using hk.of_rely hr'
  | some current =>
    by_cases hmoved : current ≠ window
    · simp only [if_pos hmoved]
      exact fun k' hr' _ => by simpa using hk.of_rely hr'
    simp only [if_neg hmoved]
    refine Task.safe_write fun k' hr' hinv' answer db hcall hmay' => ?_
    have hk' := hk.of_rely hr'
    cases answer with
    | error e =>
      -- nothing was written
      obtain rfl : db = k'.state.db := by
        have hdb := addSubscriptionUsedBytes_error (congrArg Prod.fst hcall)
        rwa [hcall] at hdb
      have hquiet : Quiet userID (.charged v bytes false) :=
        ⟨rfl, by simp [chargeSpan], by simp [chargedTo], rfl, rfl, rfl⟩
      refine ⟨hinv'.reads hquiet rfl, ?_⟩
      exact fun k'' hr'' _ => by
        simpa [Except.map] using (hk'.did hquiet.charge rfl rfl).of_rely hr''
    | ok _ =>
      obtain rfl : db = k'.state.db.addUsed window.id bytes := by
        have hdb := addSubscriptionUsedBytes_ok (congrArg Prod.fst hcall)
        rwa [hcall] at hdb
      by_cases hv : v = userID
      · subst hv
        have hnoseed : openBy seedSpan k'.trace = [] := hmay' rfl (by simp)
        -- nobody else has a charge open, so before this one disk and mark agreed
        have hnone := hinv'.no_charge hk'.holds hk'.closed
        rw [hwindow.mpr rfl]
        refine ⟨hinv'.charge hk'.holds hk'.closed hbytes hs.used hnoseed, ?_⟩
        have hopen : Charging v i v bytes (k'.did i (.charged v bytes true)
            { k'.state with db := k'.state.db.addUsed sub.id bytes }) := by
          refine ⟨hk'.holds, ?_, fun _ => ?_, hk'.aside.did rfl rfl⟩
          · have hspan : chargeSpan v (.charged v bytes true) = some true := by
              simp [chargeSpan]
            simp [openBy_begin i k'.trace hspan]
          · have hsettled := hinv'.settled hnone
            simp only [did_trace, tally_cons, chargedTo, markedFor, and_self, if_true, zero_add]
            omega
        exact fun k'' hr'' _ => by simpa [Except.map] using hopen.of_rely hr''
      · have hother : window.id ≠ sub.id := fun hid => hv (hwindow.mp hid)
        have hquiet : Quiet userID (.charged v bytes true) :=
          ⟨rfl, by simp [chargeSpan, hv], by simp [chargedTo, hv], rfl, rfl, rfl⟩
        refine ⟨hinv'.quiet hquiet (shape_addUsed ..) ?_ hinv'.held (zero_add _).symm rfl, ?_⟩
        · intro r hmem hid
          obtain ⟨r0, hmem0, hid0, hval⟩ := used_addUsed hmem
          rw [hid] at hid0
          rw [hval, if_neg fun h => hother (h.symm.trans hid0.symm), hinv'.used r0 hmem0 hid0.symm]
        · have hfl : Flushing userID i (k'.did i (.charged v bytes true)
              { k'.state with db := k'.state.db.addUsed window.id bytes }) :=
            hk'.did hquiet.charge rfl rfl
          have hcl : Charging userID i v bytes (k'.did i (.charged v bytes true)
              { k'.state with db := k'.state.db.addUsed window.id bytes }) :=
            ⟨hfl.holds, ⟨fun hc => absurd hc hfl.closed, fun h => absurd h hv⟩,
              fun h => absurd h hv, hfl.aside⟩
          exact fun k'' hr'' _ => by simpa [Except.map] using hcl.of_rely hr''

theorem safe_chargeAll (hs : SoleSubscription userID sub rows) (env : FlushEnv) :
    ∀ (windows : List (String × ℤ × SubscriptionWindow)) (result : FlushResult)
      (h : History), Flushing userID i h → ChargesFor userID sub windows →
      (reseeding userID sub rows).Safe i (fun _ => Flushing userID i)
        (chargeAll env windows result) h
  | [], _, _, hf, _ => fun _ hr _ => hf.of_rely hr
  | (v, bytes, window) :: windows, result, h, hf, hall => by
    have hrest : ChargesFor userID sub windows := fun w hw => hall w (.tail _ hw)
    obtain ⟨hbytes, hwindow⟩ := hall (v, bytes, window) (.head _)
    refine (safe_chargeSubscription hs (env.chargeIO v) hbytes hwindow hf).seq ?_
    rintro answer k hans
    match answer, hans with
    | .error _, hans => exact safe_chargeAll hs env windows _ k (by simpa using hans) hrest
    | .ok false, hans => exact safe_chargeAll hs env windows _ k (by simpa using hans) hrest
    | .ok true, hans =>
      have hc : Charging userID i v bytes k := by simpa using hans
      intro k' hr' hinv' _
      have hc' := hc.of_rely hr'
      by_cases hv : v = userID
      · rw [hv]
        refine ⟨hinv'.marks hc'.holds hs.user (hc'.open_iff.mpr hv) (hc'.ahead hv), ?_⟩
        refine safe_chargeAll hs env windows _ _ ⟨hc'.holds, ?_, hc'.aside.did rfl rfl⟩ hrest
        have hspan : chargeSpan userID (.marked userID bytes) = some false := by
          simp [chargeSpan]
        rw [did_trace, openBy_end i k'.trace hspan]
        simp
      · have hquiet : Quiet userID (.marked v bytes) :=
          ⟨rfl, by simp [chargeSpan, hv], rfl, by simp [markedFor, hv], rfl, rfl⟩
        obtain ⟨hentries, husers, hpersisted⟩ := same_markPersisted k'.state.usage v bytes
        have hfl : Flushing userID i k' :=
          ⟨hc'.holds, fun hmem => hv (hc'.open_iff.mp hmem), hc'.aside⟩
        refine ⟨hinv'.quiet_of_db hquiet rfl ?_ ?_ (hpersisted _ (Ne.symm hv)), ?_⟩
        · simp only [hentries]
          exact hinv'.held
        · simp only [husers, countedFor, zero_add]
        · exact safe_chargeAll hs env windows _ _ (hfl.did hquiet.charge rfl rfl) hrest

theorem safe_flushOnce (hs : SoleSubscription userID sub rows) (env : FlushEnv)
    (hstart : Aside userID i 0 h) :
    (reseeding userID sub rows).Safe i (fun _ => Aside userID i 0) (flushOnce env) h := by
  intro k hr hinv hfree
  have hnone : openBy (chargeSpan userID) k.trace = [] := by
    refine List.eq_nil_iff_forall_not_mem.mpr fun j hj => ?_
    cases hfree.symm.trans (hinv.holding j hj)
  refine ⟨hinv.relock (by simp [hnone]) (by simp [hfree]), ?_⟩
  have hk : Flushing userID i (k.acquire i .flush) :=
    ⟨Hist.acquire_holder_self .., by rw [Hist.acquire_trace, hnone]; simp,
      (hstart.of_rely hr).relock⟩
  refine .bind ?_
  -- inside the mutex
  have hbody : (reseeding userID sub rows).Safe i (fun _ => Flushing userID i) (do
        let keys ← Prog.read .bucketsListed fun s => s.usage.keys
        if keys = [] then pure (some {})
        else do
          let batch ← drain keys []
          if batch = [] then pure (some {}) else flushBatch env batch) (k.acquire i .flush) := by
    intro k1 hr1 hinv1 _
    have hk1 : Flushing userID i (k1.did i .bucketsListed k1.state) :=
      (hk.of_rely hr1).did rfl rfl rfl
    refine ⟨hinv1.reads {} rfl, ?_⟩
    simp only [Prog.ret_bind]
    split
    · exact fun _ hr2 _ => hk1.of_rely hr2
    refine (safe_flush_drain _ [] _ hk1 (by simp [Batch.Nonneg])).seq ?_
    rintro batch k2 ⟨hk2, hb⟩
    split
    · exact fun _ hr3 _ => hk2.of_rely hr3
    unfold flushBatch
    split
    · refine .bind ?_
      have hvisit : Batch.Nonneg (env.requeueOrder.visit batch) := fun e he =>
        hb e ((env.requeueOrder.perm batch).mem_iff.mp he)
      refine (safe_flush_requeue _ k2 hk2 hvisit).mono ?_
      exact fun _ k3 _ hk3 _ hr3 _ => hk3.of_rely hr3
    · refine .bind ?_
      refine (safe_readWindows hs _ _ k2 hk2 fun p hp => ?_).mono ?_
      · exact perUser_nonneg hb p ((env.windowOrder.perm _).mem_iff.mp hp)
      rintro ⟨windows, result⟩ k3 - ⟨hk3, hall⟩
      refine .bind ?_
      have hvisit : ChargesFor userID sub (env.chargeOrder.visit windows) := fun w hw =>
        hall w ((env.chargeOrder.perm windows).mem_iff.mp hw)
      refine (safe_chargeAll hs env _ _ k3 hk3 hvisit).mono ?_
      exact fun _ k4 _ hk4 _ hr4 _ => hk4.of_rely hr4
  refine hbody.mono fun _ k1 _ hk1 => ?_
  intro k2 hr2 hinv2
  have hk2 := hk1.of_rely hr2
  have hnone2 := hinv2.no_charge hk2.holds hk2.closed
  refine ⟨hinv2.relock (fun j hj => ?_) fun j hj hh => ?_, ?_⟩
  · rw [hnone2] at hj
    cases hj
  · exact absurd (Hist.holder_unique hk2.holds hh) hj
  · have hleft : Aside userID i 0 (k2.release .flush) := hk2.aside.relock
    exact fun _ hr3 _ => hleft.of_rely hr3

/-! ### Seeds -/

/-- A seed is under way, with what it has listed: every active row of the user carries what is on
disk. -/
structure Listing (userID : String) (sub : UserSubscription) (i : ℕ) (subs : List UserSubscription)
    (h : History) : Prop where
  under : i ∈ openBy seedSpan h.trace
  listed : ∀ r ∈ subs, r.userID = userID → Db.isActive r = true →
    r.periodUsedBytes = sub.periodUsedBytes + tally (chargedTo userID) h.trace
  expiry : ∀ r ∈ subs, r.userID = userID → Db.isActive r = true → r.expiresAtNs = sub.expiresAtNs
  brought : Brought userID i 0 h

/-- What earlier seeds had to restore is restored, too. -/
structure Seeding (userID : String) (sub : UserSubscription) (i : ℕ) (subs : List UserSubscription)
    (h : History) : Prop extends Listing userID sub i subs h where
  restored : tally (restoredTo userID) h.trace =
    if Seeded userID h.trace then sub.periodUsedBytes else 0

theorem SeedRely.seeded_iff (hr : SeedRely userID i h h') (hopen : i ∈ openBy seedSpan h.trace) :
    Seeded userID h'.trace ↔ Seeded userID h.trace :=
  ⟨(hr.seeding hopen).2.2.2, hr.seeded⟩

section

variable (hl : Listing userID sub i subs h)

include hl

theorem Listing.of_rely (hr : SeedRely userID i h h') : Listing userID sub i subs h' := by
  refine ⟨(mem_openBy_of_own hr.own).mpr hl.under, ?_, hl.expiry, hl.brought.of_rely hr⟩
  rw [(hr.seeding hl.under).2.1]
  exact hl.listed

theorem Listing.did (hspan : seedSpan e = none) (hcharged : chargedTo userID e = 0)
    (hcount : countedFor userID e = 0) : Listing userID sub i subs (h.did i e s) := by
  refine ⟨?_, ?_, hl.expiry, hl.brought.did hcount⟩
  · rw [did_trace, openBy_other i h.trace hspan]
    exact hl.under
  · rw [did_trace, tally_cons, hcharged, zero_add]
    exact hl.listed

end

section

variable (hs : Seeding userID sub i subs h)

include hs

theorem Seeding.of_rely (hr : SeedRely userID i h h') : Seeding userID sub i subs h' := by
  refine ⟨hs.toListing.of_rely hr, ?_⟩
  simp only [(hr.seeding hs.under).2.2.1, hr.seeded_iff hs.under]
  exact hs.restored

theorem Seeding.did (he : Quiet userID e) (hcount : countedFor userID e = 0) :
    Seeding userID sub i subs (h.did i e s) := by
  refine ⟨hs.toListing.did he.seed he.charged hcount, ?_⟩
  simp only [did_trace, tally_cons, he.restored, zero_add, seeded_cons, he.stored,
    Bool.false_eq_true, false_or]
  exact hs.restored

theorem Seeding.mono {subs' : List UserSubscription} (hsub : ∀ r ∈ subs', r ∈ subs) :
    Seeding userID sub i subs' h :=
  { hs with
    listed := fun r hr => hs.listed r (hsub r hr)
    expiry := fun r hr => hs.expiry r (hsub r hr) }

/-- While a seed is under way the mark lacks what the disk had at the start, if no seed has stored
it yet, and nothing else. -/
theorem Seeding.above_mark (hinv : Reseeding userID sub rows h) (hr : r ∈ subs)
    (howner : r.userID = userID) (hactive : Db.isActive r = true) :
    r.periodUsedBytes - h.state.usage.persisted userID =
      if Seeded userID h.trace then 0 else sub.periodUsedBytes := by
  have hsettled := hinv.settled (hinv.apart (List.ne_nil_of_mem hs.under))
  rw [hs.listed r hr howner hactive, hinv.mark, hsettled]
  split_ifs <;> omega

end

theorem seedable_iff :
    seedable nowNs r = true ↔ r.userID ≠ "" ∧ 0 < r.periodUsedBytes ∧ Db.isActive r = true ∧
      (0 < r.expiresAtNs → 0 < nowNs → nowNs ≤ r.expiresAtNs) := by
  unfold seedable
  simp only [Bool.and_eq_true, decide_eq_true_eq, Bool.not_eq_true', Bool.and_eq_false_imp,
    decide_eq_false_iff_not, not_lt, and_assoc, and_imp]

def Restored (userID : String) (sub : UserSubscription) (trace : Trace) : Prop :=
  sub.periodUsedBytes = 0 ∨ Seeded userID trace

theorem Restored.of_rely (hd : Restored userID sub h.trace) (hr : SeedRely userID i h h') :
    Restored userID sub h'.trace :=
  hd.imp_right hr.seeded

theorem Restored.did (hd : Restored userID sub h.trace) : Restored userID sub (h.did i e s).trace :=
  hd.imp_right fun hyes => seeded_cons.mpr (.inr hyes)

variable {α : Type} {Q : α → History → Prop}

theorem safe_keeps_restored {prog : Task α} (hs : (reseeding userID sub rows).Safe i Q prog h) :
    (reseeding userID sub rows).Safe i (fun a k => Q a k ∧
      (Restored userID sub h.trace → Restored userID sub k.trace)) prog h :=
  hs.frame (fun _ _ _ hk hd => (hk hd).did) (fun _ _ hk => hk) (fun _ _ hk => hk)
    (fun _ _ hr hk hd => (hk hd).of_rely hr) id

section

variable {f : Unit → Task α}

theorem safe_storeMark (hl : Listing userID sub i subs h) (hr : r ∈ subs)
    (howner : r.userID = userID) (hactive : Db.isActive r = true)
    (hrestored : tally (restoredTo userID) h.trace = sub.periodUsedBytes)
    (hf : ∀ k, Seeding userID sub i subs k → Seeded userID k.trace →
      (reseeding userID sub rows).Safe i Q (f ()) k) :
    (reseeding userID sub rows).Safe i Q
      ((Task.count (.markStored r.userID r.periodUsedBytes) fun c =>
        c.storeMark r.userID r.periodUsedBytes).bind f) h := by
  rw [howner]
  intro k hrely hinv _
  have hrely' : SeedRely userID i h k := hrely
  have hk := hl.of_rely hrely'
  have hsettled := hinv.settled (hinv.apart (List.ne_nil_of_mem hk.under))
  have hstores : Seeded userID ((i, ServerEvent.markStored userID r.periodUsedBytes) :: k.trace) :=
    seeded_cons.mpr (Or.inl (by simp [storesMark]))
  refine ⟨hinv.seeds hk.under rfl rfl rfl rfl rfl ?_ ?_, hf _ ⟨hk.did rfl rfl rfl, ?_⟩ hstores⟩
  · simp only [Counters.storeMark, countedFor, restoredTo, zero_add]
  · rw [if_pos hstores]
    have hstore : (k.state.usage.storeMark userID r.periodUsedBytes).persisted userID =
        r.periodUsedBytes := update_self ..
    rw [hstore, hk.listed r hr howner hactive, hsettled]
  · refine Eq.trans ?_ (if_pos hstores).symm
    simp only [did_trace, tally_cons, restoredTo, zero_add, (hrely'.seeding hl.under).2.2.1]
    exact hrestored

theorem safe_storeMark_other (hs : Seeding userID sub i subs h) (hother : r.userID ≠ userID)
    (hf : ∀ k, Seeding userID sub i subs k → (reseeding userID sub rows).Safe i Q (f ()) k) :
    (reseeding userID sub rows).Safe i Q
      ((Task.count (.markStored r.userID r.periodUsedBytes) fun c =>
        c.storeMark r.userID r.periodUsedBytes).bind f) h := by
  intro k hrely hinv _
  have hquiet : Quiet userID (.markStored r.userID r.periodUsedBytes) :=
    ⟨rfl, rfl, rfl, rfl, rfl, by simp [storesMark, hother]⟩
  exact ⟨hinv.quiet_of_db hquiet rfl hinv.held (zero_add _).symm
    (update_of_ne (Ne.symm hother) _ _), hf _ ((hs.of_rely hrely).did hquiet rfl)⟩

end

/-- The user's own row: afterwards the mark is stored, and what the disk had at the start is
restored. -/
theorem safe_seedOne (hused : 0 ≤ sub.periodUsedBytes) (hs : Seeding userID sub i subs h)
    (hr : r ∈ subs) (howner : r.userID = userID) (hactive : Db.isActive r = true) :
    (reseeding userID sub rows).Safe i
      (fun _ k => Seeding userID sub i subs k ∧ Seeded userID k.trace) (seedOne r) h := by
  intro k hrely hinv _
  have hk := hs.of_rely hrely
  have hk1 : Seeding userID sub i subs (k.did i (.markRead r.userID) k.state) := hk.did {} rfl
  have hseeded1 : Seeded userID (k.did i (.markRead r.userID) k.state).trace ↔
      Seeded userID k.trace := by simp [seeded_cons, storesMark]
  have habove : r.periodUsedBytes - k.state.usage.persisted r.userID =
      if Seeded userID k.trace then 0 else sub.periodUsedBytes := by
    rw [howner]
    exact hk.above_mark hinv hr howner hactive
  refine ⟨hinv.reads {} rfl, ?_⟩
  simp only [Prog.ret_bind]
  by_cases hmissing : 0 < r.periodUsedBytes - k.state.usage.persisted r.userID
  · -- no seed has stored the mark yet, and what is missing is all the disk had
    have hnot : ¬ Seeded userID k.trace := fun hyes => by
      rw [habove, if_pos hyes] at hmissing
      cases hmissing
    simp only [if_pos hmissing]
    rw [if_neg hnot] at habove
    rw [habove]
    intro k' hrely' hinv' _
    have hk' := hk1.of_rely hrely'
    have hnot' : ¬ Seeded userID k'.trace := fun hyes =>
      hnot (hseeded1.mp ((SeedRely.seeded_iff hrely' hk1.under).mp hyes))
    have hrestored' : restoredTo userID (.restored r.userID sub.periodUsedBytes) =
        sub.periodUsedBytes := by simp [restoredTo, howner]
    refine ⟨hinv'.seeds hk'.under rfl rfl rfl rfl rfl ?_ ?_, ?_⟩
    · rw [Counters.getD_addToUser, hrestored', if_pos howner]
      simp [countedFor]
    · have hmark := hinv'.mark
      rw [if_neg hnot'] at hmark
      rw [if_neg (by simpa [seeded_cons, storesMark] using hnot')]
      exact hmark
    · refine safe_storeMark (hk'.toListing.did rfl rfl rfl) hr howner hactive ?_ ?_
      · rw [did_trace, tally_cons, hrestored', hk'.restored, if_neg hnot', add_zero]
      · exact fun k2 hk2 hseeded2 _ hr2 _ => ⟨hk2.of_rely hr2, SeedRely.seeded hr2 hseeded2⟩
  · simp only [if_neg hmissing]
    refine safe_storeMark hk1.toListing hr howner hactive ?_ ?_
    · refine hk1.restored.trans ?_
      split_ifs with hyes
      · rfl
      · rw [habove, if_neg (fun h => hyes (hseeded1.mpr h))] at hmissing
        omega
    · exact fun k2 hk2 hseeded2 _ hr2 _ => ⟨hk2.of_rely hr2, SeedRely.seeded hr2 hseeded2⟩

theorem safe_seedOne_other (hs : Seeding userID sub i subs h) (hother : r.userID ≠ userID) :
    (reseeding userID sub rows).Safe i (fun _ => Seeding userID sub i subs) (seedOne r) h := by
  intro k hrely hinv _
  have hk1 : Seeding userID sub i subs (k.did i (.markRead r.userID) k.state) :=
    (hs.of_rely hrely).did {} rfl
  refine ⟨hinv.reads {} rfl, ?_⟩
  simp only [Prog.ret_bind]
  split
  · intro k' hrely' hinv' _
    have hquiet : Quiet userID (.restored r.userID
        (r.periodUsedBytes - k.state.usage.persisted r.userID)) :=
      ⟨rfl, rfl, rfl, rfl, by simp [restoredTo, hother], rfl⟩
    refine ⟨hinv'.quiet_of_db hquiet rfl hinv'.held ?_ rfl, ?_⟩
    · rw [Counters.getD_addToUser, if_neg hother]
      rfl
    · refine safe_storeMark_other ((hk1.of_rely hrely').did hquiet rfl) hother ?_
      exact fun k2 hk2 _ hr _ => hk2.of_rely hr
  · exact safe_storeMark_other hk1 hother fun k2 hk2 _ hr _ => hk2.of_rely hr

/-- There is nothing to restore, or a row among the listed that a seed restores. -/
def Covers (userID : String) (sub : UserSubscription) (subs : List UserSubscription) : Prop :=
  sub.periodUsedBytes = 0 ∨ ∃ r ∈ subs, r.userID = userID ∧ 0 < r.periodUsedBytes ∧
    Db.isActive r = true

theorem Covers.tail {all : List UserSubscription} (hs : Seeding userID sub i all h)
    (hc : Covers userID sub (r :: subs)) (hmem : r ∈ all) (huser : userID ≠ "")
    (hnow : 0 < sub.expiresAtNs → 0 < nowNs → nowNs ≤ sub.expiresAtNs)
    (hr : seedable nowNs r = false ∨ r.userID ≠ userID) : Covers userID sub subs := by
  rcases hc with hzero | ⟨t, ht, howner, hpos, hactive⟩
  · exact .inl hzero
  rcases List.mem_cons.mp ht with rfl | ht
  · have hexp := hs.expiry t hmem howner hactive
    have hseed : seedable nowNs t = true :=
      seedable_iff.mpr ⟨howner ▸ huser, hpos, hactive, hexp ▸ hnow⟩
    rcases hr with hr | hr
    · rw [hseed] at hr
      cases hr
    · exact absurd howner hr
  · exact .inr ⟨t, ht, howner, hpos, hactive⟩

theorem safe_seedFromSubscriptions (hs : SoleSubscription userID sub rows)
    (hnow : 0 < sub.expiresAtNs → 0 < nowNs → nowNs ≤ sub.expiresAtNs) :
    ∀ (subs : List UserSubscription) (n : ℕ) (h : History),
      Seeding userID sub i subs h → Covers userID sub subs ∨ Restored userID sub h.trace →
      (reseeding userID sub rows).Safe i
        (fun _ k => Seeding userID sub i [] k ∧ Restored userID sub k.trace)
        (seedFromSubscriptions nowNs subs n) h
  | [], _, h, hseed, hc => fun k hr _ => by
    refine ⟨hseed.of_rely hr, Restored.of_rely ?_ hr⟩
    rcases hc with (hzero | ⟨r, hr, -⟩) | hdone
    · exact .inl hzero
    · cases hr
    · exact hdone
  | r :: subs, n, h, hseed, hc => by
    have hrest : ∀ t ∈ subs, t ∈ r :: subs := fun t ht => .tail _ ht
    unfold seedFromSubscriptions
    cases hsr : seedable nowNs r with
    | false =>
      rw [if_pos (by simp)]
      refine safe_seedFromSubscriptions hs hnow subs n h (hseed.mono hrest) ?_
      exact hc.imp_left fun hc => hc.tail hseed (.head _) hs.user hnow (.inl hsr)
    | true =>
      rw [if_neg (by simp)]
      by_cases howner : r.userID = userID
      · have hactive := (seedable_iff.mp hsr).2.2.1
        refine (safe_seedOne hs.used hseed (.head _) howner hactive).seq ?_
        rintro _ k ⟨hk, hseeded⟩
        exact safe_seedFromSubscriptions hs hnow subs _ k (hk.mono hrest) (.inr (.inr hseeded))
      · refine (safe_keeps_restored (safe_seedOne_other hseed howner)).seq ?_
        rintro _ k ⟨hk, hstay⟩
        refine safe_seedFromSubscriptions hs hnow subs _ k (hk.mono hrest) ?_
        exact hc.imp (fun hc => hc.tail hseed (.head _) hs.user hnow (.inr howner)) hstay

/-- What is pending covers the user if what was listed did, unless nothing is missing. -/
theorem safe_pendingUsageSeed (hs : SoleSubscription userID sub rows)
    (hnow : 0 < sub.expiresAtNs → 0 < nowNs → nowNs ≤ sub.expiresAtNs)
    {all : List UserSubscription} :
    ∀ (subs : List UserSubscription) (h : History), (∀ r ∈ subs, r ∈ all) →
      Seeding userID sub i all h →
      (reseeding userID sub rows).Safe i
        (fun pending k => Seeding userID sub i all k ∧ (∀ r ∈ pending, r ∈ all) ∧
          (Covers userID sub subs → Covers userID sub pending ∨ Restored userID sub k.trace))
        (pendingUsageSeed nowNs subs) h
  | [], _, hall, hseed => fun _ hr _ => ⟨hseed.of_rely hr, hall, .inl⟩
  | r :: subs, h, hall, hseed => by
    have hmem : r ∈ all := hall r (.head _)
    have hrest : ∀ t ∈ subs, t ∈ all := fun t ht => hall t (.tail _ ht)
    unfold pendingUsageSeed
    cases hsr : seedable nowNs r with
    | false =>
      rw [if_pos (by simp)]
      refine (safe_pendingUsageSeed hs hnow subs h hrest hseed).mono ?_
      rintro pending k - ⟨hk, hsub, hcover⟩
      exact ⟨hk, hsub, fun hc => hcover (hc.tail hseed hmem hs.user hnow (.inl hsr))⟩
    | true =>
      rw [if_neg (by simp)]
      intro k hrely hinv _
      have hk := hseed.of_rely hrely
      have hk1 : Seeding userID sub i all (k.did i (.markRead r.userID) k.state) := hk.did {} rfl
      refine ⟨hinv.reads {} rfl, ?_⟩
      simp only [Prog.ret_bind]
      obtain ⟨-, hpos, hactive, -⟩ := seedable_iff.mp hsr
      refine (safe_keeps_restored (safe_pendingUsageSeed hs hnow subs _ hrest hk1)).seq ?_
      rintro pending k2 ⟨⟨hk2, hsub, hcover⟩, hstay⟩ k3 hr3 -
      refine ⟨hk2.of_rely hr3, ?_, fun hc => ?_⟩
      · intro t ht
        split at ht
        · exact hsub t ht
        · rcases List.mem_cons.mp ht with rfl | ht
          · exact hmem
          · exact hsub t ht
      by_cases howner : r.userID = userID
      · by_cases hless : r.periodUsedBytes ≤ k.state.usage.persisted r.userID
        · -- the user's own row lies below the mark: a seed has stored it, or it was empty
          refine .inr ((hstay (Restored.did ?_)).of_rely hr3)
          have habove := hk.above_mark hinv hmem howner hactive
          rw [howner] at hless
          by_cases hyes : Seeded userID k.trace
          · exact .inr hyes
          · rw [if_neg hyes] at habove
            have hused := hs.used
            exact .inl (by omega)
        · rw [if_neg hless]
          exact .inl (.inr ⟨r, .head _, howner, hpos, hactive⟩)
      · refine (hcover (hc.tail hseed hmem hs.user hnow (.inr howner))).imp (fun hcov => ?_)
          fun hd => hd.of_rely hr3
        split
        · exact hcov
        · refine hcov.imp_right ?_
          rintro ⟨t, ht, hprop⟩
          exact ⟨t, .tail _ ht, hprop⟩

theorem safe_seedUsage (hs : SoleSubscription userID sub rows) {pendingAt : Option ℤ}
    (hnow : (UsageCall.seed pendingAt nowNs).Unexpired sub) (hstart : Aside userID i 0 h) :
    (reseeding userID sub rows).Safe i (fun _ k => Aside userID i 0 k ∧ Restored userID sub k.trace)
      (seedUsage pendingAt nowNs) h := by
  refine Task.safe_query fun k hr hinv hmay => ⟨hinv.begins hmay, ?_⟩
  have hrows : ∀ r, r ∈ listUserSubscriptions k.state.db ↔ r ∈ k.state.db.userSubscriptions :=
    fun r => List.mem_mergeSort
  have hk : Seeding userID sub i (listUserSubscriptions k.state.db)
      (k.did i .seedListed k.state) := by
    have hsame : ∀ r ∈ listUserSubscriptions k.state.db, r.userID = userID →
        Db.isActive r = true → clearUsed r = clearUsed sub := fun r hmem howner hactive =>
      hs.eq_of_active hinv.shape ((hrows r).mp hmem) howner hactive
    refine ⟨⟨?_, fun r hmem howner hactive => ?_, fun r hmem howner hactive => ?_,
      (hstart.of_rely hr).brought.did rfl⟩, ?_⟩
    · rw [did_trace, openBy_begin i k.trace rfl]
      exact .head _
    · have hid := (columns_of_clearUsed (hsame r hmem howner hactive)).1
      simp only [did_trace, tally_cons, chargedTo, zero_add]
      exact hinv.used r ((hrows r).mp hmem) hid
    · exact (columns_of_clearUsed (hsame r hmem howner hactive)).2.2.2
    · have hrestored := hinv.restored hmay.1
      simp only [did_trace, tally_cons, restoredTo, zero_add, seeded_cons, storesMark,
        Bool.false_eq_true, false_or]
      exact hrestored
  have hcover : Covers userID sub (listUserSubscriptions k.state.db) := by
    have hmem : clearUsed sub ∈ k.state.db.userSubscriptions.map clearUsed := by
      rw [hinv.shape]
      exact List.mem_map_of_mem hs.mem
    obtain ⟨r, hr0, heq⟩ := List.mem_map.mp hmem
    obtain ⟨hid, howner, hstatus, -⟩ := columns_of_clearUsed heq
    have hused := hinv.used r hr0 hid
    have hcharged := hinv.charged
    have hnonneg := hs.used
    by_cases hzero : sub.periodUsedBytes = 0
    · exact .inl hzero
    · refine .inr ⟨r, (hrows r).mpr hr0, howner.trans hs.owner, by omega, ?_⟩
      have hactive := hs.active
      unfold Db.isActive at hactive ⊢
      rw [hstatus]
      exact hactive
  -- the loop over what is listed, or over what is pending of it, and the return
  have hfinish : ∀ (subs : List UserSubscription) (k' : History),
      Seeding userID sub i subs k' → Covers userID sub subs ∨ Restored userID sub k'.trace →
      (reseeding userID sub rows).Safe i
        (fun _ k => Aside userID i 0 k ∧ Restored userID sub k.trace)
        ((seedFromSubscriptions nowNs subs 0).bind fun n => Prog.read .seedReturned fun _ => n)
        k' := by
    intro subs k' hk' hcover'
    refine (safe_seedFromSubscriptions hs (hnow nowNs (.inl rfl)) subs 0 k' hk' hcover').seq ?_
    rintro n k1 ⟨hk1, hdone⟩ k2 hr2 hinv2 -
    have hk2 := hk1.of_rely hr2
    refine ⟨hinv2.returns hk2.under hk2.restored, ?_⟩
    intro k3 hr3 _
    refine ⟨Aside.of_rely ⟨hk2.brought.did rfl, ?_⟩ hr3, (hdone.of_rely hr2).did.of_rely hr3⟩
    rw [did_trace, openBy_end i k2.trace rfl]
    simp
  cases pendingAt with
  | none => exact hfinish _ _ hk (.inl hcover)
  | some t =>
    refine (safe_pendingUsageSeed hs (hnow t (.inr rfl)) _ _ (fun r hr => hr) hk).seq ?_
    rintro pending k' ⟨hk', hsub, hcover'⟩
    exact hfinish pending k' (hk'.mono hsub) (hcover' hcover)

end Calls

/-- What a call that has returned has done. -/
def UsageCall.Done (userID : String) (sub : UserSubscription) (i : ℕ) (call : UsageCall)
    (h : History) : Prop :=
  Aside userID i (call.bytes userID) h ∧
    (call.isSeed = true → Restored userID sub h.trace)

theorem safe_usageCall (hs : SoleSubscription userID sub rows) {i : ℕ} {call : UsageCall}
    (hcall : call.Unexpired sub) (hstart : Aside userID i 0 h) :
    (reseeding userID sub rows).Safe i (fun _ => call.Done userID sub i) call.task h := by
  cases call with
  | add key delta nonneg =>
    refine (safe_traffic key nonneg hs.user hstart).mono fun _ k _ hk => ⟨hk, fun h => ?_⟩
    cases h
  | flush env =>
    refine (safe_flushOnce hs env hstart).seq fun _ k hk => ?_
    refine fun _ hr _ => ⟨hk.of_rely hr, fun h => ?_⟩
    cases h
  | seed pendingAt nowNs =>
    refine (safe_seedUsage hs hcall hstart).seq fun _ k hk => ?_
    exact fun _ hr _ => ⟨hk.1.of_rely hr, fun _ => hk.2.of_rely hr⟩

/-- Where a run starts: nothing of the user's has been counted, marked or restored. -/
structure Unseeded (userID : String) (usage : Counters) : Prop where
  aggregate : (usage.users userID).getD 0 = 0
  mark : usage.persisted userID = 0
  held : ∀ b ∈ usage.entries, 0 ≤ b.held.total

theorem Reseeding.start {panel : Panel} {usage : Counters}
    (hs : SoleSubscription userID sub panel.db.userSubscriptions) (hu : Unseeded userID usage) :
    Reseeding userID sub panel.db.userSubscriptions ⟨⟨panel, usage⟩, [], fun _ => none⟩ where
  shape := rfl
  used r hr hid := by
    have hrow : r = sub := eq_of_mem_of_key_eq hs.ids hr hs.mem hid
    rw [hrow]
    exact (add_zero _).symm
  charged := le_refl 0
  held := hu.held
  aggregate := hu.aggregate
  mark := hu.mark.trans (by simp [Seeded])
  alone := by simp
  apart := by simp
  settled := fun _ => rfl
  holding := by simp
  restored := fun _ => by simp [Seeded]

/-- **Re-seeding restores once what the disk had**, in every interleaving of traffic, flush passes
and seeds in which seeds and charges keep apart: when everything has returned and there was a seed,
the aggregate is the usage at the start and the bytes of all the traffic. -/
theorem reseed_restores_once (panel : Panel) (usage : Counters) (userID : String)
    (sub : UserSubscription) (hs : SoleSubscription userID sub panel.db.userSubscriptions)
    (hu : Unseeded userID usage) (calls : List UsageCall)
    (hunexpired : ∀ call ∈ calls, call.Unexpired sub) (hseed : ∃ call ∈ calls, call.isSeed = true)
    (sched : List ℕ)
    (hapart : Along Pool.step (Pool.Meets (Exclusive userID))
      (Pool.start ⟨panel, usage⟩ (calls.map UsageCall.task)) sched)
    (hfinished : (run Pool.step (Pool.start ⟨panel, usage⟩ (calls.map UsageCall.task))
      sched).Finished) :
    (run Pool.step (Pool.start ⟨panel, usage⟩ (calls.map UsageCall.task))
        sched).hist.state.usage.userBytes userID =
      sub.periodUsedBytes + (calls.map (UsageCall.bytes userID)).sum := by
  set p := run Pool.step (Pool.start ⟨panel, usage⟩ (calls.map UsageCall.task)) sched
  have hsafe : ∀ i call, calls[i]? = some call →
      (reseeding userID sub panel.db.userSubscriptions).Safe i (fun _ => call.Done userID sub i)
        call.task { state := ⟨panel, usage⟩ } := fun i call hcall =>
    safe_usageCall hs (hunexpired call (List.mem_of_getElem? hcall)) ⟨rfl, by simp⟩
  have hkept := Discipline.run_safe (.of_each_call (Reseeding.start hs hu) hsafe) hapart
  have hinv : Reseeding userID sub panel.db.userSubscriptions p.hist := hkept.inv
  have hlen : p.threads.length = calls.length := by
    rw [show p.threads.length = _ from Pool.length_run _ sched]
    exact List.length_map ..
  have hids : ∀ q ∈ p.hist.trace, q.1 < calls.length := hlen ▸ Pool.numbered_run _ _ sched
  have hdone : ∀ i (call : UsageCall), calls[i]? = some call → call.Done userID sub i p.hist := by
    intro i call hcall
    obtain ⟨_, hans⟩ := hkept.answer_call hfinished hcall
    exact hans
  -- every call has returned, so no seed is under way
  have hidle : openBy seedSpan p.hist.trace = [] := by
    refine List.eq_nil_iff_forall_not_mem.mpr fun i hi => ?_
    have hlt : i < calls.length := by
      obtain ⟨q, hq, rfl⟩ := List.mem_map.mp (openBy_subset hi)
      exact hids q hq
    exact (hdone i calls[i] (List.getElem?_eq_getElem hlt)).1.idle hi
  have hrestored : tally (restoredTo userID) p.hist.trace = sub.periodUsedBytes := by
    obtain ⟨call, hmem, hcallSeed⟩ := hseed
    obtain ⟨i, hi⟩ := List.mem_iff_getElem?.mp hmem
    rw [hinv.restored hidle]
    rcases (hdone i call hi).2 hcallSeed with hzero | hyes
    · rw [hzero, ite_self]
    · exact if_pos hyes
  have hcounted : tally (countedFor userID) p.hist.trace =
      (calls.map (UsageCall.bytes userID)).sum :=
    tally_eq_sum_threads hids fun i call hcall => (hdone i call hcall).1.brought
  unfold Counters.userBytes
  rw [if_neg hs.user, hinv.aggregate, hcounted, hrestored, add_comm]

def usedSub : UserSubscription :=
  { id := "s", userID := "u", periodUsedBytes := 100, status := .active }

def usedPanel : Panel := { db := { userSubscriptions := [usedSub] } }

def usageCalls : List UsageCall :=
  [.add ⟨"k", "u", ""⟩ ⟨4, 6, 1, 0⟩ (by decide), .flush {}, .seed none 0]

theorem reseed_restores_once_in_turn :
    (run Pool.step (Pool.start ⟨usedPanel, {}⟩ (usageCalls.map UsageCall.task))
        ([0, 0] ++ List.replicate 8 1 ++ List.replicate 5 2)).hist.state.usage.userBytes "u" =
      110 := by
  have hs : SoleSubscription "u" usedSub usedPanel.db.userSubscriptions :=
    ⟨by decide, by decide, by decide, rfl, rfl, by decide, by decide⟩
  have hunexpired : ∀ call ∈ usageCalls, call.Unexpired usedSub := by
    intro call hcall
    simp only [usageCalls, List.mem_cons, List.not_mem_nil, or_false] at hcall
    rcases hcall with rfl | rfl | rfl
    · trivial
    · trivial
    · exact fun t _ hpos => nomatch hpos
  exact reseed_restores_once usedPanel {} "u" usedSub hs ⟨rfl, rfl, by simp⟩ usageCalls hunexpired
    (by decide) _ (by decide +kernel) (by decide +kernel)

/-- **A seed between a charge and its mark counts the bytes twice.**  The seed starts and finishes
with no flush step in between, everything finishes, and the aggregate has ten bytes too many. -/
theorem reseed_counts_twice :
    (run Pool.step (Pool.start ⟨usedPanel, {}⟩ (usageCalls.map UsageCall.task))
        ([0, 0] ++ List.replicate 6 1 ++ List.replicate 5 2 ++ List.replicate 2 1)).Finished ∧
      (run Pool.step (Pool.start ⟨usedPanel, {}⟩ (usageCalls.map UsageCall.task))
          ([0, 0] ++ List.replicate 6 1 ++ List.replicate 5 2 ++
            List.replicate 2 1)).hist.state.usage.userBytes "u" = 120 ∧
      usedSub.periodUsedBytes + (usageCalls.map (UsageCall.bytes "u")).sum = 110 := by
  decide +kernel

end Prism
