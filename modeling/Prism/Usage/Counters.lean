import Prism.Foundation.Tally
import Prism.Model.Tenant

/-!
# The live counters

`internal/usage/counters.go`.  The data plane counts what it moves in memory, at three levels:

* a *bucket* for every key on every platform, which the flusher drains into the usage tables;
* a total for every key id, over its buckets that have not been drained;
* an *aggregate* for every user, which the quota is checked against and nothing drains.

Beside the aggregate stands the *water mark*: how much of it the period usage on disk covers.

Each of the functions below is one critical section of the source.  `Add` is two of them, the
bucket and then the aggregate, and a drain or a requeue is one for every bucket.  A map of the
source that is only ever read with a default of zero is a function here; the aggregates keep the
difference between a user without one and a user at zero, since a quota check looks at it.
-/

namespace Prism

open Function Table

/-- What is counted. -/
@[ext] structure Delta where
  ingressBytes : ℤ := 0
  egressBytes : ℤ := 0
  requests : ℤ := 0
  errors : ℤ := 0
  deriving DecidableEq

namespace Delta

instance : Zero Delta := ⟨{}⟩

instance : Add Delta :=
  ⟨fun d e => ⟨d.ingressBytes + e.ingressBytes, d.egressBytes + e.egressBytes,
    d.requests + e.requests, d.errors + e.errors⟩⟩

instance : Neg Delta :=
  ⟨fun d => ⟨-d.ingressBytes, -d.egressBytes, -d.requests, -d.errors⟩⟩

instance : Sub Delta := ⟨fun d e => d + -e⟩

theorem add_def (d e : Delta) : d + e =
    ⟨d.ingressBytes + e.ingressBytes, d.egressBytes + e.egressBytes,
      d.requests + e.requests, d.errors + e.errors⟩ := rfl

theorem neg_def (d : Delta) : -d = ⟨-d.ingressBytes, -d.egressBytes, -d.requests, -d.errors⟩ := rfl

theorem zero_def : (0 : Delta) = ⟨0, 0, 0, 0⟩ := rfl

instance : AddCommGroup Delta where
  add_assoc d e f := by simp only [add_def, add_assoc]
  zero_add d := by simp only [add_def, zero_def, zero_add]
  add_zero d := by simp only [add_def, zero_def, add_zero]
  add_comm d e := by simp only [add_def, add_comm]
  neg_add_cancel d := by simp only [add_def, neg_def, zero_def, neg_add_cancel]
  sub_eq_add_neg d e := rfl
  nsmul := nsmulRec
  zsmul := zsmulRec

def total (d : Delta) : ℤ := d.ingressBytes + d.egressBytes

@[simp] theorem total_zero : total 0 = 0 := rfl

@[simp] theorem total_add (d e : Delta) : (d + e).total = d.total + e.total := by
  simp only [total, add_def]
  omega

end Delta

/-- One key on one platform.  The platform is empty where none was resolved. -/
structure CounterKey where
  keyID : String
  userID : String
  platformID : String
  deriving DecidableEq

structure Bucket where
  key : CounterKey
  held : Delta

structure Counters where
  entries : List Bucket := []
  keyBytes : String → ℤ := fun _ => 0
  users : String → Option ℤ := fun _ => none
  persisted : String → ℤ := fun _ => 0

namespace Counters

variable (c : Counters)

/-- `KeyBytes`: what one bucket holds. -/
def bucket (key : CounterKey) : Delta :=
  (lookup Bucket.key key c.entries).elim 0 Bucket.held

def keyTotal (keyID : String) : ℤ :=
  if keyID = "" then 0 else c.keyBytes keyID

variable (userID : String)

def userBytes : ℤ :=
  if userID = "" then 0 else (c.users userID).getD 0

/-- Add to the total of a key; traffic without a key id has none. -/
def addKeyBytes (keyID : String) (bytes : ℤ) (keyBytes : String → ℤ) : String → ℤ :=
  if keyID = "" then keyBytes else update keyBytes keyID (keyBytes keyID + bytes)

/-- Add a delta to one bucket, made if it is absent, and to the total of its key. -/
def addToBuckets (key : CounterKey) (delta : Delta) : Counters :=
  { c with
    entries := upsertWith Bucket.key (fun old row => { row with held := old.held + row.held })
      ⟨key, delta⟩ c.entries
    keyBytes := addKeyBytes key.keyID delta.total c.keyBytes }

def addToUser (bytes : ℤ) : Counters :=
  { c with users := update c.users userID (some ((c.users userID).getD 0 + bytes)) }

def drainOne (key : CounterKey) : Delta × Counters :=
  match lookup Bucket.key key c.entries with
  | none => (0, c)
  | some b =>
    (b.held,
      { c with
        entries := c.entries.filter fun b => b.key ≠ key
        keyBytes := addKeyBytes key.keyID (-b.held.total) c.keyBytes })

/-- The period usage on disk now covers this many bytes more of the aggregate. -/
def markPersisted (bytes : ℤ) : Counters :=
  if bytes = 0 ∨ userID = "" then c
  else { c with persisted := update c.persisted userID (c.persisted userID + bytes) }

/-- The mark is moved to a total a seed has restored against. -/
def storeMark (total : ℤ) : Counters :=
  { c with persisted := update c.persisted userID total }

/-- Start the aggregate over, if there is one.  The buckets are left alone. -/
def resetAggregate : Counters :=
  { c with users := update c.users userID ((c.users userID).map fun _ => 0) }

def resetMark : Counters :=
  { c with persisted := update c.persisted userID 0 }

def keys : List CounterKey := c.entries.map Bucket.key

/-- What all buckets of a key hold. -/
def keyHeld (keyID : String) : ℤ :=
  (c.entries.map fun b => if b.key.keyID = keyID then b.held.total else 0).sum

def pending : ℤ :=
  (c.entries.map fun b => if b.key.userID = userID then b.held.total else 0).sum

/-- **The buckets are in order**: one for every key, and every key's total is what its buckets
hold. -/
structure Sound : Prop where
  nodup : KeysNodup Bucket.key c.entries
  keyTotal : ∀ keyID, keyID ≠ "" → c.keyBytes keyID = c.keyHeld keyID

theorem sound_empty : Sound {} :=
  ⟨List.nodup_nil, fun _ _ => rfl⟩

theorem merge_key (old row : Bucket) (_ : old.key = row.key) :
    ({ row with held := old.held + row.held } : Bucket).key = row.key := rfl

variable {c}

theorem sum_addToBuckets {M : Type*} [AddCommMonoid M] (f : CounterKey → Delta → M)
    (hf : ∀ key d e, f key (d + e) = f key d + f key e) (hc : c.Sound) (key : CounterKey)
    (delta : Delta) :
    ((c.addToBuckets key delta).entries.map fun b => f b.key b.held).sum =
      (c.entries.map fun b => f b.key b.held).sum + f key delta := by
  have hsum : ((upsertWith Bucket.key
      (fun old row => { row with held := old.held + row.held }) ⟨key, delta⟩ c.entries).map
        fun b => f b.key b.held).sum =
      (c.entries.map fun b => f b.key b.held).sum + f (Bucket.mk key delta).key delta := by
    refine sum_map_upsertWith hc.nodup fun old hold => ?_
    simp only at hold ⊢
    rw [hf, hold]
  exact hsum

theorem sum_drainOne {M : Type*} [AddCommMonoid M] (f : CounterKey → Delta → M)
    (hzero : ∀ key, f key 0 = 0) (hc : c.Sound) (key : CounterKey) :
    (c.entries.map fun b => f b.key b.held).sum =
      ((c.drainOne key).2.entries.map fun b => f b.key b.held).sum + f key (c.drainOne key).1 := by
  unfold drainOne
  cases hl : lookup Bucket.key key c.entries with
  | none => simp only [hzero, add_zero]
  | some b =>
    have hsum := sum_map_eq_filter_add_lookup (f := fun b : Bucket => f b.key b.held) hc.nodup key
    rw [hl] at hsum
    rw [hsum]
    have hkey : b.key = key := key_of_lookup hl
    simp only [Option.elim_some, hkey]

theorem pending_addToBuckets (hc : c.Sound) (key : CounterKey) (delta : Delta) (userID : String) :
    (c.addToBuckets key delta).pending userID =
      c.pending userID + if key.userID = userID then delta.total else 0 :=
  sum_addToBuckets (fun key d => if key.userID = userID then d.total else 0) (fun key d e => by
      by_cases h : key.userID = userID
      · simp [h]
      · simp [h])
    hc key delta

theorem pending_drainOne (hc : c.Sound) (key : CounterKey) (userID : String) :
    c.pending userID = (c.drainOne key).2.pending userID +
      if key.userID = userID then (c.drainOne key).1.total else 0 :=
  sum_drainOne (fun key d => if key.userID = userID then d.total else 0) (fun key => by simp) hc key

theorem keyHeld_addToBuckets (hc : c.Sound) (key : CounterKey) (delta : Delta) (keyID : String) :
    (c.addToBuckets key delta).keyHeld keyID =
      c.keyHeld keyID + if key.keyID = keyID then delta.total else 0 :=
  sum_addToBuckets (fun key d => if key.keyID = keyID then d.total else 0) (fun key d e => by
      by_cases h : key.keyID = keyID
      · simp [h]
      · simp [h])
    hc key delta

theorem keyHeld_drainOne (hc : c.Sound) (key : CounterKey) (keyID : String) :
    c.keyHeld keyID = (c.drainOne key).2.keyHeld keyID +
      if key.keyID = keyID then (c.drainOne key).1.total else 0 :=
  sum_drainOne (fun key d => if key.keyID = keyID then d.total else 0) (fun key => by simp) hc key

theorem addKeyBytes_apply {keyID other : String} (hother : other ≠ "") (bytes : ℤ)
    (keyBytes : String → ℤ) :
    addKeyBytes keyID bytes keyBytes other =
      keyBytes other + if keyID = other then bytes else 0 := by
  unfold addKeyBytes
  by_cases hempty : keyID = ""
  · have hne : keyID ≠ other := fun h => hother (h.symm.trans hempty)
    rw [if_pos hempty, if_neg hne, add_zero]
  · rw [if_neg hempty]
    by_cases h : keyID = other
    · subst h
      rw [update_self, if_pos rfl]
    · rw [update_of_ne (Ne.symm h), if_neg h, add_zero]

theorem Sound.addToBuckets (hc : c.Sound) (key : CounterKey) (delta : Delta) :
    (c.addToBuckets key delta).Sound := by
  refine ⟨keysNodup_upsertWith Bucket.key _ merge_key _ hc.nodup, fun keyID hne => ?_⟩
  rw [keyHeld_addToBuckets hc, ← hc.keyTotal keyID hne]
  exact addKeyBytes_apply hne _ _

theorem Sound.drainOne (hc : c.Sound) (key : CounterKey) : (c.drainOne key).2.Sound := by
  have hheld := keyHeld_drainOne hc key
  unfold Counters.drainOne at hheld ⊢
  cases hl : lookup Bucket.key key c.entries with
  | none => exact hc
  | some b =>
    rw [hl] at hheld
    refine ⟨keysNodup_filter hc.nodup, fun keyID hne => ?_⟩
    have hsplit := hheld keyID
    simp only at hsplit ⊢
    rw [addKeyBytes_apply hne, hc.keyTotal keyID hne, hsplit]
    split_ifs <;> omega

variable {d : Counters}

theorem Sound.of_buckets (hc : c.Sound) (hentries : d.entries = c.entries)
    (hkeys : d.keyBytes = c.keyBytes) : d.Sound := by
  refine ⟨hentries ▸ hc.nodup, fun keyID hne => ?_⟩
  unfold keyHeld
  rw [hentries, hkeys]
  exact hc.keyTotal keyID hne

variable (key : CounterKey)

theorem bucket_addToBuckets (other : CounterKey) (delta : Delta) :
    (c.addToBuckets key delta).bucket other =
      c.bucket other + if key = other then delta else 0 := by
  unfold bucket addToBuckets
  by_cases h : key = other
  · subst h
    have hself := lookup_upsertWith_self Bucket.key
      (fun old row => { row with held := old.held + row.held }) merge_key ⟨key, delta⟩ c.entries
    simp only at hself
    rw [hself, if_pos rfl]
    cases lookup Bucket.key key c.entries with
    | none => exact (zero_add delta).symm
    | some b => rfl
  · rw [lookup_upsertWith_of_ne Bucket.key _ merge_key _ (Ne.symm h), if_neg h, add_zero]

theorem bucket_drainOne (other : CounterKey) : c.bucket other = (c.drainOne key).2.bucket other +
      if key = other then (c.drainOne key).1 else 0 := by
  unfold drainOne
  cases hl : lookup Bucket.key key c.entries with
  | none => simp only [ite_self, add_zero]
  | some b =>
    have hfilter := lookup_filter_ne Bucket.key key other c.entries
    unfold bucket
    simp only at hfilter ⊢
    rw [hfilter]
    by_cases h : key = other
    · subst h
      rw [hl, if_pos rfl, if_pos rfl]
      exact (zero_add b.held).symm
    · rw [if_neg (Ne.symm h), if_neg h, add_zero]

/-! ## The aggregates and the marks -/

variable (c)

theorem users_drainOne :
    (c.drainOne key).2.users = c.users ∧ (c.drainOne key).2.persisted = c.persisted := by
  unfold drainOne
  split <;> exact ⟨rfl, rfl⟩

theorem entries_drainOne : (c.drainOne key).2.entries = c.entries.filter fun b => b.key ≠ key := by
  unfold drainOne
  cases hl : lookup Bucket.key key c.entries with
  | none =>
    refine (List.filter_eq_self.mpr fun b hb => ?_).symm
    exact decide_eq_true (lookup_eq_none_iff Bucket.key |>.mp hl b hb)
  | some b => rfl

theorem getD_addToUser (v w : String) (bytes : ℤ) : ((c.addToUser v bytes).users w).getD 0 =
      (if v = w then bytes else 0) + (c.users w).getD 0 := by
  unfold addToUser
  by_cases hv : v = w
  · subst hv
    simp only [update_self, Option.getD_some, if_true]
    omega
  · simp only [update_of_ne (Ne.symm hv), if_neg hv, zero_add]

variable {c}

theorem userBytes_congr (h : d.users = c.users) (userID : String) :
    d.userBytes userID = c.userBytes userID := by
  unfold userBytes
  rw [h]

theorem pending_congr (h : d.entries = c.entries) (userID : String) :
    d.pending userID = c.pending userID := by
  unfold pending
  rw [h]

end Counters

end Prism
