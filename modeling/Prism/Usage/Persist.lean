import Prism.Money.Effects
import Prism.Usage.Flush

/-!
# A flush pass, run alone

What a pass with nothing else in between leaves of one user's bytes.  Draining takes all of them out
of the buckets (`exec_drain_keys`); the batch carries them to one sum a user (`sumOf_perUser`), the
sum to the window of the subscription in force (`Windows`), and the window to the charge
(`exec_chargeAll`).  A pass that cannot write its hourly rows puts the batch back.
-/

namespace Prism

open Table
open Prog (bind_eq exec_bind)

variable {s : Server} {userID : String} {window : SubscriptionWindow}

/-- The bytes of one user in a batch. -/
def Batch.bytesOf (batch : Batch) (userID : String) : ℤ :=
  (batch.map fun entry => if entry.1.userID = userID then entry.2.total else 0).sum

def sumOf (userID : String) (sums : List (String × ℤ)) : ℤ :=
  (sums.map fun p => if p.1 = userID then p.2 else 0).sum

def dueTo (userID : String) (windows : List (String × ℤ × SubscriptionWindow)) : ℤ :=
  (windows.map fun x => if x.1 = userID then x.2.1 else 0).sum

theorem Batch.bytesOf_cons (key : CounterKey) (delta : Delta) (batch : Batch) (userID : String) :
    Batch.bytesOf ((key, delta) :: batch) userID =
      (if key.userID = userID then delta.total else 0) + batch.bytesOf userID := by
  unfold Batch.bytesOf
  rw [List.map_cons, List.sum_cons]

variable {batch : Batch}

theorem Batch.bytesOf_perm {batch' : Batch} (h : batch.Perm batch') (userID : String) :
    batch.bytesOf userID = batch'.bytesOf userID :=
  (h.map _).sum_eq

/-- The buckets of these keys are in the batch, and their bytes are not lost. -/
structure Drained (userID : String) (keys : List CounterKey) (batch : Batch) (s : Server)
    (r : Batch × Server) : Prop where
  db : r.2.db = s.db
  users : r.2.usage.users = s.usage.users
  sound : r.2.usage.Sound
  entries : r.2.usage.entries = s.usage.entries.filter fun b => b.key ∉ keys
  bytes : r.2.usage.pending userID + r.1.bytesOf userID =
    s.usage.pending userID + batch.bytesOf userID

theorem Batch.put_of_new {key : CounterKey} (hnew : key ∉ batch.map Prod.fst) (delta : Delta) :
    batch.put key delta = batch ++ [(key, delta)] := by
  unfold Batch.put upsertWith
  rw [if_neg]
  intro hany
  obtain ⟨entry, hentry, hkey⟩ := List.any_eq_true.mp hany
  exact hnew (List.mem_map.mpr ⟨entry, hentry, of_decide_eq_true hkey⟩)

theorem Batch.bytesOf_append_singleton (batch : Batch) (key : CounterKey) (delta : Delta)
    (userID : String) :
    (batch ++ [(key, delta)] : Batch).bytesOf userID =
      batch.bytesOf userID + if key.userID = userID then delta.total else 0 := by
  unfold Batch.bytesOf
  rw [List.map_append, List.sum_append, List.map_singleton, List.sum_singleton]

theorem Batch.bytesOf_collect {key : CounterKey} (hnew : key ∉ batch.map Prod.fst) (delta : Delta)
    (userID : String) :
    (if delta = 0 then batch else batch.put key delta).bytesOf userID =
      batch.bytesOf userID + if key.userID = userID then delta.total else 0 := by
  by_cases hzero : delta = 0
  · rw [if_pos hzero, hzero, Delta.total_zero, ite_self, add_zero]
  · rw [if_neg hzero, Batch.put_of_new hnew, Batch.bytesOf_append_singleton]

theorem exec_drain (userID : String) (keys : List CounterKey) :
    ∀ (batch : Batch) (s : Server), s.usage.Sound → keys.Nodup →
      (∀ key ∈ keys, key ∉ batch.map Prod.fst) →
      Drained userID keys batch s ((drain keys batch).exec s) := by
  induction keys with
  | nil =>
    intro batch s hsound _ _
    exact ⟨rfl, rfl, hsound, (List.filter_eq_self.mpr fun _ _ => by simp).symm, rfl⟩
  | cons key keys ih =>
    intro batch s hsound hnodup hnew
    obtain ⟨hkey, hnodup⟩ := List.nodup_cons.mp hnodup
    have hfirst := hnew key (.head _)
    rw [drain, bind_eq, exec_bind]
    -- the bucket of the key is out; the keys to come are still new to the batch
    have hrest := ih (if (s.usage.drainOne key).1 = 0 then batch
        else batch.put key (s.usage.drainOne key).1)
      { s with usage := (s.usage.drainOne key).2 } (hsound.drainOne key) hnodup ?_
    · refine ⟨hrest.db, hrest.users.trans (s.usage.users_drainOne key).1, hrest.sound, ?_, ?_⟩
      · refine hrest.entries.trans ?_
        simp only [s.usage.entries_drainOne, List.filter_filter]
        refine List.filter_congr fun b _ => ?_
        rw [Bool.and_comm]
        simp
      · refine hrest.bytes.trans ?_
        rw [Batch.bytesOf_collect hfirst, Counters.pending_drainOne hsound key userID]
        simp only
        omega
    · intro other hother
      have hne : other ≠ key := fun heq => hkey (heq ▸ hother)
      split
      · exact hnew other (.tail _ hother)
      · rw [Batch.put_of_new hfirst, List.map_append, List.mem_append, not_or]
        exact ⟨hnew other (.tail _ hother), by simpa using hne⟩

theorem exec_drain_keys (hsound : s.usage.Sound) (userID : String) :
    ((drain s.usage.keys []).exec s).2.db = s.db ∧
      ((drain s.usage.keys []).exec s).2.usage.users = s.usage.users ∧
      ((drain s.usage.keys []).exec s).2.usage.Sound ∧
      ((drain s.usage.keys []).exec s).2.usage.pending userID = 0 ∧
      ((drain s.usage.keys []).exec s).1.bytesOf userID = s.usage.pending userID := by
  have h := exec_drain userID s.usage.keys [] s hsound hsound.nodup (by simp)
  have hempty : ((drain s.usage.keys []).exec s).2.usage.entries = [] := by
    rw [h.entries, List.filter_eq_nil_iff]
    intro b hb
    have hkey : b.key ∈ s.usage.keys := List.mem_map_of_mem hb
    simpa using hkey
  have hpending : ((drain s.usage.keys []).exec s).2.usage.pending userID = 0 := by
    unfold Counters.pending
    rw [hempty]
    rfl
  have hbytes := h.bytes
  rw [hpending, zero_add] at hbytes
  exact ⟨h.db, h.users, h.sound, hpending, hbytes.trans (add_zero _)⟩

theorem exec_requeue (userID : String) (batch : Batch) : ∀ s : Server, s.usage.Sound →
      ((requeue batch).exec s).2.db = s.db ∧
        ((requeue batch).exec s).2.usage.users = s.usage.users ∧
        ((requeue batch).exec s).2.usage.Sound ∧
        ((requeue batch).exec s).2.usage.pending userID =
          s.usage.pending userID + batch.bytesOf userID := by
  induction batch with
  | nil => exact fun s hsound => ⟨rfl, rfl, hsound, (add_zero _).symm⟩
  | cons entry batch ih =>
    intro s hsound
    obtain ⟨key, delta⟩ := entry
    rw [requeue, Batch.bytesOf_cons]
    by_cases hzero : delta = 0
    · rw [if_pos hzero, hzero, Delta.total_zero, ite_self, zero_add]
      exact ih s hsound
    rw [if_neg hzero]
    obtain ⟨hdb, husers, hsound', hpending⟩ :=
      ih { s with usage := s.usage.addToBuckets key delta } (hsound.addToBuckets key delta)
    refine ⟨hdb, husers, hsound', hpending.trans ?_⟩
    simp only [Counters.pending_addToBuckets hsound key delta userID]
    omega

/-! ## One sum a user -/

theorem keysNodup_addPerUser {sums : List (String × ℤ)} (hnodup : KeysNodup Prod.fst sums)
    (entry : CounterKey × Delta) : KeysNodup Prod.fst (addPerUser sums entry) := by
  unfold addPerUser
  split
  · exact hnodup
  · refine keysNodup_upsertWith Prod.fst _ ?_ _ hnodup
    intro old row _
    rfl

theorem sumOf_addPerUser (huser : userID ≠ "") {sums : List (String × ℤ)}
    (hnodup : KeysNodup Prod.fst sums) (entry : CounterKey × Delta) :
    sumOf userID (addPerUser sums entry) =
      sumOf userID sums + if entry.1.userID = userID then entry.2.total else 0 := by
  unfold addPerUser
  by_cases hempty : entry.1.userID = ""
  · rw [if_pos hempty, if_neg fun h => huser (h.symm.trans hempty), add_zero]
  rw [if_neg hempty]
  have hadd : ∀ old : String × ℤ, old.1 = entry.1.userID →
      (if entry.1.userID = userID then old.2 + entry.2.total else 0) =
        (if old.1 = userID then old.2 else 0) +
          if entry.1.userID = userID then entry.2.total else 0 := by
    intro old hold
    rw [hold]
    split <;> rfl
  exact sum_map_upsertWith (f := fun p : String × ℤ => if p.1 = userID then p.2 else 0) hnodup hadd

theorem sumOf_perUser (huser : userID ≠ "") (batch : Batch) : KeysNodup Prod.fst (perUser batch) ∧
      sumOf userID (perUser batch) = batch.bytesOf userID := by
  have hfold : ∀ (batch : Batch) (sums : List (String × ℤ)), KeysNodup Prod.fst sums →
      KeysNodup Prod.fst (batch.foldl addPerUser sums) ∧
        sumOf userID (batch.foldl addPerUser sums) = sumOf userID sums + batch.bytesOf userID := by
    intro batch
    induction batch with
    | nil => exact fun sums hnodup => ⟨hnodup, (add_zero _).symm⟩
    | cons entry batch ih =>
      intro sums hnodup
      obtain ⟨hkeys, hsum⟩ := ih (addPerUser sums entry) (keysNodup_addPerUser hnodup entry)
      refine ⟨hkeys, hsum.trans ?_⟩
      rw [sumOf_addPerUser huser hnodup, Batch.bytesOf_cons entry.1 entry.2, add_assoc]
  obtain ⟨hkeys, hsum⟩ := hfold batch [] List.nodup_nil
  exact ⟨hkeys, hsum.trans (zero_add _)⟩

/-- The windows that were read, and what is due in them. -/
structure Windows (db : Db) (sums : List (String × ℤ))
    (windows : List (String × ℤ × SubscriptionWindow)) : Prop where
  current : ∀ x ∈ windows, windowOf x.1 db = some x.2.2
  users : (windows.map Prod.fst).Sublist (sums.map Prod.fst)
  due : ∀ userID, (windowOf userID db).isSome = true → dueTo userID windows = sumOf userID sums

theorem exec_readWindows (sums : List (String × ℤ)) :
    ∀ (result : FlushResult) (s : Server), ((readWindows sums result).exec s).2 = s ∧
      Windows s.db sums ((readWindows sums result).exec s).1.1 := by
  induction sums with
  | nil => exact fun _ s => ⟨rfl, by simp [readWindows], List.Sublist.refl _, fun _ _ => rfl⟩
  | cons p sums ih =>
    intro result s
    obtain ⟨userID, bytes⟩ := p
    simp only [readWindows, Task.query, bind_eq, Prog.read_bind, Prog.exec_act, id_eq]
    cases hwindow : windowOf userID s.db with
    | none =>
      obtain ⟨hstate, hrest⟩ := ih { result with unclaimedBytes := result.unclaimedBytes + bytes } s
      refine ⟨hstate, hrest.current, hrest.users.cons _, fun v hv => ?_⟩
      have hne : userID ≠ v := by
        intro heq
        rw [heq] at hwindow
        rw [hwindow] at hv
        cases hv
      refine (hrest.due v hv).trans ?_
      unfold sumOf
      rw [List.map_cons, List.sum_cons, if_neg hne, zero_add]
    | some window =>
      obtain ⟨hstate, hrest⟩ := ih result s
      simp only [exec_bind]
      refine ⟨hstate, ?_, hrest.users.cons_cons _, fun v hv => ?_⟩
      · intro x hx
        rcases List.mem_cons.mp hx with rfl | hx
        · exact hwindow
        · exact hrest.current x hx
      · have htail := hrest.due v hv
        unfold dueTo sumOf at htail ⊢
        rw [List.map_cons, List.sum_cons, ← htail]
        rfl

/-! ## Charging -/

theorem windowOf_addUsed (db : Db) (id : String) (delta : ℤ) (userID : String) :
    windowOf userID (db.addUsed id delta) = windowOf userID db := by
  unfold windowOf Db.activeSubscription Db.addUsed updateWhere
  rw [List.find?_map]
  have hp : ((fun s : UserSubscription => decide (s.userID = userID) && Db.isActive s) ∘
      fun r => if decide (r.id = id) = true then
        { r with periodUsedBytes := max 0 (r.periodUsedBytes + delta) } else r) =
      fun s => decide (s.userID = userID) && Db.isActive s := by
    funext r
    simp only [Function.comp_apply]
    split <;> rfl
  rw [hp, Option.map_map]
  congr 1
  funext r
  simp only [Function.comp_apply]
  split <;> rfl

variable {db : Db}

theorem exists_of_windowOf (h : windowOf userID db = some window) :
    ∃ row ∈ db.userSubscriptions, row.userID = userID ∧ Db.isActive row = true ∧
      row.id = window.id := by
  obtain ⟨row, hrow, rfl⟩ := Option.map_eq_some_iff.mp h
  have hp := List.find?_some hrow
  simp only [Bool.and_eq_true, decide_eq_true_eq] at hp
  exact ⟨row, List.mem_of_find?_eq_some hrow, hp.1, hp.2, rfl⟩

theorem Db.SubsIndexed.addUsed (h : db.SubsIndexed) (id : String) (delta : ℤ) :
    (db.addUsed id delta).SubsIndexed := by
  constructor
  · refine keysNodup_updateWhere ?_ h.subs
    intro r _
    rfl
  · refine uniqueWhere_updateWhere UserSubscription.userID h.actives ?_
    intro r _ _ hactive
    exact ⟨hactive, rfl⟩

/-- Every active row of the user was active before, with `due` bytes less. -/
def Db.UsedMore (userID : String) (due : ℤ) (db db' : Db) : Prop :=
  ∀ r' ∈ db'.userSubscriptions, r'.userID = userID → Db.isActive r' = true →
    ∃ r ∈ db.userSubscriptions, r.userID = userID ∧ Db.isActive r = true ∧
      r'.periodUsedBytes = r.periodUsedBytes + due

theorem Db.UsedMore.refl (userID : String) (db : Db) : Db.UsedMore userID 0 db db :=
  fun r hr huser hactive => ⟨r, hr, huser, hactive, (add_zero _).symm⟩

/-- What charges leave: the counters but for the marks, and the row of the user in force with the
bytes that were due to it. -/
structure Charged (userID : String) (due : ℤ) (s s' : Server) : Prop where
  users : s'.usage.users = s.usage.users
  entries : s'.usage.entries = s.usage.entries
  keyBytes : s'.usage.keyBytes = s.usage.keyBytes
  indexed : s'.db.SubsIndexed
  rows : Db.UsedMore userID due s.db s'.db

theorem Charged.refl (userID : String) (hs : s.db.SubsIndexed) : Charged userID 0 s s :=
  ⟨rfl, rfl, rfl, hs, .refl userID s.db⟩

theorem Charged.trans {due1 due2 : ℤ} {s1 s2 s3 : Server} (h1 : Charged userID due1 s1 s2)
    (h2 : Charged userID due2 s2 s3) : Charged userID (due1 + due2) s1 s3 := by
  refine ⟨h2.users.trans h1.users, h2.entries.trans h1.entries, h2.keyBytes.trans h1.keyBytes,
    h2.indexed, fun r hr huser hactive => ?_⟩
  obtain ⟨r2, hr2, huser2, hactive2, hused2⟩ := h2.rows r hr huser hactive
  obtain ⟨r1, hr1, huser1, hactive1, hused1⟩ := h1.rows r2 hr2 huser2 hactive2
  exact ⟨r1, hr1, huser1, hactive1, by rw [hused2, hused1, add_assoc]⟩

theorem Charged.marked {due : ℤ} {s' : Server} (h : Charged userID due s s') (v : String)
    (bytes : ℤ) : Charged userID due s { s' with usage := s'.usage.markPersisted v bytes } := by
  refine ⟨?_, ?_, ?_, h.indexed, h.rows⟩
  · refine Eq.trans ?_ h.users
    unfold Counters.markPersisted
    split <;> rfl
  · refine Eq.trans ?_ h.entries
    unfold Counters.markPersisted
    split <;> rfl
  · refine Eq.trans ?_ h.keyBytes
    unfold Counters.markPersisted
    split <;> rfl

/-- The user's row in force does not fall below zero with these bytes. -/
def Db.TakesUsage (userID : String) (bytes : ℤ) (db : Db) : Prop :=
  ∀ r ∈ db.userSubscriptions, r.userID = userID → Db.isActive r = true →
    0 ≤ r.periodUsedBytes + bytes

theorem Charged.takesUsage {due rest : ℤ} {s' : Server} (h : Charged userID due s s')
    (hs : s.db.TakesUsage userID (due + rest)) : s'.db.TakesUsage userID rest := by
  intro r hr huser hactive
  obtain ⟨r0, hr0, huser0, hactive0, hused⟩ := h.rows r hr huser hactive
  rw [hused, add_assoc]
  exact hs r0 hr0 huser0 hactive0

theorem Charged.addUsed {bytes : ℤ} (hs : s.db.SubsIndexed)
    (hwindow : windowOf userID s.db = some window) (hnonneg : s.db.TakesUsage userID bytes) :
    Charged userID bytes s { s with db := s.db.addUsed window.id bytes } := by
  refine ⟨rfl, rfl, rfl, hs.addUsed _ _, fun r' hr' huser hactive => ?_⟩
  obtain ⟨row, hrow, hrowuser, hrowactive, hid⟩ := exists_of_windowOf hwindow
  obtain ⟨r, hr, rfl⟩ := mem_updateWhere.mp hr'
  have hruser : r.userID = userID := by
    revert huser
    split <;> exact id
  have hractive : Db.isActive r = true := by
    revert hactive
    split <;> exact id
  -- the row in force is the one the window was read from
  have hsame : r = row := hs.eq_of_active hr hractive hrow hrowactive (hruser.trans hrowuser.symm)
  refine ⟨r, hr, hruser, hractive, ?_⟩
  rw [if_pos (decide_eq_true (hsame ▸ hid))]
  exact max_eq_right (hnonneg r hr hruser hractive)

theorem Charged.addUsed_other {v : String} {bytes : ℤ} (hs : s.db.SubsIndexed)
    (hwindow : windowOf v s.db = some window) (hne : v ≠ userID) :
    Charged userID 0 s { s with db := s.db.addUsed window.id bytes } := by
  refine ⟨rfl, rfl, rfl, hs.addUsed _ _, fun r' hr' huser hactive => ?_⟩
  obtain ⟨row, hrow, hrowuser, -, hid⟩ := exists_of_windowOf hwindow
  obtain ⟨r, hr, rfl⟩ := mem_updateWhere.mp hr'
  by_cases hguard : r.id = window.id
  · have hsame : r = row :=
      eq_of_mem_of_key_eq hs.subs hr hrow (hguard.trans hid.symm)
    rw [if_pos (decide_eq_true hguard)] at huser
    exact absurd (hrowuser.symm.trans (hsame ▸ huser)) hne
  · rw [if_neg (by simp [hguard])] at huser hactive ⊢
    exact ⟨r, hr, huser, hactive, (add_zero _).symm⟩

theorem exec_chargeSubscription (io : Faults) {v : String} (hwindow : windowOf v s.db = some window)
    (bytes : ℤ) :
    (chargeSubscription io v window bytes).exec s =
      ((addSubscriptionUsedBytes io window.id bytes s.db).1.map fun _ => true,
        { s with db := (addSubscriptionUsedBytes io window.id bytes s.db).2 }) := by
  unfold chargeSubscription
  simp only [Task.query, bind_eq, Prog.read_bind, Prog.exec_act, id_eq, hwindow, ne_eq,
    not_true_eq_false, if_false]
  rfl

theorem dueTo_eq_zero {windows : List (String × ℤ × SubscriptionWindow)}
    (h : userID ∉ windows.map Prod.fst) : dueTo userID windows = 0 := by
  refine List.sum_eq_zero fun n hn => ?_
  obtain ⟨x, hx, rfl⟩ := List.mem_map.mp hn
  have hne : x.1 ≠ userID := fun heq => h (heq ▸ List.mem_map_of_mem hx)
  exact if_neg hne

theorem dueTo_cons (userID : String) (x : String × ℤ × SubscriptionWindow)
    (windows : List (String × ℤ × SubscriptionWindow)) :
    dueTo userID (x :: windows) = (if x.1 = userID then x.2.1 else 0) + dueTo userID windows := by
  unfold dueTo
  rw [List.map_cons, List.sum_cons]

variable {env : FlushEnv}

theorem exec_chargeAll (hio : env.chargeIO userID = noFaults)
    (windows : List (String × ℤ × SubscriptionWindow)) :
    ∀ (result : FlushResult) (s : Server), s.db.SubsIndexed → (windows.map Prod.fst).Nodup →
      (∀ x ∈ windows, windowOf x.1 s.db = some x.2.2) →
      s.db.TakesUsage userID (dueTo userID windows) →
      Charged userID (dueTo userID windows) s ((chargeAll env windows result).exec s).2 := by
  induction windows with
  | nil => exact fun _ s hs _ _ _ => .refl userID hs
  | cons x windows ih =>
    intro result s hs hnodup hcurrent hnonneg
    obtain ⟨v, bytes, window⟩ := x
    obtain ⟨hnew, hnodup⟩ := List.nodup_cons.mp hnodup
    have hwindow : windowOf v s.db = some window := hcurrent _ (.head _)
    have hrest : ∀ x ∈ windows, windowOf x.1 s.db = some x.2.2 := fun x hx =>
      hcurrent x (.tail _ hx)
    rw [dueTo_cons]
    rw [chargeAll, bind_eq, exec_bind, exec_chargeSubscription _ hwindow]
    by_cases hv : v = userID
    · subst hv
      rw [dueTo_cons, if_pos rfl] at hnonneg
      have hnow : s.db.TakesUsage v bytes := by rwa [dueTo_eq_zero hnew, add_zero] at hnonneg
      obtain ⟨row, hrow, -, -, hid⟩ := exists_of_windowOf hwindow
      have hfound : (s.db.subscription window.id).isSome = true :=
        (lookup_isSome_iff UserSubscription.id).mpr (List.mem_map.mpr ⟨row, hrow, hid⟩)
      rw [hio, addSubscriptionUsedBytes_noFaults bytes hfound, if_pos rfl]
      have hturn := (Charged.addUsed hs hwindow hnow).marked v bytes
      refine hturn.trans (ih _ _ hturn.indexed hnodup (fun x hx => ?_) (hturn.takesUsage hnonneg))
      exact (windowOf_addUsed s.db window.id bytes x.1).trans (hrest x hx)
    · rw [dueTo_cons, if_neg hv] at hnonneg
      rw [if_neg hv]
      cases hcharge : addSubscriptionUsedBytes (env.chargeIO v) window.id bytes s.db with
      | mk answer db =>
        cases answer with
        | error e =>
          have hdb : db = s.db := by
            have hsame := addSubscriptionUsedBytes_error (congrArg Prod.fst hcharge)
            rwa [hcharge] at hsame
          subst hdb
          rw [zero_add] at hnonneg ⊢
          exact ih _ s hs hnodup hrest hnonneg
        | ok u =>
          have hdb : db = s.db.addUsed window.id bytes := by
            have hdone := addSubscriptionUsedBytes_ok (congrArg Prod.fst hcharge)
            rwa [hcharge] at hdone
          subst hdb
          have hother : Charged userID 0 s { s with db := s.db.addUsed window.id bytes } :=
            .addUsed_other hs hwindow hv
          have hturn := hother.marked v bytes
          refine hturn.trans (ih _ _ hturn.indexed hnodup (fun x hx => ?_) (hturn.takesUsage hnonneg))
          exact (windowOf_addUsed s.db window.id bytes x.1).trans (hrest x hx)

/-! ## A pass -/

/-- What a pass leaves of a user's bytes: all of them in the buckets, or all of them on the row of
the subscription in force. -/
inductive Flushed (userID : String) (bytes : ℤ) (s s' : Server) : Prop where
  /-- nothing to write, or the batch was put back -/
  | kept (hdb : s'.db = s.db) (husers : s'.usage.users = s.usage.users) (hsound : s'.usage.Sound)
      (hpending : s'.usage.pending userID = bytes)
  | written (husers : s'.usage.users = s.usage.users) (hsound : s'.usage.Sound)
      (hpending : s'.usage.pending userID = 0) (hindexed : s'.db.SubsIndexed)
      (hrows : Db.UsedMore userID bytes s.db s'.db)

theorem windowOf_isSome {r : UserSubscription} (hr : r ∈ db.userSubscriptions)
    (huser : r.userID = userID) (hactive : Db.isActive r = true) :
    (windowOf userID db).isSome = true := by
  unfold windowOf Db.activeSubscription
  rw [Option.isSome_map, List.find?_isSome]
  exact ⟨r, hr, by simp [huser, hactive]⟩

theorem flushBatch_leaves (huser : userID ≠ "") (hio : env.chargeIO userID = noFaults)
    (hsound : s.usage.Sound) (hs : s.db.SubsIndexed) (hdrained : s.usage.pending userID = 0)
    (hnonneg : s.db.TakesUsage userID (batch.bytesOf userID)) :
    Flushed userID (batch.bytesOf userID) s ((flushBatch env batch).exec s).2 := by
  unfold flushBatch
  by_cases hfails : env.hourlyFails = true
  · rw [if_pos hfails]
    obtain ⟨hdb, husers, hsound', hpending⟩ :=
      exec_requeue userID (env.requeueOrder.visit batch) s hsound
    simp only [bind_eq, exec_bind, Prog.pure_eq_ret, Prog.exec_ret]
    refine .kept hdb husers hsound' ?_
    rw [hpending, hdrained, zero_add, Batch.bytesOf_perm (env.requeueOrder.perm batch)]
  · rw [if_neg hfails]
    simp only [bind_eq, exec_bind, Prog.pure_eq_ret, Prog.exec_ret]
    obtain ⟨hkeys, hsum⟩ := sumOf_perUser huser batch
    obtain ⟨hstate, hwindows⟩ := exec_readWindows (env.windowOrder.visit (perUser batch))
      { rows := batch.length, bytes := (batch.map fun entry => entry.2.total).sum } s
    generalize (readWindows (env.windowOrder.visit (perUser batch))
      { rows := batch.length, bytes := (batch.map fun entry => entry.2.total).sum }).exec s = read
      at hstate hwindows ⊢
    obtain ⟨⟨windows, result⟩, s1⟩ := read
    simp only at hstate hwindows ⊢
    subst hstate
    -- the orders of the two loops do not matter
    have hvisit := env.chargeOrder.perm windows
    have hnodup : ((env.chargeOrder.visit windows).map Prod.fst).Nodup := by
      refine (hvisit.map Prod.fst).nodup_iff.mpr (hwindows.users.nodup ?_)
      exact ((env.windowOrder.perm (perUser batch)).map Prod.fst).nodup_iff.mpr hkeys
    have hdue : ∀ r ∈ s1.db.userSubscriptions, r.userID = userID → Db.isActive r = true →
        dueTo userID (env.chargeOrder.visit windows) = batch.bytesOf userID := by
      intro r hr hruser hactive
      have hsame : dueTo userID (env.chargeOrder.visit windows) = dueTo userID windows :=
        (hvisit.map _).sum_eq
      rw [hsame, hwindows.due userID (windowOf_isSome hr hruser hactive), ← hsum]
      exact ((env.windowOrder.perm (perUser batch)).map _).sum_eq
    have hcharged := exec_chargeAll hio (env.chargeOrder.visit windows) result s1 hs hnodup
      (fun x hx => hwindows.current x (hvisit.mem_iff.mp hx)) ?_
    · refine .written hcharged.users (hsound.of_buckets hcharged.entries hcharged.keyBytes) ?_
        hcharged.indexed fun r' hr' hruser hactive => ?_
      · exact (Counters.pending_congr hcharged.entries userID).trans hdrained
      · obtain ⟨r, hr, hru, hra, hused⟩ := hcharged.rows r' hr' hruser hactive
        exact ⟨r, hr, hru, hra, by rw [hused, hdue r hr hru hra]⟩
    · intro r hr hruser hactive
      rw [hdue r hr hruser hactive]
      exact hnonneg r hr hruser hactive

theorem flushOnce_leaves (huser : userID ≠ "") (hio : env.chargeIO userID = noFaults)
    (hsound : s.usage.Sound) (hs : s.db.SubsIndexed)
    (hnonneg : s.db.TakesUsage userID (s.usage.pending userID)) :
    Flushed userID (s.usage.pending userID) s ((flushOnce env).exec s).2 := by
  unfold flushOnce
  rw [Prog.exec_locked]
  simp only [bind_eq, Prog.read_bind, Prog.exec_act, id_eq]
  by_cases hnone : s.usage.keys = []
  · rw [if_pos hnone]
    exact .kept rfl rfl hsound rfl
  rw [if_neg hnone, exec_bind]
  obtain ⟨hdb, husers, hsound', hpending, hbytes⟩ := exec_drain_keys hsound userID
  generalize (drain s.usage.keys []).exec s = drained at hdb husers hsound' hpending hbytes ⊢
  obtain ⟨batch, s1⟩ := drained
  simp only at hdb husers hsound' hpending hbytes ⊢
  by_cases hempty : batch = []
  · rw [if_pos hempty]
    refine .kept hdb husers hsound' (hpending.trans ?_)
    rw [← hbytes, hempty]
    rfl
  rw [if_neg hempty]
  have hnonneg' : s1.db.TakesUsage userID (batch.bytesOf userID) := by rwa [hdb, hbytes]
  rw [← hbytes]
  cases flushBatch_leaves huser hio hsound' (hs.of_subs (by rw [hdb])) hpending hnonneg' with
  | kept hdb2 husers2 hsound2 hpending2 =>
    exact .kept (hdb2.trans hdb) (husers2.trans husers) hsound2 hpending2
  | written husers2 hsound2 hpending2 hindexed hrows =>
    rw [hdb] at hrows
    exact .written (husers2.trans husers) hsound2 hpending2 hindexed hrows

end Prism
