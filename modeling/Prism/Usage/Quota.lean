import Prism.Usage.Persist
import Prism.Usage.Turns

/-!
# What the quota counter stands for

A quota is checked against the aggregate of a user, a running total in memory.  It stands for the
usage on the row of the subscription in force and what the buckets hold and no pass has written yet
(`QuotaExact`).

Starting a period is different.  A rollover, a purchase, an assignment and a renewal start the row
and the aggregate over, and leave the buckets alone: what they hold is charged to the new period by
the next flush, and the aggregate has forgotten it.  Making another subscription active moves the
row and leaves the aggregate of the one before it.
-/

namespace Prism

open Table

/-! ## The books of one user -/

/-- The counter is what the row in force has and what the buckets hold. -/
def QuotaExact (userID : String) (s : Server) : Prop :=
  ∀ row ∈ s.db.userSubscriptions, row.userID = userID → Db.isActive row = true →
    s.usage.userBytes userID = row.periodUsedBytes + s.usage.pending userID
  deriving Decidable

structure Books (userID : String) (s : Server) : Prop where
  sound : s.usage.Sound
  indexed : s.db.SubsIndexed
  exact : QuotaExact userID s

section

variable {userID : String} {s s' : Server}

theorem Books.of_rows (h : Books userID s) (hsound : s'.usage.Sound) (hindexed : s'.db.SubsIndexed)
    (hbytes : s'.usage.userBytes userID = s.usage.userBytes userID)
    (hpending : s'.usage.pending userID = s.usage.pending userID)
    (hrows : Db.UsedMore userID 0 s.db s'.db) : Books userID s' := by
  refine ⟨hsound, hindexed, fun r' hr' huser hactive => ?_⟩
  obtain ⟨r, hr, hruser, hractive, hused⟩ := hrows r' hr' huser hactive
  rw [hbytes, hpending, hused, add_zero]
  exact h.exact r hr hruser hractive

theorem Books.fresh (hsound : s'.usage.Sound) (hindexed : s'.db.SubsIndexed)
    (hbytes : s'.usage.userBytes userID = 0) (hpending : s'.usage.pending userID = 0)
    (hrows : ∀ r' ∈ s'.db.userSubscriptions, r'.userID = userID → Db.isActive r' = true →
      r'.periodUsedBytes = 0) : Books userID s' := by
  refine ⟨hsound, hindexed, fun r' hr' huser hactive => ?_⟩
  rw [hbytes, hpending, hrows r' hr' huser hactive]
  rfl

end

/-! ## Starting the counters over -/

namespace Counters

variable (c : Counters)

theorem entries_resetUser (v : String) : (c.resetUser v).entries = c.entries := by
  unfold resetUser
  split <;> rfl

theorem Sound.resetUser {c : Counters} (h : c.Sound) (v : String) : (c.resetUser v).Sound := by
  refine h.of_buckets (c.entries_resetUser v) ?_
  unfold Counters.resetUser
  split <;> rfl

theorem pending_resetUser (v userID : String) : (c.resetUser v).pending userID = c.pending userID :=
  pending_congr (c.entries_resetUser v) userID

theorem userBytes_resetUser (userID : String) : (c.resetUser userID).userBytes userID = 0 := by
  unfold userBytes resetUser
  by_cases hempty : userID = ""
  · rw [if_pos hempty]
  · rw [if_neg hempty, if_neg hempty]
    simp only [resetMark, resetAggregate, Function.update_self]
    cases c.users userID <;> rfl

theorem userBytes_resetUser_of_ne {v userID : String} (hne : v ≠ userID) :
    (c.resetUser v).userBytes userID = c.userBytes userID := by
  unfold userBytes resetUser
  split
  · rfl
  · by_cases hv : v = ""
    · rw [if_pos hv]
    · rw [if_neg hv]
      simp only [resetMark, resetAggregate, Function.update_of_ne (Ne.symm hne)]

end Counters

/-! ## Traffic and flushes -/

section

variable {userID : String} {s : Server}

theorem exec_add (huser : userID ≠ "") (hsound : s.usage.Sound) (key : CounterKey) (delta : Delta) :
    ((add key delta).exec s).2.db = s.db ∧ ((add key delta).exec s).2.usage.Sound ∧
      ((add key delta).exec s).2.usage.pending userID =
        s.usage.pending userID + (if key.userID = userID then delta.total else 0) ∧
      ((add key delta).exec s).2.usage.userBytes userID =
        s.usage.userBytes userID + (if key.userID = userID then delta.total else 0) := by
  unfold add
  by_cases hzero : delta = 0
  · rw [if_pos hzero, hzero, Delta.total_zero, ite_self, add_zero, add_zero]
    exact ⟨rfl, hsound, rfl, rfl⟩
  rw [if_neg hzero]
  have hsound' := hsound.addToBuckets key delta
  have hpending := Counters.pending_addToBuckets hsound key delta userID
  by_cases hcounted : delta.total ≠ 0 ∧ key.userID ≠ ""
  · simp only [if_pos hcounted]
    refine ⟨rfl, hsound'.of_buckets rfl rfl, hpending, ?_⟩
    have hcount := (s.usage.addToBuckets key delta).getD_addToUser key.userID userID delta.total
    unfold Counters.userBytes
    rw [if_neg huser, if_neg huser, add_comm]
    exact hcount
  · simp only [if_neg hcounted]
    refine ⟨rfl, hsound', hpending, ?_⟩
    -- no bytes, or nobody's
    have hnone : (if key.userID = userID then delta.total else 0) = 0 := by
      by_cases howner : key.userID = userID
      · rw [if_pos howner]
        by_contra hbytes
        exact hcounted ⟨hbytes, howner ▸ huser⟩
      · exact if_neg howner
    rw [hnone, add_zero]
    rfl

theorem Books.add (huser : userID ≠ "") (h : Books userID s) (key : CounterKey) (delta : Delta) :
    Books userID ((Prism.add key delta).exec s).2 := by
  obtain ⟨hdb, hsound, hpending, hbytes⟩ := exec_add huser h.sound key delta
  refine ⟨hsound, h.indexed.of_subs (by rw [hdb]), fun row hrow hrowuser hactive => ?_⟩
  rw [hdb] at hrow
  rw [hpending, hbytes, h.exact row hrow hrowuser hactive, add_assoc]

theorem Books.flush (huser : userID ≠ "") (h : Books userID s) {env : FlushEnv}
    (hio : env.chargeIO userID = noFaults) (hnonneg : 0 ≤ s.usage.userBytes userID) :
    Books userID ((flushOnce env).exec s).2 := by
  have hcharge : s.db.TakesUsage userID (s.usage.pending userID) := fun r hr hruser hactive =>
    h.exact r hr hruser hactive ▸ hnonneg
  cases flushOnce_leaves huser hio h.sound h.indexed hcharge with
  | kept hdb husers hsound hpending =>
    exact h.of_rows hsound (h.indexed.of_subs (by rw [hdb]))
      (Counters.userBytes_congr husers userID) hpending (hdb ▸ .refl userID s.db)
  | written husers hsound hpending hindexed hrows =>
    refine ⟨hsound, hindexed, fun r' hr' hruser hactive => ?_⟩
    obtain ⟨r, hr, hru, hra, hused⟩ := hrows r' hr' hruser hactive
    rw [Counters.userBytes_congr husers, hpending, hused, add_zero]
    exact h.exact r hr hru hra

end

/-! ## Rollovers -/

theorem Db.SubsIndexed.restartPeriod {db : Db} (h : db.SubsIndexed) (id : String)
    (fromNs toNs : ℤ) : (db.restartPeriod id fromNs toNs).SubsIndexed := by
  constructor
  · unfold KeysNodup
    rw [db.map_id_restartPeriod]
    exact h.subs
  · refine uniqueWhere_updateWhere UserSubscription.userID h.actives ?_
    intro r _ _ hactive
    exact ⟨hactive, rfl⟩

/-- How a pass that began at `s` stands: every row is as it was, or its period has been started. -/
structure Rolling (userID : String) (s t : Server) : Prop where
  books : Books userID t
  entries : t.usage.entries = s.usage.entries
  plans : t.db.plans = s.db.plans
  rows : ∀ r ∈ t.db.userSubscriptions, ∃ old ∈ s.db.userSubscriptions, old.id = r.id ∧
    old.userID = r.userID ∧ Db.isActive old = Db.isActive r ∧ (old = r ∨ r.periodUsedBytes = 0)

section

variable {userID : String} {s t t' : Server}

def StartsEmpty (userID : String) (env : PeriodEnv) (s : Server) : Prop :=
  s.usage.pending userID = 0 ∨ ∀ row ∈ s.db.userSubscriptions, row.userID = userID →
    Db.isActive row = true → rollTarget env s.db row = none
  deriving Decidable

theorem Rolling.turn (hs : s.db.SubsIndexed) {env : PeriodEnv}
    (hempty : StartsEmpty userID env s) (h : Rolling userID s t) {sub : UserSubscription}
    (hsub : sub ∈ s.db.userSubscriptions) (hturn : RollTurn env sub t t') :
    Rolling userID s t' := by
  cases hturn with
  | stays ht => rwa [ht]
  | rolls next hactive htarget ht =>
    subst ht
    have hsubactive : Db.isActive sub = true := decide_eq_true hactive
    refine ⟨?_, (t.usage.entries_resetUser _).trans h.entries, h.plans, fun r' hr' => ?_⟩
    swap
    · obtain ⟨r, hr, rfl⟩ := mem_updateWhere.mp hr'
      obtain ⟨old, hold, hid, huser, hact, hsame⟩ := h.rows r hr
      split
      · exact ⟨old, hold, hid, huser, hact, .inr rfl⟩
      · exact ⟨old, hold, hid, huser, hact, hsame⟩
    have hindexed := h.books.indexed.restartPeriod sub.id sub.periodStartNs next
    by_cases howner : sub.userID = userID
    · -- the user's own row: the buckets are empty, and whatever is in force has no usage
      have hpending : t.usage.pending userID = 0 := by
        rw [Counters.pending_congr h.entries]
        refine hempty.resolve_right fun hnone => ?_
        have hmoves := hnone sub hsub howner hsubactive
        rw [rollTarget_congr h.plans] at htarget
        rw [hmoves] at htarget
        cases htarget
      refine .fresh (h.books.sound.resetUser _) hindexed ?_ ?_ fun r' hr' hruser hract => ?_
      · rw [howner]
        exact t.usage.userBytes_resetUser userID
      · exact (t.usage.pending_resetUser _ _).trans hpending
      obtain ⟨r, hr, rfl⟩ := mem_updateWhere.mp hr'
      by_cases hguard : r.id = sub.id ∧ r.periodStartNs = sub.periodStartNs
      · rw [if_pos (by simp [hguard.1, hguard.2])]
      rw [if_neg (by simpa using hguard)] at hruser hract ⊢
      obtain ⟨old, hold, hid, huser, hact, hsame | hzero⟩ := h.rows r hr
      · have hall : old = sub := hs.eq_of_active hold (hact.trans hract) hsub hsubactive
          ((huser.trans hruser).trans howner.symm)
        rw [← hsame, hall] at hguard
        exact absurd ⟨rfl, rfl⟩ hguard
      · exact hzero
    · -- somebody else's: no row of the user is touched
      refine h.books.of_rows (h.books.sound.resetUser _) hindexed
        (t.usage.userBytes_resetUser_of_ne howner) (t.usage.pending_resetUser _ _)
        fun r' hr' hruser hract => ?_
      obtain ⟨r, hr, rfl⟩ := mem_updateWhere.mp hr'
      by_cases hguard : r.id = sub.id
      · obtain ⟨old, hold, hid, huser, -, -⟩ := h.rows r hr
        have hall : old = sub :=
          eq_of_mem_of_key_eq hs.subs hold hsub (hid.trans hguard)
        have hruser' : r.userID = userID := by
          revert hruser
          split <;> exact id
        exact absurd ((hall ▸ huser).trans hruser') howner
      · rw [if_neg (by simp [hguard])] at hruser hract ⊢
        exact ⟨r, hr, hruser, hract, (add_zero _).symm⟩

theorem Books.rollover (h : Books userID s) {env : PeriodEnv}
    (hempty : StartsEmpty userID env s) : Books userID ((runOnce env).exec s).2 := by
  have hrolled : Rolling userID s ((runOnce env).exec s).2 :=
    runOnce_invariant (fun sub hsub t t' hturn ht => ht.turn h.indexed hempty hsub hturn)
      ⟨h, rfl, rfl, fun r hr => ⟨r, hr, rfl, rfl, rfl, .inl rfl⟩⟩
  exact hrolled.books

end

/-- The books hold, and no row has changed hands. -/
structure Renewing (userID : String) (s t : Server) : Prop where
  books : Books userID t
  entries : t.usage.entries = s.usage.entries
  rows : ∀ r ∈ t.db.userSubscriptions, ∃ old ∈ s.db.userSubscriptions, old.id = r.id ∧
    old.userID = r.userID

section

variable {userID : String} {s t t' : Server} {v : String}

/-- **A new period**: a row of `v` is in force with no usage, and `v` has been started over. -/
theorem Books.started {s' : Server} (h : Books userID s) {new : UserSubscription}
    (husage : s'.usage = s.usage.resetUser v) (hindexed : s'.db.SubsIndexed)
    (hnew : new ∈ s'.db.userSubscriptions) (hnewuser : new.userID = v)
    (hnewactive : Db.isActive new = true) (hused : new.periodUsedBytes = 0)
    (hempty : v = userID → s.usage.pending userID = 0)
    (hrows : v ≠ userID → Db.UsedMore userID 0 s.db s'.db) : Books userID s' := by
  have hsound : s'.usage.Sound := husage ▸ h.sound.resetUser v
  by_cases howner : v = userID
  · refine .fresh hsound hindexed ?_ ?_ fun r hr hruser hactive => ?_
    · rw [husage, howner]
      exact s.usage.userBytes_resetUser userID
    · rw [husage, Counters.pending_resetUser]
      exact hempty howner
    · -- there is one row in force, and it is the new one
      rw [hindexed.eq_of_active hr hactive hnew hnewactive
        (hruser.trans (howner.symm.trans hnewuser.symm)), hused]
  · refine h.of_rows hsound hindexed ?_ ?_ (hrows howner)
    · rw [husage]
      exact s.usage.userBytes_resetUser_of_ne howner
    · rw [husage]
      exact s.usage.pending_resetUser _ _

theorem Db.UsedMore.inserted {db db' : Db} (h : Db.UsedMore userID 0 db db')
    {new : UserSubscription} (hnew : new.userID ≠ userID) :
    Db.UsedMore userID 0 db { db' with userSubscriptions := db'.userSubscriptions ++ [new] } := by
  intro r hr hruser hactive
  rcases List.mem_append.mp hr with hr | hr
  · exact h r hr hruser hactive
  · rw [List.mem_singleton.mp hr] at hruser
    exact absurd hruser hnew

theorem Db.Ended.usedMore {db db' : Db} (h : Db.Ended db db') (userID : String) :
    Db.UsedMore userID 0 db db' := by
  intro r hr hruser hactive
  obtain ⟨r0, hr0, -, huser, hused, hact⟩ := h.rows r hr
  exact ⟨r0, hr0, huser.trans hruser, hact hactive, by rw [← hused, add_zero]⟩

theorem Renewing.refl (h : Books userID s) : Renewing userID s s :=
  ⟨h, rfl, fun r hr => ⟨r, hr, rfl, rfl⟩⟩

variable {nowNs : ℤ}

theorem Renewing.turn (hs : s.db.SubsIndexed) (h : Renewing userID s t) {sub : UserSubscription}
    (hsub : sub ∈ s.db.userSubscriptions)
    (hempty : sub.userID = userID → s.usage.pending userID = 0)
    (hturn : Console.RenewTurn nowNs sub t t') : Renewing userID s t' := by
  cases hturn with
  | idle hdb husage =>
    obtain ⟨⟨db, keys⟩, usage⟩ := t'
    simp only at hdb husage
    subst hdb husage
    exact ⟨⟨h.books.sound, h.books.indexed, h.books.exact⟩, h.entries, h.rows⟩
  | renewed plan price requestID entryID hgrants hdb husage =>
    generalize hw : renewalWrite sub plan price nowNs requestID entryID = w at hgrants hdb
    have hwid : w.sub.id = sub.id := by rw [← hw]; rfl
    obtain ⟨row, hrow⟩ := hgrants.renewable
    have hindexed : t'.db.SubsIndexed := by
      rw [hdb]
      have hposted : (t.db.post (t.db.settled w.entry)).SubsIndexed := h.books.indexed.of_subs rfl
      exact hposted.renewed ⟨hrow.at_period, hrow.alone⟩
    have hmem : ∀ r' ∈ t'.db.userSubscriptions, ∃ r ∈ t.db.userSubscriptions,
        r'.id = r.id ∧ r'.userID = r.userID ∧ (r.id ≠ sub.id → r' = r) := by
      intro r' hr'
      rw [hdb] at hr'
      obtain ⟨r, hr, rfl⟩ := mem_updateWhere.mp hr'
      refine ⟨r, hr, ?_, ?_, fun hne => if_neg (by simp [hwid, hne])⟩
      · split <;> rfl
      · split <;> rfl
    -- a row with the id that was read belongs to the user it was read for
    have howners : ∀ r ∈ t.db.userSubscriptions, r.id = sub.id → r.userID = sub.userID := by
      intro r hr heq
      obtain ⟨old, hold, hid, huser⟩ := h.rows r hr
      rw [← huser, eq_of_mem_of_key_eq hs.subs hold hsub (hid.trans heq)]
    refine ⟨?_, ?_, fun r' hr' => ?_⟩
    · obtain ⟨hlook, hperiod⟩ := Db.subscription_of_atPeriod h.books.indexed.subs hrow.at_period
      have hrowmem := mem_of_lookup hlook
      have hrowid : row.id = w.sub.id := key_of_lookup hlook
      have hnew : Db.renewColumns w.sub (snapshotOrEmpty w.sub.planSnapshot) row ∈
          t'.db.userSubscriptions := by
        rw [hdb]
        exact mem_updateWhere.mpr ⟨row, hrowmem, if_pos (by simp [hrowid, hperiod])⟩
      have hrowuser : row.userID = sub.userID := howners row hrowmem (hrowid.trans hwid)
      refine h.books.started husage hindexed hnew hrowuser rfl rfl (fun howner => ?_) ?_
      · rw [Counters.pending_congr h.entries]
        exact hempty howner
      intro howner r' hr' hruser hactive
      obtain ⟨r, hr, hid, huser, hkept⟩ := hmem r' hr'
      have hne : r.id ≠ sub.id := fun heq =>
        howner ((howners r hr heq).symm.trans (huser.symm.trans hruser))
      obtain rfl := hkept hne
      exact ⟨r', hr, hruser, hactive, (add_zero _).symm⟩
    · rw [husage]
      exact (t.usage.entries_resetUser _).trans h.entries
    · obtain ⟨r, hr, hid, huser, -⟩ := hmem r' hr'
      obtain ⟨old, hold, hoid, houser⟩ := h.rows r hr
      exact ⟨old, hold, hoid.trans hid.symm, houser.trans huser.symm⟩

theorem Books.sweep (h : Books userID s) {env : SweepEnv} (hempty : s.usage.pending userID = 0 ∨ ∀
      row ∈ listRenewableSubscriptions nowNs renewalLeadTimeNs s.db, row.userID ≠ userID) :
    Books userID ((Console.renewDueSubscriptions env nowNs).exec s).2 := by
  have hswept : Renewing userID s ((Console.renewDueSubscriptions env nowNs).exec s).2 := by
    refine Console.renewDueSubscriptions_invariant (fun sub hsub t t' hturn ht => ?_) (.refl h)
    refine ht.turn h.indexed (mem_listRenewableSubscriptions.mp hsub).1 (fun howner => ?_) hturn
    exact hempty.resolve_right fun hnone => hnone sub hsub howner
  exact hswept.books

theorem Books.selfRenew (h : Books userID s) {io : Faults} {entryID : Option String}
    {input : RenewInput} (hempty : v = userID → s.usage.pending userID = 0) :
    Books userID ((Console.selfRenew io entryID v input nowNs).exec s).2 := by
  rcases Console.selfRenew_turn io entryID v input nowNs s with
    hsame | ⟨sub, hsub, howner, -, hturn⟩
  · rwa [hsame]
  · exact ((Renewing.refl h).turn h.indexed hsub (fun hu => hempty (howner.symm.trans hu))
      hturn).books

theorem Books.purchase (h : Books userID s) {env : Console.SaleEnv} {input : Console.PurchaseInput}
    (hempty : v = userID → s.usage.pending userID = 0) :
    Books userID ((Console.selfPurchase env v input nowNs).exec s).2 := by
  have hturn := Console.selfPurchase_turn env v input nowNs s
  generalize ((Console.selfPurchase env v input nowNs).exec s).2 = s' at hturn ⊢
  cases hturn with
  | idle hdb husage =>
    exact h.of_rows (husage ▸ h.sound) (h.indexed.of_subs (by rw [hdb])) (by rw [husage])
      (by rw [husage]) (hdb ▸ .refl userID s.db)
  | sold id entryID requestID plan haccepted hdb husage =>
    generalize hsold : Console.soldRow id v plan plan.durationDays nowNs = sub at haccepted hdb
    generalize hentry : Console.purchaseEntry entryID v plan requestID nowNs = entry
      at haccepted hdb
    have hindexed : s'.db.SubsIndexed := by
      rw [hdb]
      have hposted : (s.db.post (s.db.settled entry)).SubsIndexed := h.indexed.of_subs rfl
      have huser : entry.userID = v := by rw [← hentry]; rfl
      unfold Db.purchasedBy
      rw [huser]
      exact (hposted.expired v).inserted haccepted
    have hnew : purchasedRow sub ∈ s'.db.userSubscriptions := by
      rw [hdb]
      exact List.mem_append_right _ (List.mem_singleton_self _)
    subst hsold
    refine h.started husage hindexed hnew rfl rfl rfl hempty fun howner => ?_
    rw [hdb]
    refine Db.UsedMore.inserted (fun r hr hruser hactive => ?_) howner
    obtain ⟨r0, hr0, rfl⟩ := mem_updateWhere.mp hr
    split at hactive
    · cases hactive
    · rename_i hguard
      rw [if_neg hguard] at hruser ⊢
      exact ⟨r0, hr0, hruser, hactive, (add_zero _).symm⟩

theorem Books.assign (h : Books userID s) {env : Console.SaleEnv} {planID : String} {days : ℤ}
    (hfresh : ∀ id, env.subID = some id → s.db.subscription id = none)
    (hempty : v = userID → s.usage.pending userID = 0) :
    Books userID ((Console.assignSubscription env v planID days nowNs).exec s).2 := by
  have hturn := Console.assignSubscription_turn env v planID days nowNs h.indexed
  generalize ((Console.assignSubscription env v planID days nowNs).exec s).2 = s' at hturn ⊢
  cases hturn with
  | refused hended husage =>
    exact h.of_rows (husage ▸ h.sound) hended.indexed (by rw [husage]) (by rw [husage])
      (hended.usedMore userID)
  | opened db hended id hid plan days hwrite husage =>
    have hnone : db.subscription id = none := by
      refine (lookup_eq_none_iff UserSubscription.id).mpr fun r hr heq => ?_
      obtain ⟨r0, hr0, hrid, -⟩ := hended.rows r hr
      have hnew := (lookup_eq_none_iff UserSubscription.id).mp (hfresh id hid)
      exact hnew r0 hr0 (hrid.trans heq)
    obtain ⟨haccepts, hdb⟩ := upsertUserSubscription_ok hwrite hnone
    have hindexed : s'.db.SubsIndexed := by
      rw [hdb]
      exact hended.indexed.inserted haccepts
    have hnew : storedTerms (Console.soldRow id v plan days nowNs) ∈ s'.db.userSubscriptions := by
      rw [hdb]
      exact List.mem_append_right _ (List.mem_singleton_self _)
    refine h.started husage hindexed hnew rfl rfl rfl hempty fun howner => ?_
    rw [hdb]
    exact (hended.usedMore userID).inserted howner

end

/-! ## Patches -/

/-- A patch makes a row of the user active only in place of one that has the same usage. -/
def ReplacesAlike (userID : String) (s : Server) (id : String) (patch : SubscriptionPatch)
    (nowNs : ℤ) : Prop :=
  match s.db.subscription id with
  | none => True
  | some row =>
    match patchedTerms patch nowNs row with
    | .error _ => True
    | .ok updated =>
      row.userID = userID → Db.isActive row = false →
        Db.isActive (storedTerms updated) = true →
        ∃ r ∈ s.db.userSubscriptions, r.userID = userID ∧ Db.isActive r = true ∧
          r.periodUsedBytes = row.periodUsedBytes

instance (userID : String) (s : Server) (id : String) (patch : SubscriptionPatch) (nowNs : ℤ) :
    Decidable (ReplacesAlike userID s id patch nowNs) := by
  unfold ReplacesAlike
  split
  · infer_instance
  · split <;> infer_instance

section

variable {userID : String} {s : Server}

theorem Books.patch (h : Books userID s) {io : ℕ → Faults} {id : String}
    {patch : SubscriptionPatch} {nowNs : ℤ} (halike : ReplacesAlike userID s id patch nowNs) :
    Books userID ((Console.updateTenantSubscription io id patch nowNs).exec s).2 := by
  rw [Console.exec_updateTenantSubscription]
  -- it is enough to look at the rows
  suffices hrows : (updateTenantSubscription io id patch nowNs s.toPanel).2.db.SubsIndexed ∧
      Db.UsedMore userID 0 s.db (updateTenantSubscription io id patch nowNs s.toPanel).2.db from
    h.of_rows h.sound hrows.1 rfl rfl hrows.2
  rcases updateTenantSubscription_db_cases io id patch nowNs s.toPanel with
    hsame | ⟨row, updated, hrow, hpatch, p, hp, hdb⟩
  · rw [hsame]
    exact ⟨h.indexed, .refl userID s.db⟩
  have hended : Db.Ended s.db p.db := by
    rcases hp with rfl | rfl
    · exact .refl h.indexed
    · exact expireActiveSubscriptions_ended _ _ h.indexed
  have hkept := hended.usedMore userID
  rcases hdb with hdb | hdb
  · rw [hdb]
    exact ⟨hended.indexed, hkept⟩
  rw [hdb]
  rcases updateUserSubscriptionTerms_cases (io 0) updated p.db with
    ⟨e, hfail⟩ | ⟨haccepts, hdone⟩
  · rw [hfail]
    exact ⟨hended.indexed, hkept⟩
  rw [hdone]
  refine ⟨hended.indexed.withTerms haccepts, fun r' hr' hruser hactive => ?_⟩
  have hkeeps : KeepsPeriod (.patch patch nowNs) row updated := TermsChange.keepsPeriod hpatch
  obtain ⟨r, hr, rfl⟩ := mem_updateWhere.mp hr'
  by_cases hguard : r.id = (storedTerms updated).id
  swap
  · rw [if_neg (by simp [hguard])] at hruser hactive ⊢
    exact hkept r hr hruser hactive
  -- the row that is written, as it was before the call
  rw [if_pos (decide_eq_true hguard)] at hruser hactive ⊢
  obtain ⟨r0, hr0, hid, huser, hused, -⟩ := hended.rows r hr
  have hrowmem := mem_of_lookup hrow
  have hall : r0 = row := eq_of_mem_of_key_eq h.indexed.subs hr0 hrowmem
    (hid.trans (hguard.trans hkeeps.id))
  have hrowuser : row.userID = userID := hkeeps.userID.symm.trans hruser
  cases hwas : Db.isActive row with
  | true => exact ⟨row, hrowmem, hrowuser, hwas, (hall ▸ hused.symm).trans (add_zero _).symm⟩
  | false =>
    unfold ReplacesAlike at halike
    rw [hrow] at halike
    simp only [hpatch] at halike
    obtain ⟨a, ha, hauser, haactive, haused⟩ := halike hrowuser hwas hactive
    exact ⟨a, ha, hauser, haactive, (haused.trans (hall ▸ hused)).symm.trans (add_zero _).symm⟩

end

/-- What moves a user's counter. -/
inductive QuotaOp where
  | add (key : CounterKey) (delta : Delta)
  /-- a pass whose charges succeed; its hourly rows may fail -/
  | flush (env : FlushEnv)
  | rollover (env : PeriodEnv)
  | purchase (env : Console.SaleEnv) (userID : String) (input : Console.PurchaseInput) (nowNs : ℤ)
  | assign (env : Console.SaleEnv) (userID planID : String) (durationDays nowNs : ℤ)
  | renewal (call : RenewCall)
  | update (io : ℕ → Faults) (id : String) (patch : SubscriptionPatch) (nowNs : ℤ)

namespace QuotaOp

def step (s : Server) : QuotaOp → Server
  | .add key delta => ((Prism.add key delta).exec s).2
  | .flush env => ((flushOnce { env with chargeIO := fun _ => noFaults }).exec s).2
  | .rollover env => ((runOnce env).exec s).2
  | .purchase env userID input nowNs => ((Console.selfPurchase env userID input nowNs).exec s).2
  | .assign env userID planID durationDays nowNs =>
    ((Console.assignSubscription env userID planID durationDays nowNs).exec s).2
  | .renewal (.sweep env nowNs) => ((Console.renewDueSubscriptions env nowNs).exec s).2
  | .renewal (.button io entryID userID input nowNs) =>
    ((Console.selfRenew io entryID userID input nowNs).exec s).2
  | .update io id patch nowNs => ((Console.updateTenantSubscription io id patch nowNs).exec s).2

/-- **The condition on a call**, in the state it is made from.  A call that starts a period of the
user finds the user's buckets empty, and a row that is made active again has the usage of the one it
replaces.  A flush finds a counter that is not negative, and an assignment has minted a new id. -/
def Clear (userID : String) (s : Server) : QuotaOp → Prop
  | .add _ _ => True
  | .flush _ => 0 ≤ s.usage.userBytes userID
  | .rollover env => StartsEmpty userID env s
  | .purchase _ v _ _ => v = userID → s.usage.pending userID = 0
  | .assign env v _ _ _ =>
    (env.subID.all fun id => (s.db.subscription id).isNone) = true ∧
      (v = userID → s.usage.pending userID = 0)
  | .renewal (.sweep _ nowNs) => s.usage.pending userID = 0 ∨
      ∀ row ∈ listRenewableSubscriptions nowNs renewalLeadTimeNs s.db, row.userID ≠ userID
  | .renewal (.button _ _ v _ _) => v = userID → s.usage.pending userID = 0
  | .update _ id patch nowNs => ReplacesAlike userID s id patch nowNs

instance (userID : String) (s : Server) (op : QuotaOp) : Decidable (op.Clear userID s) := by
  unfold Clear
  split <;> infer_instance

theorem books_step {userID : String} (huser : userID ≠ "") {s : Server} {op : QuotaOp}
    (hclear : op.Clear userID s) (h : Books userID s) : Books userID (step s op) := by
  cases op with
  | add key delta => exact h.add huser key delta
  | flush env => exact h.flush huser rfl hclear
  | rollover env => exact h.rollover hclear
  | purchase env v input nowNs => exact h.purchase hclear
  | assign env v planID days nowNs =>
    refine h.assign (fun id hid => ?_) hclear.2
    have hnew := hclear.1
    rw [hid] at hnew
    exact Option.isNone_iff_eq_none.mp hnew
  | renewal call =>
    cases call with
    | sweep env nowNs => exact h.sweep hclear
    | button io entryID v input nowNs => exact h.selfRenew hclear
  | update io id patch nowNs => exact h.patch hclear

end QuotaOp

/-- **The quota counter is what was persisted and what is pending.**  In every run whose calls all
meet the condition, the counter is exact after each of them, for the subscription that is in force
then. -/
theorem quota_exact (s : Server) (userID : String) (ops : List QuotaOp) (huser : userID ≠ "")
    (hsound : s.usage.Sound) (hindexed : s.db.SubsIndexed) (hexact : QuotaExact userID s)
    (hclear : Along QuotaOp.step (fun s op => op.Clear userID s) s ops) :
    Along QuotaOp.step (fun s op => QuotaExact userID (QuotaOp.step s op)) s ops :=
  hclear.imp_of_invariant (I := Books userID) (fun _ _ hop h => QuotaOp.books_step huser hop h)
    (fun _ _ hop h => (QuotaOp.books_step huser hop h).exact) ⟨hsound, hindexed, hexact⟩

def meteredPlan : Plan :=
  { id := "p", period := "30d", durationDays := 30, priceMicro := 5000000, status := .active }

def meteredSub : UserSubscription :=
  { id := "s", userID := "u", planID := "p", planSnapshot := .plan meteredPlan, startsAtNs := dayNs,
    expiresAtNs := 61 * dayNs, periodStartNs := dayNs, status := .active }

def meteredServer : Server :=
  { db :=
      { users := [.customer]
        plans := [meteredPlan]
        userSubscriptions := [meteredSub]
        userBalance := [⟨"u", 20000000, 0⟩] } }

def sevenBytes : QuotaOp := .add ⟨"k", "u", ""⟩ ⟨3, 4, 1, 0⟩

def rolloverOnDay31 : QuotaOp :=
  .rollover { loc := Location.fixed gregorian dayNs 0 dayNs_pos, nowNs := 31 * dayNs }

theorem inRange_none : ∀ v : ℤ, none = some v → v ≤ maxInt64 := by simp

/-- Traffic that is flushed before the period is over, the next period, a purchase, the first
subscription again in place of the one bought, and traffic that a first flush fails to write. -/
def meteredOps : List QuotaOp :=
  [sevenBytes, .flush {}, rolloverOnDay31,
    .purchase { subID := some "n", entryID := some "bl" } "u" ⟨"p", "r"⟩ (32 * dayNs),
    .update (fun _ => noFaults) "s" { status := some .active, inRange := inRange_none } (33 * dayNs),
    sevenBytes, .flush { hourlyFails := true }, .flush {}]

theorem quota_exact_metered :
    Along QuotaOp.step (fun s op => QuotaExact "u" (QuotaOp.step s op)) meteredServer meteredOps ∧
      (run QuotaOp.step meteredServer meteredOps).usage.userBytes "u" = 7 :=
  ⟨quota_exact meteredServer "u" meteredOps (by decide) Counters.sound_empty
    ⟨by decide, by decide⟩ (by decide +kernel) (by decide +kernel), by decide +kernel⟩

/-- **Bytes that are pending when a period starts are charged to the new period, and the counter
forgets them.** -/
theorem pending_bytes_cross_periods : QuotaExact "u" meteredServer ∧
      (run QuotaOp.step meteredServer [sevenBytes, rolloverOnDay31]).usage.userBytes "u" = 0 ∧
      ¬ QuotaExact "u" (run QuotaOp.step meteredServer [sevenBytes, rolloverOnDay31]) ∧
      (run QuotaOp.step meteredServer [sevenBytes, rolloverOnDay31, .flush {}]).usage.userBytes
        "u" = 0 ∧
      (run QuotaOp.step meteredServer [sevenBytes, rolloverOnDay31, .flush {}]).db.subscription
        "s" = some { meteredSub with periodStartNs := 31 * dayNs, periodUsedBytes := 7 } := by
  decide +kernel

end Prism
