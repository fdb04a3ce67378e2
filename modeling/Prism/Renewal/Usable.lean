import Prism.Renewal.Interleaving
import Prism.Renewal.Sweep

/-!
# A period that is paid for can be used

A renewal looks at the row, the price and the duration.  The data plane looks at the key, the user,
the window, and at the status of the plan inside the snapshot the row carries.  Disabling a plan
rewrites that status in the snapshots of its active subscriptions and leaves the rows active and
renewing: the sweep then charges for a period in which every key is refused.

Both callers are covered, the sweep with all the turns behind the one that charged: a turn publishes
the keys of its own user, and a user has one active row, so nobody else's turn touches the key.
-/

namespace Prism

open Table

/-- The plan a renewal of the row is charged for: the snapshot's own when it carries a price, the
live plan otherwise. -/
def Db.planCharged (db : Db) (s : UserSubscription) : Option Plan :=
  match planFromSnapshotJSON s.planSnapshot with
  | .error _ => none
  | .ok sold => if 0 < sold.priceMicro then some sold else db.plan s.planID

/-- The plan is not stopped: its status is active, or was never set. -/
def Plan.Open (plan : Plan) : Prop :=
  plan.status = .unset ∨ plan.status = .active

def Panel.KeyUsable (p : Panel) (key : AccessKey) (nowNs : ℤ) : Prop :=
  ∃ k, p.keys.get key.id = some k ∧ k.usable nowNs = true

instance (p : Panel) (key : AccessKey) (nowNs : ℤ) : Decidable (p.KeyUsable key nowNs) :=
  decidable_of_iff ((p.keys.get key.id).any fun k => k.usable nowNs) <| by
    rw [Option.any_eq_true_iff_get]
    constructor
    · rintro ⟨hsome, hk⟩
      exact ⟨_, (Option.some_get hsome).symm, hk⟩
    · rintro ⟨k, hget, hk⟩
      refine ⟨by rw [hget]; rfl, ?_⟩
      simpa [hget] using hk

/-! ## The row after a charge -/

variable {s : UserSubscription} {db : Db}

theorem planCharged_of_price {plan : Plan} {price : ℤ} (h : renewalPrice db s = .ok (plan, price)) :
    db.planCharged s = some plan := by
  obtain ⟨hpos, ⟨hsnap, -⟩ | ⟨-, hlive, sold, hsold, hfree⟩⟩ := renewalPrice_eq_ok h
  · unfold Db.planCharged
    rw [hsnap]
    exact if_pos hpos
  · unfold Db.planCharged
    rw [hsold]
    exact (if_neg (not_lt.mpr hfree)).trans hlive

/-- **The renewed row decides**: it is the only active row of its user. -/
theorem currentSubscription_renewedBy {w : RenewalWrite}
    (hkeys : db.SubsKeyed)
    (hs : db.subscription s.id = some s) (hid : w.sub.id = s.id) (h : db.Grants w) :
    currentSubscription (db.renewedBy w) s.userID =
      some (Db.renewColumns w.sub (snapshotOrEmpty w.sub.planSnapshot) s) := by
  obtain ⟨row, hrow⟩ := h.renewable
  obtain ⟨hlook, hperiod⟩ := Db.subscription_of_atPeriod hkeys hrow.at_period
  obtain rfl : s = row := by
    rw [hid] at hlook
    exact Option.some.inj (hs.symm.trans hlook)
  have hmem : s ∈ db.userSubscriptions := mem_of_lookup hs
  refine decidingSubscription_of_only_active rfl ?_ ?_
  · refine List.mem_filter.mpr ⟨mem_updateWhere.mpr ⟨s, hmem, if_pos ?_⟩, ?_⟩
    · simp [hid, hperiod]
    · simp [Db.renewColumns]
  · intro r hr hactive
    obtain ⟨hr, huser⟩ := List.mem_filter.mp hr
    obtain ⟨r0, hr0, rfl⟩ := mem_updateWhere.mp hr
    by_cases hsame : r0.id = s.id
    · rw [eq_of_mem_of_key_eq hkeys hr0 hmem hsame]
      exact if_pos (by simp [hid, hperiod])
    -- another active row of the user would have refused the write
    have hne : ¬ ((decide (r0.id = w.sub.id) && decide (r0.periodIndex = w.expected)) = true) := by
      simp [hid, hsame]
    rw [if_neg hne] at hactive huser
    have helse := hrow.alone
    unfold Db.activeElsewhere at helse
    rw [List.any_eq_false] at helse
    refine absurd ?_ (helse r0 hr0)
    simp [hsame, Db.isActive, hactive, of_decide_eq_true huser]

variable {nowNs : ℤ}

theorem lt_expiryFromDays_iff {days base : ℤ} (hdays : 0 < days) (hnow : 0 < nowNs)
    (hbase : nowNs ≤ base) :
    (0 < expiryFromDays days base → nowNs < expiryFromDays days base) ↔ nowNs < maxInt64 := by
  have hmul : 0 < days * dayNs := Int.mul_pos hdays dayNs_pos
  rw [expiryFromDays_eq_min hdays (by omega)]
  have hmax : 0 < maxInt64 := by decide
  rcases le_total (base + days * dayNs) maxInt64 with hle | hle
  · rw [min_eq_left hle]
    constructor
    · intro _
      omega
    · intro _ _
      omega
  · rw [min_eq_right hle]
    exact ⟨fun h => h hmax, fun h _ => h⟩

section Key

variable {p : Panel} {s : UserSubscription} {user : User} {key : AccessKey}

/-- **A charge, and the key behind it.**  The panel after one renewal of the row. -/
theorem keyUsable_charge (hsubs : p.db.SubsKeyed)
    (hkeys : KeysNodup AccessKey.id p.db.accessKeys) (hs : p.db.subscription s.id = some s)
    (huser : p.db.user s.userID = some user) (hactive : user.status = .active)
    (hkey : key ∈ p.db.accessKeys) (howner : key.userID = s.userID) (hstatus : key.status = .active)
    (hexpiry : key.expiresAtNs ≤ 0) {plan : Plan} {price : ℤ} {requestID entryID : String}
    (hprice : renewalPrice p.db s = .ok (plan, price)) (hlasts : 0 < plan.durationDays)
    (hnow : 0 < nowNs) (hgrants : p.db.Grants (renewalWrite s plan price nowNs requestID entryID)) :
    (republishOrLog s.userID
        ⟨p.db.renewedBy (renewalWrite s plan price nowNs requestID entryID), p.keys⟩).KeyUsable
          key nowNs ↔ plan.Open ∧ nowNs < maxInt64 := by
  generalize hw : renewalWrite s plan price nowNs requestID entryID = w at *
  have hid : w.sub.id = s.id := by rw [← hw]; rfl
  have hsnap : snapshotOrEmpty w.sub.planSnapshot = .plan plan := by
    rw [← hw]
    exact planSnapshot_renewedRow hprice nowNs
  have hends : w.sub.expiresAtNs = expiryFromDays plan.durationDays (max s.expiresAtNs nowNs) := by
    rw [← hw]
    rfl
  -- the live snapshot of the user after the charge
  have hsold : userPlanSnapshot (p.db.renewedBy w) s.userID =
      .ok (snapshotForPlan (Db.renewColumns w.sub (.plan plan) s) (some plan)) := by
    unfold userPlanSnapshot
    rw [currentSubscription_renewedBy hsubs hs hid hgrants, hsnap]
    rfl
  have huser' : (p.db.renewedBy w).user s.userID = some user := huser
  -- publishing goes through, and the key is one of the keys it publishes
  obtain ⟨p', hp'⟩ : ∃ p', republishUserKeys s.userID ⟨p.db.renewedBy w, p.keys⟩ = .ok p' := by
    unfold republishUserKeys
    simp only [huser', hsold, ok_bind]
    exact ⟨_, rfl⟩
  have hlog : republishOrLog s.userID ⟨p.db.renewedBy w, p.keys⟩ = p' := by
    unfold republishOrLog
    rw [hp']
  obtain ⟨user', snapshot, hu, hsn, hget⟩ := get_republishUserKeys hp' hkeys hkey howner hstatus
  obtain rfl : user = user' := Option.some.inj (huser'.symm.trans hu)
  cases hsold.symm.trans hsn
  rw [hlog]
  unfold Panel.KeyUsable
  rw [hget]
  have husable : (newKeyState key user (snapshotForPlan (Db.renewColumns w.sub (.plan plan) s)
      (some plan))).usable nowNs = true ↔ plan.Open ∧ nowNs < maxInt64 := by
    rw [KeyState.usable_iff]
    have hwindow := lt_expiryFromDays_iff hlasts hnow (le_max_right s.expiresAtNs nowNs)
    rw [← hends] at hwindow
    constructor
    · rintro ⟨-, -, -, hopen, hwin⟩
      exact ⟨hopen, hwindow.mp hwin⟩
    · rintro ⟨hopen, hmax⟩
      exact ⟨hstatus, fun hpos => absurd hpos (not_lt.mpr hexpiry), hactive, hopen,
        hwindow.mpr hmax⟩
  constructor
  · rintro ⟨k, hk, hk'⟩
    rw [← Option.some.inj hk] at hk'
    exact husable.mp hk'
  · intro h
    exact ⟨_, rfl, husable.mpr h⟩

theorem get_republishOrLog_of_ne {q : Panel} (hkeys : KeysNodup AccessKey.id q.db.accessKeys)
    (hkey : key ∈ q.db.accessKeys) {userID : String} (hne : userID ≠ key.userID) :
    (republishOrLog userID q).keys.get key.id = q.keys.get key.id := by
  unfold republishOrLog
  cases hr : republishUserKeys userID q with
  | error e => rfl
  | ok q' =>
    unfold republishUserKeys at hr
    cases hu : q.db.user userID with
    | none =>
      rw [hu] at hr
      cases hr
    | some user =>
      rw [hu] at hr
      obtain ⟨snapshot, -, hr⟩ := bind_eq_ok_iff.mp hr
      rw [← Except.ok.inj hr]
      refine get_foldl_republishRow_of_ne _ _ fun r hr hid => ?_
      obtain ⟨hr, howner⟩ := Db.mem_accessKeysOf.mp hr
      rw [eq_of_mem_of_key_eq hkeys hr hkey hid] at howner
      exact hne howner.symm

end Key

/-- Accounts and keys are as they were. -/
structure Db.SameAccounts (db db' : Db) : Prop where
  users : db'.users = db.users
  accessKeys : db'.accessKeys = db.accessKeys

variable {entryID : Option String} {p : Panel}

theorem Turn.sameAccounts {p' : Panel} (h : Turn nowNs entryID s p p') :
    Db.SameAccounts p.db p'.db := by
  rcases h.db_cases with hdb | ⟨plan, price, id, -, -, hdb⟩
  · rw [hdb]
    exact ⟨rfl, rfl⟩
  · rw [hdb]
    exact ⟨rfl, rfl⟩

theorem Turn.get_key {p' : Panel} (h : Turn nowNs entryID s p p') {key : AccessKey}
    (hkeys : KeysNodup AccessKey.id p.db.accessKeys) (hkey : key ∈ p.db.accessKeys)
    (hne : s.userID ≠ key.userID) : p'.keys.get key.id = p.keys.get key.id := by
  cases h with
  | idle _ hp =>
    rcases hp with rfl | rfl
    · rfl
    · exact get_republishOrLog_of_ne hkeys hkey hne
  | charge plan price id _ _ _ _ _ hp =>
    rw [hp]
    exact get_republishOrLog_of_ne (q := ⟨p.db.renewedBy _, p.keys⟩) hkeys hkey hne

theorem renewDueFrom_sameAccounts (env : SweepEnv) (nowNs : ℤ) (l : List UserSubscription) (k : ℕ)
    (r : RenewalView × Panel) : Db.SameAccounts r.2.db (renewDueFrom env nowNs k l r).2.db :=
  renewDueFrom_invariant (I := fun _ p => Db.SameAccounts r.2.db p.db) l k r
    (fun _ _ _ _ _ hturn h => ⟨hturn.sameAccounts.users.trans h.users,
      hturn.sameAccounts.accessKeys.trans h.accessKeys⟩) ⟨rfl, rfl⟩

theorem renewDueFrom_get_key (env : SweepEnv) (nowNs : ℤ) {l : List UserSubscription} (k : ℕ)
    (r : RenewalView × Panel) {key : AccessKey}
    (hkeys : KeysNodup AccessKey.id r.2.db.accessKeys) (hkey : key ∈ r.2.db.accessKeys)
    (hne : ∀ t ∈ l, t.userID ≠ key.userID) :
    (renewDueFrom env nowNs k l r).2.keys.get key.id = r.2.keys.get key.id := by
  have hloop : (renewDueFrom env nowNs k l r).2.db.accessKeys = r.2.db.accessKeys ∧
      (renewDueFrom env nowNs k l r).2.keys.get key.id = r.2.keys.get key.id := by
    refine renewDueFrom_invariant (I := fun _ p => p.db.accessKeys = r.2.db.accessKeys ∧
      p.keys.get key.id = r.2.keys.get key.id) l k r ?_ ⟨rfl, rfl⟩
    rintro t ht _ q q' hturn ⟨hacc, hget⟩
    refine ⟨hturn.sameAccounts.accessKeys.trans hacc, ?_⟩
    rw [← hacc] at hkeys hkey
    exact (hturn.get_key hkeys hkey (hne t ht)).trans hget
  exact hloop.2

theorem userID_ne_of_mem_listRenewable {withinNs : ℤ} {t : UserSubscription}
    (hone : UniqueWhere UserSubscription.userID Db.isActive db.userSubscriptions)
    (hs : s ∈ listRenewableSubscriptions nowNs withinNs db)
    (ht : t ∈ listRenewableSubscriptions nowNs withinNs db) (hne : s.id ≠ t.id) :
    t.userID ≠ s.userID := by
  obtain ⟨hmem, hactive, -⟩ := mem_listRenewableSubscriptions.mp hs
  obtain ⟨hmem', hactive', -⟩ := mem_listRenewableSubscriptions.mp ht
  intro huser
  have hsame := hone.eq_of_mem _ hmem (decide_eq_true hactive) hmem' (decide_eq_true hactive')
    huser.symm
  exact hne (congrArg UserSubscription.id hsame)

/-- **A pass that charges for the row**: the panels before and after its turn, and what the turns
before and behind it have left alone. -/
theorem exists_charge_of_pass {env : SweepEnv}
    (hsubs : p.db.SubsKeyed)
    (hone : UniqueWhere UserSubscription.userID Db.isActive p.db.userSubscriptions)
    (hs : p.db.subscription s.id = some s)
    (hcharged : renewals s.id (renewDueSubscriptions env nowNs p).2.db ≠ renewals s.id p.db) :
    ∃ (p1 : Panel) (plan : Plan) (price : ℤ) (id : String),
      0 < nowNs ∧ Db.Untouched s.id p.db p1.db ∧
      Db.SameAccounts p.db p1.db ∧ renewalPrice p1.db s = .ok (plan, price) ∧
      0 < plan.durationDays ∧ p1.db.Grants (sweepWrite s plan price nowNs id) ∧
      ∀ key ∈ p.db.accessKeys, KeysNodup AccessKey.id p.db.accessKeys →
        key.userID = s.userID → (renewDueSubscriptions env nowNs p).2.keys.get key.id =
          (republishOrLog s.userID ⟨p1.db.renewedBy (sweepWrite s plan price nowNs id),
            p1.keys⟩).keys.get key.id := by
  rcases pass_split env nowNs hsubs hs with hsame | ⟨hnow, l1, l2, hl, hne1, hne2, hpass⟩
  · exact absurd hsame.renewals hcharged
  have hmem : ∀ t ∈ s :: l2, t ∈ listRenewableSubscriptions nowNs renewalLeadTimeNs p.db :=
    fun t ht => hl ▸ List.mem_append_right l1 ht
  have hother : ∀ t ∈ l2, t.userID ≠ s.userID := fun t ht =>
    userID_ne_of_mem_listRenewable hone (hmem s (.head _)) (hmem t (.tail _ ht)) (hne2 t ht)
  rw [hpass] at hcharged ⊢
  have h1 : Db.Untouched s.id p.db (renewDueFrom env nowNs 0 l1 ({}, p)).2.db :=
    renewDueFrom_untouched env nowNs 0 ({}, p) hne1
  have hacc1 : Db.SameAccounts p.db (renewDueFrom env nowNs 0 l1 ({}, p)).2.db :=
    renewDueFrom_sameAccounts env nowNs l1 0 ({}, p)
  generalize renewDueFrom env nowNs 0 l1 ({}, p) = r1 at *
  have hturn := renewDue_turn env nowNs l1.length s r1
  generalize renewDue env nowNs l1.length s r1 = r2 at *
  have h2 := renewDueFrom_untouched env nowNs (l1.length + 1) r2 hne2
  have haccTurn := hturn.sameAccounts
  cases hturn with
  | idle hdb _ =>
    rw [hdb] at h2
    exact absurd (h1.trans h2).renewals hcharged
  | charge plan price id hprice _ hlasts _ hgrants hp =>
    refine ⟨r1.2, plan, price, id, hnow, h1, hacc1, hprice, hlasts, hgrants, ?_⟩
    intro key hkey hkeys howner
    rw [← hp]
    rw [← hacc1.accessKeys, ← haccTurn.accessKeys] at hkey hkeys
    exact renewDueFrom_get_key env nowNs _ r2 hkeys hkey fun t ht => howner ▸ hother t ht

/-! ## The button -/

theorem exists_charge_of_selfRenew {io : Faults} {userID : String} {input : RenewInput}
    (hs : p.db.subscription s.id = some s)
    (hcharged : renewals s.id (selfRenew io entryID userID input nowNs p).2.db ≠ renewals s.id p.db) :
    ∃ plan price requestID id, 0 < nowNs ∧ renewalPrice p.db s = .ok (plan, price) ∧
      0 < plan.durationDays ∧ p.db.Grants (renewalWrite s plan price nowNs requestID id) ∧
      (selfRenew io entryID userID input nowNs p).2 = republishOrLog s.userID
        ⟨p.db.renewedBy (renewalWrite s plan price nowNs requestID id), p.keys⟩ := by
  unfold selfRenew at hcharged ⊢
  cases hreq : renewRequest userID input nowNs p.db with
  | error e =>
    rw [hreq] at hcharged
    exact absurd rfl hcharged
  | ok r =>
    obtain ⟨sub, requestID⟩ := r
    obtain ⟨hnow, hsub⟩ := renewRequest_eq_ok hreq
    rw [hreq] at hcharged
    simp only at hcharged ⊢
    unfold renewOne at hcharged ⊢
    cases hprice : renewalPrice p.db sub with
    | error e =>
      rw [hprice] at hcharged
      exact absurd rfl hcharged
    | ok quote =>
      obtain ⟨plan, price⟩ := quote
      rw [hprice] at hcharged
      simp only at hcharged ⊢
      rcases renewOneWithPlan_snd_cases io entryID sub plan price nowNs requestID p with
        ⟨hdb, -⟩ | ⟨id, -, hlasts, hgrants, hp⟩
      · rw [hdb] at hcharged
        exact absurd rfl hcharged
      -- the charge names the row it was made for
      rw [hp, republishOrLog_db, renewals_renewedBy p.db rfl] at hcharged
      have hid : sub.id = s.id := by
        by_contra hne
        have href : (renewalWrite sub plan price nowNs requestID id).entry.refID ≠ s.id := hne
        rw [if_neg href] at hcharged
        exact hcharged rfl
      obtain rfl : s = sub := by
        have hkey : sub.id = trimSpace input.subscriptionID :=
          key_of_lookup hsub
        rw [← hkey, hid] at hsub
        exact Option.some.inj (hs.symm.trans hsub)
      exact ⟨plan, price, requestID, id, hnow, hprice, hlasts, hgrants, hp⟩

/-- **A charge buys something, exactly when the plan charged for is not stopped.**  For every state
of the tables, and both calls: when the call has charged for the row of an active user, an active
key of the user without an expiry of its own is usable at that instant if and only if the plan the
renewal is charged for is open and time has not run out. -/
theorem renewal_usable_iff {p : Panel} {call : RenewCall} {s : UserSubscription} {user : User}
    {key : AccessKey}
    (hsubs : Table.KeysNodup UserSubscription.id p.db.userSubscriptions)
    (hone : Table.UniqueWhere UserSubscription.userID Db.isActive p.db.userSubscriptions)
    (hkeys : Table.KeysNodup AccessKey.id p.db.accessKeys) (hs : p.db.subscription s.id = some s)
    (hcharged : renewals s.id (call.step p).db ≠ renewals s.id p.db)
    (huser : p.db.user s.userID = some user) (hactive : user.status = .active)
    (hkey : key ∈ p.db.accessKeys) (howner : key.userID = s.userID)
    (hstatus : key.status = .active) (hexpiry : key.expiresAtNs ≤ 0) :
    (call.step p).KeyUsable key call.nowNs ↔
      (∃ plan, p.db.planCharged s = some plan ∧ plan.Open) ∧ call.nowNs < maxInt64 := by
  -- the plan that is charged for is the one the condition names
  have hplan : ∀ plan, p.db.planCharged s = some plan →
      ((∃ plan, p.db.planCharged s = some plan ∧ plan.Open) ↔ plan.Open) := by
    intro plan hplan
    rw [hplan]
    constructor
    · rintro ⟨plan', hsome, hopen⟩
      rwa [Option.some.inj hsome]
    · intro hopen
      exact ⟨plan, rfl, hopen⟩
  cases call with
  | sweep env nowNs =>
    obtain ⟨p1, plan, price, id, hnow, h1, hacc, hprice, hlasts, hgrants, hget⟩ :=
      exists_charge_of_pass hsubs hone hs hcharged
    have hprice0 := hprice
    rw [renewalPrice_congr h1.plans] at hprice0
    rw [hplan plan (planCharged_of_price hprice0)]
    have hsame : ((renewDueSubscriptions env nowNs p).2).KeyUsable key nowNs ↔
        (republishOrLog s.userID ⟨p1.db.renewedBy (sweepWrite s plan price nowNs id),
          p1.keys⟩).KeyUsable key nowNs := by
      unfold Panel.KeyUsable
      rw [hget key hkey hkeys howner]
    have huser1 : p1.db.user s.userID = some user := by
      unfold Db.user
      rw [hacc.users]
      exact huser
    rw [← hacc.accessKeys] at hkeys hkey
    exact hsame.trans (keyUsable_charge (h1.keys hsubs) hkeys (h1.row.trans hs) huser1 hactive
      hkey howner hstatus hexpiry hprice hlasts hnow hgrants)
  | button io entryID userID input nowNs =>
    obtain ⟨plan, price, requestID, id, hnow, hprice, hlasts, hgrants, hp⟩ :=
      exists_charge_of_selfRenew hs hcharged
    rw [hplan plan (planCharged_of_price hprice)]
    have hstep : RenewCall.step p (.button io entryID userID input nowNs) = _ := hp
    rw [hstep]
    exact keyUsable_charge hsubs hkeys hs huser hactive hkey howner hstatus hexpiry hprice hlasts
      hnow hgrants

/-- The customer's key. -/
def customerKey : AccessKey := ⟨"k", "u", "laptop", [], [], [], .proxy, .active, 0, 0, 0⟩

def monthlyPanel : Panel :=
  { db := { World.monthlyWorld.db with accessKeys := [customerKey] } }

def customerRow (plan : Plan) : UserSubscription :=
  { id := "us", userID := "u", planID := "pl", planSnapshot := .plan plan,
    expiresAtNs := 30 * dayNs, autoRenew := true, status := .active }

def eveSweep : RenewCall := .sweep ⟨fun _ => some "bl", fun _ => noFaults⟩ (29 * dayNs)

def eveButton : RenewCall :=
  .button noFaults (some "bl") "u" ⟨"us", "press"⟩ (29 * dayNs)

theorem renewal_usable_monthly : renewals "us" (eveSweep.step monthlyPanel).db = 1 ∧
      (eveSweep.step monthlyPanel).KeyUsable customerKey eveSweep.nowNs := by
  have hs : monthlyPanel.db.subscription (customerRow World.monthlyPlan).id =
      some (customerRow World.monthlyPlan) := by decide
  have hcharged : renewals (customerRow World.monthlyPlan).id (eveSweep.step monthlyPanel).db ≠
      renewals (customerRow World.monthlyPlan).id monthlyPanel.db := by decide +kernel
  have huser : monthlyPanel.db.user (customerRow World.monthlyPlan).userID =
      some .customer := by decide
  have hopen : ∃ plan, monthlyPanel.db.planCharged (customerRow World.monthlyPlan) = some plan ∧
      plan.Open := ⟨World.monthlyPlan, by decide, .inr rfl⟩
  have husable := renewal_usable_iff (by decide) (by decide) (by decide) hs hcharged huser rfl
    (show customerKey ∈ monthlyPanel.db.accessKeys by decide) rfl rfl (by decide)
  exact ⟨by decide +kernel, husable.mpr ⟨hopen, by decide⟩⟩

def stoppedPanel : Panel :=
  (stopSubscriptionsOnPlan (fun _ => noFaults) World.monthlyPlan monthlyPanel).2

/-- **A stopped customer is charged.**  The row is active and renewing, its snapshot is disabled;
the sweep and the button both charge for a month, and the key is refused. -/
theorem stopped_customer_charged : stoppedPanel.db.subscription "us" =
        some (customerRow { World.monthlyPlan with status := .disabled }) ∧
      renewals "us" stoppedPanel.db = 0 ∧
      renewals "us" (eveSweep.step stoppedPanel).db = 1 ∧
      (eveSweep.step stoppedPanel).db.balance "u" = 15000000 ∧
      ¬ (eveSweep.step stoppedPanel).KeyUsable customerKey eveSweep.nowNs ∧
      renewals "us" (eveButton.step stoppedPanel).db = 1 ∧
      ¬ (eveButton.step stoppedPanel).KeyUsable customerKey eveButton.nowNs := by
  decide +kernel

end Prism
