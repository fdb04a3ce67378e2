import Prism.Foundation.Run
import Prism.Service.Renewal

/-!
# A charge if and only if its effect

A purchase and a renewal write a charge and its effect in one transaction: a purchase inserts a
subscription, a renewal advances the period of one.  The charge is written first, and three guards
may still reject the call after it.  A rejected call keeps nothing, over any interleaving:

* a request is charged once, and a repeated request changes nothing;
* the purchase rows of the ledger and the subscriptions inserted are in bijection;
* the renew rows of a subscription are as many as the steps its period has advanced by, so that of
  two callers that read the same period one keeps its charge;
* a user has at most one active subscription.

The second and the third speak of the reason and the reference of ledger rows, and of the period a
renewal writes, which are arguments of the call; they hold for calls as the two callers of the source
make them (`AsIssued`), and fail for others (`charge_without_effect`).
-/

namespace Prism

open Table

variable {c : ChargeCall} {db : Db} {row : UserSubscription} {calls : List ChargeCall}

/-- The calls that charge for something. -/
inductive ChargeCall where
  | purchase (io : Faults) (sub : UserSubscription) (entry : BalanceEntry)
  | renew (io : Faults) (sub : UserSubscription) (expected : ℤ) (entry : BalanceEntry)

def Db.purchasedBy (db : Db) (sub : UserSubscription) (entry : BalanceEntry) : Db :=
  { (db.post (db.settled entry)).expireActiveOf entry.userID with
    userSubscriptions :=
      ((db.post (db.settled entry)).expireActiveOf entry.userID).userSubscriptions ++
        [purchasedRow sub] }

namespace ChargeCall

def exec : ChargeCall → RepoCall PurchaseResult
  | .purchase io sub entry => purchasePlanWithBalance io sub entry
  | .renew io sub expected entry => renewSubscriptionWithBalance io sub expected entry

def entry : ChargeCall → BalanceEntry
  | .purchase _ _ entry => entry
  | .renew _ _ _ entry => entry

def faults : ChargeCall → Faults
  | .purchase io _ _ => io
  | .renew io _ _ _ => io

def step (db : Db) (c : ChargeCall) : Db := (c.exec db).2

/-- The call as `SelfPurchase` or `renewOneWithPlan` makes it. -/
def AsIssued : ChargeCall → Prop
  | .purchase _ _ entry => entry.reason = .purchase
  | .renew _ sub expected entry =>
    entry.reason = .renew ∧ entry.refID = sub.id ∧ sub.periodIndex = expected + 1

def charge (c : ChargeCall) (db : Db) : Option BalanceEntry :=
  match (c.exec db).1 with
  | .ok r => if r.replayed then none else some r.entry
  | .error _ => none

def Accepted (db : Db) : ChargeCall → Prop
  | .purchase _ sub entry =>
    ((db.post (db.settled entry)).expireActiveOf entry.userID).AcceptsSubscription
      (purchasedRow sub)
  | .renew _ sub expected _ => ∃ row, db.Renewable sub expected row

def after (db : Db) : ChargeCall → Db
  | .purchase _ sub entry => db.purchasedBy sub entry
  | .renew _ sub expected entry => db.renewedBy ⟨sub, expected, entry⟩

/-- What a call can do: fail or replay, and change nothing; or commit. -/
inductive Outcome (db : Db) (c : ChargeCall) : Prop where
  | none (hsame : c.step db = db) (hcharge : c.charge db = none)
      (hreplay : ∀ r, (c.exec db).1 = .ok r → r.replayed = true)
  | commit (hnew : ¬ db.Settled c.entry) (hadmits : db.Admits c.entry) (haccepted : Accepted db c)
      (hcharge : c.charge db = some (db.settled c.entry)) (hstep : c.step db = after db c)

theorem charge_of_error {e : RepoError} (h : (c.exec db).1 = .error e) : c.charge db = none := by
  unfold charge
  rw [h]

theorem charge_of_ok {r : PurchaseResult} (h : (c.exec db).1 = .ok r) :
    c.charge db = if r.replayed then none else some r.entry := by
  unfold charge
  rw [h]

theorem outcome (db : Db) (c : ChargeCall) : Outcome db c := by
  cases c with
  | purchase io sub entry =>
    cases hbody : purchasePlanWithBalanceBody io sub entry db with
    | error e =>
      have hexec : (ChargeCall.purchase io sub entry).exec db = (.error e, db) :=
        atomically_of_error hbody
      refine .none (by rw [step, hexec]) (charge_of_error (by rw [hexec])) fun r hr => ?_
      rw [hexec] at hr
      cases hr
    | ok r =>
      obtain ⟨result, _ | db'⟩ := r
      · have hexec : (ChargeCall.purchase io sub entry).exec db = (.ok result, db) :=
          atomically_of_return hbody
        have hrep := (purchase_return hbody).2
        refine .none (by rw [step, hexec]) ?_ fun r hr => ?_
        · rw [charge_of_ok (by rw [hexec]), if_pos hrep]
        · rw [hexec] at hr
          rw [← Except.ok.inj hr]
          exact hrep
      · have hexec : (ChargeCall.purchase io sub entry).exec db = (.ok result, db') :=
          atomically_of_commit hbody
        obtain ⟨hnew, hadm, hrep, hentry, hacc, hdb'⟩ := purchase_commit hbody
        rw [hentry] at hacc hdb'
        refine .commit hnew hadm hacc ?_ ?_
        · rw [charge_of_ok (by rw [hexec]), hrep, hentry]
          rfl
        · rw [step, hexec]
          exact hdb'
  | renew io sub expected entry =>
    rcases RenewalWrite.run_cases io ⟨sub, expected, entry⟩ db with
      ⟨hsame, hreplay⟩ | ⟨hgrants, hdone⟩
    · refine .none hsame ?_ hreplay
      cases hexec : ((ChargeCall.renew io sub expected entry).exec db).1 with
      | error e => exact charge_of_error hexec
      | ok r => rw [charge_of_ok hexec, if_pos (hreplay r hexec)]
    · have hexec : (ChargeCall.renew io sub expected entry).exec db = _ := hdone
      refine .commit hgrants.unsettled hgrants.admits hgrants.renewable ?_ ?_
      · rw [charge_of_ok (by rw [hexec])]
        rfl
      · rw [step, hexec]
        rfl

theorem balanceLedger_after (db : Db) (c : ChargeCall) :
    (after db c).balanceLedger = db.balanceLedger ++ [db.settled c.entry] := by
  cases c <;> rfl

/-! ## The indexes -/

end ChargeCall

/-- What the unique indexes and the primary keys of the two tables guarantee. -/
structure Db.Indexed (db : Db) : Prop where
  entries : KeysNodup BalanceEntry.id db.balanceLedger
  requests : UniqueWhere Db.requestKey Db.hasRequest db.balanceLedger
  subs : KeysNodup UserSubscription.id db.userSubscriptions
  actives : UniqueWhere UserSubscription.userID Db.isActive db.userSubscriptions

theorem Db.Indexed.ledger (h : db.Indexed) {e : BalanceEntry} (he : db.AcceptsEntry e) :
    KeysNodup BalanceEntry.id (db.balanceLedger ++ [e]) ∧
      UniqueWhere Db.requestKey Db.hasRequest (db.balanceLedger ++ [e]) :=
  ⟨keysNodup_append_singleton h.entries he.id,
    uniqueWhere_append_singleton _ h.requests he.request⟩

/-- What they guarantee of the subscriptions alone. -/
structure Db.SubsIndexed (db : Db) : Prop where
  subs : KeysNodup UserSubscription.id db.userSubscriptions
  actives : UniqueWhere UserSubscription.userID Db.isActive db.userSubscriptions

theorem Db.Indexed.subscriptions (h : db.Indexed) : db.SubsIndexed :=
  ⟨h.subs, h.actives⟩

theorem Db.SubsIndexed.of_subs {db' : Db} (h : db.SubsIndexed)
    (hsubs : db'.userSubscriptions = db.userSubscriptions) : db'.SubsIndexed :=
  ⟨hsubs ▸ h.subs, hsubs ▸ h.actives⟩

theorem Db.SubsIndexed.eq_of_active (h : db.SubsIndexed) {r s : UserSubscription}
    (hr : r ∈ db.userSubscriptions) (hra : Db.isActive r = true) (hs : s ∈ db.userSubscriptions)
    (hsa : Db.isActive s = true) (huser : r.userID = s.userID) : r = s :=
  h.actives.eq_of_mem UserSubscription.userID hr hra hs hsa huser

theorem Db.userSubscriptions_expireActiveOf (db : Db) (userID : String) :
    (db.expireActiveOf userID).userSubscriptions =
      updateWhere (fun r => r.userID = userID && Db.isActive r)
        (fun r => { r with status := .expired }) db.userSubscriptions := rfl

section

variable (h : db.SubsIndexed)

include h

theorem Db.SubsIndexed.expired (userID : String) : (db.expireActiveOf userID).SubsIndexed := by
  constructor
  · rw [Db.userSubscriptions_expireActiveOf]
    refine keysNodup_updateWhere ?_ h.subs
    intro r _
    rfl
  · rw [Db.userSubscriptions_expireActiveOf]
    refine uniqueWhere_updateWhere _ h.actives fun r _ _ hactive => ?_
    cases hactive

theorem Db.SubsIndexed.inserted {sub : UserSubscription} (hsub : db.AcceptsSubscription sub) :
    ({ db with userSubscriptions := db.userSubscriptions ++ [sub] } : Db).SubsIndexed :=
  ⟨keysNodup_append_singleton h.subs hsub.id,
    uniqueWhere_append_singleton _ h.actives hsub.active⟩

theorem Db.SubsIndexed.replaced {terms : UserSubscription} (haccepts : db.AcceptsTerms terms)
    {f : UserSubscription → UserSubscription} (hid : ∀ r, r.id = terms.id → (f r).id = terms.id)
    (huser : ∀ r, (f r).userID = terms.userID) (hstatus : ∀ r, (f r).status = terms.status) :
    ({ db with
      userSubscriptions := updateWhere (fun r => r.id = terms.id) f
        db.userSubscriptions } : Db).SubsIndexed := by
  constructor
  · refine keysNodup_updateWhere (fun r hr => ?_) h.subs
    have hrid : r.id = terms.id := of_decide_eq_true hr
    exact (hid r hrid).trans hrid.symm
  by_cases hactive : terms.status = .active
  · refine uniqueWhere_updateWhere_of_alone UserSubscription.userID h.subs h.actives ?_ ?_
    · intro r _ t _ hr ht
      exact (of_decide_eq_true hr).trans (of_decide_eq_true ht).symm
    · intro r _ hr t ht hne htactive heq
      have hrid : r.id = terms.id := of_decide_eq_true hr
      have howner : t.userID = terms.userID := heq.trans (huser r)
      refine haccepts.alone ⟨hactive, List.any_eq_true.mpr ⟨t, ht, ?_⟩⟩
      simp [hrid ▸ hne, htactive, howner]
  · refine uniqueWhere_updateWhere UserSubscription.userID h.actives ?_
    intro r _ _ hr
    exact absurd ((hstatus r).symm.trans (of_decide_eq_true hr)) hactive

theorem Db.SubsIndexed.withTerms {terms : UserSubscription} (haccepts : db.AcceptsTerms terms) :
    (db.withTerms terms).SubsIndexed :=
  h.replaced haccepts (fun _ hr => hr) (fun _ => rfl) fun _ => rfl

theorem Db.SubsIndexed.renewed {sub : UserSubscription} {expected : ℤ}
    (hrow : db.Renewable sub expected row) : (db.renewed sub expected).SubsIndexed := by
  constructor
  · refine keysNodup_updateWhere ?_ h.subs
    intro r _
    rfl
  · refine uniqueWhere_updateWhere_of_alone _ h.subs h.actives ?_ ?_
    · intro r _ s _ hr hs
      simp only [Bool.and_eq_true, decide_eq_true_eq] at hr hs
      rw [hr.1, hs.1]
    · intro r hr hq s hs hne hactive heq
      simp only [Bool.and_eq_true, decide_eq_true_eq] at hq
      -- the row that is renewed is the one the guard found
      have hfound := Db.subscription_of_atPeriod h.subs hrow.at_period
      have hlook := lookup_of_mem h.subs hr
      rw [hq.1] at hlook
      have hsame : r = row := Option.some.inj (hlook.symm.trans hfound.1)
      have halone := hrow.alone
      rw [← hsame] at halone
      refine absurd ?_ (Bool.eq_false_iff.mp halone)
      have huser : s.userID = r.userID := heq
      exact List.any_eq_true.mpr ⟨s, hs, by simp [hne, hactive, huser]⟩

end

theorem Db.Indexed.step (h : db.Indexed) (c : ChargeCall) : (c.step db).Indexed := by
  cases c.outcome db with
  | none hsame _ _ => rwa [hsame]
  | commit _ hadmits haccepted _ hstep =>
    rw [hstep]
    obtain ⟨hentries, hrequests⟩ := h.ledger hadmits.accepts
    have hledger := ChargeCall.balanceLedger_after db c
    rw [← hledger] at hentries hrequests
    cases c with
    | purchase io sub entry =>
      have hposted : (db.post (db.settled entry)).SubsIndexed := h.subscriptions.of_subs rfl
      have hsold := (hposted.expired entry.userID).inserted haccepted
      exact ⟨hentries, hrequests, hsold.subs, hsold.actives⟩
    | renew io sub expected entry =>
      obtain ⟨row, hrow⟩ := haccepted
      have hrenewed := h.subscriptions.renewed hrow
      exact ⟨hentries, hrequests, hrenewed.subs, hrenewed.actives⟩

theorem Db.Indexed.run (h : db.Indexed) (calls : List ChargeCall) :
    (run ChargeCall.step db calls).Indexed :=
  run_invariant (I := Db.Indexed) (fun _ c h => h.step c) h calls

/-! ## Purchases and the rows they insert -/

namespace ChargeCall

/-- What a purchase has committed: the ledger row, and the id of the subscription it was written
with. -/
def purchased (db : Db) : ChargeCall → List (BalanceEntry × String)
  | .purchase io sub entry =>
    ((ChargeCall.purchase io sub entry).charge db).toList.map fun e => (e, sub.id)
  | .renew _ _ _ _ => []

def purchases : Db → List ChargeCall → List (BalanceEntry × String)
  | _, [] => []
  | db, c :: calls => purchased db c ++ purchases (c.step db) calls

def purchaseRows (db : Db) : List BalanceEntry :=
  db.balanceLedger.filter fun e => e.reason = .purchase

theorem purchaseRows_run (h : ∀ c ∈ calls, c.AsIssued) :
    purchaseRows (run step db calls) = purchaseRows db ++ (purchases db calls).map Prod.fst := by
  induction calls generalizing db with
  | nil => simp [purchases]
  | cons c calls ih =>
    rw [run_cons, ih fun c' hc' => h c' (by simp [hc']), purchases, List.map_append,
      ← List.append_assoc]
    congr 1
    have hissued := h c (by simp)
    cases c.outcome db with
    | none hsame hcharge _ =>
      rw [hsame]
      cases c <;> simp [purchased, hcharge]
    | commit _ _ _ hcharge hstep =>
      rw [hstep, purchaseRows, balanceLedger_after, List.filter_append]
      cases c with
      | purchase io sub entry =>
        have hreason : entry.reason = .purchase := hissued
        simp [purchaseRows, purchased, hcharge, ChargeCall.entry, Db.settled, hreason]
      | renew io sub expected entry =>
        have hreason : entry.reason = .renew := hissued.1
        simp [purchaseRows, purchased, ChargeCall.entry, Db.settled, hreason]

def subscriptionIDs (db : Db) : List String := db.userSubscriptions.map UserSubscription.id

theorem subscriptionIDs_run (db : Db) (calls : List ChargeCall) :
    subscriptionIDs (run step db calls) =
      subscriptionIDs db ++ (purchases db calls).map Prod.snd := by
  induction calls generalizing db with
  | nil => simp [purchases]
  | cons c calls ih =>
    rw [run_cons, ih, purchases, List.map_append, ← List.append_assoc]
    congr 1
    cases c.outcome db with
    | none hsame hcharge _ =>
      rw [hsame]
      cases c <;> simp [purchased, hcharge]
    | commit _ _ _ hcharge hstep =>
      rw [hstep]
      cases c with
      | purchase io sub entry =>
        have hids : subscriptionIDs (db.expireActiveOf entry.userID) = subscriptionIDs db := by
          refine map_key_updateWhere _ ?_ _
          intro r _
          rfl
        rw [← hids, purchased, hcharge]
        simp [subscriptionIDs, after, Db.purchasedBy, purchasedRow, Db.expireActiveOf, Db.post]
      | renew io sub expected entry =>
        rw [purchased, List.map_nil, List.append_nil]
        exact Db.map_id_renewedBy db _

/-- The call moves the subscription to a later period. -/
def advances (id : String) (db : Db) (c : ChargeCall) : Bool :=
  match db.subscription id, (c.step db).subscription id with
  | some row, some row' => row.periodIndex < row'.periodIndex
  | _, _ => false

def advanceCount (id : String) : Db → List ChargeCall → ℕ
  | _, [] => 0
  | db, c :: calls => (advances id db c).toNat + advanceCount id (c.step db) calls

variable {id : String}

/-- What a committed call does to one row that was there: a renewal of it, made as the callers make
it, moves it from the expected period to the next; nothing else moves its period. -/
theorem period_after (hdb : db.Indexed) (hc : c.AsIssued) (hacc : Accepted db c)
    (hrow : db.subscription id = some row) :
    ∃ row', (after db c).subscription id = some row' ∧
      ((∃ io sub expected entry, c = .renew io sub expected entry ∧ sub.id = id ∧
          row.periodIndex = expected ∧ row'.periodIndex = expected + 1) ∨
        (∀ io sub expected entry, c = .renew io sub expected entry → sub.id ≠ id) ∧
          row'.periodIndex = row.periodIndex) := by
  cases c with
  | purchase io sub entry =>
    have hexp : (db.expireActiveOf entry.userID).subscription id = (db.subscription id).map fun r =>
          if (r.userID = entry.userID && Db.isActive r) = true then
            { r with status := .expired } else r :=
      Db.subscription_of_update (Db.userSubscriptions_expireActiveOf db entry.userID)
        (fun _ => rfl) id
    rw [hrow, Option.map_some] at hexp
    refine ⟨if (row.userID = entry.userID && Db.isActive row) = true then
      { row with status := .expired } else row, ?_,
      .inr ⟨fun _ _ _ _ heq => absurd heq (by simp), ?_⟩⟩
    · have happ : (after db (.purchase io sub entry)).subscription id =
          ((db.expireActiveOf entry.userID).subscription id).or
            (lookup UserSubscription.id id [purchasedRow sub]) :=
        lookup_append UserSubscription.id id _ _
      rw [happ, hexp]
      rfl
    · split <;> rfl
  | renew io sub expected entry =>
    obtain ⟨hreason, href, hnext⟩ := hc
    have hafter := Db.subscription_renewedBy db ⟨sub, expected, entry⟩ id
    rw [hrow, Option.map_some] at hafter
    have hid : row.id = id := key_of_lookup hrow
    refine ⟨_, hafter, ?_⟩
    by_cases hsub : sub.id = id
    · obtain ⟨row0, hren⟩ := hacc
      obtain ⟨hlook, hperiod⟩ := Db.subscription_of_atPeriod hdb.subs hren.at_period
      rw [hsub] at hlook
      obtain rfl : row0 = row := Option.some.inj (hlook.symm.trans hrow)
      refine .inl ⟨io, sub, expected, entry, rfl, hsub, hperiod, ?_⟩
      rw [if_pos ⟨hid.trans hsub.symm, hperiod⟩]
      exact hnext
    · refine .inr ⟨fun io' sub' expected' entry' heq => ?_, ?_⟩
      · obtain ⟨-, rfl, -, -⟩ := ChargeCall.renew.inj heq
        exact hsub
      · rw [if_neg]
        rintro ⟨hsame, -⟩
        exact hsub (hsame.symm.trans hid)

theorem renewals_after (db : Db) (hc : c.AsIssued) (id : String) :
    renewals id (after db c) = renewals id db + match c with
      | .purchase _ _ _ => 0
      | .renew _ sub _ _ => if sub.id = id then 1 else 0 := by
  cases c with
  | purchase io sub entry =>
    have hreason : entry.reason = .purchase := hc
    unfold renewals
    rw [balanceLedger_after, List.countP_append, List.countP_singleton]
    simp [ChargeCall.entry, Db.settled, hreason]
  | renew io sub expected entry =>
    have h := renewals_renewedBy db (w := ⟨sub, expected, entry⟩) hc.1 id
    rw [show (⟨sub, expected, entry⟩ : RenewalWrite).entry.refID = sub.id from hc.2.1] at h
    exact h

section

variable (hdb : db.Indexed)

include hdb

theorem renewals_step (hc : c.AsIssued) (id : String) :
    renewals id (c.step db) = renewals id db + (advances id db c).toNat := by
  cases c.outcome db with
  | none hsame _ _ =>
    have hno : advances id db c = false := by
      unfold advances
      rw [hsame]
      cases db.subscription id <;> simp
    rw [hsame, hno]
    rfl
  | commit _ _ hacc _ hstep =>
    rw [hstep, renewals_after db hc]
    unfold advances
    rw [hstep]
    cases hrow : db.subscription id with
    | none =>
      -- a renewal finds its row, so it is not of this subscription
      cases c with
      | purchase io sub entry => rfl
      | renew io sub expected entry =>
        obtain ⟨row, hren⟩ := hacc
        have hlook := (Db.subscription_of_atPeriod hdb.subs hren.at_period).1
        have hne : sub.id ≠ id := by
          rintro rfl
          cases hrow.symm.trans hlook
        simp [hne]
    | some row =>
      obtain ⟨row', hrow', hcase⟩ := period_after hdb hc hacc hrow
      rw [hrow']
      rcases hcase with ⟨io, sub, expected, entry, rfl, hsub, hp, hp'⟩ | ⟨hother, hp⟩
      · have hlt : expected < expected + 1 := by omega
        simp [hsub, hp, hp', hlt]
      · cases c with
        | purchase io sub entry => simp [hp]
        | renew io sub expected entry => simp [hp, hother io sub expected entry rfl]

theorem renewals_run (h : ∀ c ∈ calls, c.AsIssued) (id : String) :
    renewals id (run step db calls) = renewals id db + advanceCount id db calls := by
  induction calls generalizing db with
  | nil => rfl
  | cons c calls ih =>
    rw [run_cons, ih (hdb.step c) fun c' hc' => h c' (by simp [hc']),
      renewals_step hdb (h c (by simp)), advanceCount, Nat.add_assoc]

/-! ## Two callers at one period -/

/-- A renewal that has kept its charge: the subscription, and the period the caller had read. -/
def keptRenewal (db : Db) : ChargeCall → List (String × ℤ)
  | .purchase _ _ _ => []
  | .renew io sub expected entry =>
    ((ChargeCall.renew io sub expected entry).charge db).toList.map fun _ => (sub.id, expected)

def keptRenewals : Db → List ChargeCall → List (String × ℤ)
  | _, [] => []
  | db, c :: calls => keptRenewal db c ++ keptRenewals (c.step db) calls

theorem period_mono_step (hc : c.AsIssued) (hrow : db.subscription id = some row) :
    ∃ row', (c.step db).subscription id = some row' ∧ row.periodIndex ≤ row'.periodIndex := by
  cases c.outcome db with
  | none hsame _ _ => exact ⟨row, by rw [hsame]; exact hrow, le_rfl⟩
  | commit _ _ hacc _ hstep =>
    obtain ⟨row', hrow', hcase⟩ := period_after hdb hc hacc hrow
    refine ⟨row', by rw [hstep]; exact hrow', ?_⟩
    rcases hcase with ⟨io, sub, expected, entry, -, -, hp, hp'⟩ | ⟨-, hp⟩ <;> omega

theorem period_le_of_mem_keptRenewals (h : ∀ c ∈ calls, c.AsIssued) {period : ℤ}
    (hmem : (id, period) ∈ keptRenewals db calls) (hrow : db.subscription id = some row) :
    row.periodIndex ≤ period := by
  induction calls generalizing db row with
  | nil => cases hmem
  | cons c calls ih =>
    rw [keptRenewals, List.mem_append] at hmem
    have hc := h c (by simp)
    rcases hmem with hnow | hlater
    · cases c with
      | purchase io sub entry => cases hnow
      | renew io sub expected entry =>
        cases ChargeCall.outcome db (.renew io sub expected entry) with
        | none _ hcharge _ =>
          rw [keptRenewal, hcharge] at hnow
          cases hnow
        | commit _ _ hacc hcharge _ =>
          rw [keptRenewal, hcharge] at hnow
          cases List.mem_singleton.mp hnow
          obtain ⟨row0, hren⟩ := hacc
          obtain ⟨hlook, hperiod⟩ := Db.subscription_of_atPeriod hdb.subs hren.at_period
          rw [Option.some.inj (hrow.symm.trans hlook), hperiod]
    · obtain ⟨row', hrow', hle⟩ := period_mono_step hdb hc hrow
      exact hle.trans (ih (hdb.step c) (fun c' hc' => h c' (by simp [hc'])) hlater hrow')

theorem nodup_keptRenewals (h : ∀ c ∈ calls, c.AsIssued) : (keptRenewals db calls).Nodup := by
  induction calls generalizing db with
  | nil => exact List.nodup_nil
  | cons c calls ih =>
    have hrest := ih (hdb.step c) fun c' hc' => h c' (by simp [hc'])
    rw [keptRenewals]
    cases c with
    | purchase io sub entry => exact hrest
    | renew io sub expected entry =>
      cases ChargeCall.outcome db (.renew io sub expected entry) with
      | none _ hcharge _ =>
        rw [keptRenewal, hcharge]
        exact hrest
      | commit _ _ hacc hcharge hstep =>
        rw [keptRenewal, hcharge]
        refine List.nodup_cons.mpr ⟨fun hmem => ?_, hrest⟩
        -- after the renewal the row is one period further
        have hlook : ∃ row, db.subscription sub.id = some row := by
          obtain ⟨row, hren⟩ := hacc
          exact ⟨row, (Db.subscription_of_atPeriod hdb.subs hren.at_period).1⟩
        obtain ⟨row, hlook⟩ := hlook
        have hissued : (ChargeCall.renew io sub expected entry).AsIssued := h _ (by simp)
        obtain ⟨row', hrow', hcase⟩ := period_after hdb hissued hacc hlook
        have hle := period_le_of_mem_keptRenewals (hdb.step _)
          (fun c' hc' => h c' (by simp [hc'])) hmem (by rw [hstep]; exact hrow')
        rcases hcase with ⟨io', sub', expected', entry', heq, -, -, hp⟩ | ⟨hother, -⟩
        · obtain ⟨-, -, rfl, -⟩ := ChargeCall.renew.inj heq
          omega
        · exact hother io sub expected entry rfl rfl

end

end ChargeCall

open ChargeCall

open ChargeCall in
/-- Charges and what they are for, after the calls. -/
structure ChargeIffEffect (db₀ : Db) (calls : List ChargeCall) : Prop where
  /-- a request is on at most one ledger row of its user -/
  request_once : ∀ userID requestID, requestID ≠ "" →
    ((run step db₀ calls).balanceLedger.countP fun e =>
      e.userID = userID && e.requestID = requestID) ≤ 1
  /-- a call whose request is in the ledger changes nothing; it is answered as a replay, unless a
  statement fails -/
  replayed : ∀ c : ChargeCall, (run step db₀ calls).Settled c.entry →
    c.step (run step db₀ calls) = run step db₀ calls ∧
      (∀ r, (c.exec (run step db₀ calls)).1 = .ok r → r.replayed = true) ∧
      (c.faults = noFaults →
        ∃ r, (c.exec (run step db₀ calls)).1 = .ok r ∧ r.replayed = true)
  /-- a user has at most one active subscription -/
  one_active : ∀ userID, ((run step db₀ calls).userSubscriptions.countP fun s =>
    Db.isActive s && decide (s.userID = userID)) ≤ 1
  /-- the new purchase rows and the new subscriptions are in bijection, each row with the
  subscription it was written with -/
  purchase_bijection : (∀ c ∈ calls, c.AsIssued) → ∃ f : BalanceEntry → String,
    (∀ q ∈ purchases db₀ calls, f q.1 = q.2) ∧ Set.BijOn f
      {e | e ∈ purchaseRows (run step db₀ calls) ∧ e ∉ purchaseRows db₀}
      {id | id ∈ subscriptionIDs (run step db₀ calls) ∧ id ∉ subscriptionIDs db₀}
  /-- the new renew rows of a subscription are as many as the advances of its period -/
  renew_advances : (∀ c ∈ calls, c.AsIssued) → ∀ id,
    renewals id (run step db₀ calls) = renewals id db₀ + advanceCount id db₀ calls
  /-- of the renewals that read one period of a subscription, at most one keeps its charge -/
  renew_once : (∀ c ∈ calls, c.AsIssued) → (keptRenewals db₀ calls).Nodup

namespace ChargeCall

theorem exec_of_settled (h : db.Settled c.entry) (hio : c.faults = noFaults) :
    ∃ r, (c.exec db).1 = .ok r ∧ r.replayed = true := by
  obtain ⟨r, hreplay, hr⟩ := replayOf_of_settled h
  refine ⟨r, ?_, hr⟩
  cases c with
  | purchase io sub entry =>
    obtain rfl : io = noFaults := hio
    have hbody : purchasePlanWithBalanceBody noFaults sub entry db = .ok (r, none) := by
      have hreplay' : replayOf noFaults entry db = .ok (some r) := hreplay
      unfold purchasePlanWithBalanceBody beginTx
      simp only [stmt_noFaults, orWrap, ok_bind, hreplay']
    exact congrArg Prod.fst (atomically_of_return hbody)
  | renew io sub expected entry =>
    obtain rfl : io = noFaults := hio
    have hbody : renewSubscriptionWithBalanceBody noFaults sub expected entry db =
        .ok (r, none) := by
      have hreplay' : replayOf noFaults entry db = .ok (some r) := hreplay
      unfold renewSubscriptionWithBalanceBody beginTx
      simp only [stmt_noFaults, orWrap, ok_bind, hreplay']
    exact congrArg Prod.fst (atomically_of_return hbody)

theorem exists_bijOn_purchases (hdb : db.Indexed) (h : ∀ c ∈ calls, c.AsIssued) :
    ∃ f : BalanceEntry → String,
    (∀ q ∈ purchases db calls, f q.1 = q.2) ∧
      Set.BijOn f {e | e ∈ purchaseRows (run step db calls) ∧ e ∉ purchaseRows db}
      {id | id ∈ subscriptionIDs (run step db calls) ∧ id ∉ subscriptionIDs db} := by
  have hend := hdb.run calls
  have hrows : (purchaseRows db ++ (purchases db calls).map Prod.fst).Nodup := by
    rw [← purchaseRows_run h]
    exact (List.Nodup.of_map _ hend.entries).filter _
  have hids : (subscriptionIDs db ++ (purchases db calls).map Prod.snd).Nodup := by
    rw [← subscriptionIDs_run db calls]
    exact hend.subs
  obtain ⟨f, hval, hf⟩ := exists_bijOn_of_pairs (List.nodup_append.mp hrows).2.1
    (List.nodup_append.mp hids).2.1
  refine ⟨f, hval, ?_⟩
  have hnew : ∀ {α : Type} {l1 l2 : List α}, (l1 ++ l2).Nodup →
      {a | a ∈ l1 ++ l2 ∧ a ∉ l1} = {a | a ∈ l2} := by
    intro α l1 l2 hnd
    ext a
    constructor
    · rintro ⟨hmem, hold⟩
      exact (List.mem_append.mp hmem).resolve_left hold
    · intro hmem
      exact ⟨List.mem_append_right _ hmem,
        fun hold => (List.nodup_append.mp hnd).2.2 a hold a hmem rfl⟩
  rw [purchaseRows_run h, subscriptionIDs_run, hnew hrows, hnew hids]
  exact hf

end ChargeCall

/-- **A charge if and only if its effect, once per request.**  From any tables that respect their
indexes, over any interleaving of purchases and renewals with any faults. -/
theorem charge_iff_effect {db₀ : Db} (h₀ : db₀.Indexed) (calls : List ChargeCall) :
    ChargeIffEffect db₀ calls where
  request_once userID requestID hreq := by
    have hcount := (h₀.run calls).requests.countP_le_one Db.requestKey (userID, requestID)
    refine le_of_eq_of_le (List.countP_congr fun e _ => ?_) hcount
    simp only [Bool.and_eq_true, decide_eq_true_eq, Db.hasRequest, Db.requestKey, Prod.mk.injEq,
      decide_not, Bool.not_eq_true', decide_eq_false_iff_not]
    constructor
    · rintro ⟨rfl, rfl⟩
      exact ⟨hreq, rfl, rfl⟩
    · exact fun h => h.2
  replayed c hsettled := by
    cases c.outcome (run step db₀ calls) with
    | none hsame _ hreplay => exact ⟨hsame, hreplay, exec_of_settled hsettled⟩
    | commit hnew _ _ _ _ => exact absurd hsettled hnew
  one_active userID := (h₀.run calls).actives.countP_le_one UserSubscription.userID userID
  purchase_bijection h := exists_bijOn_purchases h₀ h
  renew_advances h := renewals_run h₀ h
  renew_once h := nodup_keptRenewals h₀ h

def shopDb : Db :=
  { users := [.customer]
    plans := [{ id := "pl", durationDays := 30, priceMicro := 5000000, status := .active }]
    userBalance := [⟨"u", 20000000, 0⟩] }

def shopCalls : List ChargeCall :=
  [.purchase noFaults { id := "us", userID := "u", planID := "pl" }
      { id := "bl1", userID := "u", deltaMicro := -5000000, reason := .purchase, refID := "pl",
        requestID := "r1" },
    .purchase noFaults { id := "us2", userID := "u", planID := "pl" }
      { id := "bl2", userID := "u", deltaMicro := -5000000, reason := .purchase, refID := "pl",
        requestID := "r1" },
    .renew noFaults { id := "us", userID := "u", periodIndex := 1 } 0
      { id := "bl3", userID := "u", deltaMicro := -5000000, reason := .renew, refID := "us",
        requestID := "renew:us:0" },
    .renew noFaults { id := "us", userID := "u", periodIndex := 1 } 0
      { id := "bl4", userID := "u", deltaMicro := -5000000, reason := .renew, refID := "us",
        requestID := "r2" }]

theorem charge_iff_effect_shop : ChargeIffEffect shopDb shopCalls ∧
      (run ChargeCall.step shopDb shopCalls).balance "u" = 10000000 ∧
      ChargeCall.purchases shopDb shopCalls ≠ [] ∧
      ChargeCall.keptRenewals shopDb shopCalls = [("us", 0)] :=
  ⟨charge_iff_effect ⟨by decide, by decide, by decide, by decide⟩ shopCalls, by decide⟩

def purchaseAs (reason : BalanceReason) : ChargeCall :=
  .purchase noFaults { id := "us", userID := "u", planID := "pl" }
    { id := "bl1", userID := "u", deltaMicro := -5000000, reason := reason, refID := "pl" }

/-- A renewal that writes the period it has read. -/
def renewInPlace (entryID : String) : ChargeCall :=
  .renew noFaults { id := "us", userID := "u" } 0
    { id := entryID, userID := "u", deltaMicro := -5000000, reason := .renew, refID := "us" }

/-- **Arguments that no caller passes break the tie.**  Two renewals that read the same period and
write it back both keep their charge, and the period stands where it was; and a purchase that is
entered under another reason inserts a subscription and no purchase row. -/
theorem charge_without_effect :
    let calls := [purchaseAs .purchase, renewInPlace "bl2", renewInPlace "bl3"]
    renewals "us" (run ChargeCall.step shopDb calls) = 2 ∧
      ChargeCall.advanceCount "us" shopDb calls = 0 ∧
      ChargeCall.keptRenewals shopDb calls = [("us", 0), ("us", 0)] ∧
      ChargeCall.purchaseRows (run ChargeCall.step shopDb [purchaseAs .refund]) = [] ∧
      ChargeCall.subscriptionIDs (run ChargeCall.step shopDb [purchaseAs .refund]) = ["us"] := by
  decide +kernel

end Prism
