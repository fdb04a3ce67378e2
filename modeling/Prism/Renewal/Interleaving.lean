import Prism.Foundation.Run
import Prism.Service.Renewal
import Prism.Service.Subscription

/-!
# Operations that read first and write later

A renewal and an operator's write both read a subscription row, work on the copy, and write later.
Every single write is a transaction, but nothing holds the row between the read and the write, so
any number of such operations can be between the two at once.

`World` is the database together with the operations *in flight*: those that have read and not yet
written.  An event is a read (an operation takes off), a write (the operation at some position
lands, whether or not its transaction commits), or one of the writes that need no read.  A list of
events is an interleaving, and every interleaving of the reads and writes of any number of
operations is such a list.

`World.step_effect` says once what an event can do to a subscription row; the results about
interleavings rest on it and never look at the transactions again.
-/

namespace Prism

open Table

/-- A renewal between its read and its write. -/
structure RenewalFlight where
  read : UserSubscription
  plan : Plan
  price : ℤ
  nowNs : ℤ
  requestID : String
  entryID : String
  active : read.status = .active
  priced : ∃ db, renewalPrice db read = .ok (plan, price)
  lasts : 0 < plan.durationDays

def RenewalFlight.write (f : RenewalFlight) : RenewalWrite :=
  renewalWrite f.read f.plan f.price f.nowNs f.requestID f.entryID

structure TermsFlight where
  read : UserSubscription
  change : TermsChange
  updated : UserSubscription
  applied : change.apply read = .ok updated

inductive Flight where
  | renewal (f : RenewalFlight)
  | terms (f : TermsFlight)

def Flight.read : Flight → UserSubscription
  | .renewal f => f.read
  | .terms f => f.read

def Flight.land (io : Faults) : Flight → Db → Db
  | .renewal f, db => (f.write.run io db).2
  | .terms f, db => (updateUserSubscriptionTerms io f.updated db).2

/-- Read a row for a renewal.  `SelfRenew` and the sweep both take active rows only, and neither
goes on with a row that cannot be priced or a plan without a duration. -/
def startRenewal (db : Db) (id : String) (nowNs : ℤ) (requestID entryID : String) :
    Option RenewalFlight :=
  match db.subscription id with
  | none => none
  | some sub =>
    if hactive : sub.status = .active then
      match hprice : renewalPrice db sub with
      | .error _ => none
      | .ok (plan, price) =>
        if hlasts : 0 < plan.durationDays then
          some ⟨sub, plan, price, nowNs, requestID, entryID, hactive, ⟨db, hprice⟩, hlasts⟩
        else none
    else none

def startTerms (db : Db) (id : String) (change : TermsChange) : Option TermsFlight :=
  match db.subscription id with
  | none => none
  | some sub =>
    if change.selects sub then
      match happly : change.apply sub with
      | .error _ => none
      | .ok updated => some ⟨sub, change, updated, happly⟩
    else none

theorem startRenewal_read {db : Db} {id : String} {nowNs : ℤ} {requestID entryID : String}
    {f : RenewalFlight} (h : startRenewal db id nowNs requestID entryID = some f) :
    db.subscription f.read.id = some f.read ∧ renewalPrice db f.read = .ok (f.plan, f.price) := by
  unfold startRenewal at h
  split at h
  · cases h
  rename_i sub hsub
  split at h
  · split at h
    · cases h
    rename_i plan price hprice
    split at h
    · rw [← Option.some.inj h]
      have hid : sub.id = id := key_of_lookup hsub
      exact ⟨by rw [hid]; exact hsub, hprice⟩
    · cases h
  · cases h

theorem startTerms_read {db : Db} {id : String} {change : TermsChange} {f : TermsFlight}
    (h : startTerms db id change = some f) : db.subscription f.read.id = some f.read := by
  unfold startTerms at h
  split at h
  · cases h
  rename_i sub hsub
  split at h
  · split at h
    · cases h
    · rw [← Option.some.inj h]
      have hid : sub.id = id := key_of_lookup hsub
      rw [hid]
      exact hsub
  · cases h

/-- The tables, and the operations between their read and their write. -/
structure World where
  db : Db
  inFlight : List Flight

inductive Event where
  | readRenewal (id : String) (nowNs : ℤ) (requestID entryID : String)
  | readTerms (id : String) (change : TermsChange)
  /-- the operation at the position writes -/
  | write (position : ℕ) (io : Faults)
  | revoke (io : Faults) (id : String)
  | setAutoRenew (io : Faults) (id : String) (autoRenew : Bool)
  | expireStale (io : Faults) (nowNs : ℤ)
  | upsertPlan (io : Faults) (plan : Plan)

namespace World

def step (w : World) : Event → World
  | .readRenewal id nowNs requestID entryID =>
    { w with
      inFlight := w.inFlight ++
        ((startRenewal w.db id nowNs requestID entryID).map Flight.renewal).toList }
  | .readTerms id change =>
    { w with inFlight := w.inFlight ++ ((startTerms w.db id change).map Flight.terms).toList }
  | .write k io =>
    match w.inFlight[k]? with
    | none => w
    | some f => ⟨f.land io w.db, w.inFlight.eraseIdx k⟩
  | .revoke io id => { w with db := (revokeUserSubscription io id w.db).2 }
  | .setAutoRenew io id autoRenew =>
    { w with db := (setSubscriptionAutoRenew io id autoRenew w.db).2 }
  | .expireStale io nowNs => { w with db := (expireStaleSubscriptions io nowNs w.db).2 }
  | .upsertPlan io plan => { w with db := (upsertPlan io plan w.db).2 }

variable {w : World} {ev : Event}

theorem mem_inFlight_step {f : Flight} (h : f ∈ (w.step ev).inFlight) :
    f ∈ w.inFlight ∨ w.db.subscription f.read.id = some f.read ∧ (w.step ev).db = w.db := by
  cases ev with
  | readRenewal id nowNs requestID entryID =>
    rcases List.mem_append.mp h with h | h
    · exact .inl h
    · obtain ⟨g, hg, rfl⟩ := Option.map_eq_some_iff.mp (Option.mem_toList.mp h)
      exact .inr ⟨(startRenewal_read hg).1, rfl⟩
  | readTerms id change =>
    rcases List.mem_append.mp h with h | h
    · exact .inl h
    · obtain ⟨g, hg, rfl⟩ := Option.map_eq_some_iff.mp (Option.mem_toList.mp h)
      exact .inr ⟨startTerms_read hg, rfl⟩
  | write k io =>
    simp only [step] at h
    split at h
    · exact .inl h
    · exact .inl (List.mem_of_mem_eraseIdx h)
  | revoke | setAutoRenew | expireStale | upsertPlan => exact .inl h

/-- What an event does to the rows. -/
inductive Effect (w : World) (ev : Event) : Prop where
  | still (hsubs : (w.step ev).db.userSubscriptions = w.db.userSubscriptions)
      (hledger : (w.step ev).db.balanceLedger = w.db.balanceLedger)
  /-- a write to the status or to the renewal switch of some rows -/
  | column (p : UserSubscription → Bool) (g : UserSubscription → UserSubscription)
      (hsubs : (w.step ev).db.userSubscriptions = updateWhere p g w.db.userSubscriptions)
      (hg : ∀ r, ∃ status autoRenew, g r = { r with status := status, autoRenew := autoRenew })
      (hledger : (w.step ev).db.balanceLedger = w.db.balanceLedger)
  /-- an operator's write that commits -/
  | terms (k : ℕ) (io : Faults) (f : TermsFlight) (hev : ev = .write k io)
      (hf : w.inFlight[k]? = some (.terms f))
      (hok : (updateUserSubscriptionTerms io f.updated w.db).1 = .ok ())
      (hdb : (w.step ev).db = w.db.withTerms (storedTerms f.updated))
  /-- a renewal that commits, on a row that still carries the period it read -/
  | renewal (k : ℕ) (io : Faults) (f : RenewalFlight) (row : UserSubscription)
      (hev : ev = .write k io) (hf : w.inFlight[k]? = some (.renewal f))
      (hrow : w.db.subscription f.read.id = some row)
      (hperiod : row.periodIndex = f.read.periodIndex)
      (hdb : (w.step ev).db =
        (w.db.post (w.db.settled f.write.entry)).renewed f.write.sub f.read.periodIndex)

theorem effect_of_eq (h : (w.step ev).db = w.db) : w.Effect ev :=
  .still (by rw [h]) (by rw [h])

theorem effect_of_column {p : UserSubscription → Bool} {g : UserSubscription → UserSubscription}
    (h : (w.step ev).db = { w.db with userSubscriptions := updateWhere p g w.db.userSubscriptions })
    (hg : ∀ r, ∃ status autoRenew, g r = { r with status := status, autoRenew := autoRenew }) :
    w.Effect ev :=
  .column p g (by rw [h]) hg (by rw [h])

section

variable (hkeys : w.db.SubsKeyed)

include hkeys

theorem step_effect (ev : Event) : w.Effect ev := by
  cases hev : ev with
  | readRenewal | readTerms => exact effect_of_eq rfl
  | write k io =>
    cases hf : w.inFlight[k]? with
    | none => exact effect_of_eq (by simp only [step, hf])
    | some f =>
      cases f with
      | terms f =>
        rcases updateUserSubscriptionTerms_cases io f.updated w.db with
          ⟨e, hfail⟩ | ⟨-, hdone⟩
        · exact effect_of_eq (by simp only [step, hf, Flight.land, hfail])
        · exact .terms k io f rfl hf (by rw [hdone]) (by simp only [step, hf, Flight.land, hdone])
      | renewal f =>
        rcases f.write.run_cases io w.db with ⟨hsame, -⟩ | ⟨⟨-, -, row, hrow⟩, hdone⟩
        · exact effect_of_eq (by simp only [step, hf, Flight.land, hsame])
        · obtain ⟨hlook, hperiod⟩ := Db.subscription_of_atPeriod hkeys hrow.at_period
          exact .renewal k io f row rfl hf hlook hperiod
            (by simp only [step, hf, Flight.land, hdone]; rfl)
  | revoke io id =>
    rcases revokeUserSubscription_snd_cases io id w.db with hsame | hdb
    · exact effect_of_eq hsame
    · exact effect_of_column hdb fun r => ⟨.suspended, r.autoRenew, rfl⟩
  | setAutoRenew io id autoRenew =>
    rcases setSubscriptionAutoRenew_snd_cases io id autoRenew w.db with hsame | hdb
    · exact effect_of_eq hsame
    · exact effect_of_column hdb fun r => ⟨r.status, autoRenew, rfl⟩
  | expireStale io nowNs =>
    rcases expireStaleSubscriptions_snd_cases io nowNs w.db with hsame | hdb
    · exact effect_of_eq hsame
    · exact effect_of_column hdb fun r => ⟨.expired, r.autoRenew, rfl⟩
  | upsertPlan io plan =>
    rcases upsertPlan_cases io plan w.db with ⟨e, hfail⟩ | hdone
    · exact effect_of_eq (by rw [step, hfail])
    · exact .still (by rw [step, hdone]; rfl) (by rw [step, hdone]; rfl)

theorem map_id_step (ev : Event) : (w.step ev).db.userSubscriptions.map UserSubscription.id =
      w.db.userSubscriptions.map UserSubscription.id := by
  cases step_effect hkeys ev with
  | still hsubs _ => rw [hsubs]
  | column p g hsubs hg _ =>
    rw [hsubs]
    refine map_key_updateWhere _ (fun r _ => ?_) _
    obtain ⟨status, autoRenew, h⟩ := hg r
    rw [h]
  | terms _ _ _ _ _ _ hdb | renewal _ _ _ _ _ _ _ _ hdb =>
    rw [hdb]
    refine map_key_updateWhere _ ?_ _
    intro r _
    rfl

theorem exists_row_of_step {id : String} {row' : UserSubscription}
    (h : (w.step ev).db.subscription id = some row') : ∃ row, w.db.subscription id = some row := by
  have hsome : ((w.step ev).db.subscription id).isSome = true := by rw [h]; rfl
  rw [Db.subscription, lookup_isSome_iff, map_id_step hkeys, ← lookup_isSome_iff] at hsome
  exact Option.isSome_iff_exists.mp hsome

theorem keysNodup_step (ev : Event) : (w.step ev).db.SubsKeyed := by
  unfold Db.SubsKeyed KeysNodup at hkeys ⊢
  rwa [map_id_step hkeys ev]

end

def monthlyPlan : Plan :=
  { id := "pl", name := "monthly", durationDays := 30, priceMicro := 5000000, status := .active }

/-- A customer on the plan with money left, whose month runs out at day thirty. -/
def monthlyWorld : World where
  db :=
    { users := [.customer]
      plans := [monthlyPlan]
      userSubscriptions :=
        [{ id := "us", userID := "u", planID := "pl", planSnapshot := .plan monthlyPlan,
           expiresAtNs := 30 * dayNs, autoRenew := true, status := .active }]
      userBalance := [⟨"u", 20000000, 0⟩] }
  inFlight := []

end World
end Prism
