import Prism.Service.Renewal

/-!
# One pass of the renewal sweep

`RenewDueSubscriptions` lists the rows that may be due and goes over the list once.  Each turn works
on the copy the list was made of, prices it, and asks for one renewal.  What a turn can do is `Turn`;
what a whole pass does to one subscription is `pass_cases`: nothing, or exactly one period bought,
at a moment when the row was inside its window.

The reason a pass buys at most one period is that ids are unique: a row has one turn.
-/

namespace Prism

open Table

/-- The write a turn of the sweep asks for. -/
def sweepWrite (s : UserSubscription) (plan : Plan) (price nowNs : ℤ) (entryID : String) :
    RenewalWrite :=
  renewalWrite s plan price nowNs (renewalRequestID s) entryID

inductive Turn (nowNs : ℤ) (entryID : Option String) (s : UserSubscription) (p p' : Panel) : Prop
    where
  /-- no charge: not due, refused, or a replay, which publishes the keys again -/
  | idle (hdb : p'.db = p.db) (hp : p' = p ∨ p' = republishOrLog s.userID p)
  | charge (plan : Plan) (price : ℤ) (id : String)
      (hprice : renewalPrice p.db s = .ok (plan, price))
      (hdue : renewalDue s plan nowNs = true) (hlasts : 0 < plan.durationDays)
      (hid : entryID = some id) (hgrants : p.db.Grants (sweepWrite s plan price nowNs id))
      (hp : p' = republishOrLog s.userID
        ⟨p.db.renewedBy (sweepWrite s plan price nowNs id), p.keys⟩)

variable (env : SweepEnv)

theorem renewDue_turn (nowNs : ℤ) (k : ℕ) (s : UserSubscription) (r : RenewalView × Panel) :
    Turn nowNs (env.entryID k) s r.2 (renewDue env nowNs k s r).2 := by
  unfold renewDue
  cases hprice : renewalPrice r.2.db s with
  | error e => exact .idle rfl (.inl rfl)
  | ok quote =>
    obtain ⟨plan, price⟩ := quote
    simp only
    by_cases hdue : renewalDue s plan nowNs = true
    swap
    · simp only [hdue, Bool.not_false, if_true]
      exact .idle rfl (.inl rfl)
    simp only [hdue, Bool.not_true, Bool.false_eq_true, if_false]
    rcases renewOneWithPlan_snd_cases (env.io k) (env.entryID k) s plan price nowNs
        (renewalRequestID s) r.2 with ⟨hdb, hp⟩ | ⟨id, hid, hlasts, hgrants, hp⟩
    · exact .idle hdb hp
    · exact .charge plan price id hprice hdue hlasts hid hgrants hp

variable {s : UserSubscription} {nowNs : ℤ}

theorem Turn.db_cases {entryID : Option String} {p p' : Panel} (h : Turn nowNs entryID s p p') :
    p'.db = p.db ∨ ∃ plan price id, entryID = some id ∧
      p.db.Grants (sweepWrite s plan price nowNs id) ∧
      p'.db = p.db.renewedBy (sweepWrite s plan price nowNs id) := by
  cases h with
  | idle hdb _ => exact .inl hdb
  | charge plan price id _ _ _ hid hgrants hp =>
    refine .inr ⟨plan, price, id, hid, hgrants, ?_⟩
    rw [hp, republishOrLog_db]

variable {id : String} {price : ℤ} {plan : Plan}

theorem renewDue_charges {env : SweepEnv} {k : ℕ} {r : RenewalView × Panel}
    (hprice : renewalPrice r.2.db s = .ok (plan, price)) (hdue : renewalDue s plan nowNs = true)
    (hlasts : 0 < plan.durationDays) (hid : env.entryID k = some id) (hio : env.io k = noFaults)
    (hgrants : r.2.db.Grants (sweepWrite s plan price nowNs id)) :
    (renewDue env nowNs k s r).2.db = r.2.db.renewedBy (sweepWrite s plan price nowNs id) := by
  have hrun := RenewalWrite.run_of_grants hgrants
  unfold sweepWrite at hrun
  unfold renewDue renewOneWithPlan
  simp only [hprice, hdue, Bool.not_true, Bool.false_eq_true, if_false, hid, hio, hrun,
    if_neg (not_le.mpr hlasts)]
  exact republishOrLog_db _ _

/-- The subscription, its renewals and the price list are as they were; no id has moved. -/
structure Db.Untouched (id : String) (db db' : Db) : Prop where
  row : db'.subscription id = db.subscription id
  renewals : renewals id db' = renewals id db
  plans : db'.plans = db.plans
  ids : db'.userSubscriptions.map UserSubscription.id =
    db.userSubscriptions.map UserSubscription.id

theorem Db.Untouched.refl (id : String) (db : Db) : Db.Untouched id db db := ⟨rfl, rfl, rfl, rfl⟩

theorem Db.Untouched.trans {db1 db2 db3 : Db} (h1 : Db.Untouched id db1 db2)
    (h2 : Db.Untouched id db2 db3) : Db.Untouched id db1 db3 :=
  ⟨h2.row.trans h1.row, h2.renewals.trans h1.renewals, h2.plans.trans h1.plans, h2.ids.trans h1.ids⟩

variable {db : Db}

theorem Db.Untouched.keys {db' : Db} (h : Db.Untouched id db db') (hkeys : db.SubsKeyed) :
    db'.SubsKeyed := by
  unfold Db.SubsKeyed KeysNodup at hkeys ⊢
  rwa [h.ids]

theorem Turn.untouched {entryID : Option String} {p p' : Panel} (h : Turn nowNs entryID s p p')
    (hne : id ≠ s.id) : Db.Untouched id p.db p'.db := by
  rcases h.db_cases with hdb | ⟨plan, price, entry, -, -, hdb⟩
  · rw [hdb]
    exact .refl id p.db
  · rw [hdb]
    refine ⟨Db.subscription_renewedBy_of_ne p.db hne, ?_, rfl, Db.map_id_renewedBy _ _⟩
    rw [renewals_renewedBy p.db rfl, if_neg (fun heq => hne heq.symm), Nat.add_zero]

/-! ## The loop -/

theorem renewDueFrom_append (env : SweepEnv) (nowNs : ℤ) :
    ∀ (l1 l2 : List UserSubscription) (k : ℕ) (r : RenewalView × Panel),
      renewDueFrom env nowNs k (l1 ++ l2) r =
        renewDueFrom env nowNs (k + l1.length) l2 (renewDueFrom env nowNs k l1 r)
  | [], _, _, _ => rfl
  | s :: l1, l2, k, r => by
    rw [List.cons_append, renewDueFrom, renewDueFrom, renewDueFrom_append env nowNs l1 l2,
      List.length_cons, Nat.add_right_comm, Nat.add_assoc]

theorem renewDueFrom_invariant {I : ℕ → Panel → Prop} {env : SweepEnv} :
    ∀ (l : List UserSubscription) (k : ℕ) (r : RenewalView × Panel),
      (∀ s ∈ l, ∀ k p p', Turn nowNs (env.entryID k) s p p' → I k p → I (k + 1) p') → I k r.2 →
      I (k + l.length) (renewDueFrom env nowNs k l r).2
  | [], _, _, _, h => h
  | s :: l, k, r, hturn, h => by
    rw [renewDueFrom, List.length_cons, ← Nat.add_assoc, Nat.add_right_comm]
    refine renewDueFrom_invariant l (k + 1) _ (fun t ht => hturn t (by simp [ht])) ?_
    exact hturn s (by simp) k r.2 _ (renewDue_turn env nowNs k s r) h

theorem renewDueFrom_untouched (nowNs : ℤ) {l : List UserSubscription} (k : ℕ)
    (r : RenewalView × Panel) (hne : ∀ s ∈ l, id ≠ s.id) :
    Db.Untouched id r.2.db (renewDueFrom env nowNs k l r).2.db :=
  renewDueFrom_invariant (I := fun _ p => Db.Untouched id r.2.db p.db) l k r
    (fun s hs _ _ _ hturn h => h.trans (hturn.untouched (hne s hs))) (.refl id r.2.db)

theorem renewDueSubscriptions_panel (hnow : 0 < nowNs) (p : Panel) :
    (renewDueSubscriptions env nowNs p).2 = (renewDueFrom env nowNs 0
      (listRenewableSubscriptions nowNs renewalLeadTimeNs p.db) ({}, p)).2 := by
  unfold renewDueSubscriptions
  rw [if_neg (not_le.mpr hnow)]

theorem nodup_ids_listRenewable (nowNs withinNs : ℤ) (hkeys : db.SubsKeyed) :
    ((listRenewableSubscriptions nowNs withinNs db).map UserSubscription.id).Nodup := by
  refine ((List.mergeSort_perm _ _).map UserSubscription.id).nodup_iff.mpr ?_
  exact List.Nodup.sublist (List.filter_sublist.map UserSubscription.id) hkeys

theorem exists_split_listRenewable {withinNs : ℤ}
    (hkeys : db.SubsKeyed)
    (hs : s ∈ listRenewableSubscriptions nowNs withinNs db) :
    ∃ l1 l2, listRenewableSubscriptions nowNs withinNs db = l1 ++ s :: l2 ∧
      (∀ t ∈ l1, s.id ≠ t.id) ∧ ∀ t ∈ l2, s.id ≠ t.id := by
  obtain ⟨l1, l2, hl⟩ := List.append_of_mem hs
  have hnd := nodup_ids_listRenewable nowNs withinNs hkeys
  rw [hl, List.map_append, List.map_cons, List.nodup_append] at hnd
  refine ⟨l1, l2, hl, fun t ht heq => ?_, fun t ht heq => ?_⟩
  · exact hnd.2.2 t.id (List.mem_map_of_mem ht) s.id (by simp) heq.symm
  · exact (List.nodup_cons.mp hnd.2.1).1 (heq ▸ List.mem_map_of_mem ht)

theorem eq_of_mem_listRenewable {withinNs : ℤ} {t : UserSubscription}
    (hkeys : db.SubsKeyed)
    (hs : db.subscription s.id = some s) (ht : t ∈ listRenewableSubscriptions nowNs withinNs db)
    (hid : s.id = t.id) : s = t := by
  have hmem := (mem_listRenewableSubscriptions.mp ht).1
  have hlook := lookup_of_mem hkeys hmem
  rw [← hid] at hlook
  exact Option.some.inj (hs.symm.trans hlook)

/-! ## One pass and one subscription -/

theorem renewalPrice_congr {db' : Db} (h : db'.plans = db.plans) (s : UserSubscription) :
    renewalPrice db' s = renewalPrice db s := by
  unfold renewalPrice Db.plan
  rw [h]

def renewedRow (s : UserSubscription) (plan : Plan) (price nowNs : ℤ) : UserSubscription :=
  { s with
    planSnapshot := snapshotOrEmpty (if price ≤ 0 then planSnapshotJSON plan else s.planSnapshot)
    expiresAtNs := expiryFromDays plan.durationDays (max s.expiresAtNs nowNs)
    periodIndex := s.periodIndex + 1
    periodStartNs := max s.expiresAtNs nowNs
    periodUsedBytes := 0
    status := .active }

theorem planSnapshot_renewedRow (h : renewalPrice db s = .ok (plan, price)) (nowNs : ℤ) :
    (renewedRow s plan price nowNs).planSnapshot = .plan plan := by
  obtain ⟨hpos, hsource⟩ := renewalPrice_eq_ok h
  unfold renewedRow
  rcases hsource with ⟨hsnap, hprice⟩ | ⟨hprice, -⟩
  · rw [if_neg (by omega), hsnap]
    rfl
  · rw [if_pos (by omega)]
    rfl

structure Db.Bought (s : UserSubscription) (plan : Plan) (price nowNs : ℤ) (db db' : Db) : Prop
    where
  priced : renewalPrice db s = .ok (plan, price)
  due : renewalDue s plan nowNs = true
  lasts : 0 < plan.durationDays
  row : db'.subscription s.id = some (renewedRow s plan price nowNs)
  renewals : renewals s.id db' = renewals s.id db + 1
  plans : db'.plans = db.plans
  ids : db'.userSubscriptions.map UserSubscription.id =
    db.userSubscriptions.map UserSubscription.id

theorem Db.Bought.of_untouched {db0 db1 db2 db3 : Db} (h1 : Db.Untouched s.id db0 db1)
    (h : Db.Bought s plan price nowNs db1 db2) (h2 : Db.Untouched s.id db2 db3) :
    Db.Bought s plan price nowNs db0 db3 where
  priced := by rw [← renewalPrice_congr h1.plans]; exact h.priced
  due := h.due
  lasts := h.lasts
  row := h2.row.trans h.row
  renewals := by rw [h2.renewals, h.renewals, h1.renewals]
  plans := h2.plans.trans (h.plans.trans h1.plans)
  ids := h2.ids.trans (h.ids.trans h1.ids)

theorem bought_renewedBy {entryID : String}
    (hkeys : db.SubsKeyed)
    (hrow : db.subscription s.id = some s) (hprice : renewalPrice db s = .ok (plan, price))
    (hdue : renewalDue s plan nowNs = true) (hlasts : 0 < plan.durationDays)
    (hgrants : db.Grants (sweepWrite s plan price nowNs entryID)) :
    Db.Bought s plan price nowNs db (db.renewedBy (sweepWrite s plan price nowNs entryID)) := by
  refine ⟨hprice, hdue, hlasts, ?_, ?_, rfl, Db.map_id_renewedBy _ _⟩
  · obtain ⟨row, hlook, -, hafter⟩ := hgrants.subscription_renewedBy hkeys
    have hsame : s = row := Option.some.inj (hrow.symm.trans hlook)
    subst hsame
    exact hafter
  · rw [renewals_renewedBy db rfl]
    simp [sweepWrite, renewalWrite]

/-- **How a pass comes to a row**: not at all, or by the turns before it, its own turn, and the
turns after it. -/
theorem pass_split (nowNs : ℤ) {p : Panel}
    (hkeys : p.db.SubsKeyed)
    (hrow : p.db.subscription s.id = some s) :
    Db.Untouched s.id p.db (renewDueSubscriptions env nowNs p).2.db ∨ 0 < nowNs ∧
      ∃ l1 l2, listRenewableSubscriptions nowNs renewalLeadTimeNs p.db = l1 ++ s :: l2 ∧
        (∀ t ∈ l1, s.id ≠ t.id) ∧ (∀ t ∈ l2, s.id ≠ t.id) ∧
        (renewDueSubscriptions env nowNs p).2 = (renewDueFrom env nowNs (l1.length + 1) l2
          (renewDue env nowNs l1.length s (renewDueFrom env nowNs 0 l1 ({}, p)))).2 := by
  by_cases hnow : nowNs ≤ 0
  · unfold renewDueSubscriptions
    rw [if_pos hnow]
    exact .inl (.refl _ _)
  have hpanel := renewDueSubscriptions_panel env (not_le.mp hnow) p
  by_cases hlist : s ∈ listRenewableSubscriptions nowNs renewalLeadTimeNs p.db
  swap
  · rw [hpanel]
    refine .inl (renewDueFrom_untouched env nowNs 0 ({}, p) fun t ht heq => hlist ?_)
    rwa [eq_of_mem_listRenewable hkeys hrow ht heq]
  obtain ⟨l1, l2, hl, hne1, hne2⟩ := exists_split_listRenewable hkeys hlist
  rw [hl, renewDueFrom_append, renewDueFrom, Nat.zero_add] at hpanel
  exact .inr ⟨not_le.mp hnow, l1, l2, hl, hne1, hne2, hpanel⟩

/-- **What one pass does to one subscription**: nothing, or one period is bought, on a row inside
its window. -/
theorem pass_cases (nowNs : ℤ) {p : Panel}
    (hkeys : p.db.SubsKeyed)
    (hrow : p.db.subscription s.id = some s) :
    Db.Untouched s.id p.db (renewDueSubscriptions env nowNs p).2.db ∨
      ∃ plan price, Db.Bought s plan price nowNs p.db (renewDueSubscriptions env nowNs p).2.db := by
  rcases pass_split env nowNs hkeys hrow with hsame | ⟨-, l1, l2, -, hne1, hne2, hpass⟩
  · exact .inl hsame
  rw [hpass]
  have h1 : Db.Untouched s.id p.db (renewDueFrom env nowNs 0 l1 ({}, p)).2.db :=
    renewDueFrom_untouched env nowNs 0 ({}, p) hne1
  generalize renewDueFrom env nowNs 0 l1 ({}, p) = r1 at h1 ⊢
  have hturn := renewDue_turn env nowNs l1.length s r1
  generalize renewDue env nowNs l1.length s r1 = r2 at hturn ⊢
  have h2 := renewDueFrom_untouched env nowNs (l1.length + 1) r2 hne2
  cases hturn with
  | idle hdb _ =>
    rw [hdb] at h2
    exact .inl (h1.trans h2)
  | charge plan price id hprice hdue hlasts _ hgrants hp =>
    have hbought := bought_renewedBy (h1.keys hkeys) (h1.row.trans hrow) hprice hdue hlasts hgrants
    rw [hp, republishOrLog_db] at h2
    exact .inr ⟨plan, price, hbought.of_untouched h1 h2⟩

end Prism
