import Prism.Console.Plan
import Prism.Usage.Turns

/-!
# Disabling a plan stops everyone on it

An update that leaves a plan disabled writes the plan, lists the active subscriptions, and rewrites
the snapshots of those on the plan one after the other.  A sale reads the plan, and some steps later
inserts a subscription that carries the plan as it was read.

From the listing on, what remains to be done is known: every active row on the plan carries a
disabled snapshot or has a copy in the list (`Pending`).  Other updates of the same kind may rewrite
snapshots in between, and only ever to disabled ones (`OnlyHalts`), so nothing that is done comes
undone; the copies stay good but for their snapshots, and each of the writes is accepted.

A sale that comes to its write after the listing escapes: nobody looks at its row again.
-/

namespace Prism

open Table

variable {r t : UserSubscription} {db : Db} {e : ServerEvent} {due : Bool}
  {todo : List UserSubscription}

/-- The plan in the snapshot is disabled. -/
def SnapshotText.halted : SnapshotText → Bool
  | .plan p => p.status = .disabled
  | _ => false

def UserSubscription.bare (r : UserSubscription) : UserSubscription :=
  { r with planSnapshot := .blank "" }

theorem UserSubscription.eq_of_bare (h : r.bare = t.bare) :
    t = { r with planSnapshot := t.planSnapshot } := by
  cases r
  cases t
  simp only [bare, UserSubscription.mk.injEq] at h ⊢
  obtain ⟨h1, h2, h3, -, h5⟩ := h
  subst h1 h2 h3
  simp_all

theorem UserSubscription.columns_of_bare (h : r.bare = t.bare) :
    r.id = t.id ∧ r.userID = t.userID ∧ r.planID = t.planID ∧ r.status = t.status := by
  rw [eq_of_bare h]
  exact ⟨rfl, rfl, rfl, rfl⟩

/-- **The rows are as they were**, but some may have come to carry a disabled snapshot. -/
structure OnlyHalts (rows rows' : List UserSubscription) : Prop where
  bare : rows'.map UserSubscription.bare = rows.map UserSubscription.bare
  halted : ∀ r ∈ rows', r ∈ rows ∨ r.planSnapshot.halted = true

theorem OnlyHalts.refl (rows : List UserSubscription) : OnlyHalts rows rows :=
  ⟨rfl, fun _ hr => .inl hr⟩

theorem OnlyHalts.trans {rows rows' rows'' : List UserSubscription} (h1 : OnlyHalts rows rows')
    (h2 : OnlyHalts rows' rows'') : OnlyHalts rows rows'' := by
  refine ⟨h2.bare.trans h1.bare, fun r hr => ?_⟩
  rcases h2.halted r hr with hr' | hr'
  · exact h1.halted r hr'
  · exact .inr hr'

theorem OnlyHalts.exists_bare {rows rows' : List UserSubscription} (h : OnlyHalts rows rows')
    (hr : r ∈ rows) : ∃ r' ∈ rows', r'.bare = r.bare := by
  have hmem : r.bare ∈ rows'.map UserSubscription.bare := by
    rw [h.bare]
    exact List.mem_map_of_mem hr
  exact List.mem_map.mp hmem

variable (planID : String)

def AllHalted (rows : List UserSubscription) : Prop :=
  ∀ r ∈ rows, r.status = .active → r.planID = planID → r.planSnapshot.halted = true

theorem AllHalted.of_onlyHalts {planID : String} {rows rows' : List UserSubscription}
    (h : AllHalted planID rows) (hrows : OnlyHalts rows rows') : AllHalted planID rows' := by
  intro r hr hactive hplan
  rcases hrows.halted r hr with hold | hhalted
  · exact h r hold hactive hplan
  · exact hhalted

/-! ## Changes that halt -/

/-- A change that selects the active rows on the plan, and gives each a disabled snapshot. -/
structure Halting (planID : String) (change : TermsChange) : Prop where
  selects : ∀ t, change.selects t = (decide (t.status = .active) && decide (t.planID = planID))
  apply : ∀ t, ∃ p : Plan, p.status = .disabled ∧
    change.apply t = .ok { t with planSnapshot := .plan p }

theorem halting_stop (plan : Plan) : Halting plan.id (.stop plan) := by
  refine ⟨fun _ => rfl, fun t => ?_⟩
  have hsnapshot : ∃ p : Plan, p.status = .disabled ∧
      disabledPlanSnapshot t.planSnapshot plan = .plan p := by
    unfold disabledPlanSnapshot
    cases planFromSnapshotJSON t.planSnapshot with
    | ok stored => exact ⟨{ stored with status := .disabled }, rfl, rfl⟩
    | error e => exact ⟨{ plan with status := .disabled }, rfl, rfl⟩
  obtain ⟨p, hp, hsnapshot⟩ := hsnapshot
  exact ⟨p, hp, by rw [TermsChange.apply, hsnapshot]⟩

theorem halting_applyPlan {plan : Plan} (h : plan.status = .disabled) :
    Halting plan.id (.applyPlan plan) :=
  ⟨fun _ => rfl, fun _ => ⟨plan, h, rfl⟩⟩

theorem termsColumns_halting (hbare : r.bare = t.bare) (hactive : r.status = .active) (p : Plan) :
    Db.termsColumns (storedTerms { t with planSnapshot := .plan p }) r =
      { r with planSnapshot := .plan p } := by
  rw [UserSubscription.eq_of_bare hbare]
  simp [Db.termsColumns, storedTerms, storedSnapshot, statusOrActive, hactive]

/-! ## The tables -/

/-- What the indexes and the references guarantee of the subscriptions. -/
structure Db.Owned (db : Db) : Prop where
  indexed : db.SubsIndexed
  owners : ∀ r ∈ db.userSubscriptions, db.hasUser r.userID = true

theorem Db.Owned.of_tables {db' : Db} (h : db.Owned)
    (hsubs : db'.userSubscriptions = db.userSubscriptions) (husers : db'.users = db.users) :
    db'.Owned := by
  refine ⟨h.indexed.of_subs hsubs, fun r hr => ?_⟩
  unfold Db.hasUser Db.user
  rw [husers]
  exact h.owners r (hsubs ▸ hr)

theorem Db.Owned.replaced (h : db.Owned) {terms : UserSubscription}
    (haccepts : db.AcceptsTerms terms) {f : UserSubscription → UserSubscription}
    (hid : ∀ r, r.id = terms.id → (f r).id = terms.id) (huser : ∀ r, (f r).userID = terms.userID)
    (hstatus : ∀ r, (f r).status = terms.status) :
    ({ db with
      userSubscriptions := updateWhere (fun r => r.id = terms.id) f
        db.userSubscriptions } : Db).Owned := by
  refine ⟨h.indexed.replaced haccepts hid huser hstatus, fun r hr => ?_⟩
  obtain ⟨r0, hr0, rfl⟩ := mem_updateWhere.mp hr
  split
  · rw [huser]
    exact haccepts.user
  · exact h.owners r0 hr0

theorem Db.Owned.withTerms (h : db.Owned) {terms : UserSubscription}
    (haccepts : db.AcceptsTerms terms) : (db.withTerms terms).Owned :=
  h.replaced haccepts (fun _ hr => hr) (fun _ => rfl) fun _ => rfl

theorem Db.Owned.inserted (h : db.Owned) {sub : UserSubscription}
    (hsub : db.AcceptsSubscription sub) :
    ({ db with userSubscriptions := db.userSubscriptions ++ [sub] } : Db).Owned := by
  refine ⟨h.indexed.inserted hsub, fun r hr => ?_⟩
  rcases List.mem_append.mp hr with hr | hr
  · exact h.owners r hr
  · rw [List.mem_singleton.mp hr]
    exact hsub.user

theorem Db.Owned.expired (h : db.Owned) (userID : String) : (db.expireActiveOf userID).Owned := by
  refine ⟨h.indexed.expired userID, fun r hr => ?_⟩
  rw [Db.userSubscriptions_expireActiveOf] at hr
  obtain ⟨r0, hr0, rfl⟩ := mem_updateWhere.mp hr
  split_ifs <;> exact h.owners r0 hr0

/-! ## The discipline -/

/-- The active subscriptions have been listed, to rewrite those on the plan. -/
def listed (h : History) : Bool :=
  h.trace.any fun e => e.2 = .activeListed planID

/-- **No sale comes to its writes after the listing.** -/
def SalesBeforeListing (h : History) (_ : ℕ) : ServerEvent → Prop
  | .purchased _ _ => listed planID h = false
  | .subscriptionOpened _ _ => listed planID h = false
  -- a sale ends what the user has running; the updates write active terms only
  | .termsWritten sub _ => sub.status = .active ∨ listed planID h = false
  | _ => True

instance (planID : String) (h : History) (i : ℕ) (e : ServerEvent) :
    Decidable (SalesBeforeListing planID h i e) := by
  unfold SalesBeforeListing
  split <;> infer_instance

structure StopRely (planID : String) (i : ℕ) (h h' : History) : Prop where
  own : own i h'.trace = own i h.trace
  listed : listed planID h = true → listed planID h' = true
  plan : h.state.db.hasPlanOrNull planID = true → h'.state.db.hasPlanOrNull planID = true
  rows : Prism.listed planID h = true →
    OnlyHalts h.state.db.userSubscriptions h'.state.db.userSubscriptions

def stopping : Discipline Server ServerEvent Mutex where
  inv h := h.state.db.Owned
  may := SalesBeforeListing planID
  rely := StopRely planID
  rely_refl _ _ := ⟨rfl, id, id, fun _ => .refl _⟩
  rely_trans h₁ h₂ := ⟨h₂.own.trans h₁.own, fun h => h₂.listed (h₁.listed h),
    fun h => h₂.plan (h₁.plan h), fun h => (h₁.rows h).trans (h₂.rows (h₁.listed h))⟩

section Steps

variable {planID : String} {i : ℕ} {h k : History}

theorem listed_did (e : ServerEvent) (s : Server) (hl : listed planID h = true) :
    listed planID (h.did i e s) = true := by
  unfold listed at hl ⊢
  rw [Hist.did_trace, List.any_cons, hl, Bool.or_true]

variable {s : Server}

theorem stopping_did (howned : s.db.Owned)
    (hplan : h.state.db.hasPlanOrNull planID = true → s.db.hasPlanOrNull planID = true)
    (hrows : listed planID h = true → OnlyHalts h.state.db.userSubscriptions s.db.userSubscriptions) :
    (stopping planID).Keeps i h (h.did i e s) :=
  ⟨howned, fun _ hj => ⟨own_cons_of_ne (Ne.symm hj) _ _, listed_did e s, hplan, hrows⟩⟩

theorem stopping_following (hinv : h.state.db.Owned) (hdb : s.db = h.state.db) :
    (stopping planID).Keeps i h (h.did i e s) := by
  refine stopping_did (hdb ▸ hinv) (fun hp => hdb ▸ hp) fun _ => ?_
  rw [hdb]
  exact .refl _

/-! ## Sales -/

theorem stopping_sale (howned : db.Owned) (hplans : db.plans = h.state.db.plans)
    (hlisted : listed planID h = false) :
    (stopping planID).Keeps i h (h.did i e { h.state with db := db }) := by
  refine stopping_did howned (fun hp => ?_) fun hl => ?_
  · unfold Db.hasPlanOrNull Db.plan at hp ⊢
    rw [hplans]
    exact hp
  · rw [hlisted] at hl
    cases hl

theorem safe_following {α : Type} {A : α → Prop} {prog : Task α} (hsteps : prog.Steps Following A) :
    (stopping planID).Tame i prog h := by
  refine (Discipline.Safe.of_steps (P := fun _ => True) ?_ (fun _ _ _ _ _ => trivial) hsteps
    trivial).mono fun _ _ _ _ => trivial
  exact fun k e s hinv _ _ hdb => ⟨stopping_following hinv hdb, trivial⟩

theorem Db.Owned.purchase (h : db.Owned) (io : Faults) (sub : UserSubscription)
    (entry : BalanceEntry) : (purchasePlanWithBalance io sub entry db).2.Owned ∧
      (purchasePlanWithBalance io sub entry db).2.plans = db.plans := by
  rcases Console.purchasePlanWithBalance_cases io sub entry db with
    ⟨hsame, -⟩ | ⟨haccepted, r, -, hdone⟩
  · rw [hsame]
    exact ⟨h, rfl⟩
  · rw [hdone]
    have hposted : (db.post (db.settled entry)).Owned := h.of_tables rfl rfl
    exact ⟨(hposted.expired entry.userID).inserted haccepted, rfl⟩

variable (io : Faults)

theorem safe_sell (sub : UserSubscription) (entry : BalanceEntry) :
    (stopping planID).Tame i (Console.sell io sub entry) h := by
  unfold Console.sell
  refine Task.safe_write fun k _ hinv a db hrun hmay => ?_
  have hdb : db = (purchasePlanWithBalance io sub entry k.state.db).2 := by rw [hrun]
  obtain ⟨howned, hplans⟩ := Db.Owned.purchase hinv io sub entry
  rw [← hdb] at howned hplans
  refine ⟨stopping_sale howned hplans hmay, ?_⟩
  cases a with
  | error e => exact .done
  | ok result =>
    exact (safe_following (Console.steps_settle sub.userID
      result.replayed)).seq fun _ _ _ _ _ _ => trivial

theorem safe_selfPurchase (env : Console.SaleEnv) (userID : String)
    (input : Console.PurchaseInput) (nowNs : ℤ) :
    (stopping planID).Tame i (Console.selfPurchase env userID input nowNs) h := by
  unfold Console.selfPurchase
  refine Task.safe_query fun k1 _ hinv1 _ => ⟨stopping_following hinv1 rfl, ?_⟩
  cases k1.state.db.user userID with
  | none => exact .done
  | some user =>
    cases Console.purchaseInput input with
    | error e => exact .done
    | ok asked =>
      refine Task.safe_query fun k2 _ hinv2 _ => ⟨stopping_following hinv2 rfl, ?_⟩
      cases Console.purchasablePlan (k2.state.db.plan asked.1) with
      | error e => exact .done
      | ok plan =>
        cases env.subID with
        | none => exact .done
        | some id =>
          cases env.entryID with
          | none => exact .done
          | some entryID => exact safe_sell _ _ _

theorem safe_expire (io : ℕ → Faults) (operation : String) (subs : List UserSubscription)
    (j n : ℕ) :
    (stopping planID).Tame i
      (Console.rewriteTerms io operation false .expire j subs n) h := by
  induction subs generalizing j n h with
  | nil => exact .done
  | cons sub subs ih =>
    unfold Console.rewriteTerms
    cases hsel : TermsChange.selects .expire sub with
    | false => exact ih (j + 1) n
    | true =>
      simp only [Bool.not_true, Bool.false_eq_true, if_false, TermsChange.apply]
      refine Task.safe_write fun k _ hinv a db hrun hmay => ?_
      have hlisted : listed planID k = false := hmay.resolve_left (by simp)
      rcases updateUserSubscriptionTerms_cases (io j) { sub with status := .expired }
          k.state.db with ⟨e, hfail⟩ | ⟨haccepts, hdone⟩
      · cases hrun.symm.trans hfail
        exact ⟨stopping_following hinv rfl, fun _ _ _ => trivial⟩
      · cases hrun.symm.trans hdone
        exact ⟨stopping_sale (Db.Owned.withTerms hinv haccepts) rfl hlisted, ih (j + 1) (n + 1)⟩

theorem Db.Owned.upsert (h : db.Owned) (io : Faults) (sub : UserSubscription) :
    (upsertUserSubscription io sub db).2.Owned ∧
      (upsertUserSubscription io sub db).2.plans = db.plans := by
  rcases upsertUserSubscription_cases io sub db with
    ⟨e, hfail⟩ | ⟨haccepts, hdone⟩ | ⟨haccepts, hdone⟩
  · rw [hfail]
    exact ⟨h, rfl⟩
  · rw [hdone]
    exact ⟨h.inserted haccepts, rfl⟩
  · rw [hdone]
    exact ⟨h.replaced haccepts (fun _ _ => rfl) (fun _ => rfl) fun _ => rfl, rfl⟩

theorem safe_openRow (sub : UserSubscription) :
    (stopping planID).Tame i (Console.openRow io sub) h := by
  unfold Console.openRow
  refine Task.safe_write fun k _ hinv a db hrun hmay => ?_
  have hdb : db = (upsertUserSubscription io sub k.state.db).2 := by rw [hrun]
  obtain ⟨howned, hplans⟩ := Db.Owned.upsert hinv io sub
  rw [← hdb] at howned hplans
  refine ⟨stopping_sale howned hplans hmay, ?_⟩
  cases a with
  | error e => exact .done
  | ok _ =>
    refine safe_following (A := fun _ => True)
      ((Console.steps_resetUser sub.userID).bind fun _ _ => ?_)
    refine (Console.following_republishUserKeys sub.userID).bind fun a _ => ?_
    cases a with
    | error | ok => trivial

theorem safe_assignSubscription (env : Console.SaleEnv) (userID assigned : String)
    (durationDays nowNs : ℤ) :
    (stopping planID).Tame i
      (Console.assignSubscription env userID assigned durationDays nowNs) h := by
  unfold Console.assignSubscription
  by_cases hdays : durationDays < 0
  · rw [if_pos hdays]
    exact .done
  by_cases hblank : trimSpace assigned = ""
  · rw [if_neg hdays, if_pos hblank]
    exact .done
  rw [if_neg hdays, if_neg hblank]
  refine Task.safe_query fun k1 _ hinv1 _ => ⟨stopping_following hinv1 rfl, ?_⟩
  cases k1.state.db.user userID with
  | none => exact .done
  | some user =>
    refine Task.safe_query fun k2 _ hinv2 _ => ⟨stopping_following hinv2 rfl, ?_⟩
    cases Console.assignablePlan durationDays (k2.state.db.plan (trimSpace assigned)) with
    | error e => exact .done
    | ok sold =>
      cases env.subID with
      | none => exact .done
      | some id =>
        have hexpire : ∀ m : History, (stopping planID).Tame i
            (Console.expireActiveSubscriptions (fun j => env.io (j + 1)) userID) m := by
          intro m
          unfold Console.expireActiveSubscriptions
          exact Task.safe_query fun k3 _ hinv3 _ =>
            ⟨stopping_following hinv3 rfl, safe_expire _ _ _ 0 0⟩
        refine (hexpire _).seq fun ended m _ => ?_
        obtain ⟨n, failed⟩ := ended
        cases failed with
        | some e => exact .done
        | none => exact safe_openRow _ _

/-! ## The updates -/

/-- **Where a loop stands.**  The rows still to be looked at have copies that are good but for the
snapshot, and an active row on the plan is halted unless it is among them; without `due`, all are
halted already. -/
structure Pending (planID : String) (due : Bool) (todo : List UserSubscription) (k : History) :
    Prop where
  listed : listed planID k = true
  plan : k.state.db.hasPlanOrNull planID = true
  copies : ∀ t ∈ todo, ∃ r ∈ k.state.db.userSubscriptions, r.bare = t.bare
  rest : ∀ r ∈ k.state.db.userSubscriptions, r.status = .active → r.planID = planID →
    r.planSnapshot.halted = true ∨ (due = true ∧ ∃ t ∈ todo, t.id = r.id)

section

variable (hp : Pending planID due todo h)

include hp

theorem Pending.mono (hlisted : Prism.listed planID k = true)
    (hplan : k.state.db.hasPlanOrNull planID = true)
    (hrows : OnlyHalts h.state.db.userSubscriptions k.state.db.userSubscriptions) :
    Pending planID due todo k := by
  refine ⟨hlisted, hplan, fun t ht => ?_, fun r hr hactive hid => ?_⟩
  · obtain ⟨r, hr, hbare⟩ := hp.copies t ht
    obtain ⟨r', hr', hbare'⟩ := hrows.exists_bare hr
    exact ⟨r', hr', hbare'.trans hbare⟩
  · rcases hrows.halted r hr with hold | hhalted
    · exact hp.rest r hold hactive hid
    · exact .inl hhalted

theorem Pending.rely (hr : StopRely planID i h k) : Pending planID due todo k :=
  hp.mono (hr.listed hp.listed) (hr.plan hp.plan) (hr.rows hp.listed)

theorem Pending.following (hdb : s.db = h.state.db) : Pending planID due todo (h.did i e s) := by
  refine hp.mono (listed_did e s hp.listed) ?_ ?_
  · rw [Hist.did_state, hdb]
    exact hp.plan
  · rw [Hist.did_state, hdb]
    exact .refl _

theorem Pending.allHalted (hdone : due = false ∨ todo = []) :
    AllHalted planID h.state.db.userSubscriptions := by
  intro r hr hactive hid
  refine (hp.rest r hr hactive hid).resolve_right fun hdue => ?_
  obtain ⟨hdue, t, ht, -⟩ := hdue
  rcases hdone with rfl | rfl
  · cases hdue
  · cases ht

end

theorem pending_listed (hlisted : listed planID h = true)
    (hplan : h.state.db.hasPlanOrNull planID = true) :
    Pending planID true (listActiveUserSubscriptions h.state.db) h := by
  have hmem : ∀ r, r ∈ listActiveUserSubscriptions h.state.db ↔
      r ∈ h.state.db.userSubscriptions ∧ Db.isActive r = true := by
    intro r
    unfold listActiveUserSubscriptions
    rw [List.mem_mergeSort, List.mem_filter]
  refine ⟨hlisted, hplan, fun t ht => ⟨t, ((hmem t).mp ht).1, rfl⟩, fun r hr hactive _ => ?_⟩
  exact .inr ⟨rfl, r, (hmem r).mpr ⟨hr, decide_eq_true hactive⟩, rfl⟩

theorem Pending.done (hp : Pending planID due (t :: todo) h)
    (hhalted : ∀ x ∈ h.state.db.userSubscriptions, x.status = .active → x.planID = planID →
      x.id = t.id → x.planSnapshot.halted = true) : Pending planID due todo h := by
  refine ⟨hp.listed, hp.plan, fun t' ht' => hp.copies t' (.tail _ ht'), fun r hr hactive hid => ?_⟩
  rcases hp.rest r hr hactive hid with hr' | ⟨hdue, t', ht', hid'⟩
  · exact .inl hr'
  rcases List.mem_cons.mp ht' with rfl | ht'
  · exact .inl (hhalted r hr hactive hid hid'.symm)
  · exact .inr ⟨hdue, t', ht', hid'⟩

theorem Pending.skip (hp : Pending planID due (t :: todo) h) (hinv : h.state.db.Owned)
    (hskip : ¬ (t.status = .active ∧ t.planID = planID)) : Pending planID due todo h := by
  refine hp.done fun r hr hactive hid hid' => absurd ?_ hskip
  -- the copy is this row's, and the row is selected
  obtain ⟨r', hr', hbare⟩ := hp.copies t (.head _)
  obtain ⟨hbareID, -, hbarePlan, hbareStatus⟩ := UserSubscription.columns_of_bare hbare
  obtain rfl : r' = r := eq_of_mem_of_key_eq hinv.indexed.subs hr' hr (hbareID.trans hid'.symm)
  exact ⟨hbareStatus.symm.trans hactive, hbarePlan.symm.trans hid⟩

theorem accepts_halting (howned : db.Owned) (hplan : db.hasPlanOrNull planID = true)
    (hr : r ∈ db.userSubscriptions) (hbare : r.bare = t.bare) (hactive : t.status = .active)
    (hid : t.planID = planID) (p : Plan) :
    db.AcceptsTerms (storedTerms { t with planSnapshot := .plan p }) := by
  obtain ⟨hrid, hruser, -, hrstatus⟩ := UserSubscription.columns_of_bare hbare
  have hractive : Db.isActive r = true := decide_eq_true (hrstatus.trans hactive)
  have hstatus : (storedTerms { t with planSnapshot := .plan p }).status = .active := by
    simp [storedTerms, statusOrActive, hactive]
  refine ⟨?_, by rw [hstatus]; rfl, ?_, ?_, ?_⟩
  · have hrow : db.subscription r.id = some r := lookup_of_mem howned.indexed.subs hr
    exact Option.isSome_of_eq_some (hrid ▸ hrow)
  · rintro ⟨-, helse⟩
    obtain ⟨s, hs, hother⟩ := List.any_eq_true.mp helse
    simp only [Bool.and_eq_true, decide_eq_true_eq, ne_eq] at hother
    have hsame : r = s := howned.indexed.eq_of_active hr hractive hs (by simp_all [storedTerms])
      (by simp_all [storedTerms])
    subst hsame
    simp_all [storedTerms]
  · exact hruser ▸ howned.owners r hr
  · exact hid ▸ hplan

/-- **One write of a loop**: the row is halted, and the rest is as it was. -/
theorem OnlyHalts.write (howned : db.Owned) (hr : r ∈ db.userSubscriptions)
    (hbare : r.bare = t.bare) (hactive : t.status = .active) {p : Plan} (hp : p.status = .disabled) :
    OnlyHalts db.userSubscriptions
      (db.withTerms (storedTerms { t with planSnapshot := .plan p })).userSubscriptions := by
  obtain ⟨hrid, -, -, hrstatus⟩ := UserSubscription.columns_of_bare hbare
  have hractive : r.status = .active := hrstatus.trans hactive
  have hcolumns := termsColumns_halting hbare hractive p
  have hsame : ∀ x ∈ db.userSubscriptions, x.id = t.id → x = r := fun x hx hxid =>
    eq_of_mem_of_key_eq howned.indexed.subs hx hr (hxid.trans hrid.symm)
  constructor
  · unfold Db.withTerms updateWhere
    rw [List.map_map]
    refine List.map_congr_left fun x hx => ?_
    rw [Function.comp_apply]
    split
    · rename_i hxid
      obtain rfl := hsame x hx (of_decide_eq_true hxid)
      rw [hcolumns]
      rfl
    · rfl
  · intro x' hx'
    obtain ⟨x, hx, rfl⟩ := mem_updateWhere.mp hx'
    split
    · rename_i hxid
      obtain rfl := hsame x hx (of_decide_eq_true hxid)
      rw [hcolumns]
      exact .inr (decide_eq_true hp)
    · exact .inl hx

theorem halted_of_written {x : UserSubscription} {p : Plan} (hp : p.status = .disabled)
    (hx : x ∈ (db.withTerms (storedTerms { t with planSnapshot := .plan p })).userSubscriptions)
    (hid : x.id = t.id) : x.planSnapshot.halted = true := by
  obtain ⟨x0, -, rfl⟩ := mem_updateWhere.mp hx
  split at hid
  · rename_i hguard
    rw [if_pos hguard]
    exact decide_eq_true hp
  · rename_i hguard
    exact absurd (decide_eq_true hid) hguard

def Served (userID : String) (k : History) : Prop :=
  ∃ r ∈ k.state.db.userSubscriptions, r.userID = userID ∧ r.status = .active ∧
    r.planSnapshot.halted = true

variable {userID : String}

theorem Served.of_onlyHalts (hs : Served userID h)
    (hrows : OnlyHalts h.state.db.userSubscriptions k.state.db.userSubscriptions)
    (hinv : h.state.db.Owned) : Served userID k := by
  obtain ⟨r, hr, huser, hactive, hhalted⟩ := hs
  obtain ⟨r', hr', hbare⟩ := hrows.exists_bare hr
  obtain ⟨hid, huser', -, hstatus⟩ := UserSubscription.columns_of_bare hbare
  refine ⟨r', hr', huser'.trans huser, hstatus.trans hactive, ?_⟩
  rcases hrows.halted r' hr' with hold | hhalted'
  · obtain rfl : r' = r := eq_of_mem_of_key_eq hinv.indexed.subs hold hr hid
    exact hhalted
  · exact hhalted'

theorem Served.userPlanSnapshot (hs : Served userID h) (hinv : h.state.db.Owned) :
    ∃ snapshot, Prism.userPlanSnapshot h.state.db userID = .ok snapshot := by
  obtain ⟨r, hr, huser, hactive, hhalted⟩ := hs
  have hcurrent : currentSubscription h.state.db userID = some r := by
    refine decidingSubscription_of_only_active hactive
      (List.mem_filter.mpr ⟨hr, decide_eq_true huser⟩) fun x hx hxactive => ?_
    obtain ⟨hxmem, hxuser⟩ := List.mem_filter.mp hx
    exact hinv.indexed.eq_of_active hxmem (decide_eq_true hxactive) hr (decide_eq_true hactive)
      ((of_decide_eq_true hxuser).trans huser.symm)
  unfold Prism.userPlanSnapshot
  simp only [hcurrent, snapshotFromSubscription]
  cases hsnap : r.planSnapshot with
  | blank raw => exact ⟨_, rfl⟩
  | unreadable raw =>
    rw [hsnap] at hhalted
    cases hhalted
  | plan p => exact ⟨_, rfl⟩

theorem safe_republishServed (hserved : Served userID h) (hp : Pending planID due todo h)
    (hinv : h.state.db.Owned) :
    (stopping planID).Safe i (fun a k => a = .ok () ∧ Pending planID due todo k)
      (Console.republishUserKeys userID) h := by
  unfold Console.republishUserKeys
  refine Task.safe_query fun k1 hr1 hinv1 _ => ⟨stopping_following hinv1 rfl, ?_⟩
  have hserved1 : Served userID k1 := hserved.of_onlyHalts (hr1.rows hp.listed) hinv
  have hp1 := hp.rely hr1
  have huser : k1.state.db.hasUser userID = true := by
    obtain ⟨r, hr, rfl, -⟩ := hserved1
    exact Db.Owned.owners hinv1 r hr
  obtain ⟨user, huser⟩ := Option.isSome_iff_exists.mp huser
  rw [huser]
  refine Task.safe_query fun k2 hr2 hinv2 _ => ⟨stopping_following hinv2 rfl, ?_⟩
  have hp1' : Pending planID due todo (k1.did i (.userRead userID) k1.state) := hp1.following rfl
  have hserved2 : Served userID k2 :=
    Served.of_onlyHalts (h := k1.did i (.userRead userID) k1.state) hserved1
      (hr2.rows hp1'.listed) hinv1
  have hp2' : Pending planID due todo (k2.did i (.keysListed userID) k2.state) :=
    (hp1'.rely hr2).following rfl
  refine Task.safe_query fun k3 hr3 hinv3 _ => ⟨stopping_following hinv3 rfl, ?_⟩
  have hserved3 : Served userID k3 :=
    Served.of_onlyHalts (h := k2.did i (.keysListed userID) k2.state) hserved2
      (hr3.rows hp2'.listed) hinv2
  have hp3' : Pending planID due todo (k3.did i (.subscriptionsRead userID) k3.state) :=
    (hp2'.rely hr3).following rfl
  obtain ⟨snapshot, hsnapshot⟩ := hserved3.userPlanSnapshot hinv3
  rw [hsnapshot]
  refine Discipline.Safe.bind ((Discipline.Safe.of_steps (P := Pending planID due todo) ?_
    (fun _ _ hr _ hp => hp.rely hr) (Console.steps_republishRows user snapshot _) hp3').mono
    fun _ m _ hend => fun w hw _ => ⟨rfl, hend.2.rely hw⟩)
  exact fun k e s hinv _ hp hstep => ⟨stopping_following hinv hstep.1, hp.following hstep.1⟩

/-- How a loop ends: at the end of the list, or at a write the database has failed. -/
structure LoopEnds (planID : String) (due : Bool) (io : ℕ → Faults) (failed : Option ServiceError)
    (k : History) : Prop where
  pending : ∃ todo, Pending planID due todo k ∧ (failed = none → todo = [])
  succeeds : (∀ j, io j = noFaults) → failed = none

/-- **The loop**: each write takes its row off what is pending. -/
theorem safe_haltingLoop {change : TermsChange} (hchange : Halting planID change) (io : ℕ → Faults)
    (operation : String) (todo : List UserSubscription) (j n : ℕ) (hp : Pending planID due todo h) :
    (stopping planID).Safe i (fun a => LoopEnds planID due io a.2)
      (Console.rewriteTerms io operation true change j todo n) h := by
  induction todo generalizing j n h with
  | nil => exact fun k hr _ => ⟨⟨[], hp.rely hr, fun _ => rfl⟩, fun _ => rfl⟩
  | cons t todo ih =>
    unfold Console.rewriteTerms
    by_cases hsel : t.status = .active ∧ t.planID = planID
    swap
    · -- the copy is left alone
      have hskip : change.selects t = false := by
        rw [hchange.selects, ← Bool.decide_and]
        exact decide_eq_false hsel
      rw [hskip, Bool.not_false, if_pos rfl]
      refine .of_forall_rely fun k hr hinv => ?_
      exact ih (j + 1) n ((hp.rely hr).skip hinv hsel)
    obtain ⟨hactive, hplanID⟩ := hsel
    have hselected : change.selects t = true := by
      rw [hchange.selects, decide_eq_true hactive, decide_eq_true hplanID, Bool.and_true]
    obtain ⟨p, hdisabled, happly⟩ := hchange.apply t
    rw [hselected, Bool.not_true, if_neg (by simp), happly]
    refine Task.safe_write fun k hr hinv a db hrun _ => ?_
    have hpk := hp.rely hr
    obtain ⟨r, hrow, hbare⟩ := hpk.copies t (.head _)
    have haccepts := accepts_halting hinv hpk.plan hrow hbare hactive hplanID p
    rcases updateUserSubscriptionTerms_cases (io j) { t with planSnapshot := .plan p } k.state.db
      with ⟨e, hfail⟩ | ⟨-, hdone⟩
    · cases hrun.symm.trans hfail
      refine ⟨stopping_following hinv rfl, fun m hm _ => ⟨⟨t :: todo, ?_, by simp⟩, fun hio => ?_⟩⟩
      · exact (hpk.following rfl).rely hm
      · -- without faults the table would have accepted the write
        rw [hio j, updateUserSubscriptionTerms_accepted haccepts] at hfail
        exact absurd (Prod.mk.inj hfail).1 (by simp)
    cases hrun.symm.trans hdone
    have hrows := OnlyHalts.write hinv hrow hbare hactive hdisabled
    have howned := Db.Owned.withTerms hinv haccepts
    refine ⟨stopping_did howned (fun hplan => hplan) fun _ => hrows, ?_⟩
    generalize ServerEvent.termsWritten { t with planSnapshot := .plan p } _ = e
    have hwritten : Pending planID due todo (k.did i e { k.state with
        db := k.state.db.withTerms (storedTerms { t with planSnapshot := .plan p }) }) := by
      refine Pending.done (t := t) (hpk.mono (listed_did _ _ hpk.listed) hpk.plan hrows) ?_
      exact fun x hx _ _ hid => halted_of_written hdisabled hx hid
    have hserved : Served t.userID (k.did i e { k.state with
        db := k.state.db.withTerms (storedTerms { t with planSnapshot := .plan p }) }) := by
      obtain ⟨r', hr', hbare'⟩ := hrows.exists_bare hrow
      obtain ⟨hid, huser, -, hstatus⟩ := UserSubscription.columns_of_bare (hbare'.trans hbare)
      exact ⟨r', hr', huser, hstatus.trans hactive, halted_of_written hdisabled hr' hid⟩
    simp only [Bool.false_eq_true, if_false]
    refine (safe_republishServed hserved hwritten howned).seq fun a m hend => ?_
    rw [hend.1]
    exact ih (j + 1) (n + 1) hend.2

theorem safe_listedLoop (due : Bool) {change : TermsChange} (hchange : Halting planID change)
    (io : ℕ → Faults) (operation : String) (hplan : h.state.db.hasPlanOrNull planID = true)
    (hdone : due = false → listed planID h = true ∧ AllHalted planID h.state.db.userSubscriptions) :
    (stopping planID).Safe i (fun a => LoopEnds planID due io a.2) (do
      let subs ← Task.query (.activeListed planID) listActiveUserSubscriptions
      Console.rewriteTerms io operation true change 0 subs 0) h := by
  refine Task.safe_query fun k hr hinv _ => ⟨stopping_following hinv rfl, ?_⟩
  refine safe_haltingLoop hchange io operation _ 0 0 ?_
  have hlisted : listed planID (k.did i (.activeListed planID) k.state) = true := by
    unfold listed
    rw [Hist.did_trace, List.any_cons, decide_eq_true rfl, Bool.true_or]
  have hall := pending_listed (h := k.did i (.activeListed planID) k.state) hlisted (hr.plan hplan)
  refine ⟨hall.listed, hall.plan, hall.copies, fun r hrow hactive hid => ?_⟩
  cases due with
  | true => exact hall.rest r hrow hactive hid
  | false =>
    obtain ⟨hl, hhalted⟩ := hdone rfl
    exact .inl (hhalted.of_onlyHalts (hr.rows hl) r hrow hactive hid)

def Unwritten (i : ℕ) (h : History) : Prop := ∀ plan, (i, .planWritten plan true) ∉ h.trace

theorem Unwritten.of_own (hu : Unwritten i h) (hown : own i k.trace = own i h.trace) :
    Unwritten i k :=
  fun plan hmem => hu plan ((mem_iff_of_own hown).mp hmem)

theorem Unwritten.did (hu : Unwritten i h) (he : ∀ plan, e ≠ .planWritten plan true) :
    Unwritten i (h.did i e s) := by
  intro plan hmem
  rw [Hist.did_trace] at hmem
  rcases List.mem_cons.mp hmem with heq | hmem
  · exact he plan (Prod.mk.inj heq).2.symm
  · exact hu plan hmem

/-- What an update leaves: if it wrote the plan, then everyone on it is stopped. -/
def Stops (planID : String) (i : ℕ) (k : History) : Prop :=
  Unwritten i k ∨ AllHalted planID k.state.db.userSubscriptions

theorem safe_spreadPlan (env : Console.PlanEnv) (henv : env.stop = fun _ => noFaults)
    (patch : PlanPatch) {plan : Plan} (hid : plan.id = planID) (hstatus : plan.status = .disabled)
    (hplan : h.state.db.hasPlanOrNull planID = true) :
    (stopping planID).Safe i (fun _ => Stops planID i)
      (Console.spreadPlan env patch plan) h := by
  subst hid
  unfold Console.spreadPlan Console.stopIfDisabled
  rw [if_pos hstatus]
  refine Task.safe_query fun k1 hr1 hinv1 _ => ⟨stopping_following hinv1 rfl, ?_⟩
  have hplan1 : (k1.did i .activeCounted k1.state).state.db.hasPlanOrNull plan.id = true :=
    hr1.plan hplan
  generalize k1.did i .activeCounted k1.state = k at hplan1
  refine (safe_listedLoop true (halting_stop plan) env.stop
    "stop subscription" hplan1 (by simp)).seq fun stopped m hend => ?_
  obtain ⟨n, failed⟩ := stopped
  have hfailed : failed = none := hend.succeeds fun j => by rw [henv]
  obtain ⟨⟨todo, hpending, hnil⟩, -⟩ := hend
  obtain rfl := hnil hfailed
  subst hfailed
  have hhalted := hpending.allHalted (.inr rfl)
  -- from here on everyone is stopped, whatever else the update does
  have hstays : ∀ w, StopRely plan.id i m w → AllHalted plan.id w.state.db.userSubscriptions :=
    fun w hw => hhalted.of_onlyHalts (hw.rows hpending.listed)
  simp only
  split
  swap
  · exact fun w hw _ => .inr (hstays w hw)
  refine (safe_listedLoop false (halting_applyPlan hstatus) env.apply
    "update subscription snapshot" hpending.plan fun _ => ⟨hpending.listed, hhalted⟩).seq
    fun applied w hend => ?_
  obtain ⟨todo, hpending', -⟩ := hend.pending
  have hrest : ∀ answer : Except ServiceError (Plan × ℕ), (stopping plan.id).Safe i
      (fun _ => Stops plan.id i) (Prog.ret answer) w := by
    refine fun _ v hv _ => .inr ?_
    exact (hpending'.allHalted (.inl rfl)).of_onlyHalts (hv.rows hpending'.listed)
  obtain ⟨touched, failed⟩ := applied
  cases failed with
  | some | none => exact hrest _

theorem stopping_writePlan {plan : Plan} (hid : plan.id = planID) {a : Except RepoError Unit}
    (hinv : h.state.db.Owned) (hrun : upsertPlan io plan h.state.db = (a, db)) :
    (stopping planID).Keeps i h (h.did i e { h.state with db := db }) ∧
      (a = .ok () → db.hasPlanOrNull planID = true) := by
  rcases upsertPlan_cases io plan h.state.db with ⟨e, hfail⟩ | hdone
  · cases hrun.symm.trans hfail
    exact ⟨stopping_following hinv rfl, by simp⟩
  cases hrun.symm.trans hdone
  have hthere : (h.state.db.withPlan (planRow plan)).hasPlanOrNull planID = true := by
    have hrow : (planRow plan).id = planID := hid
    unfold Db.hasPlanOrNull
    rw [← hrow, Db.plan_withPlan, Bool.or_true]
  exact ⟨stopping_did (hinv.of_tables rfl rfl) (fun _ => hthere) fun _ => .refl _, fun _ => hthere⟩

theorem safe_updatePlan (env : Console.PlanEnv) (henv : env.stop = fun _ => noFaults)
    {patch : PlanPatch} (hpatch : patch.status = some .disabled) (nowNs : ℤ)
    (hu : Unwritten i h) :
    (stopping planID).Safe i (fun _ => Stops planID i)
      (Console.updatePlan env planID patch nowNs) h := by
  have hidle : ∀ {m : History} (answer : Except ServiceError (Plan × ℕ)), Unwritten i m →
      (stopping planID).Safe i (fun _ => Stops planID i) (Prog.ret answer) m :=
    fun _ hm w hw _ => .inl (hm.of_own hw.own)
  unfold Console.updatePlan
  by_cases hempty : patch = {}
  · rw [if_pos hempty]
    exact hidle _ hu
  rw [if_neg hempty]
  refine Task.safe_query fun k1 hr1 hinv1 _ => ⟨stopping_following hinv1 rfl, ?_⟩
  have hu1 : Unwritten i (k1.did i (.planRead planID) k1.state) := (hu.of_own hr1.own).did (by simp)
  cases hread : k1.state.db.plan planID with
  | none => exact hidle _ hu1
  | some existing =>
    simp only
    cases hpatched : patchedPlan patch existing nowNs with
    | error e => exact hidle _ hu1
    | ok updated =>
      simp only
      obtain ⟨hid, hstatus⟩ := patchedPlan_eq_ok hpatched
      rw [hpatch] at hstatus
      rw [key_of_lookup hread] at hid
      cases validatePlan env.check updated with
      | error e => exact hidle _ hu1
      | ok _ =>
        refine Task.safe_write fun k2 hr2 hinv2 a db hrun _ => ?_
        obtain ⟨hkeeps, hthere⟩ := stopping_writePlan env.write hid hinv2 hrun
        refine ⟨hkeeps, ?_⟩
        cases a with
        | error e => exact hidle _ ((hu1.of_own hr2.own).did (by simp))
        | ok _ => exact safe_spreadPlan env henv patch hid hstatus (hthere rfl)

end Steps

/-! ## All of them together -/

/-- The requests: an update with status disabled, whatever else it changes, and sales. -/
inductive PlanCall where
  | disable (check : TierCheck) (write : Faults) (apply : ℕ → Faults) (patch : PlanPatch)
      (nowNs : ℤ)
  | purchase (env : Console.SaleEnv) (userID : String) (input : Console.PurchaseInput) (nowNs : ℤ)
  | assign (env : Console.SaleEnv) (userID planID : String) (durationDays nowNs : ℤ)

def PlanCall.task : PlanCall → Task Unit
  | .disable check write apply patch nowNs => do
    let _ ← Console.updatePlan { check := check, write := write, apply := apply } planID
      { patch with status := some .disabled } nowNs
    pure ()
  | .purchase env userID input nowNs => do
    let _ ← Console.selfPurchase env userID input nowNs
    pure ()
  | .assign env userID assigned durationDays nowNs => do
    let _ ← Console.assignSubscription env userID assigned durationDays nowNs
    pure ()

def PlanCall.disables : PlanCall → Bool
  | .disable .. => true
  | _ => false

theorem PlanCall.safe {planID : String} {i : ℕ} {h : History} (hu : Unwritten i h)
    (call : PlanCall) :
    (stopping planID).Safe i (fun _ k => call.disables = true → Stops planID i k)
      (call.task planID) h := by
  have hsale : ∀ {α : Type} {p : Task α}, call.disables = false →
      (stopping planID).Tame i p h →
      (stopping planID).Safe i (fun _ k => call.disables = true → Stops planID i k)
        (p.bind fun _ => Prog.ret ()) h := by
    intro α p hcall hp
    refine hp.seq fun _ m _ => fun w _ _ hdis => ?_
    rw [hcall] at hdis
    cases hdis
  cases call with
  | disable check write apply patch nowNs =>
    refine Discipline.Safe.bind (Discipline.Safe.stable (safe_updatePlan _ rfl rfl nowNs hu)
      |>.mono fun _ m _ hend => ?_)
    exact fun w hw hinv _ => hend w hw hinv
  | purchase env userID input nowNs => exact hsale rfl (safe_selfPurchase env userID input nowNs)
  | assign env userID assigned durationDays nowNs =>
    exact hsale rfl (safe_assignSubscription env userID assigned durationDays nowNs)

/-- **Disabling a plan stops everyone on it**, in the runs in which no sale comes to its writes after
the active subscriptions were listed.  Any updates with status disabled and any sales run in any
interleaving; once all have finished, and one of the updates has written the plan, no active
subscription on the plan carries a snapshot whose status is active or empty. -/
theorem disabled_plan_stops_subscriptions (server : Server) (planID : String)
    (howned : server.db.Owned) (calls : List PlanCall) (sched : List ℕ)
    (hsales : Along Pool.step (Pool.Meets (SalesBeforeListing planID))
      (Pool.start server (calls.map (PlanCall.task planID))) sched)
    (hdone : (run Pool.step (Pool.start server (calls.map (PlanCall.task planID))) sched).Finished)
    (i : ℕ) (call : PlanCall) (hcall : calls[i]? = some call) (hdisables : call.disables = true)
    (plan : Plan) (hwrote : (i, .planWritten plan true) ∈
      (run Pool.step (Pool.start server (calls.map (PlanCall.task planID))) sched).hist.trace) :
    ∀ s ∈ (run Pool.step (Pool.start server (calls.map (PlanCall.task planID)))
        sched).hist.state.db.userSubscriptions,
      s.status = .active → s.planID = planID →
      ∀ carried, planFromSnapshotJSON s.planSnapshot = .ok carried →
        carried.status ≠ .active ∧ carried.status ≠ .unset := by
  have hrun := Discipline.run_safe (.of_each_call howned
    fun _ call _ => PlanCall.safe (by simp [Unwritten]) call) hsales
  obtain ⟨a, ha⟩ := hrun.answer_call hdone hcall
  have hstops := ha hdisables
  have hhalted := hstops.resolve_left fun hu => hu plan hwrote
  intro s hs hactive hid carried hcarried
  have hsnap := hhalted s hs hactive hid
  cases hs' : s.planSnapshot with
  | plan p =>
    rw [hs'] at hsnap hcarried
    have hstatus : p.status = .disabled := of_decide_eq_true hsnap
    rw [← Except.ok.inj hcarried, hstatus]
    exact ⟨by simp, by simp⟩
  | _ =>
    rw [hs'] at hsnap
    cases hsnap

def soldPlan : Plan :=
  { id := "p", name := "basic", period := "30d", durationDays := 30, priceMicro := 5,
    status := .active }

def planShop : Server :=
  { db :=
      { users := [.customer]
        plans := [soldPlan]
        userBalance := [{ userID := "u", balanceMicro := 10, updatedAtNs := 0 }] } }

def disableWhileSold : List PlanCall :=
  [.disable (fun _ => none) noFaults (fun _ => noFaults) {} 2,
    .purchase { subID := some "s", entryID := some "e" } "u"
      { planID := "p", requestID := "r" } 1]

def soldBeforeListing : List ℕ := [1, 1, 0, 0, 0, 1] ++ List.replicate 8 0 ++ List.replicate 8 1

def soldAfterStop : List ℕ := [1, 1] ++ List.replicate 6 0 ++ List.replicate 8 1

theorem planShop_owned : planShop.db.Owned :=
  ⟨⟨List.nodup_nil, List.Pairwise.nil⟩, fun _ hr => nomatch hr⟩

theorem disabled_plan_stops_subscriptions_sold :
    (∃ s ∈ (run Pool.step (Pool.start planShop (disableWhileSold.map (PlanCall.task "p")))
        soldBeforeListing).hist.state.db.userSubscriptions,
      s.status = .active ∧ s.planID = "p") ∧
    ∀ s ∈ (run Pool.step (Pool.start planShop (disableWhileSold.map (PlanCall.task "p")))
        soldBeforeListing).hist.state.db.userSubscriptions,
      s.status = .active → s.planID = "p" →
      ∀ carried, planFromSnapshotJSON s.planSnapshot = .ok carried →
        carried.status ≠ .active ∧ carried.status ≠ .unset :=
  ⟨by decide +kernel, disabled_plan_stops_subscriptions planShop "p" planShop_owned disableWhileSold
      soldBeforeListing (by decide +kernel) (by decide +kernel) 0 _ rfl rfl
      { soldPlan with status := .disabled, updatedAtNs := 2 } (by decide +kernel)⟩

/-- **A sale escapes the stop.**  It has read the plan while it was on sale, and inserts its row when
the update has returned: the plan is disabled, and the subscription is active with a snapshot that
is. -/
theorem sale_escapes_disabled_plan :
    (run Pool.step (Pool.start planShop (disableWhileSold.map (PlanCall.task "p")))
        soldAfterStop).Finished ∧
      ((run Pool.step (Pool.start planShop (disableWhileSold.map (PlanCall.task "p")))
        soldAfterStop).hist.state.db.plan "p").map Plan.status = some .disabled ∧
      (run Pool.step (Pool.start planShop (disableWhileSold.map (PlanCall.task "p")))
        soldAfterStop).hist.state.db.userSubscriptions.map
          (fun s => (s.planID, s.status, s.planSnapshot)) = [("p", .active, .plan soldPlan)] := by
  decide +kernel

end Prism
