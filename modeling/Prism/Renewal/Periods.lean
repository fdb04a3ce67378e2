import Mathlib
import Prism.Foundation.Meter
import Prism.Foundation.Run
import Prism.Renewal.Sweep

/-!
# How many periods the sweep buys

The sweep may renew a row ahead of its expiry, by the lead time or by the period being bought,
whichever is shorter.  A pass is then a look at a meter (`Meter.Look`) with that window, whose period
is the plan's duration: `pass_look`.  So passes between two instants buy at most one period and one
more for every period, or part of one, that lies between them, if the window is shorter than the
period or the subscription was still running at the first pass.

The condition is needed.  A plan of up to seven days has a window as long as its period.  Renewed
after it has run out, it ends one period from the present; that is inside its window, so the next
pass buys again, however soon it comes.

Close to the end of the representable time an extension saturates, and every further pass buys
again; so instants are kept the lead time and one period away from it.
-/

namespace Prism

open Function Table

/-- A pass of the sweep, at an instant. -/
structure Pass where
  env : SweepEnv
  nowNs : ℤ

def Panel.pass (p : Panel) (x : Pass) : Panel := (renewDueSubscriptions x.env x.nowNs p).2

/-- The row is there with an expiry, and a period of it is priced and lasts the given number of
days. -/
structure Panel.AutoRenews (p : Panel) (s : UserSubscription) (days : ℤ) : Prop where
  keys : KeysNodup UserSubscription.id p.db.userSubscriptions
  row : p.db.subscription s.id = some s
  priced : ∃ plan price, renewalPrice p.db s = .ok (plan, price) ∧ plan.durationDays = days
  expires : 0 < s.expiresAtNs

def periodNs (days : ℤ) : ℤ := days * dayNs

/-- The window of a period: how long before its end the sweep may buy the next. -/
def windowNs (days : ℤ) : ℤ := min renewalLeadTimeNs (periodNs days)

def maxDurationDays : ℤ := 36500

variable {days : ℤ}

theorem periodNs_pos (h : 1 ≤ days) : 0 < periodNs days := by
  unfold periodNs dayNs
  omega

theorem windowNs_nonneg (h : 1 ≤ days) : 0 ≤ windowNs days :=
  le_min (by decide) (periodNs_pos h).le

theorem renewalWindowNs_eq (h1 : 1 ≤ days) (h2 : days ≤ maxDurationDays) :
    renewalWindowNs renewalLeadTimeNs days = windowNs days := by
  have hperiod : expiryFromDays days 0 = periodNs days := by
    rw [expiryFromDays_eq_min (by omega) le_rfl, zero_add, periodNs]
    unfold maxDurationDays at h2
    unfold maxInt64 dayNs
    omega
  have hpos := periodNs_pos h1
  unfold renewalWindowNs windowNs
  rw [if_neg (by omega), hperiod]
  split <;> omega

variable {s : UserSubscription} {nowNs : ℤ} {plan : Plan}

theorem renewalDue_iff (h1 : 1 ≤ plan.durationDays) (h2 : plan.durationDays ≤ maxDurationDays) :
    renewalDue s plan nowNs = true ↔
      0 < s.expiresAtNs ∧ s.expiresAtNs ≤ nowNs + windowNs plan.durationDays := by
  unfold renewalDue
  rw [renewalWindowNs_eq h1 h2]
  split
  · constructor
    · intro h
      cases h
    · rintro ⟨hpos, -⟩
      omega
  · rw [decide_eq_true_eq]
    omega

variable {price : ℤ} {db : Db}

theorem renewalPrice_renewedRow {db' : Db} (nowNs : ℤ) (h : renewalPrice db s = .ok (plan, price)) :
    renewalPrice db' (renewedRow s plan price nowNs) = .ok (plan, plan.priceMicro) := by
  unfold renewalPrice
  rw [planSnapshot_renewedRow h]
  simp only [planFromSnapshotJSON, if_pos (renewalPrice_eq_ok h).1]

/-! ## A pass is a look at the meter -/

variable {p : Panel}

/-- **One pass, as a look at the meter** of the subscription: it finds the row as it was, or inside
its window and one period further. -/
theorem pass_look (h : p.AutoRenews s days) (h1 : 1 ≤ days) (h2 : days ≤ maxDurationDays) {x : Pass}
    (hx : x.nowNs + renewalLeadTimeNs + periodNs days ≤ maxInt64) (n : ℕ) :
    ∃ s' n', s'.id = s.id ∧ (p.pass x).AutoRenews s' days ∧
      Meter.Look (windowNs days) (periodNs days) x.nowNs ⟨s.expiresAtNs, n⟩ ⟨s'.expiresAtNs, n'⟩ ∧
      renewals s.id (p.pass x).db + n = renewals s.id p.db + n' := by
  rcases pass_cases x.env x.nowNs h.keys h.row with hsame | ⟨plan, price, hbought⟩
  · obtain ⟨plan, price, hprice, hdays⟩ := h.priced
    have hprice' : renewalPrice (p.pass x).db s = .ok (plan, price) :=
      (renewalPrice_congr hsame.plans s).trans hprice
    refine ⟨s, n, rfl, ⟨hsame.keys h.keys, hsame.row.trans h.row, ⟨plan, price, hprice', hdays⟩,
      h.expires⟩, .skip _, ?_⟩
    exact congrArg (· + n) hsame.renewals
  · obtain ⟨plan', price', hprice, hdays⟩ := h.priced
    have hplan : plan.durationDays = days := by
      have hpair := Prod.mk.inj (Except.ok.inj (hbought.priced.symm.trans hprice))
      rw [hpair.1, hdays]
    have hdue := (renewalDue_iff (by omega) (by omega)).mp hbought.due
    rw [hplan] at hdue
    have hexp : (renewedRow s plan price x.nowNs).expiresAtNs =
        max s.expiresAtNs x.nowNs + periodNs days := by
      have hle : s.expiresAtNs ≤ max s.expiresAtNs x.nowNs := le_max_left _ _
      have hwindow : windowNs days ≤ renewalLeadTimeNs := min_le_left _ _
      have hlead : (0 : ℤ) ≤ renewalLeadTimeNs := by decide
      have hmax : max s.expiresAtNs x.nowNs ≤ x.nowNs + renewalLeadTimeNs :=
        max_le (by omega) (by omega)
      have hpos := h.expires
      unfold renewedRow periodNs at *
      rw [hplan, expiryFromDays_eq_min (by omega) (by omega), min_eq_left (by omega)]
    refine ⟨renewedRow s plan price x.nowNs, n + 1, rfl, ⟨?_, hbought.row, ?_, ?_⟩, ?_, ?_⟩
    · have hkeys := h.keys
      unfold KeysNodup at hkeys ⊢
      rwa [Panel.pass, hbought.ids]
    · exact ⟨plan, plan.priceMicro, renewalPrice_renewedRow x.nowNs hbought.priced, hplan⟩
    · have hle : s.expiresAtNs ≤ max s.expiresAtNs x.nowNs := le_max_left _ _
      have hpos := periodNs_pos h1
      have := h.expires
      rw [hexp]
      omega
    · rw [hexp]
      exact .buy ⟨s.expiresAtNs, n⟩ hdue.2
    · have hcount : renewals s.id (p.pass x).db = renewals s.id p.db + 1 := hbought.renewals
      omega

theorem passes_looks (h1 : 1 ≤ days) (h2 : days ≤ maxDurationDays) :
    ∀ (xs : List Pass) {p : Panel} {s : UserSubscription} (n : ℕ), p.AutoRenews s days →
      (∀ x ∈ xs, x.nowNs + renewalLeadTimeNs + periodNs days ≤ maxInt64) →
      ∃ m, Meter.Looks (windowNs days) (periodNs days) (xs.map Pass.nowNs) ⟨s.expiresAtNs, n⟩ m ∧
        renewals s.id (run Panel.pass p xs).db + n = renewals s.id p.db + m.bought
  | [], p, s, n, _, _ => ⟨_, .nil _, rfl⟩
  | x :: xs, p, s, n, h, hxs => by
    obtain ⟨s', n', hid, h', hlook, hcount⟩ := pass_look h h1 h2 (hxs x (by simp)) n
    obtain ⟨m, hlooks, hrest⟩ := passes_looks h1 h2 xs n' h' fun y hy => hxs y (by simp [hy])
    refine ⟨m, .cons hlook hlooks, ?_⟩
    rw [hid] at hrest
    rw [run_cons]
    omega

/-! ## A pass that buys -/

/-- The account can pay the given number of renewals: it has the money, no other subscription runs
on it, and no period from the present one on has been charged. -/
structure Db.Affords (times : ℕ) (db : Db) (s : UserSubscription) (price : ℤ) : Prop where
  funds : times * price ≤ db.balance s.userID
  payer : db.Creditable s.userID
  alone : ∀ r ∈ db.userSubscriptions, r.userID = s.userID → r.status = .active → r.id = s.id
  fresh : ∀ e ∈ db.balanceLedger, e.userID = s.userID →
    ∀ j, s.periodIndex ≤ j → e.requestID ≠ renewalRequestID { s with periodIndex := j }

theorem renewalRequestID_inj {i j : ℤ} (h : renewalRequestID { s with periodIndex := i } =
      renewalRequestID { s with periodIndex := j }) : i = j :=
  Int.repr_injective ((String.append_right_inj _).mp h)

variable {n : ℕ} {entryID : String}

theorem Db.Affords.grants (h : db.Affords (n + 1) s plan.priceMicro) (hprice : 0 < plan.priceMicro)
    (hkeys : db.SubsKeyed)
    (hrow : db.subscription s.id = some s) (hid : ∀ e ∈ db.balanceLedger, e.id ≠ entryID) :
    db.Grants (sweepWrite s plan price nowNs entryID) := by
  have hnew : ∀ e ∈ db.balanceLedger, e.userID = s.userID → e.requestID ≠ renewalRequestID s :=
    fun e he hu => h.fresh e he hu s.periodIndex le_rfl
  refine ⟨?_, ⟨?_, h.payer, ?_, ?_, hid⟩, s, ?_, ?_⟩
  · rintro ⟨-, hsome⟩
    obtain ⟨e, he⟩ := Option.isSome_iff_exists.mp hsome
    have hp := List.find?_some he
    simp only [Bool.and_eq_true, decide_eq_true_eq] at hp
    exact hnew e (List.mem_of_find?_eq_some he) hp.1 hp.2
  · have hfunds := h.funds
    have hrest : 0 ≤ (n : ℤ) * plan.priceMicro := Int.mul_nonneg (by omega) hprice.le
    rw [Nat.cast_succ, add_mul, one_mul] at hfunds
    show 0 ≤ db.balance s.userID + -plan.priceMicro
    omega
  · rintro ⟨-, e, he, -, hkey⟩
    obtain ⟨huser, hreq⟩ := Prod.mk.inj hkey
    exact hnew e he huser hreq
  · rintro ⟨hdeposit, -⟩
    cases hdeposit
  · exact Db.atPeriod_of_subscription hkeys hrow
  · by_contra hne
    rw [Bool.not_eq_false] at hne
    obtain ⟨r, hr, hp⟩ := List.any_eq_true.mp hne
    simp only [Bool.and_eq_true, decide_eq_true_eq] at hp
    exact hp.1.1 (h.alone r hr hp.2 (by simpa [Db.isActive] using hp.1.2))

theorem Db.Affords.renewedBy (h : db.Affords (n + 1) s plan.priceMicro) :
    (db.renewedBy (sweepWrite s plan price nowNs entryID)).Affords n
      (renewedRow s plan price nowNs) plan.priceMicro where
  funds := by
    have hbal : (db.renewedBy (sweepWrite s plan price nowNs entryID)).balance s.userID =
        db.balance s.userID + -plan.priceMicro :=
      Db.balance_post_self db (db.settled (sweepWrite s plan price nowNs entryID).entry)
    have hfunds := h.funds
    rw [Nat.cast_succ, add_mul, one_mul] at hfunds
    show n * plan.priceMicro ≤ Db.balance _ s.userID
    rw [hbal]
    omega
  payer := by
    left
    have hlook := Db.lookup_post db (db.settled (sweepWrite s plan price nowNs entryID).entry) s.userID
    exact Option.isSome_of_eq_some (hlook.trans (if_pos rfl))
  alone r hr huser hactive := by
    obtain ⟨r0, hr0, rfl⟩ := mem_updateWhere.mp hr
    split at huser
    · rename_i hp
      simp only [Bool.and_eq_true, decide_eq_true_eq] at hp
      rw [if_pos (by simpa using hp)]
      exact hp.1
    · rename_i hp
      rw [if_neg hp] at hactive ⊢
      exact h.alone r0 hr0 huser hactive
  fresh e he huser j hj := by
    have hj' : s.periodIndex + 1 ≤ j := hj
    rcases List.mem_append.mp he with he | he
    · exact h.fresh e he huser j (by omega)
    · rw [List.mem_singleton.mp he]
      intro heq
      have := renewalRequestID_inj (s := s) (i := s.periodIndex) heq
      omega

def Db.owners (db : Db) : List (String × String) :=
  db.userSubscriptions.map fun r => (r.id, r.userID)

theorem Db.owners_renewedBy (db : Db) (w : RenewalWrite) : (db.renewedBy w).owners = db.owners := by
  refine map_key_updateWhere _ ?_ _
  intro r _
  rfl

variable {amount : ℤ}

theorem Db.Affords.renewedBy_of_ne {t : UserSubscription} (h : db.Affords n s amount)
    (huser : t.userID ≠ s.userID)
    (howner : ∀ r ∈ db.userSubscriptions, r.id = t.id → r.userID = t.userID) :
    (db.renewedBy (sweepWrite t plan price nowNs entryID)).Affords n s amount where
  funds := by
    have hbal : (db.renewedBy (sweepWrite t plan price nowNs entryID)).balance s.userID =
        db.balance s.userID :=
      Db.balance_post_of_ne db (e := db.settled (sweepWrite t plan price nowNs entryID).entry)
        huser.symm
    rw [hbal]
    exact h.funds
  payer := by
    have hlook := Db.lookup_post db (db.settled (sweepWrite t plan price nowNs entryID).entry) s.userID
    exact h.payer.imp_left (congrArg Option.isSome (hlook.trans (if_neg huser.symm))).trans
  alone r hr hr' hactive := by
    obtain ⟨r0, hr0, rfl⟩ := mem_updateWhere.mp hr
    split at hr'
    · rename_i hp
      simp only [Bool.and_eq_true, decide_eq_true_eq] at hp
      exact absurd ((howner r0 hr0 hp.1).symm.trans hr') huser
    · rename_i hp
      rw [if_neg hp] at hactive ⊢
      exact h.alone r0 hr0 hr' hactive
  fresh e he heu := by
    rcases List.mem_append.mp he with he | he
    · exact h.fresh e he heu
    · rw [List.mem_singleton.mp he] at heu
      exact absurd heu huser

theorem exists_fresh_ids (db : Db) :
    ∃ ids : ℕ → String, Injective ids ∧ ∀ k, ∀ e ∈ db.balanceLedger, e.id ≠ ids k := by
  have hinf : Set.Infinite {id : String | id ∈ db.balanceLedger.map BalanceEntry.id}ᶜ :=
    (List.finite_toSet _).infinite_compl
  let f := hinf.natEmbedding
  refine ⟨fun k => (f k : String), fun i j hij => f.injective (Subtype.ext hij), ?_⟩
  intro k e he heq
  have hmem : e.id ∈ db.balanceLedger.map BalanceEntry.id := List.mem_map_of_mem he
  rw [heq] at hmem
  exact (f k).2 hmem

/-- What a pass that mints `ids` keeps for an account, at position `k` of its list. -/
structure Supplied (ids : ℕ → String) (db₀ : Db) (n : ℕ) (s : UserSubscription) (amount : ℤ) (k : ℕ)
    (p : Panel) : Prop where
  affords : p.db.Affords n s amount
  owners : p.db.owners = db₀.owners
  minted : ∀ e ∈ p.db.balanceLedger, ∀ j, k ≤ j → e.id ≠ ids j

variable {ids : ℕ → String} {k : ℕ}

theorem minted_of_turn (hids : Injective ids) {t : UserSubscription} {p' : Panel}
    (hturn : Turn nowNs (some (ids k)) t p p')
    (h : ∀ e ∈ p.db.balanceLedger, ∀ j, k ≤ j → e.id ≠ ids j) :
    ∀ e ∈ p'.db.balanceLedger, ∀ j, k + 1 ≤ j → e.id ≠ ids j := by
  intro e he j hj
  rcases hturn.db_cases with hdb | ⟨plan, price, id, hid, -, hdb⟩
  · rw [hdb] at he
    exact h e he j (by omega)
  rw [hdb] at he
  rcases List.mem_append.mp he with he | he
  · exact h e he j (by omega)
  rw [List.mem_singleton.mp he]
  intro heq
  have hid' : ids k = id := Option.some.inj hid
  have : ids k = ids j := hid'.trans heq
  have := hids this
  omega

variable {db0 : Db}

theorem Supplied.turn (hids : Injective ids) {t : UserSubscription} {p' : Panel}
    (h : Supplied ids db0 n s amount k p) (hturn : Turn nowNs (some (ids k)) t p p')
    (huser : t.userID ≠ s.userID)
    (howner : ∀ r ∈ db0.userSubscriptions, r.id = t.id → r.userID = t.userID) :
    Supplied ids db0 n s amount (k + 1) p' := by
  have howner' : ∀ r ∈ p.db.userSubscriptions, r.id = t.id → r.userID = t.userID := by
    intro r hr hid
    have hmem : (r.id, r.userID) ∈ db0.owners := by
      rw [← h.owners]
      exact List.mem_map_of_mem hr
    obtain ⟨r0, hr0, heq⟩ := List.mem_map.mp hmem
    obtain ⟨hid0, huser0⟩ := Prod.mk.inj heq
    rw [← huser0]
    exact howner r0 hr0 (hid0.trans hid)
  have hminted := minted_of_turn hids hturn h.minted
  rcases hturn.db_cases with hdb | ⟨plan, price, id, -, -, hdb⟩
  · exact ⟨hdb ▸ h.affords, hdb ▸ h.owners, hminted⟩
  · refine ⟨hdb ▸ h.affords.renewedBy_of_ne huser howner', ?_, hminted⟩
    rw [hdb, Db.owners_renewedBy]
    exact h.owners

def mintingEnv (ids : ℕ → String) : SweepEnv := ⟨fun k => some (ids k), fun _ => noFaults⟩

theorem Supplied.loop (hids : Injective ids) (nowNs : ℤ) {l : List UserSubscription}
    (hl : ∀ t ∈ l, t.userID ≠ s.userID ∧ ∀ r ∈ db0.userSubscriptions, r.id = t.id → r.userID =
      t.userID) {r : RenewalView × Panel} (h : Supplied ids db0 n s amount k r.2) :
    Supplied ids db0 n s amount (k + l.length) (renewDueFrom (mintingEnv ids) nowNs k l r).2 := by
  refine renewDueFrom_invariant (I := Supplied ids db0 n s amount) l k r ?_ h
  intro t ht k q q' hturn hq
  exact hq.turn hids hturn (hl t ht).1 (hl t ht).2

theorem other_accounts (hkeys : db.SubsKeyed)
    (h : db.Affords n s amount) {t : UserSubscription}
    (ht : t ∈ listRenewableSubscriptions nowNs renewalLeadTimeNs db) (hne : s.id ≠ t.id) :
    t.userID ≠ s.userID ∧ ∀ r ∈ db.userSubscriptions, r.id = t.id → r.userID = t.userID := by
  obtain ⟨htable, hactive, -⟩ := mem_listRenewableSubscriptions.mp ht
  refine ⟨fun huser => hne (h.alone t htable huser hactive).symm, fun r hr hid => ?_⟩
  rw [eq_of_mem_of_key_eq hkeys hr htable hid]

theorem Supplied.own_turn (hids : Injective ids) {r : RenewalView × Panel}
    (h : Supplied ids db0 (n + 1) s plan.priceMicro k r.2)
    (hkeys : r.2.db.SubsKeyed)
    (hrow : r.2.db.subscription s.id = some s) (hprice : renewalPrice r.2.db s = .ok (plan, price))
    (hdue : renewalDue s plan nowNs = true) (hlasts : 0 < plan.durationDays) :
    Db.Bought s plan price nowNs r.2.db (renewDue (mintingEnv ids) nowNs k s r).2.db ∧
      Supplied ids db0 n (renewedRow s plan price nowNs) plan.priceMicro (k + 1)
        (renewDue (mintingEnv ids) nowNs k s r).2 := by
  have hgrants : r.2.db.Grants (sweepWrite s plan price nowNs (ids k)) :=
    h.affords.grants (renewalPrice_eq_ok hprice).1 hkeys hrow fun e he => h.minted e he k le_rfl
  have hcharge : (renewDue (mintingEnv ids) nowNs k s r).2.db =
      r.2.db.renewedBy (sweepWrite s plan price nowNs (ids k)) :=
    renewDue_charges hprice hdue hlasts rfl rfl hgrants
  refine ⟨?_, ⟨?_, ?_, minted_of_turn hids (renewDue_turn (mintingEnv ids) nowNs k s r) h.minted⟩⟩
  · rw [hcharge]
    exact bought_renewedBy hkeys hrow hprice hdue hlasts hgrants
  · rw [hcharge]
    exact h.affords.renewedBy
  · rw [hcharge, Db.owners_renewedBy]
    exact h.owners

/-- **A pass that buys.**  A due subscription whose account can pay is renewed by a pass that meets
no fault, whatever else is on its list. -/
theorem exists_pass_buying (hkeys : p.db.SubsKeyed)
    (hrow : p.db.subscription s.id = some s) (hactive : s.status = .active)
    (hauto : s.autoRenew = true) (hprice : renewalPrice p.db s = .ok (plan, price))
    (h1 : 1 ≤ plan.durationDays) (h2 : plan.durationDays ≤ maxDurationDays) (hnow : 0 < nowNs)
    (hexp : 0 < s.expiresAtNs) (hdue : s.expiresAtNs ≤ nowNs + windowNs plan.durationDays)
    (hafford : p.db.Affords (n + 1) s plan.priceMicro) :
    ∃ x : Pass, x.nowNs = nowNs ∧ Db.Bought s plan price nowNs p.db (p.pass x).db ∧
      (p.pass x).db.Affords n (renewedRow s plan price nowNs) plan.priceMicro := by
  obtain ⟨ids, hids, hfresh⟩ := exists_fresh_ids p.db
  have hlist : s ∈ listRenewableSubscriptions nowNs renewalLeadTimeNs p.db := by
    have hwindow : windowNs plan.durationDays ≤ renewalLeadTimeNs := min_le_left _ _
    exact mem_listRenewableSubscriptions.mpr
      ⟨mem_of_lookup hrow, hactive, hauto, hexp, by omega⟩
  obtain ⟨l1, l2, hl, hne1, hne2⟩ := exists_split_listRenewable hkeys hlist
  have hothers1 : ∀ t ∈ l1, t.userID ≠ s.userID ∧
      ∀ r ∈ p.db.userSubscriptions, r.id = t.id → r.userID = t.userID := fun t ht =>
    other_accounts hkeys hafford (by rw [hl]; simp [ht]) (hne1 t ht)
  have hothers2 : ∀ t ∈ l2, t.userID ≠ (renewedRow s plan price nowNs).userID ∧
      ∀ r ∈ p.db.userSubscriptions, r.id = t.id → r.userID = t.userID := fun t ht =>
    other_accounts hkeys hafford (by rw [hl]; simp [ht]) (hne2 t ht)
  refine ⟨⟨mintingEnv ids, nowNs⟩, rfl, ?_⟩
  unfold Panel.pass
  rw [renewDueSubscriptions_panel _ hnow, hl, renewDueFrom_append, renewDueFrom]
  -- the turns before, the own turn, the turns after
  have hstart : Supplied ids p.db (n + 1) s plan.priceMicro 0 p :=
    ⟨hafford, rfl, fun e he j _ => hfresh j e he⟩
  have hsup1 := hstart.loop (r := ({}, p)) hids nowNs hothers1
  have hun1 : Db.Untouched s.id p.db (renewDueFrom (mintingEnv ids) nowNs 0 l1 ({}, p)).2.db :=
    renewDueFrom_untouched _ nowNs 0 ({}, p) hne1
  generalize renewDueFrom (mintingEnv ids) nowNs 0 l1 ({}, p) = r1 at hsup1 hun1 ⊢
  obtain ⟨hbought, hsup2⟩ := hsup1.own_turn hids (hun1.keys hkeys) (hun1.row.trans hrow)
    ((renewalPrice_congr hun1.plans s).trans hprice) ((renewalDue_iff h1 h2).mpr ⟨hexp, hdue⟩)
    (by omega)
  generalize renewDue (mintingEnv ids) nowNs (0 + l1.length) s r1 = r2 at hbought hsup2 ⊢
  have hun2 := renewDueFrom_untouched (mintingEnv ids) nowNs (0 + l1.length + 1) r2 hne2
  exact ⟨hbought.of_untouched hun1 hun2, (hsup2.loop hids nowNs hothers2).affords⟩

/-! ## Once per period -/

/-- Passes from the instant `first` on, with instants that do not decrease and stay away from the
end of the representable time, charge the subscription at most once, and once more for every period
or part of one between the first pass and the last. -/
def Panel.OncePerPeriod (p : Panel) (id : String) (days first : ℤ) : Prop :=
  ∀ (x : Pass) (xs : List Pass), x.nowNs = first →
    List.Pairwise (· ≤ ·) (first :: xs.map Pass.nowNs) →
    (∀ y ∈ x :: xs, y.nowNs + renewalLeadTimeNs + periodNs days ≤ maxInt64) →
    (renewals id (run Panel.pass p (x :: xs)).db : ℤ) ≤
      renewals id p.db +
        (1 + Meter.ceilDiv ((xs.map Pass.nowNs).getLastD first - first) (periodNs days))

theorem oncePerPeriod_of_condition {first : ℤ} (h : p.AutoRenews s days) (h1 : 1 ≤ days)
    (h2 : days ≤ maxDurationDays)
    (hcond : renewalLeadTimeNs < periodNs days ∨ first < s.expiresAtNs) :
    p.OncePerPeriod s.id days first := by
  intro x xs hx hsorted hmax
  obtain ⟨m, hlooks, hcount⟩ := passes_looks h1 h2 (x :: xs) 0 h hmax
  rw [List.map_cons, hx] at hlooks
  have hcond' : windowNs days < periodNs days ∨ first < s.expiresAtNs :=
    hcond.imp_left fun hlead => lt_of_le_of_lt (min_le_left _ _) hlead
  have hle := Meter.bought_le (periodNs_pos h1) (windowNs_nonneg h1) (min_le_right _ _) hcond'
    hsorted hlooks
  omega

theorem exists_passes_buying_twice {first : ℤ} (h : p.AutoRenews s plan.durationDays)
    (hactive : s.status = .active) (hauto : s.autoRenew = true)
    (hprice : renewalPrice p.db s = .ok (plan, price)) (h1 : 1 ≤ plan.durationDays)
    (h2 : plan.durationDays ≤ maxDurationDays) (hafford : p.db.Affords 2 s plan.priceMicro)
    (hlead : periodNs plan.durationDays ≤ renewalLeadTimeNs) (hover : s.expiresAtNs ≤ first)
    (hmax : first + renewalLeadTimeNs + periodNs plan.durationDays ≤ maxInt64) :
    ∃ x y : Pass, x.nowNs = first ∧ y.nowNs = first ∧
      renewals s.id (run Panel.pass p [x, y]).db = renewals s.id p.db + 2 := by
  have hwindow : windowNs plan.durationDays = periodNs plan.durationDays := min_eq_right hlead
  have hpos := periodNs_pos h1
  have hexp := h.expires
  have hlead0 : (0 : ℤ) ≤ renewalLeadTimeNs := by decide
  obtain ⟨x, hx, hb1, ha1⟩ := exists_pass_buying (n := 1) h.keys h.row hactive hauto hprice h1 h2
    (by omega : 0 < first) hexp (by omega) hafford
  have hkeys1 : (p.pass x).db.SubsKeyed := by
    have hkeys := h.keys
    unfold Db.SubsKeyed KeysNodup at hkeys ⊢
    rwa [hb1.ids]
  -- the new period ends one period from now, which is inside its window
  have hend : (renewedRow s plan price first).expiresAtNs = first + periodNs plan.durationDays := by
    unfold renewedRow
    rw [max_eq_right hover, expiryFromDays_eq_min (by omega) (by omega), min_eq_left]
    · rfl
    · unfold periodNs at hmax
      omega
  obtain ⟨y, hy, hb2, -⟩ := exists_pass_buying (n := 0)
    (s := renewedRow s plan price first) hkeys1 hb1.row rfl hauto
    (renewalPrice_renewedRow first hprice) h1 h2 (by omega : 0 < first)
    (by rw [hend]; omega) (by rw [hend]; omega) ha1
  refine ⟨x, y, hx, hy, ?_⟩
  have hc1 := hb1.renewals
  have hc2 : renewals s.id ((p.pass x).pass y).db = renewals s.id (p.pass x).db + 1 := hb2.renewals
  show renewals s.id ((p.pass x).pass y).db = _
  omega

/-- **The sweep buys no period twice exactly when** the plan lasts longer than the lead time, or the
subscription is still running at the first pass.  The row is any active row that renews itself, with
an expiry before, at or after the first pass; its plan lasts from one day to a hundred years; and
its account can pay for two periods. -/
theorem once_per_period_iff {p : Panel} {s : UserSubscription} {plan : Plan} {price first : ℤ}
    (h : p.AutoRenews s plan.durationDays) (hactive : s.status = .active)
    (hauto : s.autoRenew = true) (hprice : renewalPrice p.db s = .ok (plan, price))
    (h₁ : 1 ≤ plan.durationDays) (h₂ : plan.durationDays ≤ maxDurationDays)
    (hafford : p.db.Affords 2 s plan.priceMicro)
    (hmax : first + renewalLeadTimeNs + periodNs plan.durationDays ≤ maxInt64) :
    p.OncePerPeriod s.id plan.durationDays first ↔
      renewalLeadTimeNs < periodNs plan.durationDays ∨ first < s.expiresAtNs := by
  constructor
  · intro honce
    by_contra hno
    rw [not_or, not_lt, not_lt] at hno
    obtain ⟨x, y, hx, hy, htwice⟩ := exists_passes_buying_twice h hactive hauto hprice h₁ h₂ hafford
      hno.1 hno.2 hmax
    have hle := honce x [y] hx (by simp [hy]) (by simp [hx, hy, hmax])
    rw [htwice] at hle
    simp only [List.map_cons, List.map_nil, List.getLastD_cons, List.getLastD_nil, hy, sub_self,
      Meter.ceilDiv, neg_zero, Int.zero_ediv] at hle
    push_cast at hle
    omega
  · exact oncePerPeriod_of_condition h h₁ h₂

/-- A plan of one day. -/
def dailyPlan : Plan :=
  { id := "pl", name := "daily", durationDays := 1, priceMicro := 1000000, status := .active }

def dailyRow : UserSubscription :=
  { id := "us", userID := "u", planID := "pl", planSnapshot := .plan dailyPlan,
    expiresAtNs := dayNs, autoRenew := true, status := .active }

def dailyPanel : Panel where
  db :=
    { users := [.customer]
      plans := [dailyPlan]
      userSubscriptions := [dailyRow]
      userBalance := [⟨"u", 20000000, 0⟩] }

theorem dailyPanel_autoRenews : dailyPanel.AutoRenews dailyRow dailyPlan.durationDays where
  keys := by decide
  row := rfl
  priced := ⟨dailyPlan, 1000000, rfl, rfl⟩
  expires := by decide

theorem dailyPanel_affords : dailyPanel.db.Affords 2 dailyRow dailyPlan.priceMicro where
  funds := by decide
  payer := .inr (by decide)
  alone := by decide
  fresh _ he := nomatch he

theorem once_per_period_daily_running : dailyPanel.OncePerPeriod "us" 1 (dayNs - 1) :=
  (once_per_period_iff dailyPanel_autoRenews rfl rfl rfl (by decide) (by decide) dailyPanel_affords
    (show dayNs - 1 + renewalLeadTimeNs + periodNs 1 ≤ maxInt64 by decide)).mpr (.inr (by decide))

def firstPass (nowNs : ℤ) : Pass := ⟨mintingEnv fun _ => "bl1", nowNs⟩

def secondPass (nowNs : ℤ) : Pass := ⟨mintingEnv fun _ => "bl2", nowNs⟩

theorem daily_bought_twice : ¬ dailyPanel.OncePerPeriod "us" 1 (2 * dayNs) ∧
      renewals "us"
        (run Panel.pass dailyPanel [firstPass (2 * dayNs), secondPass (2 * dayNs)]).db = 2 ∧
      (run Panel.pass dailyPanel
        [firstPass (2 * dayNs), secondPass (2 * dayNs)]).db.balance "u" = 18000000 := by
  refine ⟨fun h => ?_, by decide +kernel⟩
  have hle := h (firstPass (2 * dayNs)) [secondPass (2 * dayNs)] rfl (by decide) (by decide)
  exact absurd hle (by decide +kernel)

end Prism
