import Prism.Renewal.Interleaving

/-!
# Is a paid-for extension ever lost?

A renewal compares the period index before it writes; an operator's write of the terms compares
nothing.  It carries the expiry, the period index and the snapshot of the copy it read, so a renewal
that commits between its read and its write is overwritten: the charge stays in the ledger, the
extension is gone and the next sweep bills the same period again.

The proof carries two facts along: no copy in flight has a later period than its row (`World.Sane`),
and from a renewal on, every copy that was read at its period or later has an expiry at least as
late as the one it wrote (`World.Floor`).
-/

namespace Prism

open Table

variable {w : World} {ev : Event} {id : String} {l : List Event}

namespace World

/-- The event is a renewal that is charged. -/
def CommitsRenewal (w : World) (ev : Event) (id : String) : Prop :=
  renewals id (w.step ev).db = renewals id w.db + 1

/-- The event is the write of a patch that sets the subscription's expiry explicitly. -/
def SetsExpiry (w : World) (ev : Event) (id : String) : Prop :=
  ∃ k io f, ev = .write k io ∧ w.inFlight[k]? = some (.terms f) ∧ f.read.id = id ∧
    f.change.setsExpiry = true

/-- The event is an operator's write that commits although the row has been renewed since the
operator read it. -/
def StaleWrite (w : World) : Event → Bool
  | .write k io =>
    match w.inFlight[k]? with
    | some (.terms f) =>
      match w.db.subscription f.read.id with
      | some row => (updateUserSubscriptionTerms io f.updated w.db).1.isOk &&
          decide (row.periodIndex ≠ f.read.periodIndex)
      | none => false
    | _ => false
  | _ => false

theorem staleWrite_iff : w.StaleWrite ev = true ↔ ∃ k io f row, ev = .write k io ∧
      w.inFlight[k]? = some (.terms f) ∧
      (updateUserSubscriptionTerms io f.updated w.db).1 = .ok () ∧
      w.db.subscription f.read.id = some row ∧ row.periodIndex ≠ f.read.periodIndex := by
  constructor
  · intro h
    cases ev with
    | write k io =>
      simp only [StaleWrite] at h
      split at h
      · rename_i f hf
        split at h
        · rename_i row hrow
          rw [Bool.and_eq_true, decide_eq_true_eq] at h
          refine ⟨k, io, f, row, rfl, hf, ?_, hrow, h.2⟩
          rcases updateUserSubscriptionTerms_cases io f.updated w.db with
            ⟨e, hfail⟩ | ⟨-, hdone⟩
          · rw [hfail] at h
            cases h.1
          · rw [hdone]
        · cases h
      · cases h
    | _ => cases h
  · rintro ⟨k, io, f, row, rfl, hf, hok, hrow, hne⟩
    simp [StaleWrite, hf, hok, hrow, hne, Except.isOk, Except.toBool]

/-- Every paid-for extension is kept along the interleaving.

* At every moment the period index of every subscription is the number of its committed renewals.
* From the moment a renewal of a subscription has committed on, its period index is never lower than
  what that renewal wrote, and its expiry is not earlier either, unless a patch has set the expiry
  explicitly in the meantime. -/
structure ExtensionsKept (w : World) (l : List Event) : Prop where
  counts : ∀ l₁ l₂, l = l₁ ++ l₂ → ∀ id row,
    (run step w l₁).db.subscription id = some row →
    row.periodIndex = renewals id (run step w l₁).db
  kept : ∀ l₁ ev l₂ l₃, l = l₁ ++ ev :: (l₂ ++ l₃) → ∀ id row row',
    CommitsRenewal (run step w l₁) ev id →
    (run step w (l₁ ++ [ev])).db.subscription id = some row →
    (run step w (l₁ ++ ev :: l₂)).db.subscription id = some row' →
    row.periodIndex ≤ row'.periodIndex ∧
      (Along step (fun w ev => ¬ w.SetsExpiry ev id) (run step w (l₁ ++ [ev])) l₂ →
        row.expiresAtNs ≤ row'.expiresAtNs)

/-- Where an interleaving starts: nothing in flight, and a database whose period indexes count the
renewals and whose expiries fit their column. -/
structure Start (w : World) : Prop where
  keys : KeysNodup UserSubscription.id w.db.userSubscriptions
  idle : w.inFlight = []
  range : ∀ id row, w.db.subscription id = some row → row.expiresAtNs ≤ maxInt64
  counts : ∀ id row, w.db.subscription id = some row → row.periodIndex = renewals id w.db

/-! ## One row through one event -/

/-- What an event does to the period, the expiry and the renewals of one row. -/
inductive RowEffect (w : World) (ev : Event) (row row' : UserSubscription) : Prop where
  | same (hperiod : row'.periodIndex = row.periodIndex)
      (hexp : row'.expiresAtNs = row.expiresAtNs)
      (hcount : renewals row.id (w.step ev).db = renewals row.id w.db)
  | terms (k : ℕ) (io : Faults) (f : TermsFlight) (hev : ev = .write k io)
      (hf : w.inFlight[k]? = some (.terms f))
      (hok : (updateUserSubscriptionTerms io f.updated w.db).1 = .ok ())
      (hid : f.read.id = row.id) (hperiod : row'.periodIndex = f.read.periodIndex)
      (hexp : row'.expiresAtNs = f.updated.expiresAtNs)
      (hcount : renewals row.id (w.step ev).db = renewals row.id w.db)
  | renewed (k : ℕ) (io : Faults) (f : RenewalFlight) (hev : ev = .write k io)
      (hf : w.inFlight[k]? = some (.renewal f)) (hid : f.read.id = row.id)
      (hold : row.periodIndex = f.read.periodIndex)
      (hperiod : row'.periodIndex = row.periodIndex + 1)
      (hexp : row'.expiresAtNs = f.write.sub.expiresAtNs)
      (hcount : renewals row.id (w.step ev).db = renewals row.id w.db + 1)

theorem subscription_post (db : Db) (e : BalanceEntry) (id : String) :
    (db.post e).subscription id = db.subscription id := rfl

variable {row' : UserSubscription}

/-- **One row through one event.**  No event makes or removes a row. -/
theorem row_step (hkeys : w.db.SubsKeyed) (h : (w.step ev).db.subscription id = some row') :
    ∃ row, w.db.subscription id = some row ∧ row.id = id ∧ w.RowEffect ev row row' := by
  cases step_effect hkeys ev with
  | still hsubs hledger =>
    have hsame : w.db.subscription id = some row' := by
      rw [← h, Db.subscription, Db.subscription, hsubs]
    exact ⟨row', hsame, key_of_lookup hsame, .same rfl rfl (renewals_of_ledger_eq hledger _)⟩
  | column p g hsubs hg hledger =>
    rw [Db.subscription_of_update hsubs
      (fun r => by obtain ⟨status, autoRenew, hr⟩ := hg r; rw [hr])] at h
    obtain ⟨row, hrow, rfl⟩ := Option.map_eq_some_iff.mp h
    refine ⟨row, hrow, key_of_lookup hrow, ?_⟩
    obtain ⟨status, autoRenew, hr⟩ := hg row
    refine .same ?_ ?_ (renewals_of_ledger_eq hledger _)
    · split
      · rw [hr]
      · rfl
    · split
      · rw [hr]
      · rfl
  | terms k io f hev hf hok hdb =>
    have hcount : ∀ i, renewals i (w.step ev).db = renewals i w.db :=
      renewals_of_ledger_eq (by rw [hdb]; rfl)
    have hkeep := f.change.keepsPeriod f.applied
    rw [hdb, Db.subscription_withTerms] at h
    obtain ⟨row, hrow, rfl⟩ := Option.map_eq_some_iff.mp h
    refine ⟨row, hrow, key_of_lookup hrow, ?_⟩
    by_cases hid : row.id = (storedTerms f.updated).id
    · rw [if_pos hid]
      exact .terms k io f hev hf hok (hkeep.id.symm.trans hid.symm) hkeep.periodIndex rfl (hcount _)
    · rw [if_neg hid]
      exact .same rfl rfl (hcount _)
  | renewal k io f row0 hev hf hrow0 hperiod hdb =>
    have hcount : ∀ i, renewals i (w.step ev).db =
        renewals i w.db + if f.read.id = i then 1 else 0 := by
      intro i
      rw [hdb]
      exact renewals_post w.db (show (w.db.settled f.write.entry).reason = .renew from rfl) i
    rw [hdb, Db.subscription_renewed, subscription_post] at h
    obtain ⟨row, hrow, rfl⟩ := Option.map_eq_some_iff.mp h
    have hkey : row.id = id := key_of_lookup hrow
    refine ⟨row, hrow, hkey, ?_⟩
    by_cases hid : f.read.id = row.id
    · -- the renewed row is the row itself, at the period the renewal read
      have hsame : row0 = row := by
        rw [hid, hkey] at hrow0
        exact Option.some.inj (hrow0.symm.trans hrow)
      subst hsame
      rw [if_pos ⟨hid.symm, hperiod⟩]
      refine .renewed k io f hev hf hid hperiod ?_ rfl ?_
      · rw [hperiod]
        rfl
      · rw [hcount, if_pos hid]
    · rw [if_neg fun hmatch => hid hmatch.1.symm]
      refine .same rfl rfl ?_
      rw [hcount, if_neg hid, Nat.add_zero]

/-! ## The invariant -/

/-- What holds along an interleaving without stale writes: the period index counts the renewals,
and no copy in flight is ahead of its row. -/
structure Sane (w : World) : Prop where
  keys : KeysNodup UserSubscription.id w.db.userSubscriptions
  range : ∀ id row, w.db.subscription id = some row → row.expiresAtNs ≤ maxInt64
  counts : ∀ id row, w.db.subscription id = some row → row.periodIndex = renewals id w.db
  flightRange : ∀ f ∈ w.inFlight, f.read.expiresAtNs ≤ maxInt64
  behind : ∀ f ∈ w.inFlight, ∀ row, w.db.subscription f.read.id = some row →
    f.read.periodIndex ≤ row.periodIndex

theorem Start.sane (h : w.Start) : w.Sane where
  keys := h.keys
  range := h.range
  counts := h.counts
  flightRange f hf := absurd hf (by simp [h.idle])
  behind f hf := absurd hf (by simp [h.idle])

theorem periodIndex_of_not_stale {k : ℕ} {io : Faults} {f : TermsFlight} {row : UserSubscription}
    (hstale : ¬ w.StaleWrite (.write k io)) (hf : w.inFlight[k]? = some (.terms f))
    (hok : (updateUserSubscriptionTerms io f.updated w.db).1 = .ok ())
    (hrow : w.db.subscription f.read.id = some row) : f.read.periodIndex = row.periodIndex := by
  by_contra hne
  exact hstale (staleWrite_iff.mpr ⟨k, io, f, row, rfl, hf, hok, hrow, fun h => hne h.symm⟩)

theorem mem_inFlight_of_getElem? {k : ℕ} {f : Flight} (h : w.inFlight[k]? = some f) :
    f ∈ w.inFlight :=
  List.mem_of_getElem? h

theorem write_expiresAtNs_le (f : RenewalFlight) : f.write.sub.expiresAtNs ≤ maxInt64 :=
  expiryFromDays_le_maxInt64 _ _

theorem le_write_expiresAtNs {f : RenewalFlight} (h : f.read.expiresAtNs ≤ maxInt64) :
    f.read.expiresAtNs ≤ f.write.sub.expiresAtNs :=
  le_expiryFromDays f.lasts (le_max_left _ _) h

theorem periodIndex_le_step (hs : w.Sane) (hstale : ¬ w.StaleWrite ev) {row : UserSubscription}
    (hrow : w.db.subscription id = some row) (hrow' : (w.step ev).db.subscription id = some row') :
    row.periodIndex ≤ row'.periodIndex := by
  obtain ⟨row1, hrow1, hid, heff⟩ := row_step hs.keys hrow'
  obtain rfl : row1 = row := Option.some.inj (hrow1.symm.trans hrow)
  cases heff with
  | same hperiod _ _ => exact le_of_eq hperiod.symm
  | terms k io f hev hf hok hfid hperiod _ _ =>
    subst hev
    rw [← hid, ← hfid] at hrow
    rw [hperiod, periodIndex_of_not_stale hstale hf hok hrow]
  | renewed k io f _ _ _ _ hperiod _ _ => omega

theorem Sane.step (hs : w.Sane) (hstale : ¬ w.StaleWrite ev) : (w.step ev).Sane where
  keys := keysNodup_step hs.keys ev
  range id row' hrow' := by
    obtain ⟨row, hrow, -, heff⟩ := row_step hs.keys hrow'
    cases heff with
    | same _ hexp _ =>
      rw [hexp]
      exact hs.range id row hrow
    | terms k io f _ hf _ _ _ hexp _ =>
      rw [hexp]
      exact (f.change.keepsPeriod f.applied).expiry_le
        (hs.flightRange _ (mem_inFlight_of_getElem? hf))
    | renewed k io f _ _ _ _ _ hexp _ =>
      rw [hexp]
      exact write_expiresAtNs_le f
  counts id row' hrow' := by
    obtain ⟨row, hrow, hid, heff⟩ := row_step hs.keys hrow'
    have hcount0 := hs.counts id row hrow
    cases heff with
    | same hperiod _ hcount =>
      rw [hid] at hcount
      rw [hperiod, hcount, hcount0]
    | terms k io f hev hf hok hfid hperiod _ hcount =>
      subst hev
      rw [hid] at hcount hfid
      have hrow0 := hrow
      rw [← hfid] at hrow0
      rw [hperiod, periodIndex_of_not_stale hstale hf hok hrow0, hcount, hcount0]
    | renewed k io f _ _ _ _ hperiod _ hcount =>
      rw [hid] at hcount
      rw [hperiod, hcount, hcount0]
      push_cast
      rfl
  flightRange f hf := by
    rcases mem_inFlight_step hf with hold | ⟨hread, -⟩
    · exact hs.flightRange f hold
    · exact hs.range _ _ hread
  behind f hf row' hrow' := by
    obtain ⟨row, hrow, -, -⟩ := row_step hs.keys hrow'
    have hmono := periodIndex_le_step hs hstale hrow hrow'
    rcases mem_inFlight_step hf with hold | ⟨hread, -⟩
    · exact le_trans (hs.behind f hold row hrow) hmono
    · rw [Option.some.inj (hread.symm.trans hrow)]
      exact hmono

/-! ## The floor under an extension -/

/-- The subscription stands at a period and an expiry no lower than these, and so does every copy
of it in flight that was read at the period or later. -/
structure Floor (id : String) (period expiry : ℤ) (w : World) : Prop where
  row : ∀ row, w.db.subscription id = some row →
    period ≤ row.periodIndex ∧ expiry ≤ row.expiresAtNs
  flights : ∀ f ∈ w.inFlight, f.read.id = id → period ≤ f.read.periodIndex →
    expiry ≤ f.read.expiresAtNs

variable {period : ℤ}

/-- **The floor is kept** by every event that is neither a stale write nor an explicit expiry. -/
theorem Floor.step {expiry : ℤ} (hfloor : Floor id period expiry w) (hs : w.Sane)
    (hstale : ¬ w.StaleWrite ev) (hset : ¬ w.SetsExpiry ev id) :
    Floor id period expiry (w.step ev) where
  row row' hrow' := by
    obtain ⟨row, hrow, hid, heff⟩ := row_step hs.keys hrow'
    obtain ⟨hperiod0, hexp0⟩ := hfloor.row row hrow
    refine ⟨le_trans hperiod0 (periodIndex_le_step hs hstale hrow hrow'), ?_⟩
    cases heff with
    | same _ hexp _ =>
      rw [hexp]
      exact hexp0
    | terms k io f hev hf hok hfid _ hexp _ =>
      subst hev
      -- the copy is no older than the period, so its expiry stands on the floor already
      rw [hid] at hfid
      have hmem := mem_inFlight_of_getElem? hf
      have hkeep := f.change.keepsPeriod f.applied
      have hset' : f.change.setsExpiry = false := by
        by_contra hne
        exact hset ⟨k, io, f, rfl, hf, hfid, by simpa using hne⟩
      have hrow0 := hrow
      rw [← hfid] at hrow0
      have hread : expiry ≤ f.read.expiresAtNs := by
        refine hfloor.flights _ hmem hfid ?_
        have hsame := periodIndex_of_not_stale hstale hf hok hrow0
        exact le_trans hperiod0 (le_of_eq hsame.symm)
      rw [hexp]
      exact le_trans hread (hkeep.le_expiry hset' (hs.flightRange _ hmem))
    | renewed k io f _ hf hfid hold _ hexp _ =>
      rw [hid] at hfid
      have hmem := mem_inFlight_of_getElem? hf
      have hread : expiry ≤ f.read.expiresAtNs := by
        refine hfloor.flights _ hmem hfid ?_
        exact le_trans hperiod0 (le_of_eq hold)
      rw [hexp]
      exact le_trans hread (le_write_expiresAtNs (hs.flightRange _ hmem))
  flights f hf hfid hperiod := by
    rcases mem_inFlight_step hf with hold | ⟨hread, -⟩
    · exact hfloor.flights f hold hfid hperiod
    · rw [hfid] at hread
      exact (hfloor.row _ hread).2

/-- Right after a renewal has committed, the floor is what it wrote: every other copy in flight was
read at an earlier period. -/
theorem floor_of_commitsRenewal (hs : w.Sane) (hcommit : w.CommitsRenewal ev id)
    (hrow' : (w.step ev).db.subscription id = some row') :
    Floor id row'.periodIndex row'.expiresAtNs (w.step ev) := by
  obtain ⟨row, hrow, hid, heff⟩ := row_step hs.keys hrow'
  have hsucc : row'.periodIndex = row.periodIndex + 1 := by
    rw [CommitsRenewal] at hcommit
    cases heff with
    | same _ _ hcount | terms _ _ _ _ _ _ _ _ _ hcount =>
      rw [hid] at hcount
      omega
    | renewed k io f _ _ _ _ hperiod _ _ => exact hperiod
  refine ⟨fun r hr => ?_, fun f hf hfid hperiod => ?_⟩
  · rw [Option.some.inj (hr.symm.trans hrow')]
    exact ⟨le_refl _, le_refl _⟩
  have hbehind : f.read.periodIndex ≤ row.periodIndex := by
    rcases mem_inFlight_step hf with hold | ⟨hread, -⟩
    · exact hs.behind f hold row (by rw [hfid]; exact hrow)
    · rw [hfid] at hread
      rw [Option.some.inj (hread.symm.trans hrow)]
  omega

/-! ## Along an interleaving -/

theorem sane_run (hs : w.Sane) (h : Along step (fun w ev => ¬ w.StaleWrite ev) w l) :
    (run step w l).Sane :=
  h.invariant (fun _ _ hstale hs => hs.step hstale) hs

theorem periodIndex_le_run (hs : w.Sane) (h : Along step (fun w ev => ¬ w.StaleWrite ev) w l)
    (hp : ∀ row, w.db.subscription id = some row → period ≤ row.periodIndex) :
    ∀ row, (run step w l).db.subscription id = some row → period ≤ row.periodIndex := by
  have hinv : (run step w l).Sane ∧ ∀ row, (run step w l).db.subscription id = some row →
      period ≤ row.periodIndex := by
    refine h.invariant (I := fun w => w.Sane ∧ ∀ row, w.db.subscription id = some row →
      period ≤ row.periodIndex) ?_ ⟨hs, hp⟩
    intro w ev hstale hw
    refine ⟨hw.1.step hstale, fun row' hrow' => ?_⟩
    obtain ⟨row, hrow, -, -⟩ := row_step hw.1.keys hrow'
    exact le_trans (hw.2 row hrow) (periodIndex_le_step hw.1 hstale hrow hrow')
  exact hinv.2

theorem floor_run {expiry : ℤ} (hs : w.Sane) (h : Along step (fun w ev => ¬ w.StaleWrite ev) w l)
    (hset : Along step (fun w ev => ¬ w.SetsExpiry ev id) w l) (hfloor : Floor id period expiry w) :
    Floor id period expiry (run step w l) := by
  induction l generalizing w with
  | nil => exact hfloor
  | cons ev l ih =>
    exact ih (hs.step h.1) h.2 hset.2 (hfloor.step hs h.1 hset.1)

theorem extensionsKept_of_along (hw : w.Start) (h : Along step (fun w ev => ¬ w.StaleWrite ev) w l)
    : ExtensionsKept w l where
  counts l1 l2 hl id row hrow := by
    subst hl
    exact (sane_run hw.sane (along_append.mp h).1).counts id row hrow
  kept l1 ev l2 l3 hl id row row' hcommit hrow hrow' := by
    subst hl
    obtain ⟨h1, hev, h23⟩ := along_append.mp h
    have h2 := (along_append.mp h23).1
    have hs := sane_run hw.sane h1
    rw [run_append, run_cons, run_nil] at hrow ⊢
    rw [run_append, run_cons] at hrow'
    have hfloor := floor_of_commitsRenewal hs hcommit hrow
    refine ⟨periodIndex_le_run (hs.step hev) h2 (fun r hr => (hfloor.row r hr).1) row' hrow', ?_⟩
    intro hset
    exact ((floor_run (hs.step hev) h2 hset hfloor).row row' hrow').2

theorem not_staleWrite_of_counts (hs : w.Sane)
    (hcounts : ∀ id row, (w.step ev).db.subscription id = some row →
      row.periodIndex = renewals id (w.step ev).db) : ¬ w.StaleWrite ev := by
  intro hstale
  obtain ⟨k, io, f, row, rfl, hf, hok, hrow, hne⟩ := staleWrite_iff.mp hstale
  have hkeep := f.change.keepsPeriod f.applied
  have hstep : (w.step (.write k io)).db = w.db.withTerms (storedTerms f.updated) := by
    rcases updateUserSubscriptionTerms_cases io f.updated w.db with ⟨e, hfail⟩ | ⟨-, hdone⟩
    · rw [hfail] at hok
      cases hok
    · simp only [step, hf, Flight.land, hdone]
  have hid : row.id = (storedTerms f.updated).id := (key_of_lookup hrow).trans hkeep.id.symm
  have hrow' : (w.step (.write k io)).db.subscription f.read.id =
      some (Db.termsColumns (storedTerms f.updated) row) := by
    rw [hstep, Db.subscription_withTerms, hrow, Option.map_some, if_pos hid]
  have hcount := hcounts _ _ hrow'
  have hledger : renewals f.read.id (w.step (.write k io)).db = renewals f.read.id w.db :=
    renewals_of_ledger_eq (by rw [hstep]; rfl) _
  rw [hledger, ← hs.counts _ _ hrow] at hcount
  exact hne (hcount.symm.trans hkeep.periodIndex)

theorem along_of_extensionsKept (hw : w.Start) (h : ExtensionsKept w l) :
    Along step (fun w ev => ¬ w.StaleWrite ev) w l := by
  -- by induction on the length: a prefix keeps its extensions too, and the last event cannot be
  -- stale because the period index counts the renewals after it
  induction l using List.reverseRecOn with
  | nil => trivial
  | append_singleton l ev ih =>
    have hl : Along step (fun w ev => ¬ w.StaleWrite ev) w l := by
      refine ih ⟨fun l1 l2 hl => ?_, fun l1 ev' l2 l3 hl => ?_⟩
      · exact h.counts l1 (l2 ++ [ev]) (by rw [hl, List.append_assoc])
      · exact h.kept l1 ev' l2 (l3 ++ [ev]) (by rw [hl]; simp)
    refine along_append.mpr ⟨hl, ?_, trivial⟩
    refine not_staleWrite_of_counts (sane_run hw.sane hl) fun id row hrow => ?_
    have hcount := h.counts (l ++ [ev]) [] (by simp) id row
    rw [run_append, run_cons, run_nil] at hcount
    exact hcount hrow

/-- **When a paid-for extension is kept.**  From any start, an interleaving of any number of
renewals and operator writes keeps every paid-for extension exactly when no operator's write commits
on a row that was renewed after the operator read it. -/
theorem extensions_kept_iff {w : World} (hw : w.Start) (l : List Event) :
    ExtensionsKept w l ↔ Along step (fun w ev => ¬ w.StaleWrite ev) w l :=
  ⟨along_of_extensionsKept hw, extensionsKept_of_along hw⟩

/-! ## A renewal that is lost -/

theorem monthlyWorld_start : monthlyWorld.Start where
  keys := by decide
  idle := rfl
  range id row h := by
    have hmem := mem_of_lookup h
    obtain rfl := List.mem_singleton.mp hmem
    decide
  counts id row h := by
    have hmem := mem_of_lookup h
    obtain rfl := List.mem_singleton.mp hmem
    rfl

theorem extensions_kept_patch_then_renewal : ExtensionsKept monthlyWorld
      [.readTerms "us" (.patch { extendDays := some 3 } dayNs), .write 0 noFaults,
        .readRenewal "us" (29 * dayNs) "r1" "bl1", .write 0 noFaults] :=
  (extensions_kept_iff monthlyWorld_start _).mpr (by decide)

/-- The console reads the row for a patch that repeats its status, the sweep reads and renews it,
and the patch lands: the customer has paid and is back at day thirty and period zero. -/
def lostRenewal : List Event :=
  [.readTerms "us" (.patch { status := some .active } (29 * dayNs)),
    .readRenewal "us" (29 * dayNs) "r1" "bl1", .write 1 noFaults, .write 0 noFaults]

theorem renewal_lost : ¬ ExtensionsKept monthlyWorld lostRenewal ∧
      ((run step monthlyWorld (lostRenewal.take 3)).db.subscription "us").map
        (fun row => (row.expiresAtNs, row.periodIndex)) = some (60 * dayNs, 1) ∧
      ((run step monthlyWorld lostRenewal).db.subscription "us").map
        (fun row => (row.expiresAtNs, row.periodIndex)) = some (30 * dayNs, 0) ∧
      renewals "us" (run step monthlyWorld lostRenewal).db = 1 ∧
      (run step monthlyWorld lostRenewal).db.balance "u" = 15000000 :=
  ⟨fun h => absurd (along_of_extensionsKept monthlyWorld_start h) (by decide), by decide⟩

end World
end Prism
