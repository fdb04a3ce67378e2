import Prism.Renewal.Interleaving

/-!
# Does a renewal undo an operator's stop?

An operator stops a subscription in one of two ways: the row is suspended, or, when its plan is
disabled, the snapshot the row carries is rewritten to status disabled.  Neither changes the period
index, and the period index is all a renewal compares.  So a renewal that read the row before the
stop and writes after it puts both back.

There is a second way around a plan stop, without any race.  A snapshot without a price falls back
on the live plan, and the renewal stores the live plan as the new snapshot.  Enabling the plan again
is meant to leave stopped subscriptions alone; the next renewal of such a one lifts the stop.
-/

namespace Prism

open Table

/-- The plan in the snapshot is disabled. -/
def SnapshotText.isDisabled : SnapshotText → Bool
  | .plan p => p.status = .disabled
  | _ => false

inductive StopKind where
  /-- the row is suspended -/
  | row
  /-- the plan in the row's snapshot is disabled -/
  | plan

def StopKind.holds : StopKind → UserSubscription → Bool
  | .row, s => s.status = .suspended
  | .plan, s => s.planSnapshot.isDisabled

namespace World

def Stopped (w : World) (kind : StopKind) (id : String) : Prop :=
  ∃ row, w.db.subscription id = some row ∧ kind.holds row = true

variable {w : World}

theorem stopped_iff {kind : StopKind} {id : String} {row : UserSubscription}
    (h : w.db.subscription id = some row) : w.Stopped kind id ↔ kind.holds row = true := by
  constructor
  · rintro ⟨row', hrow', hk⟩
    rwa [Option.some.inj (hrow'.symm.trans h)] at hk
  · exact fun hk => ⟨row, h, hk⟩

def renewalAt (w : World) : Event → Option RenewalFlight
  | .write k _ =>
    match w.inFlight[k]? with
    | some (.renewal f) => some f
    | _ => none
  | _ => none

variable {ev : Event} {f : RenewalFlight}

theorem renewalAt_eq_some (h : w.renewalAt ev = some f) :
    ∃ k io, ev = .write k io ∧ w.inFlight[k]? = some (.renewal f) := by
  cases ev with
  | write k io =>
    refine ⟨k, io, rfl, ?_⟩
    simp only [renewalAt] at h
    split at h
    · rename_i g hg
      rw [hg, Option.some.inj h]
    · cases h
  | _ => cases h

/-- The event is an action other than a renewal's write, and takes the subscription out of its
stop: an operator has reactivated it. -/
def Lifts (w : World) (kind : StopKind) (id : String) (ev : Event) : Prop :=
  w.renewalAt ev = none ∧ w.Stopped kind id ∧ ¬ (w.step ev).Stopped kind id

/-- Every stop of the interleaving holds: a subscription that is stopped at some moment is stopped
at every later moment, unless an operator has reactivated it in between. -/
def StopsKept (w : World) (l : List Event) : Prop :=
  ∀ l₁ l₂ l₃, l = l₁ ++ (l₂ ++ l₃) → ∀ kind id, (run step w l₁).Stopped kind id →
    Along step (fun w ev => ¬ w.Lifts kind id ev) (run step w l₁) l₂ →
    (run step w (l₁ ++ l₂)).Stopped kind id

/-- The renewal is charged and written, as opposed to refused or answered as a replay. -/
def commits (io : Faults) (f : RenewalFlight) (db : Db) : Bool :=
  match (f.write.run io db).1 with
  | .ok r => !r.replayed
  | .error _ => false

def snapshotWritten (f : RenewalFlight) : SnapshotText :=
  snapshotOrEmpty f.write.sub.planSnapshot

/-- The event is a renewal that commits on a suspended row, or stores a snapshot that is not
disabled over one that is. -/
def OverwritesStop (w : World) : Event → Bool
  | .write k io =>
    match w.inFlight[k]? with
    | some (.renewal f) =>
      match w.db.subscription f.read.id with
      | some row => commits io f w.db &&
          (StopKind.row.holds row ||
            (StopKind.plan.holds row && !(snapshotWritten f).isDisabled))
      | none => false
    | _ => false
  | _ => false

theorem step_renewal (hkeys : w.db.SubsKeyed) {k : ℕ}
    (io : Faults) (hf : w.inFlight[k]? = some (.renewal f)) :
    (commits io f w.db = false ∧ (w.step (.write k io)).db = w.db) ∨ commits io f w.db = true ∧
        (∃ row, w.db.subscription f.read.id = some row ∧
          (w.step (.write k io)).db.subscription f.read.id =
            some (Db.renewColumns f.write.sub (snapshotWritten f) row)) ∧
        ∀ id, id ≠ f.read.id → (w.step (.write k io)).db.subscription id = w.db.subscription id := by
  have hstep : (w.step (.write k io)).db = (f.write.run io w.db).2 := by
    simp only [step, hf, Flight.land]
  rcases f.write.run_cases io w.db with ⟨hsame, hreplay⟩ | ⟨hgrants, hdone⟩
  · refine .inl ⟨?_, hstep.trans hsame⟩
    unfold commits
    split
    · rename_i r hr
      rw [hreplay r hr]
      rfl
    · rfl
  · obtain ⟨row, hlook, -, hafter⟩ := hgrants.subscription_renewedBy hkeys
    refine Or.inr ⟨by simp [commits, hdone], ⟨row, hlook, ?_⟩, fun id hid => ?_⟩
    · rw [hstep, hdone]
      exact hafter
    · rw [hstep, hdone]
      exact Db.subscription_renewedBy_of_ne w.db hid

/-- **One renewal against one stop**: the write takes the subscription out of a stop exactly when
it overwrites one. -/
theorem overwritesStop_iff (hkeys : w.db.SubsKeyed) (hf : w.renewalAt ev = some f) :
    w.OverwritesStop ev = true ↔
      ∃ kind, w.Stopped kind f.read.id ∧ ¬ (w.step ev).Stopped kind f.read.id := by
  obtain ⟨k, io, rfl, hk⟩ := renewalAt_eq_some hf
  rcases step_renewal hkeys io hk with
      ⟨hno, hdb⟩ | ⟨hyes, ⟨row, hrow, hrow'⟩, -⟩
  · constructor
    · intro h
      simp only [OverwritesStop, hk, hno, Bool.false_and] at h
      split at h <;> simp at h
    · rintro ⟨kind, hbefore, hafter⟩
      refine absurd ?_ hafter
      obtain ⟨row, hrow, hkind⟩ := hbefore
      exact ⟨row, by rw [hdb]; exact hrow, hkind⟩
  · have hover : w.OverwritesStop (.write k io) = (StopKind.row.holds row ||
          (StopKind.plan.holds row && !(snapshotWritten f).isDisabled)) := by
      simp only [OverwritesStop, hk, hrow, hyes, Bool.true_and]
    rw [hover, Bool.or_eq_true, Bool.and_eq_true, Bool.not_eq_true']
    constructor
    · rintro (hsusp | ⟨hplan, hstored⟩)
      · refine ⟨.row, ⟨row, hrow, hsusp⟩, ?_⟩
        rw [stopped_iff hrow']
        simp [StopKind.holds, Db.renewColumns]
      · refine ⟨.plan, ⟨row, hrow, hplan⟩, ?_⟩
        rw [stopped_iff hrow']
        simp [StopKind.holds, Db.renewColumns, hstored]
    · rintro ⟨kind, hbefore, hafter⟩
      rw [stopped_iff hrow] at hbefore
      rw [stopped_iff hrow'] at hafter
      cases kind with
      | row => exact .inl hbefore
      | plan => exact Or.inr ⟨hbefore, by simpa [StopKind.holds, Db.renewColumns] using hafter⟩

theorem exists_renewal_of_overwritesStop (h : w.OverwritesStop ev = true) :
    ∃ f, w.renewalAt ev = some f := by
  cases ev with
  | write k io =>
    simp only [OverwritesStop] at h
    split at h
    · rename_i f hf
      exact ⟨f, by simp [renewalAt, hf]⟩
    · cases h
  | _ => cases h

/-- An event that overwrites no stop, and by which no operator lifts one, leaves a stopped
subscription stopped. -/
theorem Stopped.step (hkeys : w.db.SubsKeyed)
    {kind : StopKind} {id : String} (h : w.Stopped kind id) (hover : ¬ w.OverwritesStop ev = true)
    (hlift : ¬ w.Lifts kind id ev) : (w.step ev).Stopped kind id := by
  by_contra hafter
  cases hr : w.renewalAt ev with
  | none => exact hlift ⟨hr, h, hafter⟩
  | some f =>
    obtain ⟨k, io, rfl, hk⟩ := renewalAt_eq_some hr
    by_cases hid : id = f.read.id
    · subst hid
      exact hover ((overwritesStop_iff hkeys hr).mpr ⟨kind, h, hafter⟩)
    -- a renewal of another subscription does not touch the row
    refine hafter ?_
    obtain ⟨row, hrow, hkind⟩ := h
    rcases step_renewal hkeys io hk with ⟨-, hdb⟩ | ⟨-, -, hother⟩
    · exact ⟨row, by rw [hdb]; exact hrow, hkind⟩
    · exact ⟨row, (hother id hid).trans hrow, hkind⟩

/-- The event makes a subscription stopped while a renewal of it has been read and not written. -/
def StopsInFlight (w : World) (ev : Event) : Prop :=
  ∃ kind id, ¬ w.Stopped kind id ∧ (w.step ev).Stopped kind id ∧
    ∃ f, Flight.renewal f ∈ (w.step ev).inFlight ∧ f.read.id = id

/-- The event reads, for a renewal, a subscription whose plan is stopped and whose snapshot has no
price, while the live plan it falls back on is not disabled. -/
def FallsBack (w : World) (ev : Event) : Prop :=
  ∃ f, Flight.renewal f ∈ (w.step ev).inFlight ∧ Flight.renewal f ∉ w.inFlight ∧
    f.read.planSnapshot.isDisabled = true ∧ (snapshotWritten f).isDisabled = false

/-- No renewal in flight would overwrite a stop. -/
def Harmless (w : World) : Prop :=
  KeysNodup UserSubscription.id w.db.userSubscriptions ∧
    ∀ f, Flight.renewal f ∈ w.inFlight → ∀ row, w.db.subscription f.read.id = some row →
      StopKind.row.holds row = false ∧
        (StopKind.plan.holds row = true → (snapshotWritten f).isDisabled = true)

theorem Harmless.not_overwritesStop (h : w.Harmless) (ev : Event) :
    ¬ w.OverwritesStop ev = true := by
  intro hover
  cases ev with
  | write k io =>
    simp only [OverwritesStop] at hover
    split at hover
    · rename_i f hf
      split at hover
      · rename_i row hrow
        obtain ⟨hsusp, hplan⟩ := h.2 f (List.mem_of_getElem? hf) row hrow
        rw [Bool.and_eq_true, hsusp, Bool.false_or, Bool.and_eq_true] at hover
        simp [hplan hover.2.1] at hover
      · cases hover
    · cases hover
  | _ => cases hover

theorem Harmless.step (h : w.Harmless) (hev : ¬ w.StopsInFlight ev ∧ ¬ w.FallsBack ev) :
    (w.step ev).Harmless := by
  refine ⟨keysNodup_step h.1 ev, fun f hf row' hrow' => ?_⟩
  by_cases hold : Flight.renewal f ∈ w.inFlight
  · -- the row was harmless before; had the event stopped it, that was with `f` in flight
    obtain ⟨row, hrow⟩ := exists_row_of_step h.1 hrow'
    obtain ⟨hsusp, hplan⟩ := h.2 f hold row hrow
    have hkeep : ∀ kind, StopKind.holds kind row' = true → StopKind.holds kind row = true := by
      intro kind hkind
      by_contra hno
      refine hev.1 ⟨kind, f.read.id, ?_, ⟨row', hrow', hkind⟩, f, hf, rfl⟩
      rwa [stopped_iff hrow]
    refine ⟨?_, fun hp => hplan (hkeep .plan hp)⟩
    by_contra hs
    exact absurd (hkeep .row (by simpa using hs)) (by simp [hsusp])
  · obtain ⟨hread, hdb⟩ := (mem_inFlight_step hf).resolve_left hold
    rw [hdb] at hrow'
    have hrow : row' = f.read := Option.some.inj (hrow'.symm.trans hread)
    subst hrow
    refine ⟨by simp [StopKind.holds, f.active], fun hp => ?_⟩
    by_contra hs
    exact hev.2 ⟨f, hf, hold, hp, by simpa using hs⟩

/-! ## Whole interleavings -/

theorem keysNodup_run (hkeys : w.db.SubsKeyed) (l : List Event) : (run step w l).db.SubsKeyed :=
  run_invariant (I := fun w : World => w.db.SubsKeyed)
    (fun _ ev h => keysNodup_step h ev) hkeys l

theorem stopsKept_iff (hkeys : w.db.SubsKeyed) (l : List Event) :
    StopsKept w l ↔ Along step (fun w ev => ¬ w.OverwritesStop ev = true) w l := by
  constructor
  · intro h
    rw [along_iff_forall]
    intro l1 ev l2 hl hover
    obtain ⟨f, hf⟩ := exists_renewal_of_overwritesStop hover
    obtain ⟨kind, hbefore, hafter⟩ := (overwritesStop_iff (keysNodup_run hkeys l1) hf).mp hover
    refine hafter ?_
    have hkept := h l1 [ev] l2 hl kind f.read.id hbefore ⟨fun hlift => ?_, trivial⟩
    · rwa [run_append] at hkept
    · exact absurd hf (by simp [hlift.1])
  · intro h l1 l2 l3 hl kind id hstop hnolift
    subst hl
    have hcond := (along_append.mp (along_append.mp h).2).1
    have hkeys1 := keysNodup_run hkeys l1
    rw [run_append]
    clear h hkeys
    generalize run step w l1 = w1 at *
    induction l2 generalizing w1 with
    | nil => exact hstop
    | cons ev l2 ih =>
      exact ih _ (hstop.step hkeys1 hcond.1 hnolift.1) hnolift.2 hcond.2 (keysNodup_step hkeys1 ev)

/-- **When the stops of an interleaving hold.**  From any tables with unique subscription ids and
nothing in flight: every stop holds until an operator lifts it exactly when no renewal commits on a
suspended row or stores a snapshot that is not disabled over one that is.  And that is so in every
interleaving in which no subscription becomes stopped while a renewal of it is in flight, and no
renewal of a plan-stopped subscription falls back on a live plan that is not disabled. -/
theorem stops_kept {w : World}
    (hkeys : Table.KeysNodup UserSubscription.id w.db.userSubscriptions) (hidle : w.inFlight = [])
    (l : List Event) :
    (StopsKept w l ↔ Along step (fun w ev => ¬ w.OverwritesStop ev = true) w l) ∧
      (Along step (fun w ev => ¬ w.StopsInFlight ev ∧ ¬ w.FallsBack ev) w l → StopsKept w l) := by
  refine ⟨stopsKept_iff hkeys l, fun h => (stopsKept_iff hkeys l).mpr ?_⟩
  have hstart : w.Harmless := by
    refine ⟨hkeys, fun f hf => ?_⟩
    rw [hidle] at hf
    cases hf
  exact h.imp_of_invariant (I := Harmless) (fun _ _ hev hw => hw.step hev)
    (fun _ ev _ hw => hw.not_overwritesStop ev) hstart

/-- The plan is disabled, which stops the subscription, and then the sweep renews it. -/
def renewedWhileStopped : List Event :=
  [.upsertPlan noFaults { monthlyPlan with status := .disabled },
    .readTerms "us" (.stop { monthlyPlan with status := .disabled }), .write 0 noFaults,
    .readRenewal "us" (29 * dayNs) "r1" "bl1", .write 0 noFaults]

/-- A renewal that comes after the suspension is refused; one that comes after the stop of a plan
commits, and the stop is kept. -/
theorem stops_kept_suspended_first : StopsKept monthlyWorld
        [.revoke noFaults "us", .readRenewal "us" (29 * dayNs) "r1" "bl1", .write 0 noFaults] ∧
      StopsKept monthlyWorld renewedWhileStopped ∧
      ((run step monthlyWorld (renewedWhileStopped.take 3)).db.subscription "us").map
        (fun row => (row.periodIndex, row.planSnapshot.isDisabled)) = some (0, true) ∧
      ((run step monthlyWorld renewedWhileStopped).db.subscription "us").map
        (fun row => (row.periodIndex, row.planSnapshot.isDisabled)) = some (1, true) :=
  ⟨(stops_kept (w := monthlyWorld) (by decide) rfl _).1.mpr (by decide),
    (stops_kept (w := monthlyWorld) (by decide) rfl _).1.mpr (by decide), by decide⟩

/-- The sweep reads the row, the operator suspends it, and the renewal lands. -/
def suspendedUnderRenewal : List Event :=
  [.readRenewal "us" (29 * dayNs) "r1" "bl1", .revoke noFaults "us", .write 0 noFaults]

/-- The sweep reads the row, the plan is disabled, and the renewal lands. -/
def planStoppedUnderRenewal : List Event :=
  [.readRenewal "us" (29 * dayNs) "r1" "bl1",
    .upsertPlan noFaults { monthlyPlan with status := .disabled },
    .readTerms "us" (.stop { monthlyPlan with status := .disabled }), .write 1 noFaults,
    .write 0 noFaults]

def grantedWorld : World :=
  { monthlyWorld with
    db := { monthlyWorld.db with
      userSubscriptions := monthlyWorld.db.userSubscriptions.map fun s =>
        { s with planSnapshot := .plan { monthlyPlan with priceMicro := 0 } } } }

/-- The plan is disabled, which stops the subscription, and enabled again; then the sweep runs. -/
def enabledAgain : List Event :=
  [.upsertPlan noFaults { monthlyPlan with status := .disabled },
    .readTerms "us" (.stop { monthlyPlan with status := .disabled }), .write 0 noFaults,
    .upsertPlan noFaults monthlyPlan, .readRenewal "us" (29 * dayNs) "r1" "bl1", .write 0 noFaults]

theorem stops_undone : (¬ StopsKept monthlyWorld suspendedUnderRenewal ∧
      ((run step monthlyWorld (suspendedUnderRenewal.take 2)).db.subscription "us").map
        (fun row => row.status) = some .suspended ∧
      ((run step monthlyWorld suspendedUnderRenewal).db.subscription "us").map
        (fun row => row.status) = some .active) ∧
    (¬ StopsKept monthlyWorld planStoppedUnderRenewal ∧
      ((run step monthlyWorld (planStoppedUnderRenewal.take 4)).db.subscription "us").map
        (fun row => row.planSnapshot.isDisabled) = some true ∧
      ((run step monthlyWorld planStoppedUnderRenewal).db.subscription "us").map
        (fun row => row.planSnapshot.isDisabled) = some false) ∧
    (¬ StopsKept grantedWorld enabledAgain ∧
      ((run step grantedWorld (enabledAgain.take 5)).db.subscription "us").map
        (fun row => row.planSnapshot.isDisabled) = some true ∧
      ((run step grantedWorld enabledAgain).db.subscription "us").map
        (fun row => row.planSnapshot.isDisabled) = some false) := by
  have hkeys : monthlyWorld.db.SubsKeyed := by decide
  have hkeys' : grantedWorld.db.SubsKeyed := by decide
  refine ⟨⟨fun h => ?_, by decide⟩, ⟨fun h => ?_, by decide⟩, fun h => ?_, by decide⟩
  · exact nomatch (stopsKept_iff hkeys _).mp h
  · exact nomatch (stopsKept_iff hkeys _).mp h
  · exact nomatch (stopsKept_iff hkeys' _).mp h

end World
end Prism
