import Prism.Routing.Rotation
import Prism.State.DirtySet

/-!
# The stored leases

The leases of the platforms in memory, and the table `leases` behind the dirty set.  A lease changes
inside a section of its owner.  Some of its events are emitted inside the section, before the change
is committed, and some after it; an event marks a key for an upsert or for deletion.

A section is taken up with the marks it will make (`LeaseSection.early`, `LeaseSection.late`).  From
then on the row of a key is right or will be: either the marks that are there and the marks that are
still owed lead to what is in memory, or an upsert of the key is still to come (`LeaseStore.Bound`).

`DeleteAllLeases` and `PurgePlatformState` leave the user out of the events they emit, so for the
lease of a user they mark the key of another owner, and the row stays (`bulk_removal_leaves_row`).
The other steps that break the agreement are late deletions, emitted when a new lease is there, and
a flusher that reads between an event inside a section and its change.  `LeaseStore.Calm` excludes
the three.
-/

namespace Prism

open Function
open Prog (bind_eq exec_bind exec_ret pure_eq_ret)

/-- The key of a stored lease. -/
structure LeaseKey where
  platformID : String
  owner : LeaseOwner
  deriving DecidableEq

abbrev LeaseMark := LeaseKey × DirtyOp

/-- `OnLeaseEvent` of `cmd/prism/app_runtime.go`: the key that is marked, and as what. -/
def LeaseEvent.mark (e : LeaseEvent) : LeaseMark :=
  (⟨e.platformID, ⟨e.userID, e.account⟩⟩,
    match e.type with
    | .create | .touch | .replace => .upsert
    | .remove | .expire => .delete)

def RoutingEvent.mark : RoutingEvent → Option LeaseMark
  | .emitted e => some e.mark
  | _ => none

/-- A section on the lease of an owner.  Its program answers with the events that follow it; `named`
is the owner as the events have it. -/
structure LeaseSection where
  owner : LeaseOwner
  named : LeaseOwner := owner
  task : RoutingTask (List LeaseEvent)

namespace LeaseSection

variable (sec : LeaseSection) (s : PlatformRoutingState)

/-- The marks that are made inside the section. -/
def early : List LeaseMark := (sec.task.events s).filterMap RoutingEvent.mark

def late : List LeaseMark := (sec.task.exec s).1.map LeaseEvent.mark

def value : Option Lease := (sec.task.exec s).2.leases.load sec.owner

variable (platformID : String)

/-- The marks tell what the section does: it leaves the lease, or it removes it with a mark for
deletion, or there is a mark for an upsert. -/
def Tells : Prop :=
  sec.value s = s.leases.load sec.owner ∨
    (sec.value s = none ∧ (⟨platformID, sec.owner⟩, .delete) ∈ sec.early s ++ sec.late s) ∨
    (⟨platformID, sec.owner⟩, .upsert) ∈ sec.early s ++ sec.late s

/-- A section that finds no lease or names its owner tells what it does. -/
def Honest : Prop :=
  ∀ s : PlatformRoutingState, (s.leases.load sec.owner = none ∨ sec.named = sec.owner) →
    sec.Tells s platformID

open RoutingTask

/-- A section whose events all come inside it. -/
def inner {α : Type} (o : LeaseOwner) (task : RoutingTask α) : LeaseSection where
  owner := o
  task := do
    let _ ← task
    pure []

def put (o : LeaseOwner) (lease : Lease) : LeaseSection where
  owner := o
  task := do
    let replaced ← putLease o lease
    pure [lease.there (if replaced then .replace else .create) platformID o]

def remove (platformID : String) (o named : LeaseOwner) (onDelete : Lease → RoutingTask Unit) :
    LeaseSection where
  owner := o
  named := named
  task := do
    let deleted ← removeLease o onDelete
    pure (deleted.toList.map fun lease => lease.gone .remove platformID named)

/-- One lease of a bulk removal.  The event has no user. -/
def bulk (o : LeaseOwner) : LeaseSection :=
  remove platformID o ⟨"", o.account⟩ fun _ => pure ()

variable {s} {plat : RoutingSettings} {sight : RouteSight} {platformID : String}
  {o named : LeaseOwner} {nowNs : ℤ}

theorem honest_put (lease : Lease) : (put platformID o lease).Honest platformID := by
  intro s _
  refine .inr (.inr (List.mem_append_right _ ?_))
  have hlate : ∀ b : Bool, (lease.there (if b then .replace else .create) platformID o).mark =
      (⟨platformID, o⟩, .upsert) := by
    intro b
    cases b <;> rfl
  unfold late put
  simp only [bind_eq, exec_bind, pure_eq_ret, exec_ret]
  exact List.mem_singleton.mpr (hlate _).symm

variable (onDelete : Lease → RoutingTask Unit)

theorem exec_removeLease : ((removeLease o onDelete).exec s).1 = s.leases.load o ∧
      ((removeLease o onDelete).exec s).2.leases.load o = none := by
  unfold removeLease
  rw [exec_compute, LeaseTable.load_commit_self]
  cases hload : s.leases.load o with
  | none => exact ⟨rfl, hload⟩
  | some lease =>
    simp only [bind_eq, exec_bind, pure_eq_ret, exec_ret]
    exact ⟨trivial, rfl⟩

theorem late_remove : (remove platformID o named onDelete).late s =
      (s.leases.load o).toList.map fun _ => (⟨platformID, named⟩, .delete) := by
  unfold late remove
  simp only [bind_eq, exec_bind, pure_eq_ret, exec_ret, (exec_removeLease onDelete).1, List.map_map]
  rfl

theorem value_remove : (remove platformID o named onDelete).value s = none := by
  unfold value remove
  simp only [bind_eq, exec_bind, pure_eq_ret, exec_ret]
  exact (exec_removeLease onDelete).2

theorem honest_remove : (remove platformID o named onDelete).Honest platformID := by
  intro s hs
  cases hload : s.leases.load o with
  | none => exact .inl ((value_remove onDelete).trans hload.symm)
  | some lease =>
    have hnamed : named = o := hs.resolve_left (by simp [remove, hload])
    refine .inr (.inl ⟨value_remove onDelete, List.mem_append_right _ ?_⟩)
    rw [late_remove, hload, hnamed]
    exact List.mem_singleton_self _

section Inner

variable {α : Type} {body : Option Lease → RoutingTask (ComputeOp × α)}

theorem value_inner : (inner o (compute o body)).value s =
    ((body (s.leases.load o)).exec s).1.1.apply
      (((body (s.leases.load o)).exec s).2.leases.load o) := by
  unfold value inner
  simp only [bind_eq, exec_bind, pure_eq_ret, exec_ret, exec_compute]
  exact LeaseTable.load_commit_self _

theorem early_inner : (inner o (compute o body)).early s =
    ((body (s.leases.load o)).events s).filterMap RoutingEvent.mark := by
  have hevents : (inner o (compute o body)).task.events s =
      .leaseLoaded o :: ((body (s.leases.load o)).events s ++ [.committed o]) := by
    unfold inner compute Prog.locked
    simp [bind_eq, Prog.events_bind, Prog.events, Prog.read, Prog.modify]
  unfold early
  rw [hevents, List.filterMap_cons_none rfl, List.filterMap_append]
  exact List.append_nil _

def BodyTells (platformID : String) (o : LeaseOwner) (s : PlatformRoutingState)
    (body : RoutingTask (ComputeOp × α)) : Prop :=
  (body.exec s).1.1.apply ((body.exec s).2.leases.load o) = s.leases.load o ∨
    ((body.exec s).1.1 = .delete ∧
      (⟨platformID, o⟩, .delete) ∈ (body.events s).filterMap RoutingEvent.mark) ∨
    (⟨platformID, o⟩, .upsert) ∈ (body.events s).filterMap RoutingEvent.mark

theorem honest_inner (h : ∀ s, BodyTells platformID o s (body (s.leases.load o))) :
    (inner o (compute o body)).Honest platformID := by
  intro s _
  unfold Tells
  rw [value_inner, early_inner]
  rcases h s with hkept | ⟨hop, hdelete⟩ | hupsert
  · exact .inl hkept
  · exact Or.inr (Or.inl ⟨by rw [hop]; rfl, List.mem_append_left _ hdelete⟩)
  · exact .inr (.inr (List.mem_append_left _ hupsert))

end Inner

theorem honest_expire : (inner o (expireLease platformID o nowNs)).Honest platformID := by
  refine honest_inner fun s => ?_
  cases hload : s.leases.load o with
  | none => exact .inl rfl
  | some lease =>
    by_cases hold : lease.expiryNs < nowNs
    · simp only [if_pos hold]
      exact .inr (.inl ⟨rfl, .head _⟩)
    · simp only [if_neg hold]
      exact .inl rfl

theorem tells_createOrAbort {previous : Option Lease} {invalidation : LeaseInvalidation}
    (hprevious : previous = s.leases.load o) (hinv : previous = none ∨ invalidation ≠ .none) :
    BodyTells plat.id o s (createOrAbortStickyLease plat sight o nowNs previous invalidation) := by
  have hleases : ((createLease plat sight o nowNs).exec s).2.leases = s.leases := by
    unfold createLease rotationAvoidIP
    split <;> rfl
  unfold BodyTells createOrAbortStickyLease
  simp only [bind_eq, exec_bind, Prog.events_bind, List.filterMap_append]
  generalize (createLease plat sight o nowNs).exec s = created at hleases ⊢
  obtain ⟨answer, after⟩ := created
  cases answer with
  | ok new =>
    refine .inr (.inr (List.mem_append_right _ ?_))
    simp only [Prog.events_bind, List.filterMap_append]
    exact List.mem_append_right _ (.head _)
  | error err =>
    cases previous with
    | none => exact .inl (congrArg (LeaseTable.load · o) hleases)
    | some lease =>
      cases invalidation with
      | none => exact absurd rfl (hinv.resolve_left nofun)
      | expire | remove => exact .inr (.inl ⟨rfl, List.mem_append_right _ (.head _)⟩)

/-- **A request marks what it does to a lease**: a lease that is used, moved or created is marked for
an upsert, and one that goes for deletion. -/
theorem honest_route : (inner o (routeSticky plat sight o nowNs)).Honest plat.id := by
  refine honest_inner fun s => ?_
  cases hload : s.leases.load o with
  | none => exact tells_createOrAbort hload.symm (.inl rfl)
  | some current =>
    unfold decideStickyLease
    by_cases hexpired : current.isExpired nowNs = true
    · simp only [if_pos hexpired]
      exact tells_createOrAbort hload.symm (.inr nofun)
    simp only [if_neg hexpired]
    unfold tryLeaseHit
    by_cases hhit : sight.entry current.nodeHash = some current.egressIP ∧
        sight.view current.nodeHash = true
    · simp only [if_pos hhit]
      exact .inr (.inr (.head _))
    · simp only [if_neg hhit, bind_eq, pure_eq_ret, Prog.ret_bind]
      unfold tryLeaseSameIPRotation
      cases sight.chooseSameIPRotationCandidate current.egressIP with
      | some best => exact .inr (.inr (.head _))
      | none => exact tells_createOrAbort hload.symm (.inr nofun)

end LeaseSection

/-! ## Calls -/

/-- The operations that enter a section.  A call that is turned away, for want of an account or of a
row that parses, enters none. -/
inductive LeaseCall where
  | routeRequest (plat : RoutingSettings) (sight : RouteSight) (o : LeaseOwner) (nowNs : ℤ)
  | upsertLease (platformID : String) (o : LeaseOwner) (lease : Lease)
  | deleteLease (platformID : String) (o : LeaseOwner)
  | rotateLease (plat : RoutingSettings) (o : LeaseOwner) (nowNs : ℤ)
  /-- one of the leases that the iteration comes to -/
  | deleteAllLeases (platformID : String) (o : LeaseOwner)
  | sweepPlatformState (platformID : String) (o : LeaseOwner) (nowNs : ℤ)

namespace LeaseCall

def platformID : LeaseCall → String
  | .routeRequest plat _ _ _ => plat.id
  | .upsertLease platformID _ _ => platformID
  | .deleteLease platformID _ => platformID
  | .rotateLease plat _ _ => plat.id
  | .deleteAllLeases platformID _ => platformID
  | .sweepPlatformState platformID _ _ => platformID

def leaseSection : LeaseCall → LeaseSection
  | .routeRequest plat sight o nowNs => .inner o (RoutingTask.routeSticky plat sight o nowNs)
  | .upsertLease platformID o lease => .put platformID o lease
  | .deleteLease platformID o => .remove platformID o o fun _ => pure ()
  | .rotateLease plat o nowNs => .remove plat.id o o fun removed =>
      RoutingTask.recordRotationTombstone plat.id o removed.egressIP nowNs
        (rotationTombstoneTTL plat.scheduledRotationIntervalNs plat.stickyTTLNs)
  | .deleteAllLeases platformID o => .bulk platformID o
  | .sweepPlatformState platformID o nowNs => .inner o (RoutingTask.expireLease platformID o nowNs)

theorem honest (call : LeaseCall) : call.leaseSection.Honest call.platformID := by
  cases call with
  | routeRequest plat sight o nowNs => exact LeaseSection.honest_route
  | upsertLease platformID o lease => exact LeaseSection.honest_put lease
  | deleteLease | rotateLease | deleteAllLeases => exact LeaseSection.honest_remove _
  | sweepPlatformState platformID o nowNs => exact LeaseSection.honest_expire

end LeaseCall

/-! ## The store -/

/-- A platform and the name of one of the routing states it has had. -/
abbrev LeaseSlot := String × ℕ

/-- A section that is open: the marks that are still to be made in it, the lease it is going to leave,
and the marks that are made after it. -/
structure OpenSection where
  early : List LeaseMark
  value : Option Lease
  late : List LeaseMark

structure LeaseStore where
  states : LeaseSlot → PlatformRoutingState
  /-- the state that the router has for the platform -/
  live : String → Option ℕ
  sections : AList fun _ : LeaseSlot × LeaseOwner => OpenSection := ∅
  /-- the marks that calls are still to make after their sections -/
  late : List LeaseMark := []
  /-- the purges under way, with the owners that they are still to come to -/
  purges : List (LeaseSlot × List LeaseOwner) := []
  leases : DirtyTable LeaseKey Lease

inductive LeaseStep where
  /-- `n` is the name of the state, if one is made -/
  | ensurePlatformState (platformID : String) (n : ℕ)
  /-- a call enters its section on a state of the platform that it has loaded -/
  | enter (n : ℕ) (call : LeaseCall)
  | purgePlatformState (platformID : String) (visited : List LeaseOwner)
  /-- a purge enters the section of the next lease -/
  | purgeNext (i : ℕ)
  /-- the next event inside a section -/
  | emit (slot : LeaseSlot) (o : LeaseOwner)
  | leave (slot : LeaseSlot) (o : LeaseOwner)
  /-- an event after a section -/
  | emitLate (mark : LeaseMark)
  | drain
  | classify (key : LeaseKey)
  | commit
  | fail
  | merge

namespace LeaseStore

def boot (tables : String → Option LeaseTable) : LeaseStore where
  states slot := if slot.2 = 0 then { leases := (tables slot.1).getD [] } else {}
  live platformID := (tables platformID).map fun _ => 0
  leases := { rows := fun key => ((tables key.platformID).getD []).load key.owner }

def load (s : LeaseStore) (slot : LeaseSlot) (o : LeaseOwner) : Option Lease :=
  (s.states slot).leases.load o

variable (s : LeaseStore) (key : LeaseKey)

def readLease : Option Lease :=
  (s.live key.platformID).bind fun n => s.load (key.platformID, n) key.owner

variable (slot : LeaseSlot)

def Idle : Prop :=
  ∀ x ∈ s.sections.entries, x.1.1 ≠ slot
  deriving Decidable

/-- `NewPlatformRoutingState`. -/
def create : LeaseStore :=
  { s with
    states := update s.states slot {}
    live := update s.live slot.1 (some slot.2) }

/-- `LoadAndDelete`.  The iteration comes to every lease there is, and perhaps to others. -/
def detach (p : String) (n : ℕ) (visited : List LeaseOwner) : LeaseStore :=
  { s with
    live := update s.live p none
    purges := s.purges ++ [((p, n), visited ++ (s.states (p, n)).leases.map Prod.fst)] }

/-- The owner is locked, and the program of the section runs up to its answer. -/
def enter (sec : LeaseSection) : LeaseStore :=
  { s with
    states := update s.states slot
      { (sec.task.exec (s.states slot)).2 with leases := (s.states slot).leases }
    sections := s.sections.insert (slot, sec.owner)
      ⟨sec.early (s.states slot), sec.value (s.states slot), sec.late (s.states slot)⟩ }

def leave (o : LeaseOwner) (value : Option Lease) (late : List LeaseMark) : LeaseStore :=
  { s with
    states := update s.states slot
      { s.states slot with
        leases := (s.states slot).leases.commit o (value.elim .delete .update) }
    sections := s.sections.erase (slot, o)
    late := s.late ++ late }

def mark (s : LeaseStore) (m : LeaseMark) : LeaseStore :=
  { s with leases := s.leases.mark m.1 m.2 }

def step : LeaseStep → LeaseStore
  | .ensurePlatformState platformID n =>
    -- the name is one that nobody uses
    if s.live platformID = none ∧ s.Idle (platformID, n) ∧
        ∀ pg ∈ s.purges, pg.1 ≠ (platformID, n) then
      s.create (platformID, n)
    else s
  | .enter n call =>
    if ((call.platformID, n), call.leaseSection.owner) ∈ s.sections then s
    else s.enter (call.platformID, n) call.leaseSection
  | .purgePlatformState platformID visited =>
    match s.live platformID with
    | none => s
    | some n => if platformID = "" then s else s.detach platformID n visited
  | .purgeNext i =>
    match s.purges[i]? with
    | some (slot, o :: todo) =>
      if (slot, o) ∈ s.sections then s
      else { s.enter slot (.bulk slot.1 o) with purges := s.purges.set i (slot, todo) }
    | _ => s
  | .emit slot o =>
    match s.sections.lookup (slot, o) with
    | some ⟨m :: early, value, late⟩ =>
      { s.mark m with sections := s.sections.insert (slot, o) ⟨early, value, late⟩ }
    | _ => s
  | .leave slot o =>
    match s.sections.lookup (slot, o) with
    | some ⟨[], value, late⟩ => s.leave slot o value late
    | _ => s
  | .emitLate m => if m ∈ s.late then { s.mark m with late := s.late.erase m } else s
  | .drain => { s with leases := s.leases.drain }
  | .classify key => { s with leases := s.leases.classify s.readLease key }
  | .commit => { s with leases := s.leases.commit }
  | .fail => { s with leases := s.leases.fail }
  | .merge => { s with leases := s.leases.merge }

def Finished : Prop :=
  s.sections.entries = [] ∧ s.late = [] ∧ (∀ pg ∈ s.purges, pg.2 = []) ∧ s.leases.stage = .idle

def flushed : LeaseKey → Option Lease :=
  (s.leases.flushDirtySets s.readLease true).rows

/-- The lease that a state has, or is going to have when the section that is open leaves. -/
def due (o : LeaseOwner) : Option Lease :=
  match s.sections.lookup (slot, o) with
  | some x => x.value
  | none => s.load slot o

def target : Option Lease :=
  (s.live key.platformID).bind fun n => s.due (key.platformID, n) key.owner

def Owes (m : LeaseMark) : Prop :=
  m ∈ s.late ∨ ∃ x ∈ s.sections.entries, m ∈ x.2.early ++ x.2.late
  deriving Decidable

/-- A deletion is marked while there is no lease and there is not going to be one, or before a mark
for an upsert. -/
def MayMark (m : LeaseMark) : Prop :=
  m.2 = .delete → s.target m.1 = none ∨ s.Owes (m.1, .upsert)
  deriving Decidable

/-- **Nothing comes between.**  A deletion is not announced over a newer lease.  The flusher reads no
lease that an open section is about to change.  A bulk removal comes to leases without a user only,
and a purge finds no section open. -/
def Calm : LeaseStep → Prop
  | .enter n call =>
    s.load (call.platformID, n) call.leaseSection.owner = none ∨
      call.leaseSection.named = call.leaseSection.owner
  | .purgePlatformState platformID _ => ∀ n ∈ s.live platformID,
    s.Idle (platformID, n) ∧ ∀ row ∈ (s.states (platformID, n)).leases, row.1.userID = ""
  | .emit slot o => ∀ x ∈ s.sections.lookup (slot, o), ∀ m ∈ x.early.head?, s.MayMark m
  | .emitLate m => s.MayMark m
  | .classify key => s.target key = s.readLease key ∨ s.Owes (key, .upsert)
  | _ => True

instance (s : LeaseStore) (a : LeaseStep) : Decidable (s.Calm a) := by
  cases a <;> unfold Calm <;> infer_instance

/-! ## What is kept -/

/-- A purge is going to remove the lease from the state it has detached. -/
def Doomed : Prop :=
  ∃ pg ∈ s.purges, pg.1.1 = key.platformID ∧ key.owner ∈ pg.2 ∧ key.owner.userID = "" ∧
    (s.due pg.1 key.owner).isSome

/-- **The marks of the key lead to the lease that is going to be there**, or a mark that is still to
be made does. -/
def Bound : Prop :=
  s.Owes (key, .upsert) ∨ s.leases.Agrees key (s.target key) ∨
    (s.target key = none ∧ (s.Owes (key, .delete) ∨ s.Doomed key))

/-- A state that was detached does not come back. -/
def Detached : Prop :=
  ∀ pg ∈ s.purges, s.live pg.1.1 ≠ some pg.1.2

variable {s s' : LeaseStore} {key : LeaseKey} {slot : LeaseSlot} {o : LeaseOwner}
  {sec : LeaseSection} {m : LeaseMark}

theorem Bound.mono (h : s.Bound key) (htable : s'.leases = s.leases)
    (htarget : s'.target key = s.target key) (howes : ∀ op, s.Owes (key, op) → s'.Owes (key, op))
    (hdoomed : s.Doomed key → s'.Owes (key, .upsert) ∨ s'.Owes (key, .delete) ∨ s'.Doomed key) :
    s'.Bound key := by
  unfold Bound
  rw [htable, htarget]
  rcases h with hup | hagrees | ⟨hnone, hdel | hd⟩
  · exact .inl (howes _ hup)
  · exact .inr (.inl hagrees)
  · exact .inr (.inr ⟨hnone, .inl (howes _ hdel)⟩)
  · rcases hdoomed hd with hup | hrest
    · exact .inl hup
    · exact .inr (.inr ⟨hnone, hrest⟩)

theorem owes_iff : s.Owes m ↔
    m ∈ s.late ∨ ∃ place x, s.sections.lookup place = some x ∧ m ∈ x.early ++ x.late := by
  refine or_congr_right ⟨fun ⟨x, hx, hm⟩ => ⟨x.1, x.2, AList.mem_lookup_iff.mpr hx, hm⟩, ?_⟩
  rintro ⟨place, x, hx, hm⟩
  exact ⟨⟨place, x⟩, AList.mem_lookup_iff.mp hx, hm⟩

theorem Owes.mono (h : s.Owes m) (hlate : m ∈ s.late → s'.Owes m)
    (hsections : ∀ place x, s.sections.lookup place = some x → m ∈ x.early ++ x.late → s'.Owes m) :
    s'.Owes m := by
  rcases owes_iff.mp h with hm | ⟨place, x, hx, hm⟩
  · exact hlate hm
  · exact hsections place x hx hm

/-! ### Entering a section -/

theorem load_enter (slot' : LeaseSlot) (o : LeaseOwner) :
    (s.enter slot sec).load slot' o = s.load slot' o := by
  show (update s.states slot _ slot').leases.load o = _
  by_cases h : slot' = slot
  · rw [h, update_self]
    rfl
  · rw [update_of_ne h]
    rfl

theorem due_enter_self : (s.enter slot sec).due slot sec.owner = sec.value (s.states slot) := by
  unfold due enter
  simp only [AList.lookup_insert]

theorem due_enter_of_ne {slot' : LeaseSlot} (h : (slot', o) ≠ (slot, sec.owner)) :
    (s.enter slot sec).due slot' o = s.due slot' o := by
  unfold due
  rw [load_enter]
  unfold enter
  simp only [AList.lookup_insert_ne h]

theorem Owes.enter (h : s.Owes m) (hnew : (slot, sec.owner) ∉ s.sections) :
    (s.enter slot sec).Owes m := by
  refine h.mono .inl fun place x hx hm => owes_iff.mpr (.inr ⟨place, x, ?_, hm⟩)
  have hne : place ≠ (slot, sec.owner) := by
    rintro rfl
    exact hnew (AList.lookup_isSome.mp (by rw [hx]; rfl))
  exact (AList.lookup_insert_ne hne).trans hx

theorem owes_enter (hm : m ∈ sec.early (s.states slot) ++ sec.late (s.states slot)) :
    (s.enter slot sec).Owes m :=
  owes_iff.mpr (.inr ⟨(slot, sec.owner), _, AList.lookup_insert _, hm⟩)

theorem due_of_not_mem (h : (slot, o) ∉ s.sections) : s.due slot o = s.load slot o := by
  unfold due
  rw [AList.lookup_eq_none.mpr h]

theorem target_congr (hlive : s'.live key.platformID = s.live key.platformID)
    (hdue : ∀ n, s.live key.platformID = some n →
      s'.due (key.platformID, n) key.owner = s.due (key.platformID, n) key.owner) :
    s'.target key = s.target key := by
  unfold target
  rw [hlive]
  cases h : s.live key.platformID with
  | none => rfl
  | some n => exact hdue n h

theorem Doomed.of_due (h : s.Doomed key) (hpurges : s'.purges = s.purges)
    (hdue : key.owner.userID = "" → ∀ slot : LeaseSlot, slot.1 = key.platformID →
      s'.due slot key.owner = s.due slot key.owner) : s'.Doomed key := by
  obtain ⟨pg, hpg, hp, hmem, huser, hsome⟩ := h
  exact ⟨pg, hpurges ▸ hpg, hp, hmem, huser, by rwa [hdue huser _ hp]⟩

/-- **Entering a section.**  Its marks tell what it is going to do to the lease. -/
theorem Bound.enter (h : s.Bound key) (hnew : (slot, sec.owner) ∉ s.sections)
    (htells : key = ⟨slot.1, sec.owner⟩ →
      s.live slot.1 = some slot.2 ∨ key.owner.userID = "" → sec.Tells (s.states slot) slot.1) :
    (s.enter slot sec).Bound key := by
  have howes : ∀ op, s.Owes (key, op) → (s.enter slot sec).Owes (key, op) :=
    fun op hop => hop.enter hnew
  have hcongr : (∀ slot', slot'.1 = key.platformID → (s.live key.platformID = some slot'.2 ∨
      key.owner.userID = "") → (s.enter slot sec).due slot' key.owner = s.due slot' key.owner) →
      (s.enter slot sec).Bound key := by
    intro hdue
    exact h.mono rfl (target_congr rfl fun n hn => hdue _ rfl (.inl hn)) howes fun hd =>
      .inr (.inr (hd.of_due rfl fun huser slot' hp => hdue slot' hp (.inr huser)))
  by_cases hkey : key = ⟨slot.1, sec.owner⟩
  swap
  · -- away from the section nothing changes
    refine hcongr fun slot' hp _ => due_enter_of_ne fun heq => hkey ?_
    obtain ⟨rfl, ho⟩ := Prod.mk.inj heq
    exact (LeaseKey.mk.injEq ..).mpr ⟨hp.symm, ho⟩
  subst hkey
  have hother : ∀ slot', slot' ≠ slot →
      (s.enter slot sec).due slot' sec.owner = s.due slot' sec.owner :=
    fun slot' hne => due_enter_of_ne fun heq => hne (Prod.mk.inj heq).1
  by_cases hreach : s.live slot.1 = some slot.2 ∨ sec.owner.userID = ""
  swap
  · refine hcongr fun slot' hp hr => hother slot' ?_
    rintro rfl
    exact hreach hr
  rcases htells rfl hreach with hkept | ⟨hnone, hdel⟩ | hup
  · refine hcongr fun slot' hp _ => ?_
    by_cases hslot : slot' = slot
    · rw [hslot, due_enter_self, hkept, due_of_not_mem hnew]
      rfl
    · exact hother slot' hslot
  · have howed := owes_enter hdel
    by_cases hlive : s.live slot.1 = some slot.2
    · refine .inr (.inr ⟨?_, .inl howed⟩)
      show (s.live slot.1).bind _ = none
      rw [hlive]
      exact due_enter_self.trans hnone
    · refine h.mono rfl (target_congr rfl fun n hn => hother _ fun heq => hlive ?_) howes
        fun _ => .inr (.inl howed)
      exact hn.trans (congrArg (fun x : LeaseSlot => some x.2) heq)
  · exact .inl (owes_enter hup)

/-! ### Leaving a section -/

theorem due_leave {late value} (hopen : s.sections.lookup (slot, o) = some ⟨[], value, late⟩)
    (slot' : LeaseSlot) (o' : LeaseOwner) :
    (s.leave slot o value late).due slot' o' = s.due slot' o' := by
  by_cases hplace : (slot', o') = (slot, o)
  · obtain ⟨rfl, rfl⟩ := Prod.mk.inj hplace
    have hgone : (slot', o') ∉ s.sections.erase (slot', o') := by simp
    have hload : (s.leave slot' o' value late).load slot' o' = value := by
      show (update s.states slot' _ slot').leases.load o' = _
      rw [update_self]
      refine (LeaseTable.load_commit_self _).trans ?_
      cases value <;> rfl
    rw [due_of_not_mem hgone, hload]
    unfold due
    rw [hopen]
  · have hload : (s.leave slot o value late).load slot' o' = s.load slot' o' := by
      show (update s.states slot _ slot').leases.load o' = _
      by_cases hslot : slot' = slot
      · rw [hslot, update_self]
        exact LeaseTable.load_commit_of_ne (fun ho => hplace (by rw [hslot, ho])) _
      · rw [update_of_ne hslot]
        rfl
    unfold due
    rw [hload]
    show (match (s.sections.erase (slot, o)).lookup (slot', o') with
      | some x => x.value | none => _) = _
    rw [AList.lookup_erase_ne hplace]

theorem Bound.leave (h : s.Bound key) {late value}
    (hopen : s.sections.lookup (slot, o) = some ⟨[], value, late⟩) :
    (s.leave slot o value late).Bound key := by
  refine h.mono rfl (target_congr rfl fun n _ => due_leave hopen _ _) (fun op hop => ?_)
    fun hd => .inr (.inr (hd.of_due rfl fun _ _ _ => due_leave hopen _ _))
  refine hop.mono (fun hm => .inl (List.mem_append_left _ hm)) fun place x hx hm => ?_
  by_cases hplace : place = (slot, o)
  · rw [hplace, hopen] at hx
    rw [← Option.some.inj hx] at hm
    exact .inl (List.mem_append_right _ hm)
  · exact owes_iff.mpr (.inr ⟨place, x, (AList.lookup_erase_ne hplace).trans hx, hm⟩)

/-! ### Events and the flusher -/

theorem Bound.mark (h : s.Bound key) (hmay : s.MayMark m) (htable : s'.leases = s.leases.mark m.1 m.2)
    (htarget : s'.target key = s.target key) (hdoomed : s.Doomed key → s'.Doomed key)
    (howes : ∀ m', m' ≠ m → s.Owes m' → s'.Owes m') : s'.Bound key := by
  unfold Bound
  rw [htable, htarget]
  by_cases hkey : key = m.1
  · subst hkey
    by_cases hop : m.2 = .upsert
    · exact .inr (.inl (DirtyTable.agrees_mark_self (.inl hop)))
    · have hdel : m.2 = .delete := by
        cases hm : m.2 <;> simp_all
      rcases hmay hdel with hnone | hup
      · exact .inr (.inl (DirtyTable.agrees_mark_self (.inr hnone)))
      · exact .inl (howes _ (fun heq => hop (congrArg Prod.snd heq).symm) hup)
  · have hne : ∀ op, (key, op) ≠ m := fun op heq => hkey (congrArg Prod.fst heq)
    rcases h with hup | hagrees | ⟨hnone, hdel | hd⟩
    · exact .inl (howes _ (hne _) hup)
    · exact .inr (.inl ((DirtyTable.agrees_mark_of_ne hkey _).mpr hagrees))
    · exact .inr (.inr ⟨hnone, .inl (howes _ (hne _) hdel)⟩)
    · exact .inr (.inr ⟨hnone, .inr (hdoomed hd)⟩)

theorem Bound.emit (h : s.Bound key) {early value late}
    (hopen : s.sections.lookup (slot, o) = some ⟨m :: early, value, late⟩) (hmay : s.MayMark m) :
    Bound { s.mark m with sections := s.sections.insert (slot, o) ⟨early, value, late⟩ } key := by
  have hdue : ∀ slot' o', due { s.mark m with
      sections := s.sections.insert (slot, o) ⟨early, value, late⟩ } slot' o' = s.due slot' o' := by
    intro slot' o'
    unfold due
    by_cases hplace : (slot', o') = (slot, o)
    · rw [hplace, hopen]
      simp only [AList.lookup_insert]
    · simp only [AList.lookup_insert_ne hplace]
      rfl
  refine h.mark hmay rfl (target_congr rfl fun n _ => hdue _ _)
    (fun hd => hd.of_due rfl fun _ _ _ => hdue _ _)
    fun m' hne hm' => hm'.mono .inl fun place x hx hin => ?_
  by_cases hplace : place = (slot, o)
  · rw [hplace, hopen] at hx
    rw [← Option.some.inj hx] at hin
    refine owes_iff.mpr (.inr ⟨(slot, o), _, AList.lookup_insert _, ?_⟩)
    exact (List.mem_cons.mp hin).resolve_left hne
  · exact owes_iff.mpr (.inr ⟨place, x, (AList.lookup_insert_ne hplace).trans hx, hin⟩)

theorem Bound.flush (h : s.Bound key) {table : DirtyTable LeaseKey Lease}
    (htable : s.leases.Agrees key (s.target key) →
      s.Owes (key, .upsert) ∨ table.Agrees key (s.target key)) :
    Bound { s with leases := table } key := by
  rcases h with hup | hagrees | hrest
  · exact .inl hup
  · rcases htable hagrees with hup | hagrees
    · exact .inl hup
    · exact .inr (.inl hagrees)
  · exact .inr (.inr hrest)

/-! ### States of a platform -/

theorem due_of_idle (h : s.Idle slot) (o : LeaseOwner) : s.due slot o = s.load slot o := by
  refine due_of_not_mem fun hmem => ?_
  obtain ⟨x, hx⟩ := Option.isSome_iff_exists.mp (AList.lookup_isSome.mpr hmem)
  exact h _ (AList.mem_lookup_iff.mp hx) rfl

theorem due_create_of_ne {slot' : LeaseSlot} (h : slot' ≠ slot) (o : LeaseOwner) :
    (s.create slot).due slot' o = s.due slot' o := by
  have hload : (s.create slot).load slot' o = s.load slot' o :=
    congrArg (fun st : PlatformRoutingState => st.leases.load o) (update_of_ne h _ _)
  unfold due
  rw [hload]
  rfl

theorem Bound.create (h : s.Bound key) (hlive : s.live slot.1 = none) (hidle : s.Idle slot)
    (hpurges : ∀ pg ∈ s.purges, pg.1 ≠ slot) : (s.create slot).Bound key := by
  refine h.mono rfl ?_ (fun op hop => hop) fun ⟨pg, hpg, hp, hmem, huser, hsome⟩ => ?_
  · by_cases hp : key.platformID = slot.1
    · have hempty : (s.create slot).due slot key.owner = none := by
        have hidle' : (s.create slot).Idle slot := hidle
        rw [due_of_idle hidle']
        show (update s.states slot {} slot).leases.load key.owner = none
        rw [update_self]
        rfl
      have hnow : (s.create slot).live slot.1 = some slot.2 := update_self ..
      unfold target
      rw [hp, hlive, hnow]
      exact hempty
    · exact target_congr (update_of_ne hp _ _) fun n _ =>
        due_create_of_ne (fun heq => hp (congrArg Prod.fst heq)) _
  · refine .inr (.inr ⟨pg, hpg, hp, hmem, huser, ?_⟩)
    rwa [due_create_of_ne (hpurges pg hpg)]

/-- **A purge** leaves no lease in memory, and comes to every one that there was. -/
theorem Bound.detach (h : s.Bound key) {p : String} {n : ℕ} (hlive : s.live p = some n)
    (hidle : s.Idle (p, n))
    (husers : ∀ row ∈ (s.states (p, n)).leases, row.1.userID = "") (visited : List LeaseOwner) :
    (s.detach p n visited).Bound key := by
  have hdoomed : s.Doomed key → (s.detach p n visited).Doomed key :=
    fun ⟨pg, hpg, hrest⟩ => ⟨pg, List.mem_append_left _ hpg, hrest⟩
  by_cases hp : key.platformID = p
  swap
  · exact h.mono rfl (target_congr (update_of_ne hp _ _) fun _ _ => rfl) (fun _ hop => hop)
      fun hd => .inr (.inr (hdoomed hd))
  have hnow : (s.detach p n visited).live p = none := update_self ..
  have hnone : (s.detach p n visited).target key = none := by
    unfold target
    rw [hp, hnow]
    rfl
  have hdue := due_of_idle hidle key.owner
  cases hload : s.load (p, n) key.owner with
  | none =>
    refine h.mono rfl ?_ (fun _ hop => hop) fun hd => .inr (.inr (hdoomed hd))
    rw [hnone]
    unfold target
    rw [hp, hlive]
    exact (hdue.trans hload).symm
  | some lease =>
    obtain ⟨row, hrow, -⟩ := Option.map_eq_some_iff.mp hload
    have howner : row.1 = key.owner := Table.key_of_lookup hrow
    have hmem := Table.mem_of_lookup hrow
    refine .inr (.inr ⟨hnone, .inr ⟨_, List.mem_append_right _ (List.mem_singleton_self _),
      hp.symm, List.mem_append_right _ (List.mem_map.mpr ⟨row, hmem, howner⟩),
      howner ▸ husers row hmem, ?_⟩⟩)
    show (s.due (p, n) key.owner).isSome
    rw [hdue, hload]
    rfl

theorem Bound.purgeNext (h : s.Bound key) (hs : s.Detached) {i : ℕ} {todo : List LeaseOwner}
    (hi : s.purges[i]? = some (slot, o :: todo)) (hnew : (slot, o) ∉ s.sections) :
    Bound { s.enter slot (.bulk slot.1 o) with purges := s.purges.set i (slot, todo) } key := by
  have hentered : (s.enter slot (.bulk slot.1 o)).Bound key := by
    refine h.enter hnew fun hkey hreach => ?_
    have huser := hreach.resolve_left (hs _ (List.mem_of_getElem? hi))
    refine LeaseSection.honest_remove _ _ (.inr ?_)
    rw [hkey] at huser
    exact (LeaseOwner.mk.injEq ..).mpr ⟨huser.symm, rfl⟩
  refine hentered.mono rfl rfl (fun _ hop => hop) fun ⟨pg, hmem, hp, howner, huser, hsome⟩ =>
    .inr (.inr ?_)
  obtain ⟨j, hj⟩ := List.mem_iff_getElem?.mp hmem
  by_cases hji : j = i
  · subst hji
    obtain rfl : (slot, o :: todo) = pg := Option.some.inj (hi.symm.trans hj)
    refine ⟨(slot, todo), List.mem_set (List.getElem?_eq_some_iff.mp hi).1 _, hp, ?_, huser, hsome⟩
    refine (List.mem_cons.mp howner).resolve_left fun heq => ?_
    have hgone : (s.enter slot (.bulk slot.1 o)).due slot o = none :=
      due_enter_self.trans (LeaseSection.value_remove _)
    rw [heq, hgone] at hsome
    cases hsome
  · exact ⟨pg, List.mem_of_getElem? ((List.getElem?_set_ne (Ne.symm hji)).trans hj), hp, howner,
      huser, hsome⟩

theorem Detached.step (h : s.Detached) (a : LeaseStep) : (s.step a).Detached := by
  cases a with
  | ensurePlatformState p n =>
    simp only [LeaseStore.step]
    split
    next hfree =>
      intro pg hpg
      show update s.live p (some n) pg.1.1 ≠ some pg.1.2
      by_cases hp : pg.1.1 = p
      · rw [hp, update_self]
        exact fun heq => hfree.2.2 pg hpg (Prod.ext hp (Option.some.inj heq).symm)
      · rw [update_of_ne hp]
        exact h pg hpg
    · exact h
  | purgePlatformState p visited =>
    simp only [LeaseStore.step]
    split
    · exact h
    next n hlive =>
      split
      · exact h
      intro pg hpg
      show update s.live p none pg.1.1 ≠ some pg.1.2
      by_cases hp : pg.1.1 = p
      · rw [hp, update_self]
        nofun
      · rw [update_of_ne hp]
        refine h pg ((List.mem_append.mp hpg).resolve_right fun hnew => hp ?_)
        rw [List.mem_singleton.mp hnew]
  | purgeNext i =>
    simp only [LeaseStore.step]
    split
    next slot o todo hi =>
      split
      · exact h
      · intro pg hpg
        rcases List.mem_or_eq_of_mem_set hpg with hpg | rfl
        · exact h pg hpg
        · exact h (slot, o :: todo) (List.mem_of_getElem? hi)
    · exact h
  | enter | emit | leave | emitLate =>
    simp only [LeaseStore.step]
    split <;> exact h
  | drain | classify | commit | fail | merge => exact h

theorem Bound.step (h : s.Bound key) (hs : s.Detached) {a : LeaseStep} (hcalm : s.Calm a) :
    (s.step a).Bound key := by
  cases a with
  | ensurePlatformState p n =>
    simp only [LeaseStore.step]
    split
    next hfree => exact h.create hfree.1 hfree.2.1 hfree.2.2
    · exact h
  | enter n call =>
    simp only [LeaseStore.step]
    split
    · exact h
    next hnew => exact h.enter hnew fun _ _ => call.honest _ hcalm
  | purgePlatformState p visited =>
    simp only [LeaseStore.step]
    split
    · exact h
    next n hlive =>
      split
      · exact h
      · obtain ⟨hidle, husers⟩ := hcalm n hlive
        exact h.detach hlive hidle husers visited
  | purgeNext i =>
    simp only [LeaseStore.step]
    split
    next slot o todo hi =>
      split
      · exact h
      next hnew => exact h.purgeNext hs hi hnew
    · exact h
  | emit slot o =>
    simp only [LeaseStore.step]
    split
    next m early value late hopen => exact h.emit hopen (hcalm _ hopen m rfl)
    · exact h
  | leave slot o =>
    simp only [LeaseStore.step]
    split
    next value late hopen => exact h.leave hopen
    · exact h
  | emitLate m =>
    simp only [LeaseStore.step]
    split
    next hm =>
      refine h.mark hcalm rfl rfl (fun hd => hd) fun m' hne hm' => hm'.mono (fun hin => .inl ?_)
        fun place x hx hin => owes_iff.mpr (.inr ⟨place, x, hx, hin⟩)
      exact (List.mem_erase_of_ne hne).mpr hin
    · exact h
  | drain => exact h.flush fun hagrees => .inr hagrees.drain
  | classify looked =>
    refine h.flush fun hagrees => ?_
    by_cases hkey : looked = key
    · subst hkey
      rcases hcalm with hread | hup
      · exact .inr (hagrees.classify fun _ => hread.symm)
      · exact .inl hup
    · exact .inr (hagrees.classify fun heq => absurd heq hkey)
  | commit => exact h.flush fun hagrees => .inr hagrees.commit
  | fail => exact h.flush fun hagrees => .inr hagrees.fail
  | merge => exact h.flush fun hagrees => .inr hagrees.merge

theorem bound_boot (tables : String → Option LeaseTable) (key : LeaseKey) :
    (boot tables).Bound key := by
  refine .inr (.inl ?_)
  show ((tables key.platformID).getD []).load key.owner = ((tables key.platformID).map _).bind _
  cases htable : tables key.platformID with
  | none => rfl
  | some table =>
    show table.load key.owner = (if (0 : ℕ) = 0 then
      { leases := (tables key.platformID).getD [] } else {} : PlatformRoutingState).leases.load _
    rw [htable]
    rfl

theorem Bound.agrees (h : s.Bound key) (hdone : s.Finished) :
    s.leases.Agrees key (s.readLease key) := by
  obtain ⟨hsections, hlate, hpurges, -⟩ := hdone
  have howes : ∀ m, ¬ s.Owes m := by
    rintro m (hm | ⟨x, hx, -⟩)
    · rw [hlate] at hm
      cases hm
    · rw [hsections] at hx
      cases hx
  have hread : s.target key = s.readLease key := by
    refine congrArg _ (funext fun n => due_of_idle (fun x hx => ?_) _)
    rw [hsections] at hx
    cases hx
  rcases h with hup | hagrees | ⟨-, hdel | ⟨pg, hpg, -, hmem, -⟩⟩
  · exact absurd hup (howes _)
  · rwa [← hread]
  · exact absurd hdel (howes _)
  · rw [hpurges pg hpg] at hmem
    cases hmem

end LeaseStore

open LeaseStore

/-- **After a quiet flush the stored leases are the live leases**, in every run in which nothing comes
between a lease and its marks. -/
theorem stored_leases_are_live (tables : String → Option LeaseTable) (steps : List LeaseStep)
    (hcalm : Along LeaseStore.step LeaseStore.Calm (.boot tables) steps)
    (hdone : (run LeaseStore.step (.boot tables) steps).Finished) (key : LeaseKey) :
    (run LeaseStore.step (.boot tables) steps).flushed key =
      (run LeaseStore.step (.boot tables) steps).readLease key := by
  have hkept : (run step (.boot tables) steps).Detached ∧
      ∀ key, (run step (.boot tables) steps).Bound key :=
    Along.invariant (I := fun s : LeaseStore => s.Detached ∧ ∀ key, s.Bound key)
      (fun s a ha hs => ⟨hs.1.step a, fun key => (hs.2 key).step hs.1 ha⟩) hcalm
      ⟨nofun, bound_boot tables⟩
  exact DirtyTable.rows_flushDirtySets hdone.2.2.2 (fun key => (hkept.2 key).agrees hdone) key

/-- A request creates a lease, and the flusher drains between its event and the end of its section. -/
def drainedInside : List LeaseStep :=
  let owner : LeaseOwner := ⟨"user", "account"⟩
  let sight : RouteSight :=
    ⟨fun _ => none, fun _ => false, fun _ => none, fun _ _ => .ok (7, some "192.0.2.1", false)⟩
  [.ensurePlatformState "p" 0, .enter 0 (.routeRequest ⟨"p", 60, 0, false⟩ sight owner 0),
    .emit ("p", 0) owner, .drain, .leave ("p", 0) owner, .classify ⟨"p", owner⟩, .commit]

theorem stored_leases_are_live_drained :
    (run LeaseStore.step (.boot fun _ => none) drainedInside).flushed ⟨"p", "user", "account"⟩ =
      some ⟨7, some "192.0.2.1", 0, 60, 0⟩ :=
  (stored_leases_are_live (fun _ => none) drainedInside (by decide +kernel)
    ⟨rfl, rfl, by decide +kernel, rfl⟩ ⟨"p", "user", "account"⟩).trans rfl

/-- The lease of a user is removed with all the others of the platform.  The event has no user, so
another key is marked, and the row stays. -/
theorem bulk_removal_leaves_row :
    let owner : LeaseOwner := ⟨"user", "account"⟩
    let lease : Lease := ⟨7, some "192.0.2.1", 0, 60, 0⟩
    let s := run LeaseStore.step (.boot fun p => if p = "p" then some [(owner, lease)] else none)
      [.enter 0 (.deleteAllLeases "p" owner), .leave ("p", 0) owner,
        .emitLate (⟨"p", "", "account"⟩, .delete)]
    s.Finished ∧ s.readLease ⟨"p", owner⟩ = none ∧ s.flushed ⟨"p", owner⟩ = some lease :=
  ⟨⟨rfl, rfl, by decide +kernel, rfl⟩, rfl, rfl⟩

end Prism
