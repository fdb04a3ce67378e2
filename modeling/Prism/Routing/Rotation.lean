import Prism.Routing.Pick

/-!
# Rotation changes the address

A rotation takes the lease of an owner away and leaves a tombstone with the address of the lease;
for as long as the tombstone lasts, the next lease of the owner avoids that address.  The tombstone
is written inside the section that removes the lease, and a new lease is drawn inside the section
that puts it into the table, so no request finds the one change without the other.

Sections of one owner exclude each other.  The operations of an owner are therefore run here one
after the other, in any order, each at a time of its own.  A tombstone has expired once some request
comes at or after its end: the request drops it.
-/

namespace Prism

open Prog (bind_eq exec_bind exec_read exec_ret pure_eq_ret)

/-! ## Sections alone -/

section Exec

open RoutingTask

variable {α : Type} (plat : RoutingSettings) (sight : RouteSight) (o : LeaseOwner) (nowNs : ℤ)
  (s : PlatformRoutingState)

theorem exec_compute (section_ : Option Lease → RoutingTask (ComputeOp × α)) :
    (compute o section_).exec s = (((section_ (s.leases.load o)).exec s).1.2,
        { ((section_ (s.leases.load o)).exec s).2 with
          leases := ((section_ (s.leases.load o)).exec s).2.leases.commit o
            ((section_ (s.leases.load o)).exec s).1.1 }) := by
  unfold compute
  rw [Prog.exec_locked]
  simp only [bind_eq, exec_bind, exec_read, Prog.exec_modify, pure_eq_ret, exec_ret]

theorem exec_cleanupPreviousLease (platformID : String) (previous : Option Lease)
    (invalidation : LeaseInvalidation) :
    ∃ stats, ((cleanupPreviousLease platformID o previous invalidation).exec s).2 =
      { s with ipLoadStats := stats } := by
  cases previous with
  | none => exact ⟨s.ipLoadStats, rfl⟩
  | some lease =>
    cases invalidation with
    | none | expire | remove => exact ⟨_, rfl⟩

theorem exec_createLease (haccount : o.account ≠ "") (havoid : plat.rotationAvoidPreviousIP = true) :
    (createLease plat sight o nowNs).exec s = ((sight.selectLiveRandomRoute s.ipLoadStats
          (s.rotationTombstones.lookup (rotationTombstoneKey plat.id o) nowNs).1).map
          (leaseFor plat nowNs),
        { s with rotationTombstones :=
          (s.rotationTombstones.lookup (rotationTombstoneKey plat.id o) nowNs).2 }) := by
  have hon : ¬ (o.account = "" ∨ plat.rotationAvoidPreviousIP = false) := by
    simp [haccount, havoid]
  unfold createLease rotationAvoidIP
  rw [if_neg hon]
  rfl

/-- What a section of a request can do: it creates a lease, drawn with the address of the tombstone
avoided, or it creates none; and of the tombstones it changes at most what looking one up
changes. -/
structure Routed (answer : Except RouteError StickyRoute) (after : PlatformRoutingState)
    (lease : Option Lease) : Prop where
  created : ∀ r, answer = .ok r → r.leaseCreated = true →
    ∃ drawn, sight.selectLiveRandomRoute s.ipLoadStats
        (s.rotationTombstones.lookup (rotationTombstoneKey plat.id o) nowNs).1 = .ok drawn ∧
      r = (leaseFor plat nowNs drawn).2 ∧ lease = some (leaseFor plat nowNs drawn).1
  tombstones : after.rotationTombstones = s.rotationTombstones ∨
    after.rotationTombstones =
      (s.rotationTombstones.lookup (rotationTombstoneKey plat.id o) nowNs).2

variable {plat sight o nowNs s}

theorem routed_createOrAbort (haccount : o.account ≠ "")
    (havoid : plat.rotationAvoidPreviousIP = true) (previous : Option Lease)
    (invalidation : LeaseInvalidation) :
    Routed plat sight o nowNs s
      ((createOrAbortStickyLease plat sight o nowNs previous invalidation).exec s).1.2
      ((createOrAbortStickyLease plat sight o nowNs previous invalidation).exec s).2
      (((createOrAbortStickyLease plat sight o nowNs previous invalidation).exec s).1.1.apply
        (((createOrAbortStickyLease plat sight o nowNs previous invalidation).exec
          s).2.leases.load o)) := by
  unfold createOrAbortStickyLease
  simp only [bind_eq, exec_bind, exec_createLease plat sight o nowNs s haccount havoid]
  generalize hsel : sight.selectLiveRandomRoute s.ipLoadStats
    (s.rotationTombstones.lookup (rotationTombstoneKey plat.id o) nowNs).1 = drawn
  generalize hlook : (s.rotationTombstones.lookup (rotationTombstoneKey plat.id o) nowNs).2 = tombs
  obtain ⟨stats, hclean⟩ := exec_cleanupPreviousLease o
    { s with rotationTombstones := tombs } plat.id previous invalidation
  cases drawn with
  | error err =>
    simp only [Except.map, exec_bind, pure_eq_ret, exec_ret, hclean]
    exact ⟨nofun, .inr hlook.symm⟩
  | ok d =>
    simp only [Except.map, exec_bind, pure_eq_ret, exec_ret, RoutingTask.inc,
      emitLeaseEvent, Prog.exec_modify, id_eq, hclean]
    refine ⟨fun r hr _ => ?_, .inr hlook.symm⟩
    cases hr
    exact ⟨d, hsel, rfl, rfl⟩

theorem Routed.of_kept {r : StickyRoute} {after : PlatformRoutingState} {lease : Option Lease}
    (hr : r.leaseCreated = false) (hafter : after.rotationTombstones = s.rotationTombstones) :
    Routed plat sight o nowNs s (.ok r) after lease := by
  refine ⟨fun r' hr' hcreated => ?_, .inl hafter⟩
  obtain rfl : r = r' := Except.ok.inj hr'
  rw [hr] at hcreated
  cases hcreated

theorem routed_decideStickyLease (haccount : o.account ≠ "")
    (havoid : plat.rotationAvoidPreviousIP = true) (current : Option Lease) :
    Routed plat sight o nowNs s ((decideStickyLease plat sight o nowNs current).exec s).1.2
      ((decideStickyLease plat sight o nowNs current).exec s).2
      (((decideStickyLease plat sight o nowNs current).exec s).1.1.apply
        (((decideStickyLease plat sight o nowNs current).exec s).2.leases.load o)) := by
  cases current with
  | none => exact routed_createOrAbort haccount havoid none .none
  | some current =>
    unfold decideStickyLease
    by_cases hexpired : current.isExpired nowNs = true
    · simp only [if_pos hexpired]
      exact routed_createOrAbort haccount havoid _ _
    simp only [if_neg hexpired]
    unfold tryLeaseHit
    by_cases hhit : sight.entry current.nodeHash = some current.egressIP ∧
        sight.view current.nodeHash = true
    · simp only [if_pos hhit]
      exact Routed.of_kept rfl rfl
    · simp only [if_neg hhit, bind_eq, pure_eq_ret, Prog.ret_bind]
      unfold tryLeaseSameIPRotation
      cases sight.chooseSameIPRotationCandidate current.egressIP with
      | some best => exact Routed.of_kept rfl rfl
      | none => exact routed_createOrAbort haccount havoid _ _

theorem account_of_leaseCreated {r : StickyRoute}
    (hr : ((routeRequest plat sight o nowNs).exec s).1 = .ok r) (hcreated : r.leaseCreated = true) :
    o.account ≠ "" := by
  intro hempty
  unfold routeRequest loadState at hr
  simp only [bind_eq, exec_bind, exec_read, if_pos hempty, routeRandom, pure_eq_ret, exec_ret] at hr
  cases hdrawn : sight.selectLiveRandomRoute s.ipLoadStats none with
  | error err =>
    rw [hdrawn] at hr
    cases hr
  | ok drawn =>
    rw [hdrawn] at hr
    cases hr
    cases hcreated

theorem routed_routeRequest (haccount : o.account ≠ "")
    (havoid : plat.rotationAvoidPreviousIP = true) :
    Routed plat sight o nowNs s ((routeRequest plat sight o nowNs).exec s).1
      ((routeRequest plat sight o nowNs).exec s).2
      (((routeRequest plat sight o nowNs).exec s).2.leases.load o) := by
  have hroute : (routeRequest plat sight o nowNs).exec s =
      (routeSticky plat sight o nowNs).exec s := by
    unfold routeRequest loadState
    simp only [bind_eq, exec_bind, exec_read, if_neg haccount]
  have hdecide : Routed plat sight o nowNs s _ _ _ :=
    routed_decideStickyLease haccount havoid (s.leases.load o)
  rw [hroute]
  unfold routeSticky
  rw [exec_compute]
  refine ⟨fun r hr hcreated => ?_, hdecide.tombstones⟩
  obtain ⟨drawn, hsel, hroute', hlease⟩ := hdecide.created r hr hcreated
  refine ⟨drawn, hsel, hroute', ?_⟩
  rw [← hlease]
  exact LeaseTable.load_commit_self _

def recorded (plat : RoutingSettings) (o : LeaseOwner) (nowNs : ℤ) (ip : Addr)
    (tombs : RotationTombstoneCache) : RotationTombstoneCache :=
  if o.account = "" ∨ ip = none ∨
      rotationTombstoneTTL plat.scheduledRotationIntervalNs plat.stickyTTLNs ≤ 0 then tombs
  else tombs.store (rotationTombstoneKey plat.id o) ip
    (nowNs + rotationTombstoneTTL plat.scheduledRotationIntervalNs plat.stickyTTLNs)

theorem exec_recordRotationTombstone (ip : Addr) : ((recordRotationTombstone plat.id o ip nowNs
      (rotationTombstoneTTL plat.scheduledRotationIntervalNs plat.stickyTTLNs)).exec s).2 =
      { s with rotationTombstones := recorded plat o nowNs ip s.rotationTombstones } := by
  unfold recordRotationTombstone recorded
  split <;> rfl

theorem exec_emitRemoved (platformID : String) (deleted : Option Lease) :
    ((emitRemoved platformID o deleted).exec s).2 = s := by
  cases deleted with
  | none | some => rfl

theorem tombstones_rotateLease (haccount : o.account ≠ "") :
    ((rotateLease plat o nowNs).exec s).2.rotationTombstones =
      (s.leases.load o).elim s.rotationTombstones
        fun lease => recorded plat o nowNs lease.egressIP s.rotationTombstones := by
  unfold rotateLease loadState removeLease
  rw [if_neg haccount]
  simp only [bind_eq, exec_bind, exec_read, exec_emitRemoved, exec_compute]
  cases s.leases.load o with
  | none => rfl
  | some lease =>
    simp only [exec_bind, RoutingTask.dec, Prog.exec_modify, pure_eq_ret, exec_ret,
      exec_recordRotationTombstone]
    rfl

theorem tombstones_rotateIfOlderThan (floorNs : ℤ) :
    ((rotateIfOlderThan plat o floorNs nowNs).exec s).2.rotationTombstones =
      ((s.leases.load o).filter fun lease => lease.createdAtNs ≤ floorNs).elim s.rotationTombstones
        fun lease => recorded plat o nowNs lease.egressIP s.rotationTombstones := by
  unfold rotateIfOlderThan deleteLeaseIfOlderThan loadState removeLeaseIfOlderThan
  simp only [bind_eq, exec_bind, exec_read, exec_emitRemoved, exec_compute]
  cases s.leases.load o with
  | none => rfl
  | some lease =>
    by_cases hold : lease.createdAtNs ≤ floorNs
    · have hnew : ¬ lease.createdAtNs > floorNs := by omega
      simp only [if_neg hnew, exec_bind, RoutingTask.dec, Prog.exec_modify,
        pure_eq_ret, exec_ret, exec_recordRotationTombstone, Option.filter,
        decide_eq_true hold, if_true]
      rfl
    · have hnew : lease.createdAtNs > floorNs := by omega
      simp only [if_pos hnew, Option.filter, decide_eq_false hold]
      rfl

end Exec

/-! ## Tombstones -/

namespace RotationTombstoneCache

variable {c : RotationTombstoneCache} {key : String} {ip : Addr} {expiresAtNs nowNs : ℤ}

/-- The tombstone of the key is the one with this address and this end. -/
def Has (c : RotationTombstoneCache) (key : String) (ip : Addr) (expiresAtNs : ℤ) : Prop :=
  Table.lookup RotationTombstone.key key c.order = some ⟨key, ip, expiresAtNs⟩

@[simp] theorem maxEntries_store : (c.store key ip expiresAtNs).maxEntries = c.maxEntries := by
  unfold store
  split
  · rfl
  · split <;> rfl

@[simp] theorem maxEntries_lookup : (c.lookup key nowNs).2.maxEntries = c.maxEntries := by
  unfold lookup
  split
  · rfl
  · split <;> rfl

theorem has_store (hmax : 0 < c.maxEntries) (hip : ip ≠ none) :
    (c.store key ip expiresAtNs).Has key ip expiresAtNs := by
  unfold store Has
  rw [if_neg hip]
  dsimp only
  split
  · rw [Table.lookup_cons, if_pos rfl]
  · obtain ⟨n, hn⟩ : ∃ n, c.maxEntries = n + 1 := ⟨c.maxEntries - 1, by omega⟩
    rw [hn, List.take_succ_cons, Table.lookup_cons, if_pos rfl]

theorem Has.lookup (h : c.Has key ip expiresAtNs) (hlive : nowNs < expiresAtNs) :
    (c.lookup key nowNs).1 = ip ∧ (c.lookup key nowNs).2.Has key ip expiresAtNs := by
  have hexpired : ¬ expiresAtNs ≤ nowNs := by omega
  unfold RotationTombstoneCache.lookup Has
  rw [h]
  simp only [if_neg hexpired]
  exact ⟨trivial, by rw [Table.lookup_cons, if_pos rfl]⟩

end RotationTombstoneCache

/-- What is drawn in the course of a request. -/
structure Chance where
  first : Dice
  retry : Dice
  prefersFirst : IPLoadStats → Hash → Hash → Bool
  chooseSameIPRotationCandidate : Addr → Option Hash

def PlatformNodes.sight (nodes : PlatformNodes) (chance : Chance) : RouteSight :=
  PickSight.route
    { nodes with
      prefersFirst := chance.prefersFirst
      chooseSameIPRotationCandidate := chance.chooseSameIPRotationCandidate }
    chance.first chance.retry

inductive OwnerCall where
  | routeRequest (chance : Chance) (nowNs : ℤ)
  | rotateLease (nowNs : ℤ)
  /-- a scheduled rotation -/
  | rotateIfOlderThan (floorNs nowNs : ℤ)

namespace OwnerCall

def nowNs : OwnerCall → ℤ
  | .routeRequest _ nowNs => nowNs
  | .rotateLease nowNs => nowNs
  | .rotateIfOlderThan _ nowNs => nowNs

def step (plat : RoutingSettings) (nodes : PlatformNodes) (o : LeaseOwner)
    (s : PlatformRoutingState) : OwnerCall → PlatformRoutingState
  | .routeRequest chance nowNs =>
    ((RoutingTask.routeRequest plat (nodes.sight chance) o nowNs).exec s).2
  | .rotateLease nowNs => ((RoutingTask.rotateLease plat o nowNs).exec s).2
  | .rotateIfOlderThan floorNs nowNs =>
    ((RoutingTask.rotateIfOlderThan plat o floorNs nowNs).exec s).2

def rotated (o : LeaseOwner) (s : PlatformRoutingState) : OwnerCall → Option Lease
  | .routeRequest _ _ => none
  | .rotateLease _ => s.leases.load o
  | .rotateIfOlderThan floorNs _ =>
    (s.leases.load o).filter fun lease => lease.createdAtNs ≤ floorNs

variable {plat : RoutingSettings} (nodes : PlatformNodes) {o : LeaseOwner}
  {s : PlatformRoutingState}

section

variable (haccount : o.account ≠ "")

include haccount

theorem tombstones_of_rotated {call : OwnerCall} {lease : Lease}
    (hrot : call.rotated o s = some lease) :
    (call.step plat nodes o s).rotationTombstones =
      recorded plat o call.nowNs lease.egressIP s.rotationTombstones := by
  cases call with
  | routeRequest chance nowNs => cases hrot
  | rotateLease nowNs =>
    refine (tombstones_rotateLease haccount).trans ?_
    rw [show s.leases.load o = some lease from hrot]
    rfl
  | rotateIfOlderThan floorNs nowNs =>
    refine (tombstones_rotateIfOlderThan floorNs).trans ?_
    rw [show (s.leases.load o).filter _ = some lease from hrot]
    rfl

section

variable (havoid : plat.rotationAvoidPreviousIP = true)

include havoid

theorem tombstones_of_not_rotated {call : OwnerCall} (hrot : call.rotated o s = none) :
    (call.step plat nodes o s).rotationTombstones = s.rotationTombstones ∨
      (call.step plat nodes o s).rotationTombstones =
        (s.rotationTombstones.lookup (rotationTombstoneKey plat.id o) call.nowNs).2 := by
  cases call with
  | routeRequest chance nowNs =>
    have hrouted : Routed plat (nodes.sight chance) o nowNs s _ _ _ :=
      routed_routeRequest haccount havoid
    exact hrouted.tombstones
  | rotateLease nowNs =>
    refine .inl ((tombstones_rotateLease haccount).trans ?_)
    rw [show s.leases.load o = none from hrot]
    rfl
  | rotateIfOlderThan floorNs nowNs =>
    refine .inl ((tombstones_rotateIfOlderThan floorNs).trans ?_)
    rw [show (s.leases.load o).filter _ = none from hrot]
    rfl

theorem maxEntries_step (call : OwnerCall) :
    (call.step plat nodes o s).rotationTombstones.maxEntries = s.rotationTombstones.maxEntries := by
  cases hrot : call.rotated o s with
  | some lease =>
    rw [tombstones_of_rotated nodes haccount hrot]
    unfold recorded
    split
    · rfl
    · exact RotationTombstoneCache.maxEntries_store
  | none =>
    rcases tombstones_of_not_rotated nodes haccount havoid hrot with h | h
    · rw [h]
    · rw [h]
      exact RotationTombstoneCache.maxEntries_lookup

theorem has_tombstone {ip : Addr} {expiresAtNs : ℤ}
    (hs : s.rotationTombstones.Has (rotationTombstoneKey plat.id o) ip expiresAtNs)
    {calls : List OwnerCall} (hcalls : Along (step plat nodes o) (fun t call => call.rotated o t =
      none ∧ call.nowNs < expiresAtNs) s calls) :
    (run (step plat nodes o) s calls).rotationTombstones.Has
      (rotationTombstoneKey plat.id o) ip expiresAtNs := by
  refine Along.invariant (I := fun t =>
    t.rotationTombstones.Has (rotationTombstoneKey plat.id o) ip expiresAtNs)
    (fun t call hcall ht => ?_) hcalls hs
  rcases tombstones_of_not_rotated nodes haccount havoid hcall.1 with h | h
  · rw [h]
    exact ht
  · rw [h]
    exact (ht.lookup hcall.2).2

end

end

end OwnerCall

/-- **A rotation changes the address.**  Before the tombstone of the latest rotation of an owner
expires, a request that creates a lease draws an address other than the one rotated away, unless
every node of the view comes out there, and its route says so exactly in that case. -/
theorem rotation_changes_address (plat : RoutingSettings) (nodes : PlatformNodes) (o : LeaseOwner)
    (havoid : plat.rotationAvoidPreviousIP = true)
    (httl : 0 < rotationTombstoneTTL plat.scheduledRotationIntervalNs plat.stickyTTLNs)
    (hpool : ∀ h ∈ nodes.view, (nodes.entry h).isSome)
    (s : PlatformRoutingState) (hmax : 0 < s.rotationTombstones.maxEntries)
    (earlier : List OwnerCall) (rotation : OwnerCall) (removed : Lease) (ip : String)
    (hrot : rotation.rotated o (run (OwnerCall.step plat nodes o) s earlier) = some removed)
    (hip : removed.egressIP = some ip) (later : List OwnerCall)
    (hlater : Along (OwnerCall.step plat nodes o)
      (fun t call => call.rotated o t = none ∧ call.nowNs < rotation.nowNs +
        rotationTombstoneTTL plat.scheduledRotationIntervalNs plat.stickyTTLNs)
      (run (OwnerCall.step plat nodes o) s (earlier ++ [rotation])) later)
    (chance : Chance) (nowNs : ℤ)
    (hnow : nowNs < rotation.nowNs +
      rotationTombstoneTTL plat.scheduledRotationIntervalNs plat.stickyTTLNs)
    (route : StickyRoute)
    (hroute : ((RoutingTask.routeRequest plat (nodes.sight chance) o nowNs).exec
      (run (OwnerCall.step plat nodes o) s (earlier ++ rotation :: later))).1 = .ok route)
    (hcreated : route.leaseCreated = true) :
    (∃ lease, (run (OwnerCall.step plat nodes o) s (earlier ++ rotation :: later ++
        [.routeRequest chance nowNs])).leases.load o = some lease ∧
      lease.egressIP = route.egressIP ∧
      (lease.egressIP ≠ some ip ∨ nodes.AllOn (some ip))) ∧
    ("rotation_fallback_same_ip" ∈ route.events ↔ nodes.AllOn (some ip)) := by
  have haccount := account_of_leaseCreated hroute hcreated
  -- the tombstone of the rotation, when it is written
  have hwritten : (run (OwnerCall.step plat nodes o) s
      (earlier ++ [rotation])).rotationTombstones.Has (rotationTombstoneKey plat.id o) (some ip)
      (rotation.nowNs + rotationTombstoneTTL plat.scheduledRotationIntervalNs plat.stickyTTLNs) := by
    have hsize : 0 < (run (OwnerCall.step plat nodes o) s earlier).rotationTombstones.maxEntries :=
      run_invariant (I := fun t : PlatformRoutingState => 0 < t.rotationTombstones.maxEntries)
        (fun t call ht => by rwa [OwnerCall.maxEntries_step nodes haccount havoid]) hmax earlier
    have hrecord : ¬ (o.account = "" ∨ removed.egressIP = none ∨
        rotationTombstoneTTL plat.scheduledRotationIntervalNs plat.stickyTTLNs ≤ 0) := by
      rw [hip]
      simp [haccount, httl]
    rw [run_append, run_cons, run_nil, OwnerCall.tombstones_of_rotated nodes haccount hrot]
    unfold recorded
    rw [if_neg hrecord, hip]
    exact RotationTombstoneCache.has_store hsize nofun
  -- and when the request looks for it
  have hthere := OwnerCall.has_tombstone nodes haccount havoid hwritten hlater
  rw [← run_append, List.append_assoc, List.singleton_append] at hthere
  have hrouted : Routed plat (nodes.sight chance) o nowNs
      (run (OwnerCall.step plat nodes o) s (earlier ++ rotation :: later)) _ _ _ :=
    routed_routeRequest haccount havoid
  obtain ⟨drawn, hsel, hr, hlease⟩ := hrouted.created route hroute hcreated
  rw [(hthere.lookup hnow).1] at hsel
  obtain ⟨h, drawnIP, fallback⟩ := drawn
  obtain ⟨hother, hflag⟩ := selectLiveRandomRoute_spec hpool hsel
  refine ⟨⟨(RoutingTask.leaseFor plat nowNs (h, drawnIP, fallback)).1, ?_, ?_, hother⟩, ?_⟩
  · rw [run_append]
    exact hlease
  · rw [hr]
    rfl
  rw [hr]
  show "rotation_fallback_same_ip" ∈ rotationFallbackEvents fallback ↔ _
  rw [← hflag]
  cases fallback with
  | false | true => simp [rotationFallbackEvents]

theorem rotation_changes_address_two_nodes :
    ∃ lease, (run (OwnerCall.step ⟨"p", 100, 0, true⟩ ⟨fun h => some (some (toString h)), [1, 2]⟩
        ⟨"u", "a"⟩) {}
        ([.routeRequest ⟨fun _ => 0, fun _ => 0, fun _ _ _ => true, fun _ => none⟩ 10] ++
          .rotateLease 20 :: [.rotateLease 25] ++
          [.routeRequest ⟨fun _ => 0, fun _ => 0, fun _ _ _ => true, fun _ => none⟩
            30])).leases.load ⟨"u", "a"⟩ = some lease ∧
      lease.egressIP ≠ some "1" := by
  have hmain := rotation_changes_address ⟨"p", 100, 0, true⟩
    ⟨fun h => some (some (toString h)), [1, 2]⟩ ⟨"u", "a"⟩ rfl (by decide) (by simp) {} (by decide)
    [.routeRequest ⟨fun _ => 0, fun _ => 0, fun _ _ _ => true, fun _ => none⟩ 10]
    (.rotateLease 20) ⟨1, some "1", 10, 110, 10⟩ "1" (by decide +kernel) rfl [.rotateLease 25]
    ⟨⟨by decide +kernel, by decide⟩, trivial⟩
    ⟨fun _ => 0, fun _ => 0, fun _ _ _ => true, fun _ => none⟩ 30 (by decide)
    ⟨2, some "2", true, []⟩ (by decide +kernel) rfl
  obtain ⟨⟨lease, hload, -, hip⟩, -⟩ := hmain
  exact ⟨lease, hload, hip.resolve_right (by decide +kernel)⟩

end Prism
