import Prism.Foundation.Tally
import Prism.Proxy.Route
import Prism.Topology.Pool

/-!
# Sticky leases

`internal/routing`: `lease.go`, `rotation_tombstone.go`, `lease_cleaner.go` and the lease part of
`router.go`.  An account of a user is kept on one egress address by a lease.  Every change of the
table of leases is one `Compute` on the owner of the lease: the map locks the owner, hands the
current lease to a function, and does what the function answers.  Beside the table, one counter per
egress address says how many leases use it.  The counters are atomic one by one and are moved from
within the section.

A section is therefore a program: the owner is locked, the lease is read, each counter is moved and
each lease event emitted in a step of its own, and the answer is carried out before the owner is
unlocked.
-/

namespace Prism

/-- An account of a user. -/
structure LeaseOwner where
  userID : String
  account : String
  deriving DecidableEq

structure Lease where
  nodeHash : Hash
  egressIP : Addr
  createdAtNs : ℤ
  expiryNs : ℤ
  lastAccessedNs : ℤ
  deriving DecidableEq

def Lease.isExpired (l : Lease) (nowNs : ℤ) : Bool := l.expiryNs < nowNs

/-- What the function of a `Compute` answers. -/
inductive ComputeOp where
  | update (lease : Lease)
  | delete
  | cancel

def ComputeOp.apply (current : Option Lease) : ComputeOp → Option Lease
  | .update lease => some lease
  | .delete => none
  | .cancel => current

abbrev LeaseTable := List (LeaseOwner × Lease)

namespace LeaseTable

def load (leases : LeaseTable) (o : LeaseOwner) : Option Lease :=
  (Table.lookup Prod.fst o leases).map Prod.snd

def commit (leases : LeaseTable) (o : LeaseOwner) : ComputeOp → LeaseTable
  | .update lease => Table.upsertWith Prod.fst (fun _ row => row) (o, lease) leases
  | .delete => leases.filter fun row => row.1 ≠ o
  | .cancel => leases

variable {leases : LeaseTable} {o : LeaseOwner}

@[simp] theorem load_commit_self (op : ComputeOp) :
    (leases.commit o op).load o = op.apply (leases.load o) := by
  cases op with
  | update lease =>
    unfold load commit
    rw [Table.lookup_replace, if_pos rfl]
    rfl
  | delete =>
    unfold load commit
    rw [Table.lookup_filter_ne, if_pos rfl]
    rfl
  | cancel => rfl

theorem load_commit_of_ne {o' : LeaseOwner} (h : o' ≠ o) (op : ComputeOp) :
    (leases.commit o op).load o' = leases.load o' := by
  cases op with
  | update lease =>
    unfold load commit
    rw [Table.lookup_replace, if_neg h]
  | delete =>
    unfold load commit
    rw [Table.lookup_filter_ne, if_neg h]
  | cancel => rfl

theorem keysNodup_commit (hnd : Table.KeysNodup Prod.fst leases) (o : LeaseOwner)
    (op : ComputeOp) : Table.KeysNodup Prod.fst (leases.commit o op) := by
  cases op with
  | update lease => exact Table.keysNodup_upsertWith Prod.fst _ (fun _ _ _ => rfl) _ hnd
  | delete => exact Table.keysNodup_filter hnd
  | cancel => exact hnd

end LeaseTable

/-- A counter for every address that has had a lease.  Counters are never removed. -/
abbrev IPLoadStats := List (String × ℤ)

namespace IPLoadStats

variable (stats : IPLoadStats)

def get : Addr → ℤ
  | none => 0
  | some ip => ((Table.lookup Prod.fst ip stats).map Prod.snd).getD 0

def inc : Addr → IPLoadStats
  | none => stats
  | some ip => Table.upsertWith Prod.fst (fun old row => (old.1, old.2 + row.2)) (ip, 1) stats

/-- An address without a counter is left without one. -/
def dec : Addr → IPLoadStats
  | none => stats
  | some ip => Table.updateWhere (fun row => row.1 = ip) (fun row => (row.1, row.2 - 1)) stats

variable {stats : IPLoadStats}

theorem get_inc (ip : Addr) (a : String) :
    (stats.inc ip).get (some a) = stats.get (some a) + if ip = some a then 1 else 0 := by
  cases ip with
  | none => simp [inc]
  | some b =>
    have hkey : ∀ old row : String × ℤ, old.1 = row.1 → (old.1, old.2 + row.2).1 = row.1 :=
      fun _ _ h => h
    by_cases hab : a = b
    · subst hab
      have hself := Table.lookup_upsertWith_self Prod.fst _ hkey (a, 1) stats
      rw [if_pos rfl]
      simp only [get, inc]
      rw [hself]
      cases Table.lookup Prod.fst a stats with
      | none | some => rfl
    · have hne : some b ≠ some a := fun h => hab (Option.some.inj h).symm
      have hother := Table.lookup_upsertWith_of_ne Prod.fst _ hkey (b, 1) hab stats
      simp only [get, inc]
      rw [if_neg hne, add_zero, hother]

theorem get_dec {ip : Addr} (hpos : ∀ a, ip = some a → 0 < stats.get (some a)) (a : String) :
    (stats.dec ip).get (some a) = stats.get (some a) - if ip = some a then 1 else 0 := by
  cases ip with
  | none => simp [dec]
  | some b =>
    have hlookup := Table.lookup_updateWhere (p := fun row : String × ℤ => row.1 = b)
      (f := fun row => (row.1, row.2 - 1)) Prod.fst (fun _ _ => rfl) a stats
    simp only [get, dec]
    rw [hlookup]
    by_cases hab : a = b
    · subst hab
      have hthere := hpos a rfl
      rw [if_pos rfl]
      unfold get at hthere
      cases hl : Table.lookup Prod.fst a stats with
      | none => exact absurd hthere (by simp [hl])
      | some row =>
        have hrow : row.1 = a := Table.key_of_lookup hl
        simp [hrow]
    · have hne : some b ≠ some a := fun h => hab (Option.some.inj h).symm
      rw [if_neg hne, sub_zero]
      cases hl : Table.lookup Prod.fst a stats with
      | none => rfl
      | some row =>
        have hrow : row.1 = a := Table.key_of_lookup hl
        simp [hrow, hab]

end IPLoadStats

/-- The address an owner has just left. -/
structure RotationTombstone where
  key : String
  egressIP : Addr
  expiresAtNs : ℤ

/-- The tombstones with the most recently used one first. -/
structure RotationTombstoneCache where
  maxEntries : ℕ := 100000
  order : List RotationTombstone := []

variable (platformID : String) (o : LeaseOwner)

def rotationTombstoneKey : String :=
  platformID ++ "\x00" ++ o.userID ++ "\x00" ++ o.account

namespace RotationTombstoneCache

/-- A new tombstone may push the oldest ones out. -/
def store (c : RotationTombstoneCache) (key : String) (ip : Addr) (expiresAtNs : ℤ) :
    RotationTombstoneCache :=
  if ip = none then c
  else
    let tomb : RotationTombstone := ⟨key, ip, expiresAtNs⟩
    if c.order.any fun t => t.key = key then
      { c with order := tomb :: c.order.filter fun t => t.key ≠ key }
    else { c with order := (tomb :: c.order).take c.maxEntries }

def lookup (c : RotationTombstoneCache) (key : String) (nowNs : ℤ) :
    Addr × RotationTombstoneCache :=
  match Table.lookup RotationTombstone.key key c.order with
  | none => (none, c)
  | some tomb =>
    let others := c.order.filter fun t => t.key ≠ key
    if tomb.expiresAtNs ≤ nowNs then (none, { c with order := others })
    else (tomb.egressIP, { c with order := tomb :: others })

end RotationTombstoneCache

def rotationTombstoneTTL (interval stickyTTLNs : ℤ) : ℤ :=
  if stickyTTLNs > interval then stickyTTLNs else interval

/-! ## The routing state of a platform -/

/-- `PlatformRoutingState`, and the tombstones of the router. -/
structure PlatformRoutingState where
  leases : LeaseTable := []
  ipLoadStats : IPLoadStats := []
  rotationTombstones : RotationTombstoneCache := {}

inductive LeaseEventType where
  | create
  | touch
  | replace
  | remove
  | expire

structure LeaseEvent where
  type : LeaseEventType
  platformID : String
  userID : String := ""
  account : String
  nodeHash : Hash
  egressIP : Addr
  createdAtNs : ℤ := 0

def Lease.gone (l : Lease) (type : LeaseEventType) (platformID : String) (o : LeaseOwner) :
    LeaseEvent where
  type := type
  platformID := platformID
  userID := o.userID
  account := o.account
  nodeHash := l.nodeHash
  egressIP := l.egressIP
  createdAtNs := l.createdAtNs

def Lease.there (l : Lease) (type : LeaseEventType) (platformID : String) (o : LeaseOwner) :
    LeaseEvent where
  type := type
  platformID := platformID
  userID := o.userID
  account := o.account
  nodeHash := l.nodeHash
  egressIP := l.egressIP

inductive RoutingEvent where
  | stateLoaded
  | leaseLoaded (o : LeaseOwner)
  | tombstoneRead (o : LeaseOwner)
  | tombstoneStored (o : LeaseOwner)
  | picked (o : LeaseOwner)
  /-- the counter of the lease of the owner goes down -/
  | uncounted (o : LeaseOwner) (ip : Addr)
  /-- the counter of the new lease of the owner goes up -/
  | counted (o : LeaseOwner) (ip : Addr)
  | emitted (event : LeaseEvent)
  | committed (o : LeaseOwner)

abbrev RoutingTask := Prog PlatformRoutingState RoutingEvent LeaseOwner

abbrev RoutingHistory := Hist PlatformRoutingState RoutingEvent LeaseOwner

structure RoutingSettings where
  id : String
  stickyTTLNs : ℤ
  scheduledRotationIntervalNs : ℤ
  rotationAvoidPreviousIP : Bool

/-- What one request sees: the egress address of the nodes in the pool, the view of the platform,
the node it would move to on the same address, and the node it draws, given the counters and the
address to avoid.  The last component of a draw says that the address could not be avoided. -/
structure RouteSight where
  entry : Hash → Option Addr
  view : Hash → Bool
  chooseSameIPRotationCandidate : Addr → Option Hash
  selectLiveRandomRoute : IPLoadStats → Addr → Except RouteError (Hash × Addr × Bool)

structure StickyRoute where
  nodeHash : Hash
  egressIP : Addr
  leaseCreated : Bool
  events : List String := []
  deriving DecidableEq

/-- `model.Lease`, of one platform. -/
structure LeaseRow where
  platformID : String
  userID : String := ""
  account : String
  nodeHash : String
  egressIP : String
  createdAtNs : ℤ := 0
  expiryNs : ℤ := 0
  lastAccessedNs : ℤ := 0

/-- `node.ParseHex` and `netip.ParseAddr`. -/
structure LeaseParsers where
  parseHex : String → Except String Hash
  parseAddr : String → Except String String

def LeaseRow.lease (row : LeaseRow) (nodeHash : Hash) (ip : String) : Lease :=
  { nodeHash := nodeHash, egressIP := some ip, createdAtNs := row.createdAtNs,
    expiryNs := row.expiryNs, lastAccessedNs := row.lastAccessedNs }

def rotationFallbackEvents (fallbackSameIP : Bool) : List String :=
  if fallbackSameIP then ["rotation_fallback_same_ip"] else []

inductive LeaseInvalidation where
  | none
  | expire
  | remove

namespace RoutingTask

/-! ## Steps -/

/-- `states.Load` or `ensurePlatformState`. -/
def loadState : RoutingTask Unit := Prog.read .stateLoaded fun _ => ()

def emitLeaseEvent (event : LeaseEvent) : RoutingTask Unit := Prog.modify (.emitted event) id

/-- `stats.Dec`, for the lease of the owner. -/
def dec (o : LeaseOwner) (ip : Addr) : RoutingTask Unit :=
  Prog.modify (.uncounted o ip) fun s => { s with ipLoadStats := s.ipLoadStats.dec ip }

/-- `stats.Inc`, for the lease of the owner. -/
def inc (o : LeaseOwner) (ip : Addr) : RoutingTask Unit :=
  Prog.modify (.counted o ip) fun s => { s with ipLoadStats := s.ipLoadStats.inc ip }

/-- `leases.Compute`. -/
def compute {α : Type} (section_ : Option Lease → RoutingTask (ComputeOp × α)) : RoutingTask α :=
  Prog.locked o do
    let current ← Prog.read (.leaseLoaded o) fun s => s.leases.load o
    let answer ← section_ current
    Prog.modify (.committed o) fun s => { s with leases := s.leases.commit o answer.1 }
    pure answer.2

variable (plat : RoutingSettings)

def rotationAvoidIP (o : LeaseOwner) (nowNs : ℤ) : RoutingTask Addr :=
  if o.account = "" ∨ plat.rotationAvoidPreviousIP = false then pure none
  else Prog.step (fun _ => .tombstoneRead o) fun s =>
    let found := s.rotationTombstones.lookup (rotationTombstoneKey plat.id o) nowNs
    (found.1, { s with rotationTombstones := found.2 })

def recordRotationTombstone (ip : Addr) (nowNs ttl : ℤ) : RoutingTask Unit :=
  if o.account = "" ∨ ip = none ∨ ttl ≤ 0 then pure ()
  else Prog.modify (.tombstoneStored o) fun s =>
    { s with
      rotationTombstones :=
        s.rotationTombstones.store (rotationTombstoneKey platformID o) ip (nowNs + ttl) }

/-! ## Routing -/

variable (sight : RouteSight)

/-- The lease is good: its node is in the pool and in the view, and still on its address. -/
def tryLeaseHit (o : LeaseOwner) (current : Lease)
    (nowNs : ℤ) : RoutingTask (Option (Lease × StickyRoute)) :=
  if sight.entry current.nodeHash = some current.egressIP ∧ sight.view current.nodeHash = true then
    do
      emitLeaseEvent (current.there .touch plat.id o)
      pure (some ({ current with lastAccessedNs := nowNs },
        { nodeHash := current.nodeHash, egressIP := current.egressIP, leaseCreated := false }))
  else pure none

/-- The lease moves to another node on its address. -/
def tryLeaseSameIPRotation (o : LeaseOwner)
    (current : Lease) (nowNs : ℤ) : RoutingTask (Option (Lease × StickyRoute)) :=
  match sight.chooseSameIPRotationCandidate current.egressIP with
  | none => pure none
  | some bestHash =>
    let newLease := { current with nodeHash := bestHash, lastAccessedNs := nowNs }
    do
      emitLeaseEvent (newLease.there .replace plat.id o)
      pure (some (newLease,
        { nodeHash := bestHash, egressIP := current.egressIP, leaseCreated := false }))

def defaultStickyTTLNs : ℤ := 24 * 60 * 60 * 1000000000

def leaseFor (nowNs : ℤ) (drawn : Hash × Addr × Bool) : Lease × StickyRoute :=
  let ttl := if plat.stickyTTLNs ≤ 0 then defaultStickyTTLNs else plat.stickyTTLNs
  ({ nodeHash := drawn.1, egressIP := drawn.2.1, createdAtNs := nowNs, expiryNs := nowNs + ttl,
     lastAccessedNs := nowNs },
   { nodeHash := drawn.1, egressIP := drawn.2.1, leaseCreated := true,
     events := rotationFallbackEvents drawn.2.2 })

def createLease (o : LeaseOwner) (nowNs : ℤ) :
    RoutingTask (Except RouteError (Lease × StickyRoute)) := do
  let avoidIP ← rotationAvoidIP plat o nowNs
  let drawn ← Prog.read (.picked o) fun s => sight.selectLiveRandomRoute s.ipLoadStats avoidIP
  pure (drawn.map (leaseFor plat nowNs))

/-- The lease before goes away, whatever comes after it. -/
def cleanupPreviousLease (previous : Option Lease)
    (invalidation : LeaseInvalidation) : RoutingTask Unit :=
  match previous with
  | none => pure ()
  | some lease => do
    dec o lease.egressIP
    match invalidation with
    | .none => pure ()
    | .expire => emitLeaseEvent (lease.gone .expire platformID o)
    | .remove => emitLeaseEvent (lease.gone .remove platformID o)

def abortLeaseCreate (previous : Option Lease) : ComputeOp :=
  if previous.isSome then .delete else .cancel

def createOrAbortStickyLease (o : LeaseOwner)
    (nowNs : ℤ) (previous : Option Lease) (invalidation : LeaseInvalidation) :
    RoutingTask (ComputeOp × Except RouteError StickyRoute) := do
  let created ← createLease plat sight o nowNs
  match created with
  | .error err => do
    cleanupPreviousLease plat.id o previous invalidation
    pure (abortLeaseCreate previous, .error err)
  | .ok new => do
    cleanupPreviousLease plat.id o previous invalidation
    inc o new.1.egressIP
    emitLeaseEvent (new.1.there .create plat.id o)
    pure (.update new.1, .ok new.2)

/-- The whole section of a request, given the lease it finds. -/
def decideStickyLease (o : LeaseOwner) (nowNs : ℤ) :
    Option Lease → RoutingTask (ComputeOp × Except RouteError StickyRoute)
  | none => createOrAbortStickyLease plat sight o nowNs none .none
  | some current =>
    if current.isExpired nowNs then
      createOrAbortStickyLease plat sight o nowNs (some current) .expire
    else do
      let hit ← tryLeaseHit plat sight o current nowNs
      match hit with
      | some new => pure (.update new.1, .ok new.2)
      | none => do
        let moved ← tryLeaseSameIPRotation plat sight o current nowNs
        match moved with
        | some new => pure (.update new.1, .ok new.2)
        | none => createOrAbortStickyLease plat sight o nowNs (some current) .remove

def routeSticky (o : LeaseOwner) (nowNs : ℤ) : RoutingTask (Except RouteError StickyRoute) :=
  compute o (decideStickyLease plat sight o nowNs)

def routeRandom (o : LeaseOwner) : RoutingTask (Except RouteError StickyRoute) := do
  let drawn ← Prog.read (.picked o) fun s => sight.selectLiveRandomRoute s.ipLoadStats none
  pure (drawn.map fun d =>
    { nodeHash := d.1, egressIP := d.2.1, leaseCreated := false,
      events := rotationFallbackEvents d.2.2 })

/-- `RouteRequest`, from the platform on. -/
def routeRequest (o : LeaseOwner) (nowNs : ℤ) : RoutingTask (Except RouteError StickyRoute) := do
  loadState
  if o.account = "" then routeRandom sight o else routeSticky plat sight o nowNs

/-! ## Writing and removing leases -/

/-- `LeaseTable.CreateLease`: the old lease, if there is one, is counted no longer.  The answer says
whether there was one. -/
def putLease (lease : Lease) : RoutingTask Bool :=
  compute o fun
    | some current => do
      dec o current.egressIP
      inc o lease.egressIP
      pure (.update lease, true)
    | none => do
      inc o lease.egressIP
      pure (.update lease, false)

variable (parsers : LeaseParsers)

/-- The owner and the lease a row stands for, or what is wrong with it. -/
def validateLease (row : LeaseRow) : Except String (LeaseOwner × Lease) :=
  let account := trimSpace row.account
  if trimSpace row.platformID = "" then .error "platform_id is required"
  else if account = "" then .error "account is required"
  else
    match parsers.parseHex row.nodeHash with
    | .error err => .error ("parse node_hash: " ++ err)
    | .ok nodeHash =>
      match parsers.parseAddr row.egressIP with
      | .error err => .error ("parse egress_ip: " ++ err)
      | .ok ip => .ok (⟨trimSpace row.userID, account⟩, row.lease nodeHash ip)

/-- The event is emitted after the section. -/
def upsertLease (row : LeaseRow) : RoutingTask (Except String Unit) :=
  match validateLease parsers row with
  | .error err => pure (.error err)
  | .ok (o, lease) => do
    loadState
    let replaced ← putLease o lease
    emitLeaseEvent (lease.there (if replaced then .replace else .create)
      (trimSpace row.platformID) o)
    pure (.ok ())

/-- One row of `RestoreLeases`; a row that does not parse is skipped. -/
def restoreLease (row : LeaseRow) : RoutingTask Unit :=
  match parsers.parseHex row.nodeHash, parsers.parseAddr row.egressIP with
  | .ok nodeHash, .ok ip => do
    loadState
    let _ ← putLease ⟨row.userID, row.account⟩ (row.lease nodeHash ip)
    pure ()
  | _, _ => pure ()

/-- `LeaseTable.DeleteLease`; the callback runs inside the section. -/
def removeLease (onDelete : Lease → RoutingTask Unit) : RoutingTask (Option Lease) :=
  compute o fun
    | some lease => do
      dec o lease.egressIP
      onDelete lease
      pure (.delete, some lease)
    | none => pure (.cancel, none)

/-- `LeaseTable.DeleteLeaseIfOlderThan`. -/
def removeLeaseIfOlderThan (createdBeforeOrAtNs : ℤ)
    (onDelete : Lease → RoutingTask Unit) : RoutingTask (Option Lease) :=
  compute o fun
    | some current =>
      if current.createdAtNs > createdBeforeOrAtNs then pure (.cancel, none)
      else do
        dec o current.egressIP
        onDelete current
        pure (.delete, some current)
    | none => pure (.cancel, none)

/-- The event of a removal follows the section. -/
def emitRemoved : Option Lease → RoutingTask Bool
  | none => pure false
  | some lease => do
    emitLeaseEvent (lease.gone .remove platformID o)
    pure true

def deleteLease : RoutingTask Bool := do
  loadState
  let deleted ← removeLease o fun _ => pure ()
  emitRemoved platformID o deleted

def deleteLeaseIfOlderThan (createdBeforeOrAtNs : ℤ)
    (onDelete : Lease → RoutingTask Unit) : RoutingTask Bool := do
  loadState
  let deleted ← removeLeaseIfOlderThan o createdBeforeOrAtNs onDelete
  emitRemoved platformID o deleted

/-- One candidate of the scheduled rotator. -/
def rotateIfOlderThan (o : LeaseOwner) (floorNs nowNs : ℤ) : RoutingTask Bool :=
  let ttl := rotationTombstoneTTL plat.scheduledRotationIntervalNs plat.stickyTTLNs
  deleteLeaseIfOlderThan plat.id o floorNs fun removed =>
    recordRotationTombstone plat.id o removed.egressIP nowNs ttl

def rotateLease (o : LeaseOwner) (nowNs : ℤ) : RoutingTask Bool :=
  if o.account = "" then pure false
  else
    let ttl := rotationTombstoneTTL plat.scheduledRotationIntervalNs plat.stickyTTLNs
    do
      loadState
      let deleted ← removeLease o fun removed =>
        recordRotationTombstone plat.id o removed.egressIP nowNs ttl
      emitRemoved plat.id o deleted

/-- The events of a bulk removal name no user. -/
def deleteLeasesOn (platformID : String) : List LeaseOwner → RoutingTask ℕ
  | [] => pure 0
  | o :: owners => do
    let removed ← removeLease o fun _ => pure ()
    let deleted ← emitRemoved platformID ⟨"", o.account⟩ removed
    let count ← deleteLeasesOn platformID owners
    pure (if deleted then count + 1 else count)

/-- The iteration over the map hands out these owners; it is no snapshot of the table. -/
def deleteAllLeases (visited : List LeaseOwner) : RoutingTask ℕ := do
  loadState
  deleteLeasesOn platformID visited

/-- The cleaner looks at the lease again inside the section. -/
def expireLease (nowNs : ℤ) : RoutingTask Unit :=
  compute o fun
    | none => pure (.cancel, ())
    | some current =>
      if current.expiryNs < nowNs then do
        dec o current.egressIP
        emitLeaseEvent (current.gone .expire platformID o)
        pure (.delete, ())
      else pure (.cancel, ())

def expireIfExpired (nowNs : ℤ) (o : LeaseOwner) (lease : Lease) : RoutingTask Unit :=
  if lease.expiryNs < nowNs then expireLease platformID o nowNs else pure ()

def expireLeasesOn (platformID : String) (nowNs : ℤ) :
    List (LeaseOwner × Lease) → RoutingTask Unit
  | [] => pure ()
  | (o, lease) :: visited => do
    expireIfExpired platformID nowNs o lease
    expireLeasesOn platformID nowNs visited

/-- The owners and leases that the iteration of the cleaner hands out. -/
def sweepPlatformState (visited : List (LeaseOwner × Lease)) (nowNs : ℤ) : RoutingTask Unit := do
  loadState
  expireLeasesOn platformID nowNs visited

end RoutingTask

inductive RoutingCall where
  | routeRequest (plat : RoutingSettings) (sight : RouteSight) (o : LeaseOwner) (nowNs : ℤ)
  | upsertLease (parsers : LeaseParsers) (row : LeaseRow)
  | restoreLease (parsers : LeaseParsers) (row : LeaseRow)
  | deleteLease (platformID : String) (o : LeaseOwner)
  | rotateIfOlderThan (plat : RoutingSettings) (o : LeaseOwner) (floorNs nowNs : ℤ)
  | rotateLease (plat : RoutingSettings) (o : LeaseOwner) (nowNs : ℤ)
  | deleteAllLeases (platformID : String) (visited : List LeaseOwner)
  | sweepPlatformState (platformID : String) (visited : List (LeaseOwner × Lease)) (nowNs : ℤ)

/-- The program of an operation; what it answers is of no interest to the others. -/
def RoutingCall.task : RoutingCall → RoutingTask Unit
  | .routeRequest plat sight o nowNs => (RoutingTask.routeRequest plat sight o nowNs).bind
      fun _ => pure ()
  | .upsertLease parsers row => (RoutingTask.upsertLease parsers row).bind fun _ => pure ()
  | .restoreLease parsers row => RoutingTask.restoreLease parsers row
  | .deleteLease platformID o => (RoutingTask.deleteLease platformID o).bind fun _ => pure ()
  | .rotateIfOlderThan plat o floorNs nowNs =>
    (RoutingTask.rotateIfOlderThan plat o floorNs nowNs).bind fun _ => pure ()
  | .rotateLease plat o nowNs => (RoutingTask.rotateLease plat o nowNs).bind fun _ => pure ()
  | .deleteAllLeases platformID visited =>
    (RoutingTask.deleteAllLeases platformID visited).bind fun _ => pure ()
  | .sweepPlatformState platformID visited nowNs =>
    RoutingTask.sweepPlatformState platformID visited nowNs

end Prism
