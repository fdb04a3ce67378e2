import Prism.Foundation.Transaction
import Prism.Keys.Store

/-!
# Where a request is routed to

`resolveRoutedOutbound` of `internal/proxy/route_outbound.go` is where the forward proxy, the
tunnels and the reverse proxy meet, and the one place where the platform restriction of a key is
enforced.  A key stores the ids of platforms and a request names a platform, so the name is resolved
before the check, and the router resolves it once more when it routes.

The router and the node pool are parameters: how names are looked up, which node the random or the
sticky policy picks, and whether that node has an outbound.
-/

namespace Prism

structure Platform where
  id : String
  name : String

def defaultPlatformID : String := "00000000-0000-0000-0000-000000000000"

/-- What the router answers. -/
inductive RouteError where
  | platformNotFound
  | noAvailableNodes
  | other
  deriving DecidableEq

/-- What the client is told. -/
inductive ProxyError where
  | platformNotFound
  | platformForbidden
  | noAvailableNodes
  | internalError

def mapRouteError : RouteError → ProxyError
  | .platformNotFound => .platformNotFound
  | .noAvailableNodes => .noAvailableNodes
  | .other => .internalError

section

variable {Node Outbound : Type}

/-- What routing reads: the platforms, by id and by name, and the node picked for a platform, a
user, an account and a target. -/
structure Router (Node : Type) where
  getPlatform : String → Option Platform
  getPlatformByName : String → Option Platform
  pick : Platform → String → String → String → Except RouteError Node

/-- A node, and the platform it was picked for. -/
structure RouteResult (Node : Type) where
  platformID : String
  platformName : String
  node : Node

variable (r : Router Node)

/-- No name is the default platform. -/
def Router.resolvePlatform (platformName : String) : Except RouteError Platform :=
  if platformName = "" then
    match r.getPlatform defaultPlatformID with
    | some p => .ok p
    | none => .error .platformNotFound
  else
    match r.getPlatformByName platformName with
    | some p => .ok p
    | none => .error .platformNotFound

def Router.resolvePlatformID (platformName : String) : Except RouteError String :=
  match r.resolvePlatform platformName with
  | .ok p => .ok p.id
  | .error e => .error e

/-- `RouteRequest`. -/
def Router.routeRequest (platformName userID account target : String) :
    Except RouteError (RouteResult Node) :=
  match r.resolvePlatform platformName with
  | .error e => .error e
  | .ok p =>
    match r.pick p userID account target with
    | .error e => .error e
    | .ok node => .ok ⟨p.id, p.name, node⟩

/-- The key's restriction.  Without a key there is none. -/
def checkPlatform (platformName : String) :
    Option KeyState → Except ProxyError Unit
  | none => .ok ()
  | some key =>
    match r.resolvePlatformID platformName with
    | .error e => .error (mapRouteError e)
    | .ok platformID =>
      if !key.allowsPlatform platformID then .error .platformForbidden else .ok ()

def resolveRoutedOutbound (getOutbound : Node → Option Outbound)
    (platformName account target : String) (key : Option KeyState) :
    Except ProxyError (RouteResult Node × Outbound) := do
  checkPlatform r platformName key
  match r.routeRequest platformName ((key.map KeyState.userID).getD "") account target with
  | .error e => .error (mapRouteError e)
  | .ok result =>
    match getOutbound result.node with
    | none => .error .noAvailableNodes
    | some outbound => .ok (result, outbound)

variable {platformName : String} {r : Router Node}

theorem Router.routeRequest_eq_ok {userID account target : String} {result : RouteResult Node}
    (h : r.routeRequest platformName userID account target = .ok result) :
    r.resolvePlatformID platformName = .ok result.platformID := by
  unfold Router.routeRequest at h
  unfold Router.resolvePlatformID
  cases hp : r.resolvePlatform platformName with
  | error e =>
    rw [hp] at h
    cases h
  | ok p =>
    rw [hp] at h
    simp only at h
    split at h
    · cases h
    · rw [← Except.ok.inj h]

/-- **A routed request is allowed**: the platform it was routed to is one the key allows. -/
theorem allowsPlatform_of_routed {getOutbound : Node → Option Outbound} {account target : String}
    {key : KeyState} {result : RouteResult Node} {outbound : Outbound} (h : resolveRoutedOutbound r
      getOutbound platformName account target (some key) = .ok (result, outbound)) :
    key.allowsPlatform result.platformID = true := by
  obtain ⟨_, hcheck, h⟩ := bind_eq_ok_iff.mp h
  split at h
  · cases h
  rename_i result' hroute
  split at h
  · cases h
  rw [(Prod.mk.inj (Except.ok.inj h)).1] at hroute
  unfold checkPlatform at hcheck
  rw [Router.routeRequest_eq_ok hroute] at hcheck
  simp only at hcheck
  split_ifs at hcheck with hallowed
  simpa using hallowed

theorem routed_of_allowsPlatform {getOutbound : Node → Option Outbound} {account target : String}
    {key : KeyState} {p : Platform} {node : Node} {outbound : Outbound}
    (hp : r.resolvePlatform platformName = .ok p)
    (hpick : r.pick p key.userID account target = .ok node) (hup : getOutbound node = some outbound)
    (h : key.allowsPlatform p.id = true) :
    resolveRoutedOutbound r getOutbound platformName account target (some key) =
      .ok (⟨p.id, p.name, node⟩, outbound) := by
  unfold resolveRoutedOutbound checkPlatform Router.routeRequest Router.resolvePlatformID
  simp [hp, hpick, hup, h, ok_bind]

end

end Prism
