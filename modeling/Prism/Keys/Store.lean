import Prism.Foundation.Table
import Prism.Model.Tenant
import Mathlib.Data.String.Basic

/-!
# The live key store

`internal/keys`.  The data plane never reads the database: it reads one immutable snapshot a key,
published when the key, its owner or the owner's plan changes.  This file has the snapshot, the two
decisions made on it (`usable`, `allowsPlatform`), how it is built from the rows, and the rule that
picks the subscription row that decides a user's access.

The allowlist of source addresses is left out: nothing modelled here reads it.
-/

namespace Prism

open Table

/-- The part of a plan that decides whether a request is allowed.  The zero value is "no plan". -/
structure PlanSnapshot where
  platforms : List String := []
  ipTiers : List String := []
  trafficBytes : ℤ := 0
  maxConcurrent : ℤ := 0
  maxRPS : ℤ := 0
  maxBandwidthBps : ℤ := 0
  expiresAtNs : ℤ := 0
  status : Status := .unset
  deriving DecidableEq

structure KeyState where
  keyID : String
  userID : String
  secretHash : List UInt8
  scope : KeyScope
  status : Status
  expiresAtNs : ℤ
  platforms : List String
  userStatus : Status
  userRole : Role
  plan : PlanSnapshot
  deriving DecidableEq

namespace KeyState

/-- May the key be used at all: key, user and plan active, key and plan unexpired. -/
def usable (k : KeyState) (nowNs : ℤ) : Bool :=
  k.status = .active && !(decide (0 < k.expiresAtNs) && decide (k.expiresAtNs ≤ nowNs)) &&
    k.userStatus = .active && (k.plan.status = .unset || k.plan.status = .active) &&
    !(decide (0 < k.plan.expiresAtNs) && decide (k.plan.expiresAtNs ≤ nowNs))

/-- The platform restriction that applies: the key's own list when it sets one, otherwise the
plan's. -/
def effectivePlatforms (k : KeyState) : List String :=
  if k.platforms = [] then k.plan.platforms else k.platforms

/-- May the key reach the platform?  An empty effective set allows every platform. -/
def allowsPlatform (k : KeyState) (platformID : String) : Bool :=
  k.effectivePlatforms = [] || k.effectivePlatforms.contains platformID

theorem usable_iff {k : KeyState} {nowNs : ℤ} : k.usable nowNs = true ↔
      k.status = .active ∧ (0 < k.expiresAtNs → nowNs < k.expiresAtNs) ∧
        k.userStatus = .active ∧ (k.plan.status = .unset ∨ k.plan.status = .active) ∧
        (0 < k.plan.expiresAtNs → nowNs < k.plan.expiresAtNs) := by
  unfold usable
  simp only [Bool.and_eq_true, decide_eq_true_eq, Bool.not_eq_true', Bool.and_eq_false_imp,
    decide_eq_false_iff_not, not_le, Bool.or_eq_true, and_assoc]

theorem allowsPlatform_iff {k : KeyState} {platformID : String} :
    k.allowsPlatform platformID = true ↔
      k.effectivePlatforms = [] ∨ platformID ∈ k.effectivePlatforms := by
  unfold allowsPlatform
  simp

end KeyState

def newKeyState (key : AccessKey) (user : User) (plan : PlanSnapshot) : KeyState where
  keyID := key.id
  userID := key.userID
  secretHash := key.secretHash
  scope := key.scope
  status := key.status
  expiresAtNs := key.expiresAtNs
  platforms := key.platforms
  userStatus := user.status
  userRole := user.role
  plan := plan

/-- The published keys. -/
abbrev KeyStore := List KeyState

namespace KeyStore

def get (s : KeyStore) (keyID : String) : Option KeyState :=
  lookup KeyState.keyID keyID s

def publish (s : KeyStore) (key : AccessKey) (user : User) (plan : PlanSnapshot) : KeyStore :=
  upsertWith KeyState.keyID (fun _ row => row) (newKeyState key user plan) s

def delete (s : KeyStore) (keyID : String) : KeyStore :=
  s.filter fun k => k.keyID ≠ keyID

variable (s : KeyStore)

theorem get_publish_self (key : AccessKey) (user : User) (plan : PlanSnapshot) :
    (s.publish key user plan).get key.id = some (newKeyState key user plan) := by
  unfold get publish
  rw [lookup_replace]
  exact if_pos rfl

theorem get_publish_of_ne {key : AccessKey} {keyID : String} (h : keyID ≠ key.id) (user : User)
    (plan : PlanSnapshot) : (s.publish key user plan).get keyID = s.get keyID := by
  unfold get publish
  rw [lookup_replace]
  exact if_neg h

theorem get_delete_self (keyID : String) : (s.delete keyID).get keyID = none := by
  unfold get delete
  rw [lookup_filter_ne, if_pos rfl]

theorem get_delete_of_ne {deleted keyID : String} (h : keyID ≠ deleted) :
    (s.delete deleted).get keyID = s.get keyID := by
  unfold get delete
  rw [lookup_filter_ne, if_neg h]

end KeyStore

/-- The live snapshot of a subscription.  The plan gives the quotas and the platform set, the
subscription the window; a subscription that is not active puts its own status in front. -/
def snapshotForPlan (sub : UserSubscription) (plan : Option Plan) : PlanSnapshot :=
  let snap : PlanSnapshot :=
    match plan with
    | none => {}
    | some p =>
      { platforms := p.platforms
        ipTiers := p.ipTiers
        trafficBytes := p.trafficBytes
        maxConcurrent := p.maxConcurrent
        maxRPS := p.maxRPS
        maxBandwidthBps := p.maxBandwidthBps
        status := p.status }
  { snap with
    expiresAtNs := sub.expiresAtNs
    status := if sub.status = .active then snap.status else sub.status }

/-- The live snapshot read out of the row alone; an unreadable text is an error. -/
def snapshotFromSubscription (sub : UserSubscription) : Option PlanSnapshot :=
  match sub.planSnapshot with
  | .blank _ => some (snapshotForPlan sub none)
  | .unreadable _ => none
  | .plan p => some (snapshotForPlan sub (some p))

/-- Of two rows of one standing: the later expiry, then the later start, then the larger id. -/
def newerSubscription (a b : UserSubscription) : Bool :=
  if a.expiresAtNs ≠ b.expiresAtNs then b.expiresAtNs < a.expiresAtNs
  else if a.startsAtNs ≠ b.startsAtNs then b.startsAtNs < a.startsAtNs
  else b.id < a.id

/-- One turn of the loop: does the candidate take over from the best row so far? -/
def deciding (best candidate : UserSubscription) : UserSubscription :=
  if (candidate.status = .active) = (best.status = .active) then
    if newerSubscription candidate best then candidate else best
  else if candidate.status = .active then candidate else best

/-- The row that decides a user's access: an active one first, otherwise the newest. -/
def decidingSubscription : List UserSubscription → Option UserSubscription
  | [] => none
  | sub :: subs => some (subs.foldl deciding sub)

theorem deciding_eq_or (best candidate : UserSubscription) :
    deciding best candidate = best ∨ deciding best candidate = candidate := by
  unfold deciding
  split_ifs <;> simp

theorem foldl_deciding_of_only_active {s : UserSubscription} (hs : s.status = .active) :
    ∀ (subs : List UserSubscription) (best : UserSubscription),
      (∀ r ∈ best :: subs, r.status = .active → r = s) → s ∈ best :: subs →
      subs.foldl deciding best = s
  | [], best, _, hmem => (List.mem_singleton.mp hmem).symm
  | r :: subs, best, honly, hmem => by
    refine foldl_deciding_of_only_active hs subs (deciding best r) ?_ ?_
    · intro t ht hactive
      rcases List.mem_cons.mp ht with rfl | ht
      · rcases deciding_eq_or best r with h | h <;> exact honly _ (by rw [h]; simp) hactive
      · exact honly t (by simp [ht]) hactive
    · rcases List.mem_cons.mp hmem with rfl | hmem
      · -- the active row is the best so far, and stays it
        have hkeep : deciding s r = s := by
          by_cases hr : r.status = .active
          · rw [honly r (by simp) hr]
            unfold deciding
            split_ifs <;> rfl
          · unfold deciding
            rw [if_neg (by simp [hr, hs]), if_neg hr]
        rw [hkeep]
        exact .head _
      · rcases List.mem_cons.mp hmem with rfl | hmem
        · -- the active row comes up now, and takes over
          have htake : deciding best s = s := by
            by_cases hb : best.status = .active
            · rw [honly best (by simp) hb]
              unfold deciding
              split_ifs <;> rfl
            · unfold deciding
              rw [if_neg (by simp [hb, hs]), if_pos hs]
          rw [htake]
          exact .head _
        · exact .tail _ hmem

theorem decidingSubscription_of_only_active {s : UserSubscription} {subs : List UserSubscription}
    (hs : s.status = .active) (hmem : s ∈ subs)
    (honly : ∀ r ∈ subs, r.status = .active → r = s) : decidingSubscription subs = some s := by
  cases subs with
  | nil => cases hmem
  | cons r subs =>
    exact congrArg some (foldl_deciding_of_only_active hs subs r honly hmem)

end Prism
