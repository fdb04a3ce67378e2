import Prism.Service.AccessKey

/-!
# Plans as the console takes them

The parts of `internal/service/control_plane_plan.go` that read nothing: what a body for a change to
a plan is turned into, and the rules a plan has to satisfy whichever way it came.

The vocabularies of the address tiers belong to the quality model of the nodes; a check of a tier is
a parameter here.
-/

namespace Prism

/-- `strconv.Atoi`, as far as its value is compared with a bound. -/
def atoi : List Char → Option ℤ
  | '+' :: digits => if digits = [] ∨ !digits.all isDigit then none else some (natOfDigits digits)
  | '-' :: digits => if digits = [] ∨ !digits.all isDigit then none else some (-natOfDigits digits)
  | digits => if digits = [] ∨ !digits.all isDigit then none else some (natOfDigits digits)

def maxExpiryDays : ℤ := 36500

def normalizePlanPeriod (period : String) : String := toLower (trimSpace period)

def validPlanPeriod (period : String) : Bool :=
  let normalized := normalizePlanPeriod period
  if normalized ∈ ["", "month", "day", "week", "once"] then true
  else
    let digits := trimSuffix normalized 'd'
    if digits = "" ∨ digits = normalized then false
    else (atoi digits.toList).any fun days => 0 < days && days ≤ maxExpiryDays

def defaultPlanPeriod (period : String) : String :=
  if normalizePlanPeriod period = "" then "30d" else normalizePlanPeriod period

/-- The cap of a price, `maxBalanceMicro`. -/
def maxPriceMicro : ℤ := 1000000 * 1000000

/-- What is wrong with an address tier, if anything. -/
abbrev TierCheck := String → Option String

def validateTiersFrom (check : TierCheck) : ℕ → List String → Except ServiceError Unit
  | _, [] => .ok ()
  | i, tier :: tiers =>
    if ':' ∉ tier.toList then .error (.invalidArgument
      ("ip_tiers[" ++ toString i ++ "]: must be \"ip_type:purity_band\""))
    else
      match check tier with
      | some text => .error (.invalidArgument ("ip_tiers[" ++ toString i ++ "]: " ++ text))
      | none => validateTiersFrom check (i + 1) tiers

def validatePlan (check : TierCheck) (plan : Plan) : Except ServiceError Unit :=
  if trimSpace plan.name = "" then .error (.invalidArgument "name: must not be empty")
  else if plan.durationDays ≤ 0 then
    .error (.invalidArgument "duration_days: must be greater than zero")
  else if maxExpiryDays < plan.durationDays then
    .error (.invalidArgument "duration_days: must not exceed 36500 (100 years)")
  else if plan.status ≠ .unset ∧ plan.status ≠ .active ∧ plan.status ≠ .disabled then
    .error (.invalidArgument "status: must be active or disabled")
  else if plan.trafficBytes < 0 ∨ plan.maxBandwidthBps < 0 then
    .error (.invalidArgument "traffic_bytes and max_bandwidth_bps: must not be negative")
  else if plan.maxConcurrent < 0 ∨ plan.maxRPS < 0 ∨ plan.maxKeys < 0 then
    .error (.invalidArgument "max_concurrent, max_rps and max_keys: must not be negative")
  else if plan.priceMicro < 0 then .error (.invalidArgument "price_micro: must not be negative")
  else if maxPriceMicro < plan.priceMicro then
    .error (.invalidArgument "price_micro: the amount is out of range")
  else if !validPlanPeriod plan.period then .error (.invalidArgument
    "period: must be month, week, day, once or a number of days such as 30d")
  else validateTiersFrom check 0 plan.ipTiers

/-- The accepted body of a change: every field of a plan may be set, and `apply_to_existing` says
whether the change reaches those already on the plan. -/
structure PlanPatch where
  name : Option String := none
  platforms : Option (List String) := none
  ipTiers : Option (List String) := none
  trafficBytes : Option ℤ := none
  period : Option String := none
  maxConcurrent : Option ℤ := none
  maxRPS : Option ℤ := none
  maxBandwidthBps : Option ℤ := none
  maxKeys : Option ℤ := none
  durationDays : Option ℤ := none
  priceMicro : Option ℤ := none
  status : Option Status := none
  applyToExisting : Option Bool := none
  deriving DecidableEq

/-- The plan after a change.  A name that is set must not be blank; the lists are taken as they
are. -/
def patchedPlan (patch : PlanPatch) (plan : Plan) (nowNs : ℤ) : Except ServiceError Plan :=
  if patch.name.any fun name => trimSpace name = "" then
    .error (.invalidArgument "name: must be a non-empty string")
  else .ok { plan with
    name := (patch.name.map trimSpace).getD plan.name
    platforms := patch.platforms.getD plan.platforms
    ipTiers := patch.ipTiers.getD plan.ipTiers
    trafficBytes := patch.trafficBytes.getD plan.trafficBytes
    period := (patch.period.map normalizePlanPeriod).getD plan.period
    maxConcurrent := patch.maxConcurrent.getD plan.maxConcurrent
    maxRPS := patch.maxRPS.getD plan.maxRPS
    maxBandwidthBps := patch.maxBandwidthBps.getD plan.maxBandwidthBps
    maxKeys := patch.maxKeys.getD plan.maxKeys
    durationDays := patch.durationDays.getD plan.durationDays
    priceMicro := patch.priceMicro.getD plan.priceMicro
    status := patch.status.getD plan.status
    updatedAtNs := nowNs }

theorem patchedPlan_eq_ok {patch : PlanPatch} {plan updated : Plan} {nowNs : ℤ}
    (h : patchedPlan patch plan nowNs = .ok updated) :
    updated.id = plan.id ∧ updated.status = patch.status.getD plan.status := by
  unfold patchedPlan at h
  split_ifs at h
  rw [← Except.ok.inj h]
  exact ⟨rfl, rfl⟩

def mapPlanWriteError : RepoError → ServiceError
  | .conflict _ => .conflict "a plan with that name already exists"
  | _ => .internal "write plan"

end Prism
