import Mathlib.Algebra.Ring.Int.Defs

/-!
# The rows of the multi-tenant panel

The records of `internal/model/user.go`.  Amounts are signed counts of micro-units of USDT and
instants are nanoseconds; both are `int64` columns, carried here as integers, and the two places
where the code looks at the width (`expiryFromDays`, `toMicro`) do so explicitly.

Statuses are strings in the source and are compared across tables: a key state takes its plan
status from a plan or from a subscription, and the data plane compares it with the one text
`active`.  So there is one type for all of them, `Status`, with `other` for a text no table admits.

The plan snapshot of a subscription is a JSON text.  What the code can tell about such a text is
whether it is blank, whether it decodes, and to which plan; `SnapshotText` is that.
-/

namespace Prism

def maxInt64 : ℤ := 2 ^ 63 - 1

/-- The status texts of users, plans, subscriptions, keys and codes. -/
inductive Status where
  /-- the empty string -/
  | unset
  | active
  | disabled
  | expired
  | suspended
  | other (raw : String)
  deriving DecidableEq

/-- `CHECK (status IN ('active', 'expired', 'suspended'))`. -/
def Status.isSubscriptionStatus : Status → Bool
  | .active | .expired | .suspended => true
  | _ => false

/-- `CHECK (status IN ('active', 'disabled'))`, on users and on access keys. -/
def Status.isAccountStatus : Status → Bool
  | .active | .disabled => true
  | _ => false

inductive Role where
  | admin
  | user
  | other (raw : String)
  deriving DecidableEq

/-- `CHECK (role IN ('admin', 'user'))`. -/
def Role.isKnown : Role → Bool
  | .admin | .user => true
  | .other _ => false

inductive KeyScope where
  /-- the empty string -/
  | unset
  | proxy
  | admin
  | other (raw : String)
  deriving DecidableEq

/-- `CHECK (scope IN ('proxy', 'admin'))`. -/
def KeyScope.isKnown : KeyScope → Bool
  | .proxy | .admin => true
  | _ => false

inductive DepositStatus where
  | pending
  | unpaid
  | paid
  | released
  deriving DecidableEq

/-- Only pending and unpaid intents hold their amount. -/
def DepositStatus.holds : DepositStatus → Bool
  | .pending | .unpaid => true
  | _ => false

inductive BalanceReason where
  | redeem
  | purchase
  | renew
  | adminAdjust
  | refund
  | deposit
  | other (raw : String)
  deriving DecidableEq

/-- A row of the plans. -/
structure Plan where
  id : String := ""
  name : String := ""
  platforms : List String := []
  ipTiers : List String := []
  trafficBytes : ℤ := 0
  period : String := ""
  maxConcurrent : ℤ := 0
  maxRPS : ℤ := 0
  maxBandwidthBps : ℤ := 0
  maxKeys : ℤ := 0
  durationDays : ℤ := 0
  priceMicro : ℤ := 0
  status : Status := .unset
  createdAtNs : ℤ := 0
  updatedAtNs : ℤ := 0
  deriving DecidableEq

/-- The text a subscription carries its plan in. -/
inductive SnapshotText where
  /-- nothing but white space; `raw` is empty for the empty string -/
  | blank (raw : String)
  /-- a text that does not decode -/
  | unreadable (raw : String)
  /-- a text that decodes to the plan, such as the one `MarshalPlanSnapshot` renders of it -/
  | plan (p : Plan)
  deriving DecidableEq

/-- The text `{}`: it decodes to the zero plan. -/
def SnapshotText.emptyObject : SnapshotText := .plan {}

/-- One user on one plan for a time window.  An empty `planID` is the SQL null a deleted plan
leaves behind. -/
structure UserSubscription where
  id : String := ""
  userID : String := ""
  planID : String := ""
  planSnapshot : SnapshotText := .blank ""
  startsAtNs : ℤ := 0
  expiresAtNs : ℤ := 0
  periodStartNs : ℤ := 0
  periodUsedBytes : ℤ := 0
  autoRenew : Bool := false
  periodIndex : ℤ := 0
  status : Status := .unset
  deriving DecidableEq

/-- An account, as far as money and access read it. -/
structure User where
  id : String
  username : String
  role : Role
  status : Status
  passwordHash : String := ""
  /-- the sealed second factor; empty without one -/
  totpSecretEnc : List UInt8 := []
  /-- the start of the last step of the second factor that was spent -/
  totpLastUsedNs : ℤ := 0
  lastLoginNs : ℤ := 0
  deriving DecidableEq

/-- The customer of the sample worlds. -/
def User.customer : User := { id := "u", username := "customer", role := .user, status := .active }

/-- A console session.  Only the hash of its id is stored. -/
structure Session where
  idHash : String
  userID : String
  createdAtNs : ℤ
  expiresAtNs : ℤ
  ip : String := ""
  ua : String := ""
  deriving DecidableEq

/-- A credential.  Only the hash of its secret is stored. -/
structure AccessKey where
  id : String
  userID : String
  name : String
  secretHash : List UInt8
  platforms : List String
  ipAllowlist : List String
  scope : KeyScope
  status : Status
  expiresAtNs : ℤ
  lastUsedNs : ℤ
  createdAtNs : ℤ
  deriving DecidableEq

/-- The balance of a user, as it is cached. -/
structure BalanceRow where
  userID : String
  balanceMicro : ℤ
  updatedAtNs : ℤ
  deriving DecidableEq

/-- One movement of money, as the ledger stores it. -/
structure BalanceEntry where
  id : String := ""
  userID : String := ""
  deltaMicro : ℤ := 0
  balanceAfterMicro : ℤ := 0
  reason : BalanceReason := .other ""
  refID : String := ""
  requestID : String := ""
  note : String := ""
  actor : String := ""
  createdAtNs : ℤ := 0
  deriving DecidableEq

structure RedeemCode where
  id : String
  codeHash : List UInt8
  codeHint : String
  amountMicro : ℤ
  maxUses : ℤ
  usedCount : ℤ
  expiresAtNs : ℤ
  note : String
  status : Status
  createdBy : String
  createdAtNs : ℤ
  updatedAtNs : ℤ
  deriving DecidableEq

/-- A request to top up by an amount nobody else is holding. -/
structure DepositIntent where
  id : String
  userID : String
  amountMicro : ℤ
  status : DepositStatus
  txID : String
  createdAtNs : ℤ
  expiresAtNs : ℤ
  holdUntilNs : ℤ
  paidAtNs : ℤ
  deriving DecidableEq

structure CursorRow where
  name : String
  watermarkMs : ℤ
  updatedAtNs : ℤ
  deriving DecidableEq

end Prism
