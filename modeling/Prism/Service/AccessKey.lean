import Prism.Foundation.Text
import Prism.Keys.Store
import Prism.Service.Helpers
import Prism.State.Account

/-!
# Minting and publishing keys

`internal/service/control_plane_accesskey.go`.  The panel is the state database and the live key
store.  Every change that can affect access ends with `republishUserKeys`, which puts the user's
keys back into the store from the rows; a new key is published by the call that mints it.

Reads do not fail here: a failed publish is reported, and the store is left as it was.
-/

namespace Prism

/-- The state of the panel: what is stored, and what the data plane reads. -/
structure Panel where
  db : Db := {}
  keys : KeyStore := []
  deriving DecidableEq

/-- The subscription that decides about a user's keys. -/
def currentSubscription (db : Db) (userID : String) : Option UserSubscription :=
  decidingSubscription (db.userSubscriptions.filter fun r => r.userID = userID)

/-- The live snapshot of the deciding row; the zero snapshot for a user without any row. -/
def userPlanSnapshot (db : Db) (userID : String) : Except ServiceError PlanSnapshot :=
  match currentSubscription db userID with
  | none => .ok {}
  | some sub =>
    match snapshotFromSubscription sub with
    | none => .error (.internal "read plan snapshot")
    | some snapshot => .ok snapshot

variable {userID : String} {db : Db}

theorem userPlanSnapshot_error {e : ServiceError} (h : userPlanSnapshot db userID = .error e) :
    e = .internal "read plan snapshot" := by
  unfold userPlanSnapshot at h
  split at h
  · cases h
  · split at h
    · exact (Except.error.inj h).symm
    · cases h

/-- Publish an active key, and take back any other. -/
def republishRow (user : User) (snapshot : PlanSnapshot) (s : KeyStore) (row : AccessKey) :
    KeyStore :=
  if row.status ≠ .active then s.delete row.id else s.publish row user snapshot

def republishUserKeys (userID : String) (p : Panel) : Except ServiceError Panel :=
  match p.db.user userID with
  | none => .error (.notFound "user not found")
  | some user => do
    let snapshot ← userPlanSnapshot p.db userID
    .ok { p with keys := (p.db.accessKeysOf userID).foldl (republishRow user snapshot) p.keys }

def publishKey (row : AccessKey) (user : User) (p : Panel) : Except ServiceError Panel :=
  if row.status ≠ .active then .ok { p with keys := p.keys.delete row.id } else do
    let snapshot ← userPlanSnapshot p.db row.userID
    .ok { p with keys := p.keys.publish row user snapshot }

variable {user : User}

theorem get_foldl_republishRow_of_ne {snapshot : PlanSnapshot} {keyID : String} :
    ∀ (rows : List AccessKey) (s : KeyStore), (∀ r ∈ rows, r.id ≠ keyID) →
      (rows.foldl (republishRow user snapshot) s).get keyID = s.get keyID
  | [], _, _ => rfl
  | r :: rows, s, h => by
    rw [List.foldl_cons, get_foldl_republishRow_of_ne rows _ fun t ht => h t (by simp [ht])]
    have hne : keyID ≠ r.id := fun heq => h r (by simp) heq.symm
    unfold republishRow
    split
    · exact KeyStore.get_delete_of_ne s hne
    · exact KeyStore.get_publish_of_ne s hne user snapshot

variable {row : AccessKey}

theorem get_foldl_republishRow {snapshot : PlanSnapshot} (hactive : row.status = .active) :
    ∀ (rows : List AccessKey) (s : KeyStore), row ∈ rows → (rows.map AccessKey.id).Nodup →
      (rows.foldl (republishRow user snapshot) s).get row.id = some (newKeyState row user snapshot)
  | [], _, hmem, _ => nomatch hmem
  | r :: rows, s, hmem, hnd => by
    rw [List.map_cons, List.nodup_cons] at hnd
    rw [List.foldl_cons]
    rcases List.mem_cons.mp hmem with rfl | hmem
    · have hother : ∀ t ∈ rows, t.id ≠ row.id := fun t ht heq =>
        hnd.1 (heq ▸ List.mem_map_of_mem ht)
      rw [get_foldl_republishRow_of_ne rows _ hother, republishRow, if_neg (not_not.mpr hactive)]
      exact KeyStore.get_publish_self s row user snapshot
    · exact get_foldl_republishRow hactive rows _ hmem hnd.2

/-- **What republishing does for one key**: an active key of the user is in the store with the
user's current standing and plan. -/
theorem get_republishUserKeys {p p' : Panel} (h : republishUserKeys userID p = .ok p')
    (hkeys : (p.db.accessKeys.map AccessKey.id).Nodup) (hrow : row ∈ p.db.accessKeys)
    (huser : row.userID = userID) (hactive : row.status = .active) :
    ∃ user snapshot, p.db.user userID = some user ∧ userPlanSnapshot p.db userID = .ok snapshot ∧
      p'.keys.get row.id = some (newKeyState row user snapshot) := by
  unfold republishUserKeys at h
  cases hu : p.db.user userID with
  | none =>
    rw [hu] at h
    cases h
  | some user =>
    rw [hu] at h
    obtain ⟨snapshot, hsnap, h⟩ := bind_eq_ok_iff.mp h
    refine ⟨user, snapshot, rfl, hsnap, ?_⟩
    rw [← Except.ok.inj h]
    refine get_foldl_republishRow hactive _ _ (Db.mem_accessKeysOf.mpr ⟨hrow, huser⟩) ?_
    -- the user's keys are some of all the keys, in another order
    have hperm := List.mergeSort_perm (p.db.accessKeys.filter fun k => k.userID = userID)
      fun j k => decide (j.createdAtNs ≤ k.createdAtNs)
    refine (hperm.map AccessKey.id).nodup_iff.mpr ?_
    exact hkeys.sublist (List.filter_sublist.map AccessKey.id)

theorem republishUserKeys_db {p p' : Panel} (h : republishUserKeys userID p = .ok p') :
    p'.db = p.db := by
  unfold republishUserKeys at h
  split at h
  · cases h
  · obtain ⟨snapshot, -, h⟩ := bind_eq_ok_iff.mp h
    rw [← Except.ok.inj h]

/-! ## Minting -/

/-- One step of the deduplication: trimmed, and kept the first time it comes up. -/
def normalizeStep (result : List String) (value : String) : List String :=
  if trimSpace value = "" ∨ trimSpace value ∈ result then result
  else result ++ [trimSpace value]

/-- Trim the values, drop the empty ones, keep each once. -/
def normalizeStringList (values : List String) : List String :=
  values.foldl normalizeStep []

theorem mem_normalizeStringList {values : List String} {s : String} :
    s ∈ normalizeStringList values ↔ s ≠ "" ∧ ∃ v ∈ values, trimSpace v = s := by
  have key : ∀ (l acc : List String), s ∈ l.foldl normalizeStep acc ↔
      s ∈ acc ∨ (s ≠ "" ∧ ∃ v ∈ l, trimSpace v = s) := by
    intro l
    induction l with
    | nil => intro acc; simp
    | cons v l ih =>
      intro acc
      rw [List.foldl_cons, ih, normalizeStep]
      by_cases hv : trimSpace v = "" ∨ trimSpace v ∈ acc
      · rw [if_pos hv]
        constructor
        · rintro (h | ⟨hs, w, hw, rfl⟩)
          · exact .inl h
          · exact .inr ⟨hs, w, .tail _ hw, rfl⟩
        · rintro (h | ⟨hs, w, hw, rfl⟩)
          · exact .inl h
          · rcases List.mem_cons.mp hw with rfl | hw
            · exact .inl (hv.resolve_left hs)
            · exact .inr ⟨hs, w, hw, rfl⟩
      · rw [if_neg hv]
        rw [not_or] at hv
        constructor
        · rintro (h | ⟨hs, w, hw, rfl⟩)
          · rcases List.mem_append.mp h with h | h
            · exact .inl h
            · rw [List.mem_singleton.mp h]
              exact .inr ⟨hv.1, v, .head _, rfl⟩
          · exact .inr ⟨hs, w, .tail _ hw, rfl⟩
        · rintro (h | ⟨hs, w, hw, rfl⟩)
          · exact .inl (List.mem_append_left _ h)
          · rcases List.mem_cons.mp hw with rfl | hw
            · exact .inl (by simp)
            · exact .inr ⟨hs, w, hw, rfl⟩
  have h := key values []
  simpa [normalizeStringList] using h

structure AccessKeyInput where
  name : String
  platforms : List String := []
  ipAllowlist : List String := []
  expiresInDays : ℤ := 0

/-- The service a key is minted by: whether it holds a pepper, the credential it generates (its id
and the hash of its secret), and how an address or a prefix is brought to its normal form. -/
structure KeyMint where
  hasPepper : Bool
  credential : Option (String × List UInt8)
  normalAddress : String → Option String

/-- The loop of `normalizeIPAllowlist`, from entry `i` on. -/
def normalizeIPAllowlistFrom (normal : String → Option String) :
    ℕ → List String → List String → Except ServiceError (List String)
  | _, [], result => .ok result
  | i, value :: values, result =>
    if trimSpace value = "" then normalizeIPAllowlistFrom normal (i + 1) values result
    else
      match normal (trimSpace value) with
      | none => .error (.invalidArgument
          ("ip_allowlist[" ++ toString i ++ "]: not an address or CIDR prefix"))
      | some a =>
        normalizeIPAllowlistFrom normal (i + 1) values
          (if a ∈ result then result else result ++ [a])

variable (normal : String → Option String)

def normalizeIPAllowlist (values : List String) : Except ServiceError (List String) :=
  normalizeIPAllowlistFrom normal 0 values []

/-- The key limit of the plan in force; without a plan in force no key is minted. -/
def maxKeysForPlan (db : Db) (userID : String) : Except ServiceError ℤ :=
  match currentSubscription db userID with
  | none => .error
      (.conflict "no plan is in force on the account, so a new key cannot be created")
  | some sub =>
    if sub.status ≠ .active then .error
      (.conflict "the account has no subscription in force, so a new key cannot be created")
    else
      match planFromSnapshotJSON sub.planSnapshot with
      | .error _ => .error (.internal "read plan snapshot")
      | .ok plan => .ok plan.maxKeys

def checkKeyAllowance (db : Db) (userID : String) : Except ServiceError Unit := do
  let limit ← maxKeysForPlan db userID
  if limit ≤ 0 then .ok ()
  else if limit ≤ ((db.accessKeysOf userID).countP fun k => k.status = .active) then
    .error (.conflict ("the plan allows at most " ++ toString limit ++ " active keys"))
  else .ok ()

def mintedRow (id : String) (secretHash : List UInt8) (userID : String) (input : AccessKeyInput)
    (allowlist : List String) (nowNs : ℤ) : AccessKey where
  id := id
  userID := userID
  name := trimSpace input.name
  secretHash := secretHash
  platforms := normalizeStringList input.platforms
  ipAllowlist := allowlist
  scope := .proxy
  status := .active
  expiresAtNs := if 0 < input.expiresInDays then expiryFromDays input.expiresInDays nowNs else 0
  lastUsedNs := 0
  createdAtNs := nowNs

/-- The row `CreateAccessKey` mints, after the checks that need no table. -/
def draftKey (mint : KeyMint) (userID : String) (input : AccessKeyInput) (nowNs : ℤ) :
    Except ServiceError AccessKey :=
  if trimSpace input.name = "" then .error (.invalidArgument "name: must not be empty")
  else do
    let allowlist ← normalizeIPAllowlist mint.normalAddress input.ipAllowlist
    if input.expiresInDays < 0 then
      .error (.invalidArgument "expires_in_days: must not be negative")
    else
      match mint.credential with
      | none => .error (.internal "generate credential")
      | some (id, secretHash) => .ok (mintedRow id secretHash userID input allowlist nowNs)

/-- What `CreateAccessKey` does before it writes: the checks in their order, and the row. -/
def keyRequest (mint : KeyMint) (userID : String) (input : AccessKeyInput) (nowNs : ℤ) (db : Db) :
    Except ServiceError (User × AccessKey) :=
  if !mint.hasPepper then
    .error (.internal "no pepper is configured, so access keys cannot be minted")
  else
    match db.user userID with
    | none => .error (.notFound "user not found")
    | some user => do
      let row ← draftKey mint userID input nowNs
      checkKeyAllowance db userID
      .ok (user, row)

/-- Mint a key for one user, and publish it.  The answer is the row; it stays inserted when the
publish fails. -/
def createAccessKey (mint : KeyMint) (io : Faults) (userID : String) (input : AccessKeyInput)
    (nowNs : ℤ) (p : Panel) : Except ServiceError AccessKey × Panel :=
  match keyRequest mint userID input nowNs p.db with
  | .error e => (.error e, p)
  | .ok (user, row) =>
    match insertAccessKey io row p.db with
    | (.error _, db) => (.error (.internal "insert access key"), { p with db := db })
    | (.ok (), db) =>
      match publishKey row user { p with db := db } with
      | .error e => (.error e, { p with db := db })
      | .ok p' => (.ok row, p')

theorem draftKey_eq_ok {mint : KeyMint} {input : AccessKeyInput} {nowNs : ℤ}
    (h : draftKey mint userID input nowNs = .ok row) :
    ∃ id secretHash allowlist, row = mintedRow id secretHash userID input allowlist nowNs := by
  unfold draftKey at h
  split at h
  · cases h
  obtain ⟨allowlist, -, h⟩ := bind_eq_ok_iff.mp h
  split_ifs at h
  split at h
  · cases h
  · exact ⟨_, _, allowlist, (Except.ok.inj h).symm⟩

theorem draftKey_owner {mint : KeyMint} {input : AccessKeyInput} {nowNs : ℤ}
    (h : draftKey mint userID input nowNs = .ok row) : row.userID = userID := by
  obtain ⟨id, secretHash, allowlist, rfl⟩ := draftKey_eq_ok h
  rfl

theorem keyRequest_eq_ok {mint : KeyMint} {input : AccessKeyInput} {nowNs : ℤ}
    (h : keyRequest mint userID input nowNs db = .ok (user, row)) :
    db.user userID = some user ∧ row.userID = userID ∧ row.status = .active ∧
      row.platforms = normalizeStringList input.platforms := by
  unfold keyRequest at h
  split_ifs at h
  cases huser : db.user userID with
  | none =>
    rw [huser] at h
    cases h
  | some user' =>
    rw [huser] at h
    obtain ⟨drafted, hdraft, h⟩ := bind_eq_ok_iff.mp h
    obtain ⟨-, -, h⟩ := bind_eq_ok_iff.mp h
    obtain ⟨id, secretHash, allowlist, rfl⟩ := draftKey_eq_ok hdraft
    cases h
    exact ⟨rfl, rfl, rfl, rfl⟩

theorem userSubscriptions_insertAccessKey (io : Faults) (row : AccessKey) (db : Db) :
    (insertAccessKey io row db).2.userSubscriptions = db.userSubscriptions := by
  rcases insertAccessKey_cases io row db with ⟨e, hfail⟩ | ⟨-, -, hdone⟩
  · rw [hfail]
  · rw [hdone]

/-- **What a minted key looks like in the store**: its own list is the normalised input, and the
plan beside it is the one in force. -/
theorem createAccessKey_eq_ok {mint : KeyMint} {io : Faults} {input : AccessKeyInput} {nowNs : ℤ}
    {p p' : Panel} (h : createAccessKey mint io userID input nowNs p = (.ok row, p')) :
    row.platforms = normalizeStringList input.platforms ∧
      ∃ user snapshot, p.db.user userID = some user ∧ userPlanSnapshot p.db userID = .ok snapshot ∧
        p'.keys.get row.id = some (newKeyState row user snapshot) := by
  unfold createAccessKey at h
  cases hreq : keyRequest mint userID input nowNs p.db with
  | error e =>
    rw [hreq] at h
    exact absurd (Prod.mk.inj h).1 (by simp)
  | ok r =>
    obtain ⟨user, row'⟩ := r
    obtain ⟨huser, hid, hactive, hplat⟩ := keyRequest_eq_ok hreq
    rw [hreq] at h
    simp only at h
    have hsubs := userSubscriptions_insertAccessKey io row' p.db
    cases hins : insertAccessKey io row' p.db with
    | mk answer db =>
      rw [hins] at h hsubs
      cases answer with
      | error e => exact absurd (Prod.mk.inj h).1 (by simp)
      | ok u =>
        simp only at h
        cases hpub : publishKey row' user { p with db := db } with
        | error e =>
          rw [hpub] at h
          exact absurd (Prod.mk.inj h).1 (by simp)
        | ok p'' =>
          rw [hpub] at h
          obtain ⟨hrow, rfl⟩ := Prod.mk.inj h
          cases hrow
          unfold publishKey at hpub
          rw [if_neg (not_not.mpr hactive), hid] at hpub
          obtain ⟨snapshot, hsnap, hpub⟩ := bind_eq_ok_iff.mp hpub
          refine ⟨hplat, user, snapshot, huser, ?_, ?_⟩
          · have hsame : db.userSubscriptions = p.db.userSubscriptions := hsubs
            rw [← hsnap]
            simp only [userPlanSnapshot, currentSubscription, hsame]
          · rw [← Except.ok.inj hpub]
            exact KeyStore.get_publish_self _ _ _ _

/-! ## Changing a key -/

/-- The body of a patch, once it has been decoded and holds no other fields. -/
structure AccessKeyPatch where
  name : Option String := none
  platforms : Option (List String) := none
  ipAllowlist : Option (List String) := none
  status : Option Status := none
  deriving DecidableEq

variable (patch : AccessKeyPatch) (k : AccessKey)

def patchedName : Except ServiceError AccessKey :=
  match patch.name with
  | none => .ok k
  | some name =>
    if trimSpace name = "" then .error (.invalidArgument "name: must be a non-empty string")
    else .ok { k with name := trimSpace name }

def patchedPlatforms : AccessKey :=
  match patch.platforms with
  | none => k
  | some platforms => { k with platforms := normalizeStringList platforms }

def patchedAllowlist : Except ServiceError AccessKey :=
  match patch.ipAllowlist with
  | none => .ok k
  | some values => do
    let allowlist ← normalizeIPAllowlist normal values
    .ok { k with ipAllowlist := allowlist }

def patchedKeyStatus : Except ServiceError AccessKey :=
  match patch.status with
  | none => .ok k
  | some status =>
    if status ≠ .active ∧ status ≠ .disabled then
      .error (.invalidArgument "status: must be active or disabled")
    else .ok { k with status := status }

/-- The key after a patch: name, platforms, addresses and status in this order. -/
def patchedKey : Except ServiceError AccessKey := do
  let k ← patchedName patch k
  let k ← patchedAllowlist normal patch (patchedPlatforms patch k)
  patchedKeyStatus patch k

def lookupUserKey (db : Db) (userID keyID : String) : Except ServiceError AccessKey :=
  match db.accessKey keyID with
  | none => .error (.notFound "access key not found")
  | some row =>
    if row.userID ≠ userID then .error (.notFound "access key not found") else .ok row

theorem lookupUserKey_eq_ok {keyID : String} (h : lookupUserKey db userID keyID = .ok row) :
    db.accessKey keyID = some row ∧ row.id = keyID ∧ row.userID = userID := by
  unfold lookupUserKey at h
  split at h
  · cases h
  rename_i found hfound
  split_ifs at h with howner
  rw [← Except.ok.inj h]
  exact ⟨hfound, Table.key_of_lookup hfound, not_not.mp howner⟩

theorem patchedKey_eq_ok {normal : String → Option String} {patch : AccessKeyPatch}
    {k k' : AccessKey} (h : patchedKey normal patch k = .ok k') :
    k'.id = k.id ∧ k'.userID = k.userID ∧ k'.secretHash = k.secretHash ∧ k'.scope = k.scope ∧
      k'.expiresAtNs = k.expiresAtNs ∧ k'.createdAtNs = k.createdAtNs ∧
      k'.status = patch.status.getD k.status := by
  obtain ⟨k1, h1, h⟩ := bind_eq_ok_iff.mp h
  obtain ⟨k2, h2, h⟩ := bind_eq_ok_iff.mp h
  have hname : ∃ name, k1 = { k with name := name } := by
    unfold patchedName at h1
    split at h1
    · exact ⟨k.name, (Except.ok.inj h1).symm⟩
    · split at h1
      · cases h1
      · exact ⟨_, (Except.ok.inj h1).symm⟩
  have hlists : ∃ platforms allowlist,
      k2 = { k1 with platforms := platforms, ipAllowlist := allowlist } := by
    have hplatforms : ∃ platforms, patchedPlatforms patch k1 = { k1 with platforms := platforms } := by
      unfold patchedPlatforms
      split
      · exact ⟨k1.platforms, rfl⟩
      · exact ⟨_, rfl⟩
    obtain ⟨platforms, hplatforms⟩ := hplatforms
    unfold patchedAllowlist at h2
    split at h2
    · exact ⟨platforms, k1.ipAllowlist, (Except.ok.inj h2).symm.trans hplatforms⟩
    · obtain ⟨allowlist, -, h2⟩ := bind_eq_ok_iff.mp h2
      exact ⟨platforms, allowlist, by rw [← Except.ok.inj h2, hplatforms]⟩
  obtain ⟨name, rfl⟩ := hname
  obtain ⟨platforms, allowlist, rfl⟩ := hlists
  unfold patchedKeyStatus at h
  split at h
  · rename_i hnone
    rw [← Except.ok.inj h, hnone]
    exact ⟨rfl, rfl, rfl, rfl, rfl, rfl, rfl⟩
  · rename_i status hsome
    split_ifs at h
    rw [← Except.ok.inj h, hsome]
    exact ⟨rfl, rfl, rfl, rfl, rfl, rfl, rfl⟩

end Prism
