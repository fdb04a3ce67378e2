import Prism.Console.AccessKey

/-!
# How many keys an account holds

A plan may limit the active keys of an account.  A creation counts them and inserts the new one under
`keyCreateMu`, so that two creations cannot both take the last place.  A place is taken from the
moment the count has found room (`creating`), and given back or filled by the insert.

But a key can also become active without being created: an update writes back the row it has read,
status and all.  It may switch a disabled key on, on request, or undo somebody else's switch-off
with a copy that is out of date; either way nobody counts.
-/

namespace Prism

open Table
open Hist (did_state did_trace)

/-- The active keys of the account. -/
def activeKeys (userID : String) (db : Db) : ℕ :=
  db.accessKeys.countP fun k => k.userID = userID && k.status = .active

variable (userID : String) (db : Db)

theorem countActive_accessKeysOf :
    Console.countActive (db.accessKeysOf userID) = activeKeys userID db := by
  unfold Console.countActive Db.accessKeysOf activeKeys
  rw [(List.mergeSort_perm ..).countP_eq, List.countP_filter]
  refine List.countP_congr fun k _ => ?_
  rw [Bool.and_comm]

/-- A creation under way: the count has found room, and the key is not inserted yet. -/
def creating (userID : String) : ServerEvent → Option Bool
  | .keysCounted v room => if v = userID ∧ room = true then some true else none
  | .keyInserted v _ _ => if v = userID then some false else none
  | _ => none

/-- A place is taken by an active key, or by a creation that has found room for one. -/
def placesTaken (userID : String) (h : History) : ℕ :=
  activeKeys userID h.state.db + (openBy (creating userID) h.trace).length

/-- The write turns an inactive key into an active one. -/
def switchesOn (before after : Option AccessKey) : Bool :=
  before.any (fun k => k.status ≠ .active) && after.any fun k => k.status = .active

/-- A key is switched on only while a place is free. -/
def RoomToEnable (userID : String) (limit : ℤ) (h : History) (_ : ℕ) : ServerEvent → Prop
  | .keyWritten _ before after => switchesOn before after = true → placesTaken userID h < limit
  | _ => True

instance (userID : String) (limit : ℤ) (h : History) (i : ℕ) (e : ServerEvent) :
    Decidable (RoomToEnable userID limit h i e) := by
  unfold RoomToEnable
  split <;> infer_instance

/-! ## What the writes do to the count -/

theorem activeKeys_insert (k : AccessKey) :
    activeKeys userID { db with accessKeys := db.accessKeys ++ [k] } ≤ activeKeys userID db + 1 := by
  unfold activeKeys
  rw [List.countP_append]
  exact Nat.add_le_add_left List.countP_le_length _

theorem activeKeys_delete (id : String) :
    activeKeys userID (db.deleteAccessKey id) ≤ activeKeys userID db :=
  List.Sublist.countP_le List.filter_sublist

theorem activeKeys_write {db : Db} (k : AccessKey) (id : String)
    (hids : KeysNodup AccessKey.id db.accessKeys) {db' : Db} (hdb' : db' = { db with
      accessKeys := updateWhere (fun r => r.id = id) (Db.keptKey k) db.accessKeys }) :
    activeKeys userID db' ≤ activeKeys userID db +
      if switchesOn (db.accessKey id) (db'.accessKey id) = true then 1 else 0 := by
  have hle := countP_updateWhere_le AccessKey.id (f := Db.keptKey k)
    (q := fun k => decide (k.userID = userID) && decide (k.status = .active)) hids id
  have hafter : db'.accessKey id = (db.accessKey id).map fun r =>
      if decide (r.id = id) then Db.keptKey k r else r := by
    rw [hdb']
    refine lookup_updateWhere AccessKey.id ?_ id db.accessKeys
    intro r _
    rfl
  have hon : (lookup AccessKey.id id db.accessKeys).any (fun r =>
      !(decide (r.userID = userID) && decide (r.status = .active)) &&
        (decide ((Db.keptKey k r).userID = userID) && decide ((Db.keptKey k r).status = .active))) =
        true → switchesOn (db.accessKey id) (db'.accessKey id) = true := by
    intro hany
    obtain ⟨r, hr, hcount⟩ := (Option.any_eq_true ..).mp hany
    have hid : r.id = id := key_of_lookup hr
    have hread : db.accessKey id = some r := hr
    rw [hafter, hread]
    have howner : (Db.keptKey k r).userID = r.userID := rfl
    simp only [howner, Bool.and_eq_true, Bool.not_eq_true', Bool.and_eq_false_iff,
      decide_eq_true_eq, decide_eq_false_iff_not] at hcount
    obtain ⟨hbefore, howns, hactive⟩ := hcount
    have hstatus : r.status ≠ .active := hbefore.resolve_left fun hne => hne howns
    simp [switchesOn, hid, hstatus, hactive]
  rw [hdb'] at hon ⊢
  refine hle.trans (Nat.add_le_add_left ?_ _)
  split
  · rename_i hany
    rw [if_pos (hon hany)]
  · exact Nat.zero_le _

/-! ## The discipline -/

section

variable (userID : String) (limit : ℤ) (subs : List UserSubscription)

/-- **The limit holds**, creations under way included; those are the business of whoever holds the
mutex. -/
structure WithinAllowance (h : History) : Prop where
  subs : h.state.db.userSubscriptions = subs
  ids : KeysNodup AccessKey.id h.state.db.accessKeys
  bound : placesTaken userID h ≤ limit
  holding : ∀ i ∈ openBy (creating userID) h.trace, h.holder .keyCreate = some i

/-- Places are within the limit, and the creation mutex stays with its holder. -/
def allowance : Discipline Server ServerEvent Mutex where
  inv := WithinAllowance userID limit subs
  may := RoomToEnable userID limit
  rely i h h' := own i h'.trace = own i h.trace ∧
    (h.holder .keyCreate = some i → h'.holder .keyCreate = some i)
  rely_refl _ _ := ⟨rfl, id⟩
  rely_trans h₁ h₂ := ⟨h₂.1.trans h₁.1, fun hh => h₂.2 (h₁.2 hh)⟩

end

section Steps

variable {userID : String} {limit : ℤ} {subs : List UserSubscription} {i : ℕ} {h k : History}
  {e : ServerEvent} {s : Server}

theorem allowance_did (hinv : WithinAllowance userID limit subs (h.did i e s)) :
    (allowance userID limit subs).Keeps i h (h.did i e s) :=
  ⟨hinv, fun _ hj => ⟨own_cons_of_ne (Ne.symm hj) _ _, id⟩⟩

section

variable (hinv : WithinAllowance userID limit subs h)

include hinv

theorem WithinAllowance.did (he : creating userID e = none)
    (hsubs : s.db.userSubscriptions = h.state.db.userSubscriptions)
    (hids : KeysNodup AccessKey.id s.db.accessKeys)
    (hbound : activeKeys userID s.db + (openBy (creating userID) h.trace).length ≤ limit) :
    WithinAllowance userID limit subs (h.did i e s) := by
  refine ⟨hsubs.trans hinv.subs, hids, ?_, ?_⟩
  · unfold placesTaken
    rw [did_trace, openBy_other _ _ he, did_state]
    exact_mod_cast hbound
  · rw [did_trace, openBy_other _ _ he]
    exact hinv.holding

theorem WithinAllowance.calm (he : creating userID e = none) (hdb : s.db = h.state.db) :
    WithinAllowance userID limit subs (h.did i e s) := by
  refine hinv.did he (by rw [hdb]) (by rw [hdb]; exact hinv.ids) ?_
  have hbound := hinv.bound
  rw [hdb]
  exact_mod_cast hbound

theorem allowance_acquire (hfree : h.holder .keyCreate = none) :
    (allowance userID limit subs).Keeps i h (h.acquire i .keyCreate) := by
  constructor
  · refine ⟨hinv.subs, hinv.ids, hinv.bound, fun j hj => ?_⟩
    cases hfree.symm.trans (hinv.holding j hj)
  · refine fun j _ => ⟨rfl, fun hh => ?_⟩
    cases hfree.symm.trans hh

theorem allowance_release (hhold : h.holder .keyCreate = some i)
    (hdone : i ∉ openBy (creating userID) h.trace) :
    (allowance userID limit subs).Keeps i h (h.release .keyCreate) := by
  constructor
  · refine ⟨hinv.subs, hinv.ids, hinv.bound, fun j hj => ?_⟩
    exact absurd (Hist.holder_unique hhold (hinv.holding j hj) ▸ hj) hdone
  · refine fun j hj => ⟨rfl, fun hh => ?_⟩
    exact absurd (Hist.holder_unique hhold hh) hj

theorem allowance_calm (he : creating userID e = none) (hdb : s.db = h.state.db) :
    (allowance userID limit subs).Keeps i h (h.did i e s) :=
  allowance_did (hinv.calm he hdb)

end

theorem safe_publication {α : Type} {A : α → Prop} {prog : Task α}
    (hsteps : prog.Steps Publishing A) :
    (allowance userID limit subs).Tame i prog h := by
  refine (Discipline.Safe.of_steps (P := fun _ => True) ?_ (fun _ _ _ _ _ => trivial) hsteps
    trivial).mono fun _ _ _ _ => trivial
  intro k e s hinv _ _ ⟨hdb, _, he⟩
  refine ⟨allowance_calm hinv ?_ hdb, trivial⟩
  cases e with
  | keysCounted | keyInserted => cases he
  | _ => rfl

/-! ## The requests -/

theorem WithinAllowance.insert (hinv : WithinAllowance userID limit subs h)
    (htaken : i ∈ openBy (creating userID) h.trace) {row : AccessKey} (howner : row.userID = userID)
    (io : Faults) {a : Except RepoError Unit} {db : Db}
    (hrun : insertAccessKey io row h.state.db = (a, db)) (done : Bool) :
    WithinAllowance userID limit subs
      (h.did i (.keyInserted row.userID row.id done) { h.state with db := db }) := by
  have he : creating userID (.keyInserted row.userID row.id done) = some false := by
    simp [creating, howner]
  have hshorter : ((openBy (creating userID) h.trace).filter fun j => j ≠ i).length + 1 ≤
      (openBy (creating userID) h.trace).length :=
    List.length_filter_lt_length_iff_exists.mpr ⟨i, htaken, by simp⟩
  have hbound := hinv.bound
  unfold placesTaken at hbound
  have hrest : ∀ j ∈ (openBy (creating userID) h.trace).filter fun j => j ≠ i,
      h.holder .keyCreate = some j :=
    fun j hj => hinv.holding j (List.mem_filter.mp hj).1
  rcases insertAccessKey_cases io row h.state.db with ⟨e, hfail⟩ | ⟨hfresh, -, hdone⟩
  · cases hrun.symm.trans hfail
    refine ⟨hinv.subs, hinv.ids, ?_, ?_⟩
    · unfold placesTaken
      rw [did_trace, openBy_end _ _ he, did_state]
      simp only
      omega
    · rw [did_trace, openBy_end _ _ he]
      exact hrest
  · cases hrun.symm.trans hdone
    have hcount := activeKeys_insert userID h.state.db (normalizeAccessKey row)
    refine ⟨hinv.subs, keysNodup_append_singleton hinv.ids hfresh, ?_, ?_⟩
    · unfold placesTaken
      rw [did_trace, openBy_end _ _ he, did_state]
      simp only
      omega
    · rw [did_trace, openBy_end _ _ he]
      exact hrest

theorem WithinAllowance.count (hinv : WithinAllowance userID limit subs h)
    (hhold : h.holder .keyCreate = some i) (hidle : i ∉ openBy (creating userID) h.trace)
    {room : Bool} (hroom : room = true → activeKeys userID h.state.db < limit) :
    WithinAllowance userID limit subs (h.did i (.keysCounted userID room) h.state) := by
  cases room with
  | false => exact hinv.calm (by simp [creating]) rfl
  | true =>
    have he : creating userID (.keysCounted userID true) = some true := by simp [creating]
    -- nobody else is creating: it would hold the mutex
    have hnone : openBy (creating userID) h.trace = [] := by
      refine List.eq_nil_iff_forall_not_mem.mpr fun j hj => ?_
      exact hidle (Hist.holder_unique hhold (hinv.holding j hj) ▸ hj)
    refine ⟨hinv.subs, hinv.ids, ?_, ?_⟩
    · unfold placesTaken
      rw [did_trace, openBy_begin _ _ he, hnone, did_state, List.length_singleton]
      have hlt := hroom rfl
      omega
    · rw [did_trace, openBy_begin _ _ he, hnone]
      intro j hj
      rw [List.mem_singleton.mp hj]
      exact hhold

section

variable (hlimit : 0 < limit)
  (hplan : ∀ db : Db, db.userSubscriptions = subs → maxKeysForPlan db userID = .ok limit)

include hlimit hplan

theorem safe_checkKeyAllowance
    (hhold : h.holder .keyCreate = some i) (hidle : i ∉ openBy (creating userID) h.trace) :
    (allowance userID limit subs).Safe i (fun a k => k.holder .keyCreate = some i ∧
        (i ∈ openBy (creating userID) k.trace ↔ a = .ok ()))
      (Console.checkKeyAllowance userID) h := by
  unfold Console.checkKeyAllowance
  refine Task.safe_query fun k1 hr1 hinv1 _ => ⟨allowance_calm hinv1 rfl rfl, ?_⟩
  rw [hplan _ hinv1.subs]
  simp only [if_neg (not_le.mpr hlimit)]
  have hidle1 : i ∉ openBy (creating userID)
      (k1.did i (.subscriptionsRead userID) k1.state).trace := by
    rw [did_trace, openBy_other _ _ rfl, mem_openBy_of_own hr1.1]
    exact hidle
  have hhold1 : (k1.did i (.subscriptionsRead userID) k1.state).holder .keyCreate = some i :=
    hr1.2 hhold
  generalize k1.did i (.subscriptionsRead userID) k1.state = k at hidle1 hhold1
  refine Task.safe_write fun k2 hr2 hinv2 a db hrun _ => ?_
  cases hrun
  have hidle2 : i ∉ openBy (creating userID) k2.trace := by
    rwa [mem_openBy_of_own hr2.1]
  have hhold2 := hr2.2 hhold1
  rw [countActive_accessKeysOf]
  by_cases hroom : (activeKeys userID k2.state.db : ℤ) < limit
  · have he : creating userID (.keysCounted userID true) = some true := by simp [creating]
    simp only [hroom, decide_true, if_neg (not_le.mpr hroom)]
    refine ⟨allowance_did (hinv2.count hhold2 hidle2 fun _ => hroom), fun m hr _ => ⟨hr.2 hhold2, ?_⟩⟩
    rw [mem_openBy_of_own hr.1, did_trace, openBy_begin _ _ he]
    simp
  · have he : creating userID (.keysCounted userID false) = none := by simp [creating]
    simp only [hroom, decide_false, if_pos (not_lt.mp hroom)]
    refine ⟨allowance_did (hinv2.count hhold2 hidle2 (by simp)), fun m hr _ => ⟨hr.2 hhold2, ?_⟩⟩
    rw [mem_openBy_of_own hr.1, did_trace, openBy_other _ _ he]
    simp [hidle2]

theorem safe_insertAccessKeyWithinAllowance (io : Faults) {user : User}
    (huser : user.id = userID) {row : AccessKey} (howner : row.userID = userID)
    (hidle : i ∉ openBy (creating userID) h.trace) :
    (allowance userID limit subs).Tame i
      (Console.insertAccessKeyWithinAllowance io user row) h := by
  refine .locked fun k hr hinv hfree => ⟨allowance_acquire hinv hfree, ?_⟩
  have hidle' : i ∉ openBy (creating userID) (k.acquire i .keyCreate).trace := by
    rw [Hist.acquire_trace, mem_openBy_of_own hr.1]
    exact hidle
  -- the section ends with the mutex held and no place taken
  refine .mono (Q := fun _ m => m.holder .keyCreate = some i ∧ i ∉ openBy (creating userID) m.trace)
    (fun a m hinv hend => ⟨allowance_release hinv hend.1 hend.2, fun _ _ _ => trivial⟩) ?_
  rw [huser]
  refine (safe_checkKeyAllowance hlimit hplan (Hist.acquire_holder_self ..)
    hidle').seq fun a m hend => ?_
  obtain ⟨hhold, htaken⟩ := hend
  cases a with
  | error e =>
    refine fun n hr' _ => ⟨hr'.2 hhold, ?_⟩
    rw [mem_openBy_of_own hr'.1, htaken]
    simp
  | ok _ =>
    have hplace : i ∈ openBy (creating userID) m.trace := htaken.mpr rfl
    refine Task.safe_write fun n hr' hinv' a db hrun _ => ?_
    have hplace' : i ∈ openBy (creating userID) n.trace := (mem_openBy_of_own hr'.1).mpr hplace
    have hhold' := hr'.2 hhold
    refine ⟨allowance_did (hinv'.insert hplace' howner io hrun _), ?_⟩
    have he : creating userID (.keyInserted row.userID row.id a.isOk) = some false := by
      simp [creating, howner]
    have hend : ∀ answer : Except ServiceError Unit, (allowance userID limit subs).Safe i
        (fun _ m => m.holder .keyCreate = some i ∧ i ∉ openBy (creating userID) m.trace)
        (Prog.ret answer)
        (n.did i (.keyInserted row.userID row.id a.isOk) { n.state with db := db }) := by
      refine fun answer w hw _ => ⟨hw.2 hhold', ?_⟩
      rw [mem_openBy_of_own hw.1, did_trace, openBy_end _ _ he]
      simp
    cases a with
    | error | ok _ => exact hend _

theorem safe_createAccessKey (mint : KeyMint) (io : Faults) (input : AccessKeyInput) (nowNs : ℤ)
    (hidle : i ∉ openBy (creating userID) h.trace) :
    (allowance userID limit subs).Tame i
      (Console.createAccessKey mint io userID input nowNs) h := by
  unfold Console.createAccessKey
  by_cases hpepper : (!mint.hasPepper) = true
  · rw [if_pos hpepper]
    exact .done
  rw [if_neg hpepper]
  refine Task.safe_query fun k hr hinv _ => ⟨allowance_calm hinv rfl rfl, ?_⟩
  have hidle' : i ∉ openBy (creating userID) (k.did i (.userRead userID) k.state).trace := by
    rw [did_trace, openBy_other _ _ rfl, mem_openBy_of_own hr.1]
    exact hidle
  cases huser : k.state.db.user userID with
  | none => exact .done
  | some user =>
    cases hdraft : draftKey mint userID input nowNs with
    | error e => exact .done
    | ok row =>
      refine (safe_insertAccessKeyWithinAllowance hlimit hplan io
        (key_of_lookup huser) (draftKey_owner hdraft) hidle').seq
        fun a m _ => ?_
      cases a with
      | error e => exact .done
      | ok _ =>
        refine (safe_publication (Console.steps_publishKey row user)).seq fun a m _ => ?_
        cases a with
        | error | ok _ => exact .done

end

theorem WithinAllowance.write (hinv : WithinAllowance userID limit subs h) (io : Faults)
    (row : AccessKey) {a : Except RepoError Unit} {db : Db}
    (hrun : updateAccessKey io row h.state.db = (a, db))
    (hroom : RoomToEnable userID limit h i
      (.keyWritten row.id (h.state.db.accessKey row.id) (db.accessKey row.id))) :
    WithinAllowance userID limit subs
      (h.did i (.keyWritten row.id (h.state.db.accessKey row.id) (db.accessKey row.id))
        { h.state with db := db }) := by
  rcases updateAccessKey_cases io row h.state.db with ⟨e, hfail⟩ | hdone
  · cases hrun.symm.trans hfail
    exact hinv.calm rfl rfl
  have hdb := (Prod.mk.inj (hrun.symm.trans hdone)).2
  have hle := activeKeys_write userID (normalizeAccessKey row) row.id hinv.ids hdb
  refine hinv.did rfl (by rw [hdb]) ?_ ?_
  · rw [hdb]
    refine keysNodup_updateWhere ?_ hinv.ids
    intro r _
    rfl
  · have hbound := hinv.bound
    unfold placesTaken at hbound
    simp only
    split at hle
    · rename_i hon
      have hplace := hroom hon
      unfold placesTaken at hplace
      omega
    · omega

theorem safe_updateAccessKey (mint : KeyMint) (io : Faults) (keyID : String)
    (patch : AccessKeyPatch) :
    (allowance userID limit subs).Tame i
      (Console.updateAccessKey mint io userID keyID patch) h := by
  unfold Console.updateAccessKey
  by_cases hempty : patch = {}
  · rw [if_pos hempty]
    exact .done
  rw [if_neg hempty]
  refine Task.safe_query fun k1 _ hinv1 _ => ⟨allowance_calm hinv1 rfl rfl, ?_⟩
  cases hrow : lookupUserKey k1.state.db userID keyID with
  | error e => exact .done
  | ok row =>
    refine Task.safe_query fun k2 _ hinv2 _ => ⟨allowance_calm hinv2 rfl rfl, ?_⟩
    cases k2.state.db.user userID with
    | none => exact .done
    | some user =>
      simp only
      cases hpatch : patchedKey mint.normalAddress patch row with
      | error e => exact .done
      | ok updated =>
        have hid : updated.id = keyID :=
          (patchedKey_eq_ok hpatch).1.trans (lookupUserKey_eq_ok hrow).2.1
        subst hid
        refine Task.safe_write fun k3 _ hinv3 a db hrun hmay =>
          ⟨allowance_did (hinv3.write io updated hrun hmay), ?_⟩
        cases a with
        | error e => exact .done
        | ok _ =>
          refine (safe_publication (Console.steps_publishKey updated user)).seq
              fun a m _ => ?_
          cases a with
          | error | ok _ => exact .done

theorem safe_deleteAccessKey (io : Faults) (keyID : String) :
    (allowance userID limit subs).Tame i
      (Console.deleteAccessKey io userID keyID) h := by
  unfold Console.deleteAccessKey
  refine Task.safe_query fun k1 _ hinv1 _ => ⟨allowance_calm hinv1 rfl rfl, ?_⟩
  cases lookupUserKey k1.state.db userID keyID with
  | error e => exact .done
  | ok row =>
    refine Task.safe_write fun k2 _ hinv2 a db hrun _ => ?_
    rcases deleteAccessKey_cases io keyID k2.state.db with ⟨e, hfail⟩ | hdone
    · cases hrun.symm.trans hfail
      exact ⟨allowance_calm hinv2 rfl rfl, fun _ _ _ => trivial⟩
    cases hrun.symm.trans hdone
    refine ⟨allowance_did (hinv2.did rfl rfl ?_ ?_), ?_⟩
    · exact hinv2.ids.sublist (List.Sublist.map _ List.filter_sublist)
    · have hbound := hinv2.bound
      have hle := activeKeys_delete userID k2.state.db keyID
      unfold placesTaken at hbound
      simp only
      omega
    · exact safe_publication (Console.steps_publish (A := fun _ => True) rfl trivial)

end Steps

/-- A request about a key. -/
inductive KeyCall where
  | create (mint : KeyMint) (io : Faults) (input : AccessKeyInput) (nowNs : ℤ)
  | update (mint : KeyMint) (io : Faults) (keyID : String) (patch : AccessKeyPatch)
  | delete (io : Faults) (keyID : String)

/-- The request as the console carries it out, without its answer. -/
def KeyCall.task (userID : String) : KeyCall → Task Unit
  | .create mint io input nowNs => do
    let _ ← Console.createAccessKey mint io userID input nowNs
    pure ()
  | .update mint io keyID patch => do
    let _ ← Console.updateAccessKey mint io userID keyID patch
    pure ()
  | .delete io keyID => do
    let _ ← Console.deleteAccessKey io userID keyID
    pure ()

theorem KeyCall.safe {userID : String} {limit : ℤ} {subs : List UserSubscription} {i : ℕ}
    {h : History} (hlimit : 0 < limit)
    (hplan : ∀ db : Db, db.userSubscriptions = subs → maxKeysForPlan db userID = .ok limit)
    (hidle : i ∉ openBy (creating userID) h.trace) (call : KeyCall) :
    (allowance userID limit subs).Tame i (call.task userID) h := by
  have hforget : ∀ {α : Type} {p : Task α}, (allowance userID limit subs).Safe i
      (fun _ _ => True) p h → (allowance userID limit subs).Tame i
        (p.bind fun _ => Prog.ret ()) h :=
    fun hp => hp.seq fun _ _ _ _ _ _ => trivial
  cases call with
  | create mint io input nowNs =>
    exact hforget (safe_createAccessKey hlimit hplan mint io input nowNs hidle)
  | update mint io keyID patch => exact hforget (safe_updateAccessKey mint io keyID patch)
  | delete io keyID => exact hforget (safe_deleteAccessKey io keyID)

/-- **No account holds more active keys than its plan allows**, in the runs in which a key is only
switched on while a place is free.  The user has one active subscription, whose plan allows some
number of keys; it starts with no more, and any requests about its keys run in any interleaving. -/
theorem keys_within_allowance (server : Server) (userID : String) (sub : UserSubscription)
    (plan : Plan) (hsub : sub ∈ server.db.userSubscriptions) (howner : sub.userID = userID)
    (hactive : sub.status = .active)
    (honly : ∀ r ∈ server.db.userSubscriptions, r.userID = userID → r.status = .active → r = sub)
    (hsnapshot : planFromSnapshotJSON sub.planSnapshot = .ok plan) (hlimit : 0 < plan.maxKeys)
    (hids : Table.KeysNodup AccessKey.id server.db.accessKeys)
    (hstart : activeKeys userID server.db ≤ plan.maxKeys)
    (calls : List KeyCall) (sched : List ℕ)
    (hroom : Along Pool.step (Pool.Meets (RoomToEnable userID plan.maxKeys))
      (Pool.start server (calls.map (KeyCall.task userID))) sched) :
    activeKeys userID (run Pool.step (Pool.start server (calls.map (KeyCall.task userID)))
      sched).hist.state.db ≤ plan.maxKeys := by
  have hcurrent : ∀ db : Db, db.userSubscriptions = server.db.userSubscriptions →
      currentSubscription db userID = some sub := by
    intro db hdb
    unfold currentSubscription
    rw [hdb]
    refine decidingSubscription_of_only_active hactive
      (List.mem_filter.mpr ⟨hsub, decide_eq_true howner⟩) fun r hr hr' => ?_
    obtain ⟨hmem, hu⟩ := List.mem_filter.mp hr
    exact honly r hmem (of_decide_eq_true hu) hr'
  have hplan : ∀ db : Db, db.userSubscriptions = server.db.userSubscriptions →
      maxKeysForPlan db userID = .ok plan.maxKeys := by
    intro db hdb
    unfold maxKeysForPlan
    rw [hcurrent db hdb]
    simp only [hactive, ne_eq, not_true, if_false, hsnapshot]
  have hkept : Discipline.Kept (allowance userID plan.maxKeys server.db.userSubscriptions)
      (fun _ _ _ => True) (Pool.start server (calls.map (KeyCall.task userID))) := by
    refine .of_calls ⟨rfl, hids, ?_, fun _ hi => nomatch hi⟩ fun i call _ => ?_
    · simpa [placesTaken] using hstart
    · exact call.safe hlimit hplan (by simp)
  have hbound := (Discipline.run_safe hkept hroom).inv.bound
  unfold placesTaken at hbound
  omega

/-- A plan with one key. -/
def singleKeyPlan : Plan := { id := "p", maxKeys := 1, status := .active }

/-- The customer's subscription to it. -/
def singleKeySub : UserSubscription :=
  { id := "s", userID := "u", planID := "p", planSnapshot := .plan singleKeyPlan, status := .active }

/-- A key of the customer's. -/
def heldKey (id : String) (status : Status) : AccessKey :=
  { id := id, userID := "u", name := id, secretHash := [1], platforms := [], ipAllowlist := [],
    scope := .proxy, status := status, expiresAtNs := 0, lastUsedNs := 0, createdAtNs := 0 }

/-- A server with the customer, the plan and the keys. -/
def singleKeyServer (keys : List AccessKey) : Server :=
  { db :=
      { users := [.customer]
        plans := [singleKeyPlan]
        userSubscriptions := [singleKeySub]
        accessKeys := keys } }

/-- Mints the customer's second key. -/
def secondKeyMint : KeyMint := ⟨true, some ("k2", [2]), some⟩

/-- A second key is created, and the first switched on. -/
def createAndEnable : List KeyCall :=
  [.create secondKeyMint noFaults { name := "second" } 1,
    .update secondKeyMint noFaults "k1" { status := some .active }]

theorem keys_within_allowance_single :
    activeKeys "u" (run Pool.step (Pool.start (singleKeyServer [heldKey "k1" .disabled])
      (createAndEnable.map (KeyCall.task "u"))) [0, 1, 1, 1, 1, 1, 0, 0, 0, 0, 0]).hist.state.db ≤
        singleKeyPlan.maxKeys :=
  keys_within_allowance _ "u" singleKeySub singleKeyPlan (List.mem_singleton.mpr rfl) rfl rfl
    (fun _ hr _ _ => List.mem_singleton.mp hr) rfl (by decide) (by decide) (by decide)
    createAndEnable _ (by decide +kernel)

/-- **Switching a key on is not counted.**  The plan allows one key and one is active; the other is
switched on by a patch, and two are active. -/
theorem enabling_exceeds_allowance :
    activeKeys "u" (singleKeyServer [heldKey "k1" .disabled, heldKey "k2" .active]).db = 1 ∧
      activeKeys "u" (run Pool.step
        (Pool.start (singleKeyServer [heldKey "k1" .disabled, heldKey "k2" .active])
          ([KeyCall.update secondKeyMint noFaults "k1" { status := some .active }].map
            (KeyCall.task "u"))) [0, 0, 0, 0, 0]).hist.state.db = 2 ∧
      singleKeyPlan.maxKeys = 1 := by
  decide +kernel

end Prism
