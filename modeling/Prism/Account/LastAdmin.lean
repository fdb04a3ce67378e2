import Prism.Console.Account

/-!
# There is always an administrator

The console has no way back in once its last active administrator is gone, so every request that
could take the last one away counts the others first.  What makes the count still true at the write
is `userWriteMu`: whoever holds it knows that the others only add accounts (`staffing`).

A patch writes up to three columns, and each setter counts for itself.  It is judged as a whole
before the first column is written, and from then on no setter refuses it: either there is another
administrator, and none of them minds, or the patch leaves this one as it is (`Harmless`).
-/

namespace Prism

open Table

/-! ## Accounts with an administrator among them -/

/-- Accounts have distinct ids, and one of them is an active administrator. -/
@[mk_iff] structure Staffed (db : Db) : Prop where
  ids : KeysNodup User.id db.users
  admin : ∃ u ∈ db.users, u.isActiveAdmin = true

instance (db : Db) : Decidable (Staffed db) :=
  decidable_of_iff' _ (staffed_iff db)

/-- An active administrator other than this account. -/
def Spare (id : String) (db : Db) : Prop :=
  ∃ u ∈ db.users, u.id ≠ id ∧ u.isActiveAdmin = true

variable {db : Db}

theorem Staffed.insert (h : Staffed db) {u : User} (hid : ∀ r ∈ db.users, r.id ≠ u.id) :
    Staffed { db with users := db.users ++ [u] } := by
  refine ⟨keysNodup_append_singleton h.ids hid, ?_⟩
  obtain ⟨w, hw, hadmin⟩ := h.admin
  exact ⟨w, List.mem_append_left _ hw, hadmin⟩

variable {id : String}

theorem Staffed.spare_or (h : Staffed db) {user : User} (hrow : db.user id = some user) :
    Spare id db ∨ user.isActiveAdmin = true := by
  obtain ⟨u, hu, hadmin⟩ := h.admin
  refine or_iff_not_imp_right.mpr fun hnot => ⟨u, hu, fun hid => hnot ?_, hadmin⟩
  have hsame : u = user :=
    eq_of_mem_of_key_eq h.ids hu (mem_of_lookup hrow) (hid.trans (key_of_lookup hrow).symm)
  exact hsame ▸ hadmin

theorem Staffed.delete (h : Staffed db) (hs : Spare id db) : Staffed (db.deleteUser id) := by
  constructor
  · exact h.ids.sublist (List.Sublist.map _ List.filter_sublist)
  · obtain ⟨u, hu, hne, hadmin⟩ := hs
    exact ⟨u, List.mem_filter.mpr ⟨hu, decide_eq_true hne⟩, hadmin⟩

theorem Spare.write (hs : Spare id db) (f : User → User) :
    Spare id { db with users := updateWhere (fun r => r.id = id) f db.users } := by
  obtain ⟨u, hu, hne, hadmin⟩ := hs
  refine ⟨u, ?_, hne, hadmin⟩
  exact mem_updateWhere.mpr ⟨u, hu, by simp [hne]⟩

variable {db' : Db}

theorem Staffed.of_users (h : Staffed db) (husers : db'.users = db.users) : Staffed db' := by
  obtain ⟨hids, hadmin⟩ := h
  exact ⟨husers ▸ hids, husers ▸ hadmin⟩

theorem Staffed.write (h : Staffed db) {f : User → User} (hf : ∀ r, (f r).id = r.id)
    (hs : Spare id db ∨ ∃ user, db.user id = some user ∧ (f user).isActiveAdmin = true) :
    Staffed { db with users := updateWhere (fun r => r.id = id) f db.users } := by
  refine ⟨keysNodup_updateWhere (fun r _ => hf r) h.ids, ?_⟩
  rcases hs with hs | ⟨user, hrow, hadmin⟩
  · obtain ⟨u, hu, -, hadmin⟩ := hs.write f
    exact ⟨u, hu, hadmin⟩
  · have hid : user.id = id := key_of_lookup hrow
    exact ⟨f user, mem_updateWhere.mpr ⟨user, mem_of_lookup hrow, by simp [hid]⟩, hadmin⟩

theorem Db.user_grow (hp : db.users <+: db'.users) {user : User} (hrow : db.user id = some user) :
    db'.user id = some user := by
  obtain ⟨rest, hrest⟩ := hp
  unfold Db.user at hrow ⊢
  rw [← hrest, lookup_append, hrow]
  rfl

theorem Spare.grow (hp : db.users <+: db'.users) (hs : Spare id db) : Spare id db' := by
  obtain ⟨u, hu, h⟩ := hs
  exact ⟨u, hp.subset hu, h⟩

/-! ## Who may write what -/

/-- What a thread may count on: while it holds the mutex, the others only add accounts. -/
structure StaffingRely (i : ℕ) (h h' : History) : Prop where
  own : own i h'.trace = own i h.trace
  holding : h.holder .userWrite = some i →
    h'.holder .userWrite = some i ∧ h.state.db.users <+: h'.state.db.users

/-- While a thread holds `userWriteMu`, the others only add accounts. -/
def staffing : Discipline Server ServerEvent Mutex where
  inv h := Staffed h.state.db
  may _ _ _ := True
  rely := StaffingRely
  rely_refl _ _ := ⟨rfl, fun hh => ⟨hh, List.prefix_rfl⟩⟩
  rely_trans h₁ h₂ := ⟨h₂.own.trans h₁.own, fun hh =>
    ⟨(h₂.holding (h₁.holding hh).1).1, (h₁.holding hh).2.trans (h₂.holding (h₁.holding hh).1).2⟩⟩

section Steps

variable {i : ℕ} {h k : History} {e : ServerEvent} {s : Server}

theorem staffing_adds (hs : Staffed s.db) (hp : h.state.db.users <+: s.db.users) :
    staffing.Keeps i h (h.did i e s) :=
  ⟨hs, fun _ hj => ⟨own_cons_of_ne (Ne.symm hj) _ _, fun hh => ⟨hh, hp⟩⟩⟩

theorem staffing_held (hs : Staffed s.db) (hhold : h.holder .userWrite = some i) :
    staffing.Keeps i h (h.did i e s) := by
  refine ⟨hs, fun j hj => ⟨own_cons_of_ne (Ne.symm hj) _ _, fun hh => ?_⟩⟩
  exact absurd (Hist.holder_unique hhold hh) hj

theorem staffing_acquire (hinv : staffing.inv h) (hfree : h.holder .userWrite = none) :
    staffing.Keeps i h (h.acquire i .userWrite) := by
  refine ⟨hinv, fun j hj => ⟨rfl, fun hh => ?_⟩⟩
  cases hfree.symm.trans hh

theorem staffing_release (hinv : staffing.inv h) (hhold : h.holder .userWrite = some i) :
    staffing.Keeps i h (h.release .userWrite) := by
  refine ⟨hinv, fun j hj => ⟨rfl, fun hh => ?_⟩⟩
  exact absurd (Hist.holder_unique hhold hh) hj

/-- The thread has changed no account. -/
def ChangedNone (i : ℕ) (h : History) : Prop :=
  ∀ id before after, (i, ServerEvent.accountWritten id before after) ∈ h.trace → before = after

theorem ChangedNone.of_own (hq : ChangedNone i h) (hown : own i k.trace = own i h.trace) :
    ChangedNone i k :=
  fun id before after hmem => hq id before after ((mem_iff_of_own hown).mp hmem)

theorem ChangedNone.did (hq : ChangedNone i h)
    (he : ∀ id before after, e ≠ .accountWritten id before after) :
    ChangedNone i (h.did i e s) := by
  intro id before after hmem
  rcases List.mem_cons.mp hmem with heq | hmem
  · exact absurd (Prod.mk.inj heq).2.symm (he id before after)
  · exact hq id before after hmem

/-- The mutex is held from `h` to `k`, accounts have only been added, and a thread that had changed
none has changed none yet. -/
structure Onward (i : ℕ) (h k : History) : Prop where
  holds : k.holder .userWrite = some i
  users : h.state.db.users <+: k.state.db.users
  quiet : ChangedNone i h → ChangedNone i k

theorem Onward.refl (hhold : h.holder .userWrite = some i) : Onward i h h :=
  ⟨hhold, List.prefix_rfl, id⟩

theorem Onward.trans {m : History} (h1 : Onward i h k) (h2 : Onward i k m) : Onward i h m :=
  ⟨h2.holds, h1.users.trans h2.users, fun hq => h2.quiet (h1.quiet hq)⟩

theorem Onward.rely {m : History} (ho : Onward i h k) (hr : staffing.rely i k m) : Onward i h m :=
  ⟨(hr.holding ho.holds).1, ho.users.trans (hr.holding ho.holds).2,
    fun hq => (ho.quiet hq).of_own hr.own⟩

theorem Onward.did (ho : Onward i h k) (hstep : Settling k.state e s) :
    Onward i h (k.did i e s) := by
  refine ⟨ho.holds, ?_, fun hq => (ho.quiet hq).did hstep.2⟩
  rw [Hist.did_state, hstep.1]
  exact ho.users

variable {α : Type}

theorem safe_read {β : Type} {Q : β → History → Prop} {event : ServerEvent} {f : Db → α}
    {g : α → Task β} (he : ∀ id before after, event ≠ .accountWritten id before after)
    (hhold : h.holder .userWrite = some i)
    (hs : ∀ k, Onward i h k → Staffed k.state.db → staffing.Safe i Q (g (f k.state.db)) k) :
    staffing.Safe i Q ((Task.query event f).bind g) h := by
  refine Task.safe_query fun k hr hinv _ => ⟨staffing_adds hinv List.prefix_rfl, ?_⟩
  exact hs _ (((Onward.refl hhold).rely hr).did ⟨rfl, he⟩) hinv

theorem safe_settling {A : α → Prop} {prog : Task α} (hsteps : prog.Steps Settling A) :
    staffing.Safe i (fun a k => A a ∧ (h.holder .userWrite = some i → Onward i h k)) prog h := by
  refine .of_steps (P := fun k => h.holder .userWrite = some i → Onward i h k)
    ?_ ?_ hsteps fun hhold => .refl hhold
  · intro k e s hinv _ hp hstep
    refine ⟨staffing_adds (Staffed.of_users hinv hstep.1) ?_, fun hhold => (hp hhold).did hstep⟩
    exact hstep.1.symm ▸ List.prefix_rfl
  · exact fun k m hr _ hp hhold => (hp hhold).rely hr

theorem safe_publishing {A : α → Prop} {prog : Task α} (hsteps : prog.Steps Publishing A) :
    staffing.Safe i (fun a k => A a ∧ (h.holder .userWrite = some i → Onward i h k)) prog h :=
  safe_settling (hsteps.mono (fun _ _ _ hstep => hstep.settling) fun _ ha => ha)

end Steps

/-! ## Refusals -/

/-- The request was turned down, and did not merely fail. -/
def ServiceError.isRefusal : ServiceError → Bool
  | .invalidArgument _ | .notFound _ | .conflict _ | .forbidden _ => true
  | .internal _ | .repo _ | .newID | .chain => false

namespace Console

section Locked

variable {i : ℕ} {h k : History} {id : String} {user : User}

theorem safe_refuseIfLastAdmin (hhold : h.holder .userWrite = some i)
    (hrow : h.state.db.user user.id = some user) :
    staffing.Safe i (fun a k => Onward i h k ∧ (a = .ok () ∧ Spare user.id k.state.db ∨
        a = .error .lastAdmin ∧ ¬ Spare user.id h.state.db)) (refuseIfLastAdmin user) h := by
  unfold refuseIfLastAdmin
  by_cases hadmin : user.role ≠ .admin ∨ user.status ≠ .active
  · rw [if_pos hadmin]
    intro k hr hinv
    have honward := (Onward.refl hhold).rely hr
    refine ⟨honward, .inl ⟨rfl, ?_⟩⟩
    refine (Staffed.spare_or hinv (Db.user_grow honward.users hrow)).resolve_right ?_
    rcases hadmin with hadmin | hadmin <;> simp [User.isActiveAdmin, hadmin]
  · rw [if_neg hadmin]
    refine safe_read (by simp) hhold fun k honward hinv => ?_
    by_cases hcount : k.state.db.users.countP
        (fun candidate => candidate.id ≠ user.id && candidate.isActiveAdmin) = 0
    · rw [if_pos hcount]
      refine fun m hr _ => ⟨honward.rely hr, .inr ⟨rfl, fun hspare => ?_⟩⟩
      obtain ⟨u, hu, hne, hadmin⟩ := hspare.grow honward.users
      exact List.countP_eq_zero.mp hcount u hu (by simp [hne, hadmin])
    · rw [if_neg hcount]
      refine fun m hr _ => ⟨honward.rely hr, .inl ⟨rfl, ?_⟩⟩
      obtain ⟨u, hu, hother⟩ := List.countP_pos_iff.mp (Nat.pos_of_ne_zero hcount)
      have hspare : Spare user.id k.state.db := ⟨u, hu, by simpa using hother⟩
      exact hspare.grow (hr.holding honward.holds).2

/-- From `h` to `k` the mutex is held, the account is there and as `A` says, and an administrator
who was there to take its place still is. -/
structure Through (i : ℕ) (id : String) (A : User → Prop) (h k : History) : Prop where
  holds : k.holder .userWrite = some i
  row : ∃ user, k.state.db.user id = some user ∧ A user
  spare : Spare id h.state.db → Spare id k.state.db

variable {A : User → Prop}

theorem Through.rely {m : History} (ht : Through i id A h k) (hr : staffing.rely i k m) :
    Through i id A h m := by
  obtain ⟨hholds, hprefix⟩ := hr.holding ht.holds
  obtain ⟨user, hrow, hA⟩ := ht.row
  exact ⟨hholds, ⟨user, Db.user_grow hprefix hrow, hA⟩, fun hs => (ht.spare hs).grow hprefix⟩

theorem Through.of_onward (ho : Onward i h k) (hrow : k.state.db.user id = some user) (hA : A user) :
    Through i id A h k :=
  ⟨ho.holds, ⟨user, hrow, hA⟩, fun hs => hs.grow ho.users⟩

theorem Through.imp {B : User → Prop} (ht : Through i id A h k) (hAB : ∀ u, A u → B u) :
    Through i id B h k :=
  ⟨ht.holds, ht.row.imp fun u hu => ⟨hu.1, hAB u hu.2⟩, ht.spare⟩

theorem Through.trans {B : User → Prop} {m : History} (h1 : Through i id A h k)
    (h2 : Through i id B k m) : Through i id B h m :=
  ⟨h2.holds, h2.row, fun hs => h2.spare (h1.spare hs)⟩

/-- The setter turned the request down. -/
def Refused : Except AccountError Unit → Prop
  | .ok () => False
  | .error e => (mapAccountWriteError "" e).isRefusal = true

theorem safe_writeAccount {f : User → User} (hf : ∀ r, (f r).id = r.id) (io : Faults)
    (admitted : Bool) (hhold : h.holder .userWrite = some i)
    (hrow : h.state.db.user id = some user)
    (hs : Spare id h.state.db ∨ (f user).isActiveAdmin = true) :
    staffing.Safe i (fun a k => Through i id (fun u => u = user ∨ u = f user) h k ∧ ¬ Refused a)
      (writeAccount id (updateUserColumn io id admitted f)) h := by
  unfold writeAccount
  refine Task.safe_write fun k hr hinv a db hrun _ => ?_
  have honward := (Onward.refl hhold).rely hr
  have hrow' := Db.user_grow honward.users hrow
  rcases updateUserColumn_cases io id admitted f k.state.db with
    ⟨cause, hfail⟩ | ⟨hnone, -⟩ | hdone
  · cases hrun.symm.trans hfail
    refine ⟨staffing_held hinv honward.holds, fun m hr' _ => ⟨Through.rely ?_ hr', ?_⟩⟩
    · exact ⟨honward.holds, ⟨user, hrow', .inl rfl⟩, fun hspare => hspare.grow honward.users⟩
    · simp [Refused, Except.mapError, mapAccountWriteError, ServiceError.isRefusal]
  · rw [hrow'] at hnone
    cases hnone
  · cases hrun.symm.trans hdone
    have hid : user.id = id := key_of_lookup hrow
    have hstaffed := Staffed.write hinv hf
      (hs.imp (fun hspare => hspare.grow honward.users) fun hadmin => ⟨user, hrow', hadmin⟩)
    refine ⟨staffing_held hstaffed honward.holds, fun m hr' _ => ⟨Through.rely ?_ hr', fun h => h⟩⟩
    refine ⟨honward.holds, ⟨f user, ?_, .inr rfl⟩,
      fun hspare => (hspare.grow honward.users).write f⟩
    unfold Db.user at hrow' ⊢
    rw [Hist.did_state, lookup_updateWhere User.id fun r _ => hf r, hrow']
    simp [hid]

/-- What setting a column behind the guard leaves: the account with the column as it was or as it
was to be, and a refusal only where nobody could take the account's place. -/
structure SetGuarded (i : ℕ) (id : String) (f : User → User) (same guarded : User → Bool)
    (h : History) (a : Except AccountError Unit) (k : History) : Prop where
  holds : k.holder .userWrite = some i
  through : ∀ user, h.state.db.user id = some user →
    Through i id (fun u => u = user ∨ u = f user) h k
  refused : Refused a → ∀ user, h.state.db.user id = some user →
    guarded user = true ∧ same user = false ∧ ¬ Spare id h.state.db

theorem safe_setAccountLocked {f : User → User} {same guarded : User → Bool}
    (hf : ∀ r, (f r).id = r.id)
    (hguard : ∀ u, u.isActiveAdmin = true → guarded u = false → same u = false →
      (f u).isActiveAdmin = true) (io : Faults) (admitted : Bool)
    (hhold : h.holder .userWrite = some i) :
    staffing.Safe i (SetGuarded i id f same guarded h)
      (setAccountLocked id same guarded (updateUserColumn io id admitted f)) h := by
  unfold setAccountLocked
  refine safe_read (by simp) hhold fun k honward hinv => ?_
  cases hread : k.state.db.user id with
  | none =>
    have hgone : ∀ user, h.state.db.user id ≠ some user := fun user hrow =>
      nomatch (Db.user_grow honward.users hrow).symm.trans hread
    exact fun m hr _ => ⟨(honward.rely hr).holds, fun user hrow => (hgone user hrow).elim,
      fun _ user hrow => (hgone user hrow).elim⟩
  | some user =>
    have hid : user.id = id := key_of_lookup hread
    have hsame : ∀ other, h.state.db.user id = some other → other = user := fun other hrow =>
      Option.some.inj ((Db.user_grow honward.users hrow).symm.trans hread)
    by_cases hs : same user = true
    · simp only [hs, if_true]
      intro m hr _
      refine ⟨(honward.rely hr).holds, fun other hrow => ?_, fun h => h.elim⟩
      exact (Through.of_onward honward hread (.inl (hsame other hrow).symm)).rely hr
    · simp only [hs, Bool.false_eq_true, if_false]
      -- the write itself, from a history in which it may be made
      have hwrite : ∀ m, Onward i h m → m.state.db.user id = some user →
          (Spare id m.state.db ∨ (f user).isActiveAdmin = true) →
          staffing.Safe i (SetGuarded i id f same guarded h)
            (writeAccount id (updateUserColumn io id admitted f)) m := by
        intro m hm hrow hmay
        refine (safe_writeAccount hf io admitted hm.holds hrow hmay).mono ?_
        intro a n _ ⟨hthrough, hnot⟩
        refine ⟨hthrough.holds, fun other hother => ?_, fun href => absurd href hnot⟩
        rw [hsame other hother]
        exact (Through.of_onward (A := fun _ => True) hm hrow trivial).trans hthrough
      by_cases hg : guarded user = true
      · simp only [hg, if_true]
        refine (safe_refuseIfLastAdmin honward.holds
          (hid.symm ▸ hread)).seq fun a m hend => ?_
        obtain ⟨hmore, hanswer⟩ := hend
        have hm := honward.trans hmore
        rcases hanswer with ⟨rfl, hspare⟩ | ⟨rfl, hnone⟩
        · exact hwrite m hm (Db.user_grow hmore.users hread) (.inl (hid ▸ hspare))
        intro n hr _
        refine ⟨(hm.rely hr).holds, fun other hother => ?_, fun _ other hother => ?_⟩
        · exact (Through.of_onward hm (Db.user_grow hmore.users hread)
            (.inl (hsame other hother).symm)).rely hr
        · rw [hsame other hother]
          exact ⟨hg, by simpa using hs, fun hspare => hnone (hid.symm ▸ hspare.grow honward.users)⟩
      · simp only [hg, Bool.false_eq_true, if_false]
        refine hwrite k honward hread ((Staffed.spare_or hinv hread).imp_right fun hadmin => ?_)
        exact hguard user hadmin (by simpa using hg) (by simpa using hs)

theorem safe_settleAccount (env : AccountEnv) (ends : Bool) (ht : Through i id A h k) :
    staffing.Safe i (fun a m => m.holder .userWrite = some i ∧
      ∀ e, a = .error e → e.isRefusal = false) (settleAccount env id ends) k := by
  obtain ⟨user, hrow, -⟩ := ht.row
  refine (safe_settling (steps_endSessions env id ends)).seq fun a m hend => ?_
  have hm := hend.2 ht.holds
  cases a with
  | error e =>
    exact fun w hr _ => ⟨(hm.rely hr).holds, fun e he => by rw [← Except.error.inj he]; rfl⟩
  | ok _ =>
    refine .bind ?_
    unfold republishUserKeys
    refine safe_read (by simp) hm.holds fun m' honward _ => ?_
    rw [Db.user_grow honward.users (Db.user_grow hm.users hrow)]
    refine (safe_publishing (steps_publishing user id)).mono fun a n _ hend => ?_
    obtain ⟨hanswer, hmore⟩ := hend
    have hn := hmore honward.holds
    cases a with
    | error e => exact fun w hr _ => ⟨(hn.rely hr).holds, fun e' he => by rw [hanswer e' he]; rfl⟩
    | ok _ =>
      unfold tenantUserView
      refine safe_read (by simp) hn.holds fun w honward' _ => ?_
      rw [Db.user_grow honward'.users
        (Db.user_grow hn.users (Db.user_grow honward.users (Db.user_grow hm.users hrow)))]
      exact fun w' hr _ => ⟨(honward'.rely hr).holds, fun e he => nomatch he⟩

/-! ## The setters -/

theorem safe_setAccountStatusLocked {status : Status} (hstatus : status = .active ∨ status = .disabled)
    (io : Faults) (hhold : h.holder .userWrite = some i) :
    staffing.Safe i (SetGuarded i id (fun u => { u with status := status })
        (fun u => u.status = status) (fun _ => status = .disabled) h)
      (setAccountStatusLocked io id status) h := by
  have hguard : ∀ u : User, u.isActiveAdmin = true → decide (status = .disabled) = false →
      decide (u.status = status) = false →
      ({ u with status := status } : User).isActiveAdmin = true := by
    intro u hu hnot hdiff
    rcases hstatus with rfl | rfl
    · have hactive : u.status = .active := by
        simp only [User.isActiveAdmin, Bool.and_eq_true, decide_eq_true_eq] at hu
        exact hu.2
      exact absurd hactive (by simpa using hdiff)
    · cases hnot
  exact safe_setAccountLocked (f := fun u => { u with status := status }) (fun _ => rfl) hguard io
    status.isAccountStatus hhold

theorem safe_setAccountRoleLocked {role : Role} (hrole : role = .admin ∨ role = .user)
    (io : Faults) (hhold : h.holder .userWrite = some i) :
    staffing.Safe i (SetGuarded i id (fun u => { u with role := role }) (fun u => u.role = role)
        (fun u => u.role = .admin && role = .user) h) (setAccountRoleLocked io id role) h := by
  have hguard : ∀ u : User, u.isActiveAdmin = true →
      (decide (u.role = .admin) && decide (role = .user)) = false →
      decide (u.role = role) = false → ({ u with role := role } : User).isActiveAdmin = true := by
    intro u hu hnot hdiff
    have hadmin : u.role = .admin := by
      simp only [User.isActiveAdmin, Bool.and_eq_true, decide_eq_true_eq] at hu
      exact hu.1
    rcases hrole with rfl | rfl
    · exact absurd hadmin (by simpa using hdiff)
    · exact absurd hnot (by simp [hadmin])
  exact safe_setAccountLocked (f := fun u => { u with role := role }) (fun _ => rfl) hguard io
    role.isKnown hhold

theorem safe_writePassword (io : Faults) (hash : String) (hhold : h.holder .userWrite = some i)
    (hrow : h.state.db.user id = some user) :
    staffing.Safe i (fun a k => Through i id (fun _ => True) h k ∧ ¬ Refused a)
      (writeAccount id (updateUserPassword io id hash)) h := by
  refine Discipline.Safe.of_forall_rely fun k hr hinv => ?_
  have honward := (Onward.refl hhold).rely hr
  have hrow' := Db.user_grow honward.users hrow
  refine (safe_writeAccount (f := fun u => { u with passwordHash := hash }) (fun _ => rfl) io true
    honward.holds hrow' ((Staffed.spare_or hinv hrow').imp_right fun hadmin => hadmin)).mono ?_
  intro a m _ ⟨hthrough, hnot⟩
  exact ⟨(Through.of_onward (A := fun _ => True) honward hrow' trivial).trans
    (hthrough.imp fun _ _ => trivial), hnot⟩

/-! ## The patch -/

/-- The patch leaves an active administrator one. -/
def Harmless (user : User) (patch : TenantUserPatch) : Prop :=
  patch.status.getD user.status = .active ∧ patch.role.getD user.role = .admin

/-- What the patch was judged by before its first column: known values, and a spare administrator or
no harm. -/
structure Judged (user : User) (patch : TenantUserPatch) (db : Db) : Prop where
  status : ∀ s, patch.status = some s → s = .active ∨ s = .disabled
  role : ∀ r, patch.role = some r → r = .admin ∨ r = .user
  spare : Spare user.id db ∨ Harmless user patch

theorem safe_validateTenantUserPatch (patch : TenantUserPatch)
    (hhold : h.holder .userWrite = some i) (hrow : h.state.db.user user.id = some user) :
    staffing.Safe i (fun a k => Onward i h k ∧ (a = .ok () → Judged user patch k.state.db))
      (validateTenantUserPatch user patch) h := by
  unfold validateTenantUserPatch
  have hfails : ∀ e : ServiceError, staffing.Safe i (fun (a : Except ServiceError Unit) k =>
        Onward i h k ∧ (a = .ok () → Judged user patch k.state.db)) (Prog.ret (.error e)) h :=
    fun e k hr _ => ⟨(Onward.refl hhold).rely hr, nofun⟩
  by_cases hs : patch.status.isSome ∧ patch.status.getD user.status ≠ .active ∧
      patch.status.getD user.status ≠ .disabled
  · simp only [if_pos hs]
    exact hfails _
  by_cases hr : patch.role.isSome ∧ patch.role.getD user.role ≠ .admin ∧
      patch.role.getD user.role ≠ .user
  · simp only [if_neg hs, if_pos hr]
    exact hfails _
  by_cases hp : (patch.password.map checkPasswordPolicy).any (fun r => !r.isOk) = true
  · simp only [if_neg hs, if_neg hr, if_pos hp]
    exact hfails _
  have hstatus : ∀ s, patch.status = some s → s = .active ∨ s = .disabled := by
    intro s heq
    rw [heq] at hs
    simp only [Option.isSome_some, Option.getD_some, true_and, not_and_or, not_not] at hs
    exact hs
  have hrole : ∀ r, patch.role = some r → r = .admin ∨ r = .user := by
    intro r heq
    rw [heq] at hr
    simp only [Option.isSome_some, Option.getD_some, true_and, not_and_or, not_not] at hr
    exact hr
  by_cases hl : (user.isActiveAdmin && (decide (patch.status.getD user.status ≠ .active) ||
      decide (patch.role.getD user.role ≠ .admin))) = true
  · simp only [if_neg hs, if_neg hr, if_neg hp, if_pos hl]
    refine (safe_refuseIfLastAdmin hhold hrow).seq ?_
    intro a k ⟨honward, hanswer⟩ m hrely _
    refine ⟨honward.rely hrely, fun hok => ?_⟩
    rcases hanswer with ⟨rfl, hspare⟩ | ⟨rfl, -⟩
    · exact ⟨hstatus, hrole, .inl (hspare.grow (hrely.holding honward.holds).2)⟩
    · cases hok
  · simp only [if_neg hs, if_neg hr, if_neg hp, if_neg hl]
    intro k hrely hinv
    have honward := (Onward.refl hhold).rely hrely
    have hspare := Staffed.spare_or hinv (Db.user_grow honward.users hrow)
    refine ⟨honward, fun _ => ⟨hstatus, hrole, hspare.imp_right fun hadmin => ?_⟩⟩
    simpa [hadmin, Harmless] using hl

theorem isRefusal_mapAccountWriteError (operation : String) (e : AccountError) :
    (mapAccountWriteError operation e).isRefusal = (mapAccountWriteError "" e).isRefusal := by
  cases e with
  | repo e => cases e <;> rfl
  | _ => rfl

theorem safe_applyTenantUserPatch (env : AccountEnv) {patch : TenantUserPatch} (hash : String)
    (hhold : h.holder .userWrite = some i) (hrow : h.state.db.user user.id = some user)
    (hjudged : Judged user patch h.state.db) :
    staffing.Safe i (fun a k => Through i user.id (fun _ => True) h k ∧
      ∀ e, a = .error e → e.isRefusal = false) (applyTenantUserPatch env user.id patch hash) h := by
  have hstatus : staffing.Safe i
      (fun a k => Through i user.id (fun u => u.role = user.role) h k ∧ ¬ Refused a)
      (forField patch.status (setAccountStatusLocked (env.io 0) user.id)) h := by
    cases hpatch : patch.status with
    | none =>
      refine fun k hr _ => ⟨Through.rely ?_ hr, fun h => h⟩
      exact Through.of_onward (.refl hhold) hrow rfl
    | some status =>
      refine (safe_setAccountStatusLocked (hjudged.status status hpatch) _ hhold).mono ?_
      intro a k _ hend
      refine ⟨(hend.through user hrow).imp fun u hu => ?_, fun href => ?_⟩
      · rcases hu with rfl | rfl <;> rfl
      obtain ⟨hdisabled, -, hnone⟩ := hend.refused href user hrow
      rcases hjudged.spare with hspare | hharmless
      · exact hnone hspare
      · have hactive := hharmless.1
        rw [hpatch, Option.getD_some, of_decide_eq_true hdisabled] at hactive
        cases hactive
  have hrole : ∀ k, Through i user.id (fun u => u.role = user.role) h k → staffing.Safe i
      (fun a m => Through i user.id (fun _ => True) h m ∧ ¬ Refused a)
      (forField patch.role (setAccountRoleLocked (env.io 1) user.id)) k := by
    intro k hk
    obtain ⟨u, hu, -⟩ := hk.row
    cases hpatch : patch.role with
    | none => exact fun m hr _ => ⟨(hk.imp fun _ _ => trivial).rely hr, fun h => h⟩
    | some role =>
      refine (safe_setAccountRoleLocked (hjudged.role role hpatch) _ hk.holds).mono ?_
      intro a m _ hend
      refine ⟨hk.trans ((hend.through u hu).imp fun _ _ => trivial), fun href => ?_⟩
      obtain ⟨hguarded, -, hnone⟩ := hend.refused href u hu
      simp only [Bool.and_eq_true, decide_eq_true_eq] at hguarded
      rcases hjudged.spare with hspare | hharmless
      · exact hnone (hk.spare hspare)
      · have hadmin := hharmless.2
        rw [hpatch, Option.getD_some, hguarded.2] at hadmin
        cases hadmin
  have hpassword : ∀ k, Through i user.id (fun _ => True) h k → staffing.Safe i
      (fun a m => Through i user.id (fun _ => True) h m ∧ ¬ Refused a)
      (forField patch.password fun _ =>
        writeAccount user.id (updateUserPassword (env.io 2) user.id hash)) k := by
    intro k hk
    obtain ⟨u, hu, -⟩ := hk.row
    cases hpatch : patch.password with
    | none => exact fun m hr _ => ⟨hk.rely hr, fun h => h⟩
    | some password =>
      refine (safe_writePassword _ hash hk.holds hu).mono ?_
      exact fun a m _ hend => ⟨hk.trans hend.1, hend.2⟩
  have hfailed : ∀ (operation : String) (e : AccountError) k,
      Through i user.id (fun _ => True) h k → ¬ Refused (.error e) → staffing.Safe i
      (fun (a : Except ServiceError Unit) m => Through i user.id (fun _ => True) h m ∧
        ∀ e, a = .error e → e.isRefusal = false)
      (Prog.ret (.error (mapAccountWriteError operation e))) k := by
    intro operation e k hk hnot m hr _
    refine ⟨hk.rely hr, fun e' he => ?_⟩
    rw [← Except.error.inj he, isRefusal_mapAccountWriteError]
    exact Bool.eq_false_iff.mpr hnot
  refine hstatus.seq fun a k hend => ?_
  cases a with
  | error e => exact hfailed _ e k (hend.1.imp fun _ _ => trivial) hend.2
  | ok _ =>
    refine (hrole k hend.1).seq fun a m hend => ?_
    cases a with
    | error e => exact hfailed _ e m hend.1 hend.2
    | ok _ =>
      refine (hpassword m hend.1).seq fun a n hend => ?_
      cases a with
      | error e => exact hfailed _ e n hend.1 hend.2
      | ok _ => exact fun w hr _ => ⟨hend.1.rely hr, fun e he => nomatch he⟩

end Locked

section Requests

variable {i : ℕ} {h : History}

theorem safe_locked {α : Type} {Q : α → History → Prop} {p : Task α}
    (hQ : ∀ a k m, own i m.trace = own i k.trace → Q a k → Q a m)
    (hs : ∀ k, own i k.trace = own i h.trace → k.holder .userWrite = some i →
      staffing.Safe i (fun a m => m.holder .userWrite = some i ∧ Q a m) p k) :
    staffing.Safe i Q (Prog.locked .userWrite p) h := by
  refine .locked fun k hr hinv hfree => ⟨staffing_acquire hinv hfree, ?_⟩
  refine (hs (k.acquire i .userWrite) hr.own (Hist.acquire_holder_self ..)).mono ?_
  intro a m hinv' ⟨hhold, hend⟩
  exact ⟨staffing_release hinv' hhold, fun m' hr' _ => hQ a m m' hr'.own hend⟩

variable (env : AccountEnv)

theorem safe_createAccount (username password : String) (role : Role) :
    staffing.Tame i (createAccount env username password role) h := by
  have hfails : ∀ e : AccountError, staffing.Tame i
      (Prog.ret (.error e : Except AccountError Unit)) h := fun _ _ _ _ => trivial
  unfold createAccount
  by_cases hname : trimSpace username = ""
  · simp only [if_pos hname]
    exact hfails _
  by_cases hrole : role ≠ .admin ∧ role ≠ .user
  · simp only [if_neg hname, if_pos hrole]
    exact hfails _
  simp only [if_neg hname, if_neg hrole]
  cases checkPasswordPolicy password with
  | error e => exact hfails e
  | ok _ =>
    cases env.hash with
    | none => exact hfails .hash
    | some hash =>
      cases env.newID with
      | none => exact hfails .newID
      | some id =>
        refine Task.safe_write fun k _ hinv a db hrun _ => ⟨?_, fun _ _ _ => trivial⟩
        rcases insertUser_cases (env.io 0) _ k.state.db with ⟨e, hfail⟩ | ⟨hfresh, hdone⟩
        · cases hrun.symm.trans hfail
          exact staffing_adds hinv List.prefix_rfl
        · cases hrun.symm.trans hdone
          exact staffing_adds (Staffed.insert hinv hfresh) (List.prefix_append ..)

theorem safe_setting {p : Task (Except AccountError Unit)} (hp : staffing.Tame i p h)
    (operation : String) (env : AccountEnv) (id : String) (ends : Bool) :
    staffing.Tame i (do
      match ← p with
      | .error e => pure (.error (mapAccountWriteError operation e))
      | .ok () => settleAccount env id ends) h := by
  refine hp.seq fun a k _ => ?_
  cases a with
  | error e => exact .done
  | ok _ => exact (safe_settling (steps_settleAccount env id ends)).mono fun _ _ _ _ => trivial

variable (id : String)

theorem safe_setTenantUserStatus (status : Status) :
    staffing.Tame i (setTenantUserStatus env id status) h := by
  unfold setTenantUserStatus
  by_cases hstatus : status ≠ .active ∧ status ≠ .disabled
  · rw [if_pos hstatus]
    exact .done
  rw [if_neg hstatus]
  refine safe_setting ?_ _ env id _
  unfold setAccountStatus
  rw [if_neg hstatus]
  rw [not_and_or, not_not, not_not] at hstatus
  refine safe_locked (fun _ _ _ _ h => h) fun k _ hhold => ?_
  exact (safe_setAccountStatusLocked hstatus _ hhold).mono fun _ _ _ hend => ⟨hend.holds, trivial⟩

theorem safe_setTenantUserRole (role : Role) :
    staffing.Tame i (setTenantUserRole env id role) h := by
  refine safe_setting ?_ _ env id false
  unfold setAccountRole
  by_cases hrole : role ≠ .admin ∧ role ≠ .user
  · rw [if_pos hrole]
    exact .done
  · rw [if_neg hrole]
    rw [not_and_or, not_not, not_not] at hrole
    refine safe_locked (fun _ _ _ _ h => h) fun k _ hhold => ?_
    exact (safe_setAccountRoleLocked hrole _ hhold).mono fun _ _ _ hend => ⟨hend.holds, trivial⟩

theorem safe_deleteTenantUser : staffing.Tame i (deleteTenantUser env id) h := by
  refine safe_locked (fun _ _ _ _ h => h) fun k _ hhold => ?_
  refine safe_read (by simp) hhold fun k1 h1 _ => ?_
  cases hread : k1.state.db.user id with
  | none => exact fun m hr _ => ⟨(h1.rely hr).holds, trivial⟩
  | some user =>
    have hid : user.id = id := key_of_lookup hread
    refine (safe_refuseIfLastAdmin h1.holds (hid.symm ▸ hread)).seq ?_
    intro a k2 ⟨h2, hanswer⟩
    rcases hanswer with ⟨rfl, hspare⟩ | ⟨rfl, -⟩
    · refine safe_read (by simp) h2.holds fun k3 h3 _ => ?_
      refine (safe_publishing (steps_dropKeys _)).seq ?_
      intro _ k4 ⟨_, hdropped⟩
      have h4 := h3.trans (hdropped h3.holds)
      refine Task.safe_write fun k5 hr hinv a db hrun _ => ?_
      have h5 := h4.rely hr
      have hstaffed : Staffed db := by
        rcases deleteUser_cases (env.io 0) id k5.state.db with ⟨e, hfail⟩ | hdone
        · cases hrun.symm.trans hfail
          exact hinv
        · cases hrun.symm.trans hdone
          exact Staffed.delete hinv (hid ▸ hspare.grow h5.users)
      exact ⟨staffing_held hstaffed h5.holds, fun m hr' _ => ⟨(hr'.holding h5.holds).1, trivial⟩⟩
    · exact fun m hr _ => ⟨(h2.rely hr).holds, trivial⟩

/-- A patch that was turned down has changed nothing. -/
def RefusedQuietly (i : ℕ) (a : Except ServiceError Unit) (h : History) : Prop :=
  ∀ e, a = .error e → e.isRefusal = true → ChangedNone i h

theorem safe_updateTenantUser (hquiet : ChangedNone i h) (env : AccountEnv) (id : String)
    (patch : TenantUserPatch) :
    staffing.Safe i (RefusedQuietly i) (updateTenantUser env id patch) h := by
  unfold updateTenantUser
  by_cases hempty : patch = {}
  · rw [if_pos hempty]
    exact fun k hr _ _ _ _ => hquiet.of_own hr.own
  rw [if_neg hempty]
  refine safe_locked (fun a k m hown hend e he href => (hend e he href).of_own hown)
    fun k hown hhold => ?_
  have hquiet0 : ChangedNone i k := hquiet.of_own hown
  -- before the first write every answer is a quiet one
  have hbefore : ∀ (a : Except ServiceError Unit) m, Onward i k m → staffing.Safe i
      (fun a n => n.holder .userWrite = some i ∧ RefusedQuietly i a n) (Prog.ret a) m :=
    fun a m hm n hr _ => ⟨(hm.rely hr).holds, fun _ _ _ => (hm.rely hr).quiet hquiet0⟩
  refine safe_read (by simp) hhold fun k1 h1 _ => ?_
  cases hread : k1.state.db.user id with
  | none => exact hbefore _ k1 h1
  | some user =>
    have hid : user.id = id := key_of_lookup hread
    subst hid
    refine (safe_validateTenantUserPatch patch h1.holds hread).seq ?_
    intro a k2 ⟨h2, hjudged⟩
    have hon := h1.trans h2
    cases a with
    | error e => exact hbefore _ k2 hon
    | ok _ =>
      cases patchHash env patch with
      | error e => exact hbefore _ k2 hon
      | ok hash =>
        refine (safe_applyTenantUserPatch env hash hon.holds
          (Db.user_grow h2.users hread) (hjudged rfl)).seq ?_
        intro a k3 ⟨hthrough, hnot⟩
        cases a with
        | error e =>
          intro m hr _
          refine ⟨(hthrough.rely hr).holds, fun e' he href => ?_⟩
          rw [hnot e' he] at href
          cases href
        | ok _ =>
          refine (safe_settleAccount env _ hthrough).mono ?_
          intro a m _ ⟨hholds, hanswer⟩
          refine ⟨hholds, fun e he href => ?_⟩
          rw [hanswer e he] at href
          cases href

end Requests

end Console

/-- The requests that write accounts. -/
inductive AccountCall where
  | createAccount (env : AccountEnv) (username password : String) (role : Role)
  | setTenantUserStatus (env : AccountEnv) (id : String) (status : Status)
  | setTenantUserRole (env : AccountEnv) (id : String) (role : Role)
  | updateTenantUser (env : AccountEnv) (id : String) (patch : TenantUserPatch)
  | deleteTenantUser (env : AccountEnv) (id : String)

/-- The request as the console serves it. -/
def AccountCall.task : AccountCall → Task (Except ServiceError Unit)
  | .createAccount env username password role => do
    let answer ← Console.createAccount env username password role
    pure (answer.mapError (mapAccountWriteError "create account"))
  | .setTenantUserStatus env id status => Console.setTenantUserStatus env id status
  | .setTenantUserRole env id role => Console.setTenantUserRole env id role
  | .updateTenantUser env id patch => Console.updateTenantUser env id patch
  | .deleteTenantUser env id => Console.deleteTenantUser env id

/-- What holds of the answer to a request. -/
def AccountCall.Answers (i : ℕ) : AccountCall → Except ServiceError Unit → History → Prop
  | .updateTenantUser .., a, h => Console.RefusedQuietly i a h
  | _, _, _ => True

theorem AccountCall.safe {i : ℕ} {h : History} (hquiet : ChangedNone i h) (call : AccountCall) :
    staffing.Safe i (call.Answers i) call.task h := by
  cases call with
  | createAccount env username password role =>
    refine (Console.safe_createAccount env username password role).seq ?_
    exact fun _ _ _ _ _ _ => trivial
  | setTenantUserStatus env id status => exact Console.safe_setTenantUserStatus env id status
  | setTenantUserRole env id role => exact Console.safe_setTenantUserRole env id role
  | updateTenantUser env id patch => exact Console.safe_updateTenantUser hquiet env id patch
  | deleteTenantUser env id => exact Console.safe_deleteTenantUser env id

end Prism
