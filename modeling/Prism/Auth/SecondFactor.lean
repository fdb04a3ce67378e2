import Prism.Auth.Login

/-!
# One code, one login

A code of the second factor is spent: `AdvanceTOTPLastUsed` raises the ledger of the account to the
step of the code, and refuses a step the ledger has reached.  The ledger belongs to the account and
not to the secret.  Whoever replaces the secret writes the new one and then, in another statement,
sets the ledger back to zero.  That leaves three ways for a secret and a step to be spent twice.

* A login has read the account, and the secret is replaced before it spends its step.
* A login reads the new secret and spends a step of it before the ledger is set back.
* The secret of an earlier enrolment is enrolled again.  It comes from the client.

The property holds in every run without these.
-/

namespace Prism

open Table
open Hist (did_state did_trace)

variable {secret userID : String} {e : ServerEvent} {enc : List UInt8}

variable (c : Crypto)

/-- The secret behind what is stored, if there is one. -/
def Crypto.openFactor (enc : List UInt8) : Option String :=
  if enc = [] then none else c.pepper.bind fun pepper => pepper.decrypt enc

namespace ServerEvent

def replacesFactor (userID : String) : ServerEvent → Bool
  | .totpSecretWritten id _ true => id = userID
  | _ => false

def settlesFactor (userID : String) : ServerEvent → Bool
  | .totpLedgerReset id _ => id = userID
  | _ => false

def spends (userID secret : String) : ServerEvent → Bool
  | .stepSpent id σ _ true => id = userID && σ = secret
  | _ => false

/-- The factor of some account was replaced, its ledger set back or a step spent. -/
def aboutFactor : ServerEvent → Bool
  | .totpSecretWritten _ _ true | .totpLedgerReset _ _ | .stepSpent _ _ _ true => true
  | _ => false

end ServerEvent

def halfReplaced (userID : String) : Trace → Bool
  | [] => false
  | (_, e) :: trace =>
    if e.replacesFactor userID then true
    else if e.settlesFactor userID then false
    else halfReplaced userID trace

def replacedSince (i : ℕ) (userID : String) (trace : Trace) : Bool :=
  (sinceNamed i trace).any fun q => q.2.replacesFactor userID

/-- **A step is spent in time**, and a secret that is enrolled is a new one. -/
def SpendsInTime (h : PortalHistory) (i : ℕ) : ServerEvent → Prop
  | .stepSpent userID _ _ true =>
    halfReplaced userID h.trace = false ∧ replacedSince i userID h.trace = false
  | .totpSecretWritten userID enc true =>
    ∀ secret ∈ c.openFactor enc, ∀ q ∈ h.trace, q.2.spends userID secret = false
  | _ => True

instance (c : Crypto) (h : PortalHistory) (i : ℕ) (e : ServerEvent) :
    Decidable (SpendsInTime c h i e) := by
  unfold SpendsInTime
  split <;> infer_instance

def StepsIncrease (trace : Trace) : Prop :=
  trace.Pairwise fun later earlier => ∀ userID secret n m,
    later.2 = .stepSpent userID secret n true → earlier.2 = .stepSpent userID secret m true → m < n

section Trace

variable {userID : String} {i j : ℕ} {e : ServerEvent} {trace : Trace}

theorem replacesFactor_of_not_about (he : e.aboutFactor = false) :
    e.replacesFactor userID = false := by
  cases e with
  | totpSecretWritten id enc done =>
    cases done with
    | true => cases he
    | false => rfl
  | _ => rfl

theorem halfReplaced_cons (hreplaces : e.replacesFactor userID = false)
    (hsettles : e.settlesFactor userID = false) :
    halfReplaced userID ((j, e) :: trace) = halfReplaced userID trace := by
  simp only [halfReplaced, hreplaces, hsettles, Bool.false_eq_true, if_false]

theorem halfReplaced_cons_of_not_about (he : e.aboutFactor = false) :
    halfReplaced userID ((j, e) :: trace) = halfReplaced userID trace := by
  refine halfReplaced_cons (replacesFactor_of_not_about he) ?_
  cases e with
  | totpLedgerReset id done => cases he
  | _ => rfl

theorem spent_of_cons {n : ℤ} (he : ∀ m, e ≠ .stepSpent userID secret m true)
    (hmem : (i, .stepSpent userID secret n true) ∈ (j, e) :: trace) :
    (i, .stepSpent userID secret n true) ∈ trace := by
  rcases List.mem_cons.mp hmem with heq | hmem
  · exact absurd (Prod.mk.inj heq).2.symm (he n)
  · exact hmem

theorem ne_spent_of_not_about (he : e.aboutFactor = false) (userID secret : String) (m : ℤ) :
    e ≠ .stepSpent userID secret m true := by
  rintro rfl
  cases he

theorem StepsIncrease.cons (h : StepsIncrease trace)
    (he : ∀ userID secret m, e ≠ .stepSpent userID secret m true) :
    StepsIncrease ((j, e) :: trace) :=
  List.pairwise_cons.mpr ⟨fun _ _ userID secret n _ hn => absurd hn (he userID secret n), h⟩

theorem StepsIncrease.unique (h : StepsIncrease trace) {i' : ℕ} {n : ℤ}
    (hi : (i, .stepSpent userID secret n true) ∈ trace)
    (hi' : (i', .stepSpent userID secret n true) ∈ trace) : i = i' := by
  induction trace with
  | nil => cases hi
  | cons q trace ih =>
    obtain ⟨hq, hrest⟩ := List.pairwise_cons.mp h
    rcases List.mem_cons.mp hi with rfl | hi <;> rcases List.mem_cons.mp hi' with heq | hi'
    · exact (Prod.mk.inj heq).1.symm
    · exact absurd (hq _ hi' userID secret n n rfl rfl) (lt_irrefl n)
    · exact absurd (hq _ hi userID secret n n (heq ▸ rfl) rfl) (lt_irrefl n)
    · exact ih hrest hi hi'

end Trace

/-- The factor of an account, and the step it has spent last. -/
def factorOf (db : Db) (id : String) : Option (List UInt8 × ℤ) :=
  (db.user id).map fun u => (u.totpSecretEnc, u.totpLastUsedNs)

/-- A step that leaves every factor as it is. -/
structure Calm (p : Portal) (e : ServerEvent) (p' : Portal) : Prop where
  silent : e.aboutFactor = false
  factors : ∀ id, factorOf p'.db id = factorOf p.db id
  ids : KeysNodup User.id p.db.users → KeysNodup User.id p'.db.users

variable {p : Portal}

theorem Calm.of_users {p' : Portal} (he : e.aboutFactor = false) (husers : p'.db.users = p.db.users) :
    Calm p e p' := by
  refine ⟨he, fun id => ?_, fun h => husers ▸ h⟩
  unfold factorOf Db.user
  rw [husers]

theorem Beside.calm {p' : Portal} (h : Beside p e p') : Calm p e p' := by
  refine Calm.of_users ?_ (by rw [h.1])
  have he := h.2
  cases e <;> first | rfl | exact nomatch he

def Db.withColumn (db : Db) (id : String) (write : User → User) : Db :=
  { db with users := updateWhere (fun r => r.id = id) write db.users }

variable (db : Db)

theorem factorOf_updateWhere {q : User → Bool} {write : User → User}
    (hid : ∀ r, (write r).id = r.id) (id : String) :
    factorOf { db with users := updateWhere q write db.users } id =
      (db.user id).map fun r => if q r then ((write r).totpSecretEnc, (write r).totpLastUsedNs)
        else (r.totpSecretEnc, r.totpLastUsedNs) := by
  unfold factorOf Db.user
  rw [lookup_updateWhere User.id (fun r _ => hid r), Option.map_map]
  refine congrArg (fun f => Option.map f (lookup User.id id db.users)) (funext fun r => ?_)
  by_cases hq : q r = true <;> simp [hq]

theorem Calm.column (he : e.aboutFactor = false) (io : Faults) (id : String) (admitted : Bool)
    {write : User → User} (hid : ∀ r, (write r).id = r.id) (hwrite : ∀ r, (write r).totpSecretEnc =
      r.totpSecretEnc ∧ (write r).totpLastUsedNs = r.totpLastUsedNs) :
    Calm p e { p with db := (updateUserColumn io id admitted write p.db).2 } := by
  rcases updateUserColumn_cases io id admitted write p.db with ⟨_, h⟩ | ⟨-, h⟩ | h
  · rw [h]
    exact Calm.of_users he rfl
  · rw [h]
    exact Calm.of_users he rfl
  rw [h]
  refine ⟨he, fun id' => ?_, keysNodup_updateWhere fun r _ => hid r⟩
  rw [factorOf_updateWhere p.db hid id']
  refine congrArg (fun f => Option.map f (p.db.user id')) (funext fun r => ?_)
  rw [(hwrite r).1, (hwrite r).2, ite_self]

/-- A column that is written changes the factor of its account by `g`, and no other. -/
theorem factorOf_withColumn {w : User → User} {g : List UInt8 × ℤ → List UInt8 × ℤ}
    (hid : ∀ r, (w r).id = r.id) (hg : ∀ r, ((w r).totpSecretEnc, (w r).totpLastUsedNs) =
      g (r.totpSecretEnc, r.totpLastUsedNs)) (userID id : String) :
    factorOf (db.withColumn userID w) id =
      if id = userID then (factorOf db id).map g else factorOf db id := by
  unfold Db.withColumn
  rw [factorOf_updateWhere db hid]
  unfold factorOf
  cases hrow : db.user id with
  | none => simp
  | some r =>
    have hrid : r.id = id := key_of_lookup hrow
    by_cases h : id = userID
    · simp [hrid, h, hg]
    · simp [hrid, h]

theorem factorOf_writeSecret (userID : String) (enc : List UInt8) (id : String) :
    factorOf (db.withColumn userID fun r => { r with totpSecretEnc := enc }) id =
      if id = userID then (factorOf db id).map fun f => (enc, f.2) else factorOf db id :=
  factorOf_withColumn db (w := fun r => { r with totpSecretEnc := enc }) (fun _ => rfl)
    (fun _ => rfl) userID id

theorem updateUserColumn_written (io : Faults) (id : String) (write : User → User) (db : Db) :
    (∃ e, updateUserColumn io id true write db = (.error e, db)) ∨
      updateUserColumn io id true write db = (.ok (), db.withColumn id write) := by
  rcases updateUserColumn_cases io id true write db with ⟨_, h⟩ | ⟨-, h⟩ | h
  · exact .inl ⟨_, h⟩
  · exact .inl ⟨_, h⟩
  · exact .inr h

theorem resetTOTPLastUsed_factors (io : Faults) (userID : String) (db : Db) :
    (KeysNodup User.id db.users → KeysNodup User.id (resetTOTPLastUsed io userID db).2.users) ∧
      ∀ id, (factorOf (resetTOTPLastUsed io userID db).2 id).map Prod.fst =
          (factorOf db id).map Prod.fst ∧
        (id ≠ userID → factorOf (resetTOTPLastUsed io userID db).2 id = factorOf db id) := by
  unfold resetTOTPLastUsed
  rcases updateUserColumn_written io userID (fun r => { r with totpLastUsedNs := 0 }) db with
    ⟨e, h⟩ | h
  · rw [h]
    exact ⟨fun hids => hids, fun _ => ⟨rfl, fun _ => rfl⟩⟩
  rw [h]
  refine ⟨keysNodup_updateWhere ?_, fun id => ?_⟩
  · exact fun _ _ => rfl
  rw [factorOf_withColumn db (w := fun r => { r with totpLastUsedNs := 0 }) (g := fun f => (f.1, 0))
    (fun _ => rfl) fun _ => rfl]
  split
  · refine ⟨?_, fun hne => absurd ‹id = userID› hne⟩
    rw [Option.map_map]
    rfl
  · exact ⟨rfl, fun _ => rfl⟩

theorem factorOf_of_stepIsNew {db : Db} (hids : KeysNodup User.id db.users) {stepNs : ℤ}
    (h : db.stepIsNew userID stepNs = true) :
    ∃ enc last, factorOf db userID = some (enc, last) ∧ last < stepNs := by
  obtain ⟨r, hr, hboth⟩ := List.any_eq_true.mp h
  simp only [Bool.and_eq_true, decide_eq_true_eq] at hboth
  have hrow : db.user userID = some r := by
    rw [← hboth.1]
    exact lookup_of_mem hids hr
  exact ⟨r.totpSecretEnc, r.totpLastUsedNs, by unfold factorOf; rw [hrow]; rfl, hboth.2⟩

theorem factorOf_advance {db : Db} {stepNs last : ℤ}
    (hfactor : factorOf db userID = some (enc, last)) (hlast : last < stepNs) (id : String) :
    factorOf (db.advanceTOTPLastUsed userID stepNs) id =
      if id = userID then some (enc, stepNs) else factorOf db id := by
  unfold Db.advanceTOTPLastUsed
  rw [factorOf_updateWhere]
  swap
  · exact fun _ => rfl
  by_cases h : id = userID
  · rw [if_pos h, h]
    obtain ⟨r, hrow, hr⟩ := Option.map_eq_some_iff.mp hfactor
    have hid : r.id = userID := key_of_lookup hrow
    obtain ⟨henc, hled⟩ := Prod.mk.inj hr
    rw [hrow]
    simp [hid, hled, hlast, henc]
  · rw [if_neg h]
    unfold factorOf
    cases hrow : db.user id with
    | none => rfl
    | some r =>
      have hid : r.id = id := key_of_lookup hrow
      simp [hid, h]

/-! ## The ledger and the history -/

/-- **The ledger is ahead of what was spent with the secret in force**, unless nothing was. -/
structure FactorsKept (c : Crypto) (h : PortalHistory) : Prop where
  ids : KeysNodup User.id h.state.db.users
  increase : StepsIncrease h.trace
  ledger : ∀ userID enc last secret, factorOf h.state.db userID = some (enc, last) →
    c.openFactor enc = some secret → ∀ i n, (i, .stepSpent userID secret n true) ∈ h.trace →
      halfReplaced userID h.trace = false ∧ n ≤ last

namespace FactorsKept

variable {c : Crypto} {h : PortalHistory} {p : Portal} {i : ℕ} {e : ServerEvent}

theorem start (s : Portal) (hids : KeysNodup User.id s.db.users) : FactorsKept c { state := s } :=
  ⟨hids, List.Pairwise.nil, fun _ _ _ _ _ _ _ _ hmem => nomatch hmem⟩

theorem calm (hk : FactorsKept c h) (hstep : Calm h.state e p) : FactorsKept c (h.did i e p) := by
  refine ⟨hstep.ids hk.ids, hk.increase.cons (ne_spent_of_not_about hstep.silent), ?_⟩
  intro userID enc last secret hfactor hopen j n hmem
  rw [did_state, hstep.factors] at hfactor
  have hmem' := spent_of_cons (ne_spent_of_not_about hstep.silent userID secret) hmem
  rw [did_trace, halfReplaced_cons_of_not_about hstep.silent]
  exact hk.ledger userID enc last secret hfactor hopen j n hmem'

theorem spend (hk : FactorsKept c h) {stepNs last : ℤ}
    (hfactor : factorOf h.state.db userID = some (enc, last))
    (hopen : c.openFactor enc = some secret) (hlast : last < stepNs)
    (hhalf : halfReplaced userID h.trace = false) :
    FactorsKept c (h.did i (.stepSpent userID secret stepNs true)
      { h.state with db := h.state.db.advanceTOTPLastUsed userID stepNs }) := by
  refine ⟨?_, ?_, ?_⟩
  · refine keysNodup_updateWhere ?_ hk.ids
    exact fun _ _ => rfl
  · refine List.pairwise_cons.mpr ⟨?_, hk.increase⟩
    rintro ⟨j, e⟩ hmem u σ n m hn rfl
    obtain ⟨rfl, rfl, rfl, -⟩ := ServerEvent.stepSpent.inj hn
    exact lt_of_le_of_lt (hk.ledger _ enc last _ hfactor hopen j m hmem).2 hlast
  · intro u enc' last' σ hfactor' hopen' j n hmem
    rw [did_state, factorOf_advance hfactor hlast] at hfactor'
    split at hfactor'
    · rename_i hu
      cases Option.some.inj hfactor'
      rw [hu]
      refine ⟨(halfReplaced_cons rfl rfl).trans hhalf, ?_⟩
      rcases List.mem_cons.mp hmem with heq | hmem
      · exact le_of_eq (ServerEvent.stepSpent.inj (Prod.mk.inj heq).2).2.2.1
      · rw [hu] at hmem
        have hσ : secret = σ := Option.some.inj (hopen.symm.trans hopen')
        exact le_of_lt (lt_of_le_of_lt
          (hk.ledger userID enc last secret hfactor hopen j n (hσ ▸ hmem)).2 hlast)
    · rename_i hu
      refine (hk.ledger u enc' last' σ hfactor' hopen' j n (spent_of_cons ?_ hmem)).imp_left
        (halfReplaced_cons rfl rfl).trans
      intro m hm
      exact hu (ServerEvent.stepSpent.inj hm).1.symm

theorem replace (hk : FactorsKept c h)
    (hnew : ∀ secret ∈ c.openFactor enc, ∀ q ∈ h.trace, q.2.spends userID secret = false) :
    FactorsKept c (h.did i (.totpSecretWritten userID enc true) { h.state with
      db := h.state.db.withColumn userID fun r => { r with totpSecretEnc := enc } }) := by
  refine ⟨?_, hk.increase.cons (by simp), ?_⟩
  · refine keysNodup_updateWhere ?_ hk.ids
    exact fun _ _ => rfl
  intro u enc' last σ hfactor hopen j n hmem
  have hmem' := spent_of_cons (by simp) hmem
  rw [did_state, factorOf_writeSecret] at hfactor
  split at hfactor
  · rename_i hu
    obtain ⟨f, -, hf⟩ := Option.map_eq_some_iff.mp hfactor
    rw [← (Prod.mk.inj hf).1] at hopen
    have hno := hnew σ hopen _ hmem'
    exact absurd hno (by simp [ServerEvent.spends, hu])
  · rename_i hu
    obtain ⟨hhalf, hle⟩ := hk.ledger u enc' last σ hfactor hopen j n hmem'
    exact ⟨Eq.trans (halfReplaced_cons (decide_eq_false (Ne.symm hu)) rfl) hhalf, hle⟩

theorem settle (hk : FactorsKept c h) {done : Bool} (hhalf : halfReplaced userID h.trace = true)
    (hids : KeysNodup User.id p.db.users)
    (hsecret : ∀ id, (factorOf p.db id).map Prod.fst = (factorOf h.state.db id).map Prod.fst)
    (hother : ∀ id, id ≠ userID → factorOf p.db id = factorOf h.state.db id) :
    FactorsKept c (h.did i (.totpLedgerReset userID done) p) := by
  refine ⟨hids, hk.increase.cons (by simp), ?_⟩
  intro u enc last σ hfactor hopen j n hmem
  have hmem' := spent_of_cons (by simp) hmem
  by_cases hu : u = userID
  · -- the pair was spent, so the secret is not half replaced
    have hold := hsecret u
    rw [did_state] at hfactor
    rw [hfactor] at hold
    obtain ⟨f, hf, hfst⟩ := Option.map_eq_some_iff.mp hold.symm
    have hnot := (hk.ledger u f.1 f.2 σ hf (by rw [hfst]; exact hopen) j n hmem').1
    rw [hu, hhalf] at hnot
    cases hnot
  · rw [did_state, hother u hu] at hfactor
    obtain ⟨hhalf, hle⟩ := hk.ledger u enc last σ hfactor hopen j n hmem'
    exact ⟨Eq.trans (halfReplaced_cons rfl (decide_eq_false (Ne.symm hu))) hhalf, hle⟩

end FactorsKept

/-! ## What a thread counts on -/

/-- The factor the thread has read is the one in force, unless it was replaced since. -/
def KnowsFactor (i : ℕ) (userID : String) (enc : List UInt8) (h : PortalHistory) : Prop :=
  replacedSince i userID h.trace = false → (factorOf h.state.db userID).map Prod.fst = some enc

theorem KnowsFactor.did {i j : ℕ} {h : PortalHistory} (hk : KnowsFactor i userID enc h)
    (hsince : sinceNamed i ((j, e) :: h.trace) = (j, e) :: sinceNamed i h.trace)
    (hstep : e.replacesFactor userID = true ∨ (factorOf p.db userID).map Prod.fst = (factorOf
      h.state.db userID).map Prod.fst) : KnowsFactor i userID enc (h.did j e p) := by
  intro hnot
  unfold replacedSince at hnot
  rw [did_trace, hsince, List.any_cons, Bool.or_eq_false_iff] at hnot
  rcases hstep with he | hsame
  · exact absurd hnot.1 (by simp [he])
  · rw [did_state, hsame]
    exact hk hnot.2

structure FactorRely (i : ℕ) (h h' : PortalHistory) : Prop where
  grown : h.trace <:+ h'.trace
  holding : h.holder .userWrite = some i → h'.holder .userWrite = some i ∧
    ∀ userID, halfReplaced userID h'.trace = halfReplaced userID h.trace
  knows : ∀ userID enc, KnowsFactor i userID enc h → KnowsFactor i userID enc h'

def factoring : Discipline Portal ServerEvent Mutex where
  inv := FactorsKept c
  may := SpendsInTime c
  rely := FactorRely
  rely_refl _ _ := ⟨List.suffix_refl _, fun hh => ⟨hh, fun _ => rfl⟩, fun _ _ hk => hk⟩
  rely_trans h₁ h₂ := ⟨h₁.grown.trans h₂.grown,
    fun hh => ⟨(h₂.holding (h₁.holding hh).1).1, fun userID =>
      ((h₂.holding (h₁.holding hh).1).2 userID).trans ((h₁.holding hh).2 userID)⟩,
    fun userID enc hk => h₂.knows userID enc (h₁.knows userID enc hk)⟩

section Threads

variable {c : Crypto} {i : ℕ} {h k : PortalHistory} {e : ServerEvent} {p : Portal}

/-- A step that keeps the ledger ahead; one that is about a factor needs the mutex, spending a step
apart. -/
theorem factoring_did (hinv : FactorsKept c (h.did i e p))
    (hsecret : ∀ userID, e.replacesFactor userID = true ∨
      (factorOf p.db userID).map Prod.fst = (factorOf h.state.db userID).map Prod.fst)
    (hquiet : (∀ userID, halfReplaced userID ((i, e) :: h.trace) = halfReplaced userID h.trace) ∨
      h.holder .userWrite = some i) : (factoring c).Keeps i h (h.did i e p) := by
  refine ⟨hinv, fun j hj => ⟨List.suffix_cons .., fun hh => ?_, fun userID enc hk => ?_⟩⟩
  · rcases hquiet with hquiet | hhold
    · exact ⟨hh, hquiet⟩
    · exact absurd (Hist.holder_unique hhold hh) hj
  · exact hk.did (sinceNamed_cons_of_ne (Ne.symm hj)) (hsecret userID)

theorem factoring_calm (hinv : FactorsKept c h) (hstep : Calm h.state e p) :
    (factoring c).Keeps i h (h.did i e p) :=
  factoring_did (hinv.calm hstep) (fun userID => Or.inr (by rw [hstep.factors]))
    (.inl fun _ => halfReplaced_cons_of_not_about hstep.silent)

theorem factoring_acquire (hinv : FactorsKept c h) (hfree : h.holder .userWrite = none) :
    (factoring c).Keeps i h (h.acquire i .userWrite) := by
  refine ⟨⟨hinv.ids, hinv.increase, hinv.ledger⟩, fun j _ => ⟨List.suffix_refl _, fun hh => ?_,
    fun _ _ hk => hk⟩⟩
  cases hfree.symm.trans hh

theorem factoring_release (hinv : FactorsKept c h) (hhold : h.holder .userWrite = some i) :
    (factoring c).Keeps i h (h.release .userWrite) := by
  refine ⟨⟨hinv.ids, hinv.increase, hinv.ledger⟩, fun j hj => ⟨List.suffix_refl _, fun hh => ?_,
    fun _ _ hk => hk⟩⟩
  exact absurd (Hist.holder_unique hhold hh) hj

variable {α : Type} {A : α → Prop}

theorem safe_calm {P : PortalHistory → Prop} {prog : PortalTask α}
    (hsteps : prog.Steps (fun p e p' => Calm p e p' ∧ e.namesAccount = false) A)
    (hown : ∀ k e p, P k → Calm k.state e p → e.namesAccount = false → P (k.did i e p))
    (hrely : ∀ k m, FactorRely i k m → P k → P m) (hp : P h) :
    (factoring c).Safe i (fun a k => A a ∧ P k) prog h :=
  .of_steps
    (fun k e p hinv _ hk hstep => ⟨factoring_calm hinv hstep.1, hown k e p hk hstep.1 hstep.2⟩)
    (fun k m hr _ hk => hrely k m hr hk) hsteps hp

theorem Beside.calm_unnamed {p' : Portal} (h : Beside p e p') :
    Calm p e p' ∧ e.namesAccount = false := by
  refine ⟨h.calm, ?_⟩
  have he := h.2
  cases e <;> first | rfl | exact nomatch he

theorem safe_aside {prog : PortalTask α} (hsteps : prog.Steps Beside A)
    (hk : KnowsFactor i userID enc h) :
    (factoring c).Safe i (fun a k => A a ∧ KnowsFactor i userID enc k) prog h := by
  refine safe_calm (hsteps.mono (fun _ _ _ h => h.calm_unnamed) fun _ h => h) ?_ ?_ hk
  · intro k e p hk hstep he
    exact hk.did (sinceNamed_cons_of_not he) (Or.inr (by rw [hstep.factors]))
  · exact fun k m hr hk => hr.knows userID enc hk

theorem safe_beside {prog : PortalTask α} (hsteps : prog.Steps Beside A) :
    (factoring c).Safe i (fun a _ => A a) prog h :=
  (safe_calm (P := fun _ => True) (hsteps.mono (fun _ _ _ h => h.calm_unnamed) fun _ h => h)
    (fun _ _ _ _ _ _ => trivial) (fun _ _ _ _ => trivial) trivial).mono fun _ _ _ ha => ha.1

/-! ### Login -/

/-- The login has proved the second factor of the account it read, if there is one: a step of the
code was spent by it. -/
def Proved (c : Crypto) (i : ℕ) (user : User) (code : String) (trace : Trace) : Prop :=
  user.totpSecretEnc ≠ [] → ∃ secret n t, c.openFactor user.totpSecretEnc = some secret ∧
    verifyTOTPStep c secret code t = some n ∧ (i, .stepSpent user.id secret n true) ∈ trace

theorem Proved.more {user : User} {code : String} {trace trace' : Trace}
    (h : Proved c i user code trace) (hmore : trace <:+ trace') : Proved c i user code trace' := by
  intro hne
  obtain ⟨secret, n, t, hopen, hverify, hmem⟩ := h hne
  exact ⟨secret, n, t, hopen, hverify, hmore.subset hmem⟩

/-- Whoever is let in has proved the second factor. -/
def AdmitsProved (c : Crypto) (i : ℕ) (code : String) (a : Except LoginError LoginResult)
    (h : PortalHistory) : Prop :=
  ∀ r, a = .ok r → Proved c i r.user code h.trace

variable (env : LoginEnv)

theorem safe_spendStep (stepNs : ℤ) (hopen : c.openFactor enc = some secret)
    (hk : KnowsFactor i userID enc h) :
    (factoring c).Safe i (fun a k => a = .ok () → (i, .stepSpent userID secret stepNs true) ∈ k.trace)
      (Auth.spendStep env userID secret stepNs) h := by
  unfold Auth.spendStep
  refine Task.safe_write_inPortal fun k hr hinv a db hrun hmay => ?_
  rcases advanceTOTPLastUsed_cases (env.io 0) userID stepNs k.state.db with ⟨hnot, hsame⟩ | ⟨hnew, hdone⟩
  · rw [hrun] at hnot hsame
    have hevent : decide (a = .ok true) = false := decide_eq_false hnot
    refine ⟨?_, ?_⟩
    · rw [hevent]
      refine factoring_calm hinv (Calm.of_users rfl ?_)
      rw [← hsame]
    · cases a with
      | error e => exact fun _ _ _ h => nomatch h
      | ok spent =>
        cases spent with
        | true => exact absurd rfl hnot
        | false => exact fun _ _ _ h => nomatch h
  · cases hrun.symm.trans hdone
    have hevent : decide ((.ok true : Except RepoError Bool) = .ok true) = true := decide_eq_true rfl
    rw [hevent] at hmay ⊢
    obtain ⟨enc', last, hfactor, hlast⟩ := factorOf_of_stepIsNew hinv.ids hnew
    -- nobody has replaced the factor since it was read
    have hcurrent := hr.knows userID enc hk hmay.2
    rw [hfactor] at hcurrent
    have henc : enc' = enc := Option.some.inj hcurrent
    refine ⟨factoring_did ?_ (fun u => .inr ?_) (.inl fun u => ?_), ?_⟩
    · exact hinv.spend hfactor (henc ▸ hopen) hlast hmay.1
    · rw [factorOf_advance hfactor hlast]
      split
      · rename_i hu
        rw [hu, hfactor]
        rfl
      · rfl
    · exact halfReplaced_cons rfl rfl
    · exact fun m hr' _ _ => hr'.grown.subset (.head _)

theorem safe_verifySecondFactor (user : User) (code : String)
    (hk : KnowsFactor i user.id user.totpSecretEnc h) :
    (factoring c).Safe i (fun a k => a = .ok () → Proved c i user code k.trace)
      (Auth.verifySecondFactor c env user code) h := by
  unfold Auth.verifySecondFactor
  by_cases hnone : user.totpSecretEnc = []
  · rw [if_pos hnone]
    exact fun _ _ _ _ hne => absurd hnone hne
  rw [if_neg hnone]
  cases hpepper : c.pepper with
  | none => exact fun _ _ _ h => nomatch h
  | some pepper =>
    dsimp only
    cases hdecrypt : pepper.decrypt user.totpSecretEnc with
    | none => exact fun _ _ _ h => nomatch h
    | some secret =>
      have hopen : c.openFactor user.totpSecretEnc = some secret := by
        unfold Crypto.openFactor
        rw [if_neg hnone, hpepper]
        exact hdecrypt
      dsimp only
      split
      · exact fun _ _ _ h => nomatch h
      refine (safe_aside Auth.steps_now hk).seq fun nowNs k hend => ?_
      cases hverify : verifyTOTPStep c secret code nowNs with
      | none => exact fun _ _ _ h => nomatch h
      | some stepNs =>
        refine (safe_spendStep env stepNs hopen hend.2).mono fun a m _ hspent ha _ => ?_
        exact ⟨secret, stepNs, nowNs, hopen, hverify, hspent ha⟩

theorem safe_openSession (req : LoginRequest) (user : User)
    (hp : Proved c i user req.totpCode h.trace) :
    (factoring c).Safe i (AdmitsProved c i req.totpCode) (Auth.openSession c env req user) h := by
  have hsteps := Auth.steps_openSession
    (S := fun p e p' => Calm p e p' ∧ e.namesAccount = false) c env req user
    (fun _ _ _ h => h.calm_unnamed) ?_ ?_
  · refine (safe_calm (P := fun k => Proved c i user req.totpCode k.trace) hsteps ?_ ?_ hp).mono ?_
    · exact fun k e p hk _ _ => hk.more (List.suffix_cons ..)
    · exact fun k m hr hk => hk.more hr.grown
    · rintro a k - ⟨hanswer, hproved⟩ r hr
      rw [hanswer r hr]
      exact hproved
  · intro io session p
    refine ⟨Calm.of_users rfl ?_, rfl⟩
    rcases insertSession_cases io session p.db with ⟨e, h⟩ | ⟨-, h⟩ <;> simp only [h]
  · intro io nowNs p
    exact ⟨Calm.column rfl io user.id true (fun _ => rfl) fun _ => ⟨rfl, rfl⟩, rfl⟩

theorem safe_login (req : LoginRequest) :
    (factoring c).Safe i (AdmitsProved c i req.totpCode) (Auth.login c env req) h := by
  have hrefused : ∀ (e : LoginError) (k : PortalHistory),
      (factoring c).Safe i (AdmitsProved c i req.totpCode) (.ret (.error e)) k :=
    fun _ _ _ _ _ _ h => nomatch h
  have hrefuse : ∀ (userID : String) (e : LoginError) (k : PortalHistory), (factoring c).Safe i
      (AdmitsProved c i req.totpCode) (Auth.refuse req.clientKey userID e) k :=
    fun userID e k => (safe_beside (Auth.steps_refuse req.clientKey userID e)).mono
      fun a _ _ ha r hr => absurd hr (by simp [ha])
  refine (safe_beside (Auth.steps_clientBlocked req.clientKey)).seq ?_
  intro blocked k _
  cases blocked with
  | true => exact hrefused _ _
  | false =>
    refine Task.safe_query_inPortal fun k _ hinv _ =>
      ⟨factoring_calm hinv (Calm.of_users rfl rfl), ?_⟩
    cases hread : k.state.db.userNamed req.username with
    | none =>
      refine (safe_beside (Auth.steps_recordFailure req.clientKey)).seq ?_
      exact fun _ m _ => hrefused _ _
    | some user =>
      have hrow : k.state.db.user user.id = some user :=
        lookup_of_mem hinv.ids (mem_of_lookup hread)
      have hknows : KnowsFactor i user.id user.totpSecretEnc
          (k.did i (.accountNamed req.username) k.state) := by
        intro _
        unfold factorOf
        rw [did_state, hrow]
        rfl
      refine (safe_aside (Auth.steps_checkBlocked _) hknows).seq ?_
      intro blocked m hm
      cases blocked with
      | true => exact hrefused _ _
      | false =>
        refine (safe_aside (Auth.steps_verifyPassword c user req.password) hm.2).seq ?_
        intro right n hn
        cases right with
        | false => exact hrefuse _ _ _
        | true =>
          dsimp only
          split
          · exact hrefused _ _
          refine (safe_verifySecondFactor env user req.totpCode hn.2).seq ?_
          intro a w hproved
          cases a with
          | error e => exact hrefuse _ _ _
          | ok _ => exact safe_openSession env req user (hproved rfl)

/-! ### Replacing the factor -/

theorem safe_holding (a : α) (hh : h.holder .userWrite = some i) :
    (factoring c).Safe i (fun _ m => m.holder .userWrite = some i) (.ret a) h :=
  fun _ hr _ => (hr.holding hh).1

theorem safe_userWrite {prog : PortalTask α} (hs : ∀ k : PortalHistory, k.holder .userWrite = some i
      → (factoring c).Safe i (fun _ m => m.holder .userWrite = some i) prog k) :
    (factoring c).Tame i (Prog.locked .userWrite prog) h := by
  refine .locked fun k _ hinv hfree => ⟨factoring_acquire hinv hfree, ?_⟩
  have hbody := hs (k.acquire i .userWrite) (by simp [Hist.acquire])
  refine hbody.mono fun a m hinv' hend => ?_
  exact ⟨factoring_release hinv' hend, fun _ _ _ => trivial⟩

/-- A call on an account, with the mutex from the read on. -/
theorem safe_onUser (id : String) {f : Option User → Task α}
    (hs : ∀ found (k : PortalHistory), k.holder .userWrite = some i →
      (factoring c).Safe i (fun _ m => m.holder .userWrite = some i) (f found).inPortal k) :
    (factoring c).Tame i
      (Task.inPortal (Prog.locked .userWrite ((Console.getUser id).bind f))) h := by
  rw [Task.inPortal_locked]
  refine safe_userWrite fun k hh => ?_
  rw [Task.inPortal_bind]
  exact Task.safe_query_inPortal fun k' hr hinv _ =>
    ⟨factoring_calm hinv (Calm.of_users rfl rfl), hs _ _ (hr.holding hh).1⟩

variable (io : ℕ → Faults)

theorem safe_replaceFactor (id : String) (enc : List UInt8) (hh : h.holder .userWrite = some i) :
    (factoring c).Safe i (fun _ m => m.holder .userWrite = some i)
      (Console.replaceFactor io id enc).inPortal h := by
  unfold Console.replaceFactor
  rw [Prog.bind_eq, Task.inPortal_bind]
  refine Task.safe_write_inPortal fun k hr hinv a db hrun hmay => ?_
  have hhold := (hr.holding hh).1
  rcases updateUserColumn_written (io 0) id (fun r => { r with totpSecretEnc := enc })
    k.state.db with ⟨e, hdone⟩ | hdone
  · cases hrun.symm.trans hdone
    have hevent : decide ((.error e : Except RepoError Unit) = .ok ()) = false :=
      decide_eq_false (by simp)
    rw [hevent]
    exact ⟨factoring_calm hinv (Calm.of_users rfl rfl), safe_holding _ hhold⟩
  · cases hrun.symm.trans hdone
    have hevent : decide ((.ok () : Except RepoError Unit) = .ok ()) = true := decide_eq_true rfl
    rw [hevent] at hmay ⊢
    refine ⟨factoring_did (hinv.replace hmay) (fun u => ?_) (.inr hhold), ?_⟩
    · by_cases hu : u = id
      · exact .inl (decide_eq_true hu.symm)
      · refine .inr (congrArg (Option.map Prod.fst) ?_)
        exact (factorOf_writeSecret k.state.db id enc u).trans (if_neg hu)
    · -- the mutex keeps the others from settling it first
      rw [Prog.bind_eq, Task.inPortal_bind]
      refine Task.safe_write_inPortal fun m hr' hinv' a db hreset _ => ?_
      obtain ⟨hhold', hsame⟩ := hr'.holding hhold
      have hhalf : halfReplaced id m.trace = true := by
        rw [hsame]
        simp [halfReplaced, ServerEvent.replacesFactor]
      have hfactors := resetTOTPLastUsed_factors (io 1) id m.state.db
      rw [hreset] at hfactors
      refine ⟨factoring_did ?_ (fun u => .inr (hfactors.2 u).1) (.inr hhold'),
        safe_holding _ hhold'⟩
      exact hinv'.settle hhalf (hfactors.1 hinv'.ids) (fun u => (hfactors.2 u).1)
        fun u hu => (hfactors.2 u).2 hu

theorem safe_confirmTOTPEnrolment (nonce : Option (List UInt8)) (id secret code : String)
    (nowNs : ℤ) :
    (factoring c).Tame i
      (Console.confirmTOTPEnrolment c io nonce id secret code nowNs).inPortal h := by
  unfold Console.confirmTOTPEnrolment
  cases c.pepper with
  | none => exact .done
  | some pepper =>
    refine safe_onUser id fun found k hhold => ?_
    cases found with
    | none => exact safe_holding _ hhold
    | some user =>
      dsimp only
      split
      · exact safe_holding _ hhold
      split
      · exact safe_holding _ hhold
      cases nonce with
      | none => exact safe_holding _ hhold
      | some nonce => exact safe_replaceFactor io id _ hhold

theorem safe_disableTOTP (id : String) :
    (factoring c).Tame i (Console.disableTOTP io id).inPortal h := by
  refine safe_onUser id fun found k hhold => ?_
  cases found with
  | none => exact safe_holding _ hhold
  | some user =>
    dsimp only
    split
    · exact safe_holding _ hhold
    · exact safe_replaceFactor io id [] hhold

theorem safe_tick (ns : ℕ) : (factoring c).Tame i (Auth.tick ns) h :=
  fun _ _ hinv _ => ⟨factoring_calm hinv (Calm.of_users rfl rfl), fun _ _ _ => trivial⟩

end Threads

/-- Logins and replacements of the factor, and the clock. -/
inductive FactorCall where
  | login (env : LoginEnv) (req : LoginRequest)
  /-- `ConfirmTOTPEnrolment` -/
  | confirm (io : ℕ → Faults) (nonce : Option (List UInt8)) (id secret code : String) (nowNs : ℤ)
  /-- `DisableTOTP` -/
  | disable (io : ℕ → Faults) (id : String)
  | tick (ns : ℕ)

inductive FactorAnswer where
  | loggedIn (answer : Except LoginError LoginResult)
  | replaced (answer : Except TotpError Unit)
  | ticked
  deriving DecidableEq

def FactorCall.task : FactorCall → PortalTask FactorAnswer
  | .login env req => (Auth.login c env req).bind fun a => .ret (.loggedIn a)
  | .confirm io nonce id secret code nowNs =>
    (Console.confirmTOTPEnrolment c io nonce id secret code nowNs).inPortal.bind
      fun a => .ret (.replaced a)
  | .disable io id => (Console.disableTOTP io id).inPortal.bind fun a => .ret (.replaced a)
  | .tick ns => (Auth.tick ns).bind fun _ => .ret .ticked

def FactorCall.Shows (i : ℕ) (call : FactorCall) (a : FactorAnswer) (k : PortalHistory) : Prop :=
  ∀ env req r, call = .login env req → a = .loggedIn (.ok r) → Proved c i r.user req.totpCode k.trace

theorem safe_factorCall (call : FactorCall) {i : ℕ} {h : PortalHistory} :
    (factoring c).Safe i (call.Shows c i) (call.task c) h := by
  cases call with
  | login env req =>
    refine (safe_login env req).seq fun a k hproved m hr _ => ?_
    rintro _ _ r ⟨⟩ ha
    exact (hproved r (FactorAnswer.loggedIn.inj ha)).more hr.grown
  | confirm io nonce id secret code nowNs =>
    refine (safe_confirmTOTPEnrolment io nonce id secret code nowNs).seq ?_
    exact fun _ _ _ _ _ _ _ _ _ hcall => nomatch hcall
  | disable io id =>
    refine (safe_disableTOTP io id).seq ?_
    exact fun _ _ _ _ _ _ _ _ _ hcall => nomatch hcall
  | tick ns =>
    refine (safe_tick ns).seq ?_
    exact fun _ _ _ _ _ _ _ _ _ hcall => nomatch hcall

/-- **One code, one login**, in every run in which steps are spent in time and secrets are enrolled
anew.  The steps spent with one secret of an account grow strictly, no two logins have spent the
same step of it, and a login to an account with a second factor succeeds only with a step of its
code that it has spent. -/
theorem one_code_one_login (c : Crypto) (s : Portal) (hids : Table.KeysNodup User.id s.db.users)
    (calls : List FactorCall) (sched : List ℕ)
    (hmeets : Along Pool.step (Pool.Meets (SpendsInTime c))
      (Pool.start s (calls.map (FactorCall.task c))) sched) :
    let pool := run Pool.step (Pool.start s (calls.map (FactorCall.task c))) sched
    StepsIncrease pool.hist.trace ∧
      (∀ i i' userID secret n, (i, .stepSpent userID secret n true) ∈ pool.hist.trace →
        (i', .stepSpent userID secret n true) ∈ pool.hist.trace → i = i') ∧
      ∀ i env req r, calls[i]? = some (.login env req) →
        pool.answers[i]? = some (some (.loggedIn (.ok r))) → r.user.totpSecretEnc ≠ [] →
        ∃ secret n t, c.openFactor r.user.totpSecretEnc = some secret ∧
          verifyTOTPStep c secret req.totpCode t = some n ∧
          (i, .stepSpent r.user.id secret n true) ∈ pool.hist.trace := by
  intro pool
  have hkept := Discipline.run_safe (.of_each_call (FactorsKept.start s hids)
    fun _ call _ => safe_factorCall c call) hmeets
  have hincrease : StepsIncrease pool.hist.trace := hkept.inv.increase
  refine ⟨hincrease, fun i i' userID secret n hi hi' => hincrease.unique hi hi', ?_⟩
  intro i env req r hcall hanswer hne
  exact hkept.answer (Pool.getElem?_answers.mp hanswer) _ hcall env req r rfl rfl hne

/-! ## In time, and too late -/

/-- Secrets are sealed letter by letter, and have one code of their own in the second step. -/
def plainCodes : Crypto where
  verifyPassword hash password := hash = password
  hashSessionID id := id
  codeAt _ step := some (if step = 2 then "123456" else "000000")
  pepper := some
    { encrypt := fun _ secret => secret.toList.map fun letter => letter.toNat.toUInt8
      decrypt := fun sealed => some (String.ofList (sealed.map fun b => Char.ofNat b.toNat)) }

def enrolledOwner : User :=
  { id := "u", username := "owner", role := .user, status := .active,
    passwordHash := "password", totpSecretEnc := [115] }

def enrolledAccount : Portal :=
  { db := { users := [enrolledOwner] }, clockNs := 60000000000 }

def oneCodeTwice : List FactorCall :=
  [.login { sessionID := some "first" }
      { username := "owner", password := "password", totpCode := "123456" },
    .login { sessionID := some "second" }
      { username := "owner", password := "password", totpCode := "123456" },
    .disable (fun _ => noFaults) "u"]

def oneAfterTheOther : List ℕ :=
  [0, 0, 0, 0, 0, 0, 0, 0, 0, 1, 1, 1, 1, 1, 1, 1, 1, 1, 2, 2, 2, 2, 2]

/-- The first login is let in with the code, and the second one is told that it was used. -/
theorem one_code_one_login_in_turn :
    let pool := run Pool.step
      (Pool.start enrolledAccount (oneCodeTwice.map (FactorCall.task plainCodes))) oneAfterTheOther
    pool.answers = [some (.loggedIn (.ok ⟨"first", "", enrolledOwner, 43260000000000⟩)),
        some (.loggedIn (.error .totpAlreadyUsed)), some (.replaced (.ok ()))] ∧
      (0, .stepSpent "u" "s" 60000000000 true) ∈ pool.hist.trace ∧
      ∀ i, (i, .stepSpent "u" "s" 60000000000 true) ∈ pool.hist.trace → i = 0 := by
  intro pool
  have hfirst : (0, .stepSpent "u" "s" 60000000000 true) ∈ pool.hist.trace := by decide +kernel
  obtain ⟨-, hunique, -⟩ := one_code_one_login plainCodes enrolledAccount (by decide +kernel)
    oneCodeTwice oneAfterTheOther (by decide +kernel)
  exact ⟨by decide +kernel, hfirst, fun i hi => hunique i 0 _ _ _ hi hfirst⟩

/-- **One code, two logins.**  The first login has read the account; the second one spends the step
and succeeds; then the factor is removed, which sets the ledger back.  The first login goes on with
the secret it has read and spends the same step again. -/
theorem one_code_spent_twice :
    let pool := run Pool.step
      (Pool.start enrolledAccount (oneCodeTwice.map (FactorCall.task plainCodes)))
      [0, 1, 1, 1, 1, 1, 1, 1, 1, 1, 2, 2, 2, 2, 2, 0, 0, 0, 0, 0, 0, 0, 0]
    pool.answers = [some (.loggedIn (.ok ⟨"first", "", enrolledOwner, 43260000000000⟩)),
          some (.loggedIn (.ok ⟨"second", "", enrolledOwner, 43260000000000⟩)),
          some (.replaced (.ok ()))] ∧
      (0, .stepSpent "u" "s" 60000000000 true) ∈ pool.hist.trace ∧
      (1, .stepSpent "u" "s" 60000000000 true) ∈ pool.hist.trace := by
  decide +kernel

end Prism
