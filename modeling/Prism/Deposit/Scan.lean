import Prism.Deposit.Occupancy
import Prism.State.Account

/-!
# One bad transfer

A scan passes over a transfer that nobody owns and over one that was credited before, and ends at
any other error.  Which errors can there be when nothing is wrong with the database?  One: the
intents carry the id of their user without a reference, so they stay when the account is deleted.
A payment to such an intent is an *orphan*: its credit breaks the foreign key, the scan ends there,
and since the cursor has not moved past the orphan the next scan ends at the same place.

The other reason why a payment that is due is not credited lies in the page: two payments for one
intent, or two under one transaction, cannot both be.  There is no third one (`payable_credited`).
-/

namespace Prism

open Table

variable {db db0 : Db} {t : Transfer} {env : ScanEnv} {past : List Transfer}

/-! ## The transfers of a page -/

/-- An intent was paid by the transaction, or the ledger has a deposit under it. -/
def Db.TxSettled (db : Db) (txID : String) : Prop :=
  (∃ i ∈ db.depositIntents, i.txID = txID ∧ i.status = .paid) ∨
    txID ≠ "" ∧ ∃ e ∈ depositRows db, e.refID = txID
  deriving Decidable

/-- The intent is unpaid, and the transfer is what it waits for. -/
abbrev DepositIntent.Awaits (i : DepositIntent) (t : Transfer) : Prop :=
  i.matches t.amountMicro t.blockTSNs = true

/-- A payment that is due: large enough, not settled, and for an unpaid intent of an account. -/
@[mk_iff] structure Db.Payable (db : Db) (t : Transfer) : Prop where
  amount : depositMinMicro ≤ t.amountMicro
  fresh : ¬ db.TxSettled t.txID
  owner : ∃ i ∈ db.depositIntents, i.Awaits t ∧ db.hasUser i.userID = true

instance (db : Db) (t : Transfer) : Decidable (db.Payable t) :=
  decidable_of_iff' _ (Db.payable_iff db t)

/-- A payment that is for an unpaid intent of a deleted account. -/
@[mk_iff] structure Db.Orphaned (db : Db) (t : Transfer) : Prop where
  amount : depositMinMicro ≤ t.amountMicro
  fresh : db.paidBy t.txID = none
  owner : ∃ i ∈ db.depositIntents, i.Awaits t ∧ db.hasUser i.userID = false

instance (db : Db) (t : Transfer) : Decidable (db.Orphaned t) :=
  decidable_of_iff' _ (Db.orphaned_iff db t)

/-- An intent waits for both transfers. -/
def Db.OneIntent (db : Db) (s t : Transfer) : Prop :=
  ∃ i ∈ db.depositIntents, i.Awaits s ∧ i.Awaits t
  deriving Decidable

/-- Payments of the list that are due, and are about one transaction or about one intent, are one
payment: they are about both. -/
def Db.Apart (db : Db) (ts : List Transfer) : Prop :=
  ∀ s ∈ ts, ∀ t ∈ ts, db.Payable s → db.Payable t →
    (s.txID = t.txID ↔ db.OneIntent s t)
  deriving Decidable

/-- Behind an orphan of the list there is no payment that is due, unless it stands before it as well.
A payment that is due and comes before the orphan shields it, if it is about its transaction. -/
def Db.Unblocked (db : Db) (ts : List Transfer) : Prop :=
  ∀ l o l', ts = l ++ o :: l' → db.Orphaned o → (∀ p ∈ l, db.Payable p → p.txID ≠ o.txID) →
    ∀ t ∈ l', db.Payable t → ∃ p ∈ l, db.Payable p ∧ p.txID = t.txID ∧ db.OneIntent p t

/-- A transfer could belong to one intent only. -/
def Db.MatchOnce (db : Db) : Prop :=
  ∀ i ∈ db.depositIntents, ∀ j ∈ db.depositIntents, ∀ amountMicro blockTSNs,
    i.matches amountMicro blockTSNs = true → j.matches amountMicro blockTSNs = true → i = j

/-- A payment that is due and an orphan are never for one intent. -/
theorem Db.Payable.hasUser {i : DepositIntent} (h : db.Payable t) (honce : db.MatchOnce)
    (hi : i ∈ db.depositIntents) (hmatch : i.Awaits t) : db.hasUser i.userID = true := by
  obtain ⟨j, hj, hmatch', huser⟩ := h.owner
  rwa [honce j hj i hi _ _ hmatch' hmatch] at huser

theorem Db.Apart.mono {ts ts' : List Transfer} (h : db.Apart ts) (hsub : ts' ⊆ ts) : db.Apart ts' :=
  fun s hs t ht => h s (hsub hs) t (hsub ht)

theorem Occupied.matchOnce {clock : ℤ} (h : Occupied clock db) : db.MatchOnce :=
  fun _ hi _ hj _ _ hmi hmj => h.eq_of_matches hi hj hmi hmj

/-- The ledger has the transfer. -/
def Db.Credited (db : Db) (t : Transfer) : Prop :=
  ∃ e ∈ depositRows db, e.refID = t.txID ∧ e.deltaMicro = t.amountMicro
  deriving Decidable

/-- The amount and the time of the transfer are those the intent was opened for. -/
def DepositIntent.Covers (i : DepositIntent) (t : Transfer) : Prop :=
  i.amountMicro = t.amountMicro ∧ i.createdAtNs ≤ t.blockTSNs ∧ t.blockTSNs < i.holdUntilNs
  deriving Decidable

/-- The payment has come to its owner: an intent it is for is paid by its transaction, and the ledger
has it under the user of the intent. -/
def Db.Received (db : Db) (t : Transfer) : Prop :=
  ∃ i ∈ db.depositIntents, i.status = .paid ∧ i.txID = t.txID ∧ i.Covers t ∧
    ∃ e ∈ depositRows db, e.userID = i.userID ∧ e.refID = t.txID ∧ e.deltaMicro = t.amountMicro
  deriving Decidable

/-- A scan in which nothing fails: no fault, and identifiers that are all new. -/
structure ScanEnv.Quiet (env : ScanEnv) (db : Db) : Prop where
  io : ∀ k, env.io k = noFaults
  ioCursor : env.ioCursor = noFaults
  ioAdvance : env.ioAdvance = noFaults
  minted : ∀ k, (env.entryID k).isSome = true
  apart : ∀ j k, j < k → env.entryID j ≠ env.entryID k
  fresh : ∀ k, ∀ r ∈ db.balanceLedger, env.entryID k ≠ some r.id

/-! ## One credit -/

variable {intent : DepositIntent}

theorem DepositIntent.matches_iff_covers :
    intent.Awaits t ↔ intent.Covers t ∧ intent.status ≠ .paid := by
  rw [DepositIntent.Awaits, DepositIntent.matches_iff, DepositIntent.Covers]
  tauto

/-- The intent as the transfer leaves it. -/
def DepositIntent.settledBy (t : Transfer) (nowNs : ℤ) (i : DepositIntent) : DepositIntent :=
  { i with status := .paid, txID := t.txID, paidAtNs := nowNs }

theorem Db.exists_of_paidBy {txID : String} (h : db.paidBy txID ≠ none) :
    ∃ i ∈ db.depositIntents, i.status = .paid ∧ i.txID = txID := by
  obtain ⟨i, hi⟩ := Option.ne_none_iff_exists'.mp h
  have hp := List.find?_some hi
  simp only [Bool.and_eq_true, decide_eq_true_eq] at hp
  exact ⟨i, List.mem_of_find?_eq_some hi, hp.2, hp.1⟩

theorem Db.paidBy_ne_none {i : DepositIntent} (hi : i ∈ db.depositIntents) (hpaid : i.status = .paid) :
    db.paidBy i.txID ≠ none := by
  intro hnone
  have hnot := List.find?_eq_none.mp hnone i hi
  simp [hpaid] at hnot

theorem Db.creditable_credited {entry : BalanceEntry} (h : db.Creditable intent.userID)
    (txID : String) (nowNs : ℤ) (cursorName : String) (watermarkMs : ℤ) (u : String) :
    (db.credited entry intent txID nowNs cursorName watermarkMs).Creditable u ↔
      db.Creditable u := by
  by_cases hu : u = intent.userID
  · subst hu
    refine iff_of_true (.inl ?_) h
    exact Option.isSome_of_eq_some ((lookup_replace ..).trans (if_pos rfl))
  · have hlookup : lookup BalanceRow.userID u
        (db.credited entry intent txID nowNs cursorName watermarkMs).userBalance =
        lookup BalanceRow.userID u db.userBalance := (lookup_replace ..).trans (if_neg hu)
    unfold Db.Creditable
    rw [hlookup]
    rfl

section Credited

variable (hids : KeysNodup DepositIntent.id db.depositIntents) (hmem : intent ∈ db.depositIntents)
  (entry : BalanceEntry) (o : Transfer) (nowNs : ℤ) (cursorName : String) (watermarkMs : ℤ)

include hids hmem

/-- A credit settles its intent, and no other one. -/
theorem Db.mem_credited_iff {j : DepositIntent} :
    j ∈ (db.credited entry intent o.txID nowNs cursorName watermarkMs).depositIntents ↔
      j = intent.settledBy o nowNs ∨ j ∈ db.depositIntents ∧ j ≠ intent := by
  have hone : ∀ i ∈ db.depositIntents, decide (i.id = intent.id) = true ↔ i = intent := by
    intro i hi
    rw [decide_eq_true_iff]
    exact ⟨eq_of_mem_of_key_eq hids hi hmem, congrArg _⟩
  refine mem_updateWhere.trans ⟨?_, ?_⟩
  · rintro ⟨i, hi, rfl⟩
    split
    · rename_i heq
      rw [(hone i hi).mp heq]
      exact .inl rfl
    · rename_i hne
      exact .inr ⟨hi, fun heq => hne ((hone i hi).mpr heq)⟩
  · rintro (rfl | ⟨hj, hne⟩)
    · exact ⟨intent, hmem, if_pos (decide_eq_true rfl)⟩
    · exact ⟨j, hj, if_neg fun heq => hne ((hone j hj).mp heq)⟩

theorem Db.mem_credited_of_paid (hnotpaid : intent.status ≠ .paid) {j : DepositIntent}
    (hj : j ∈ db.depositIntents) (hpaid : j.status = .paid) :
    j ∈ (db.credited entry intent o.txID nowNs cursorName watermarkMs).depositIntents := by
  refine (Db.mem_credited_iff hids hmem ..).mpr (.inr ⟨hj, fun heq => hnotpaid ?_⟩)
  rw [← heq, hpaid]

theorem Db.Received.credited (hnotpaid : intent.status ≠ .paid) (h : db.Received t) :
    (db.credited entry intent o.txID nowNs cursorName watermarkMs).Received t := by
  obtain ⟨i, hi, hpaid, htx, hcovers, e, he, hrow⟩ := h
  refine ⟨i, Db.mem_credited_of_paid hids hmem _ _ _ _ _ hnotpaid hi hpaid, hpaid, htx, hcovers, e,
    ?_, hrow⟩
  rw [depositRows_credited]
  exact List.mem_append_left _ he

end Credited

/-! ## The loop -/

theorem forall_split_concat {α : Type*} {P : List α → α → Prop} {l₀ : List α} {a : α}
    (h : ∀ l x l', l₀ = l ++ x :: l' → P l x) (ha : P l₀ a) (l : List α) (x : α) (l' : List α)
    (happ : l₀ ++ [a] = l ++ x :: l') : P l x := by
  rcases List.append_eq_append_iff.mp happ with ⟨m, rfl, hm⟩ | ⟨m, rfl, hm⟩
  · cases m with
    | nil =>
      rw [List.append_nil, ← (List.cons.inj hm).1]
      exact ha
    | cons b m => simp at hm
  · cases m with
    | nil =>
      rw [List.append_nil] at ha
      rw [(List.cons.inj hm).1]
      exact ha
    | cons b m =>
      rw [(List.cons.inj hm).1]
      exact h l b m rfl

/-- The tables in the course of a scan that started from `db₀`, with the transfers `past` behind
it. -/
structure Scanning (env : ScanEnv) (nowNs : ℤ) (db₀ : Db) (past : List Transfer) (db : Db) :
    Prop where
  ids : KeysNodup DepositIntent.id db.depositIntents
  creditable : ∀ u, db.Creditable u ↔ db₀.hasUser u = true
  fresh : ∀ k, past.length ≤ k → ∀ r ∈ db.balanceLedger, env.entryID k ≠ some r.id
  ledger : ∀ e ∈ depositRows db₀, e ∈ depositRows db
  /-- an intent of the start is there as it was, or a payment of the page has settled it -/
  kept : ∀ i ∈ db₀.depositIntents, i ∈ db.depositIntents ∨ ∃ p ∈ past, db₀.Payable p ∧
    i.Awaits p ∧ i.settledBy p nowNs ∈ db.depositIntents
  /-- one that was not there is such an intent, and the payment is in the ledger -/
  new : ∀ j ∈ db.depositIntents, j ∈ db₀.depositIntents ∨ ∃ p ∈ past, db₀.Payable p ∧
    ∃ i ∈ db₀.depositIntents, i.Awaits p ∧
      j = i.settledBy p nowNs ∧
      ∃ e ∈ depositRows db, e.userID = i.userID ∧ e.refID = p.txID ∧ e.deltaMicro = p.amountMicro
  rows : ∀ e ∈ depositRows db, e ∈ depositRows db₀ ∨
    ∃ j ∈ db.depositIntents, j.status = .paid ∧ j.txID = e.refID
  /-- a transaction settles one intent -/
  once : ∀ j ∈ db.depositIntents, ∀ j' ∈ db.depositIntents, j.status = .paid → j'.status = .paid →
    j.txID = j'.txID → j ∉ db₀.depositIntents → j = j'
  /-- the scan has come past an orphan only where its transaction was settled -/
  shielded : ∀ l o l', past = l ++ o :: l' → db₀.Orphaned o →
    ∃ p ∈ l, db₀.Payable p ∧ p.txID = o.txID
  received : db₀.Apart past → ∀ p ∈ past, db₀.Payable p → db.Received p

theorem Scanning.start (hids : KeysNodup DepositIntent.id db.depositIntents)
    (hforeign : ∀ row ∈ db.userBalance, db.hasUser row.userID = true) (henv : env.Quiet db)
    (nowNs : ℤ) : Scanning env nowNs db [] db where
  ids := hids
  creditable u := by
    refine ⟨?_, .inr⟩
    rintro (hrow | huser)
    · obtain ⟨row, hrow⟩ := Option.isSome_iff_exists.mp hrow
      rw [← key_of_lookup hrow]
      exact hforeign row (mem_of_lookup hrow)
    · exact huser
  fresh k _ := henv.fresh k
  ledger _ he := he
  kept _ hi := .inl hi
  new _ hj := .inl hj
  rows _ he := .inl he
  once j hj _ _ _ _ _ hnew := absurd hj hnew
  shielded l o l' h := absurd h (by simp)
  received _ _ hp := absurd hp List.not_mem_nil

section

variable {nowNs : ℤ} {o : Transfer} (h : Scanning env nowNs db0 past db)

include h

theorem Scanning.mem_start {i : DepositIntent} (hi : i ∈ db.depositIntents)
    (hnotpaid : i.status ≠ .paid) : i ∈ db0.depositIntents := by
  refine (h.new i hi).resolve_right ?_
  rintro ⟨p, -, -, j, -, -, rfl, -⟩
  exact hnotpaid rfl

theorem Scanning.paidBy_start (hnone : db.paidBy o.txID = none) : db0.paidBy o.txID = none := by
  by_contra hsome
  obtain ⟨i, hi, hpaid, htx⟩ := Db.exists_of_paidBy hsome
  rcases h.kept i hi with hi | ⟨p, -, -, hmatch, -⟩
  · exact Db.paidBy_ne_none hi hpaid (htx ▸ hnone)
  · exact (DepositIntent.matches_iff.mp hmatch).2.1 hpaid

/-- The owner that is found is the one the transfer had at the start. -/
theorem Scanning.owner_eq (honce : db0.MatchOnce)
    (howner : db.intentForTransfer o.amountMicro o.blockTSNs = some intent) {i : DepositIntent}
    (hi : i ∈ db0.depositIntents) (hmatch : i.Awaits o) :
    i = intent := by
  obtain ⟨hmem, hmatch'⟩ := Db.intentForTransfer_eq_some howner
  have hmem' := h.mem_start hmem (DepositIntent.matches_iff.mp hmatch').2.1
  exact honce i hi intent hmem' _ _ hmatch hmatch'

/-- **A payment whose transaction is settled was received**, if those of its transaction are for its
intent. -/
theorem Scanning.received_of_paid (honce : db0.MatchOnce) (ht : db0.Payable t)
    (hone : ∀ p ∈ past, db0.Payable p → p.txID = t.txID → db0.OneIntent p t) {j : DepositIntent}
    (hj : j ∈ db.depositIntents) (hpaid : j.status = .paid) (htx : j.txID = t.txID) :
    db.Received t := by
  rcases h.new j hj with hj0 | ⟨p, hp, hpay, i, hi, hmatch, rfl, e, he, huser, href, hamount⟩
  · exact absurd (.inl ⟨j, hj0, htx, hpaid⟩) ht.fresh
  have hptx : p.txID = t.txID := htx
  obtain ⟨i', hi', hmatchp, hmatcht⟩ := hone p hp hpay hptx
  rw [honce i' hi' i hi _ _ hmatchp hmatch] at hmatcht
  have hcovers := (DepositIntent.matches_iff_covers.mp hmatcht).1
  have hsame : p.amountMicro = t.amountMicro := by
    rw [← (DepositIntent.matches_iff.mp hmatch).1, hcovers.1]
  exact ⟨_, hj, rfl, htx, hcovers, e, he, huser, href.trans hptx, hamount.trans hsame⟩

theorem Scanning.pass (hshield : db0.Orphaned o → ∃ p ∈ past, db0.Payable p ∧ p.txID = o.txID)
    (hreceived : db0.Apart (past ++ [o]) → db0.Payable o → db.Received o) :
    Scanning env nowNs db0 (past ++ [o]) db where
  ids := h.ids
  creditable := h.creditable
  fresh k hk := h.fresh k (by rw [List.length_append] at hk; omega)
  ledger := h.ledger
  kept i hi := (h.kept i hi).imp_right fun ⟨p, hp, hrest⟩ => ⟨p, List.mem_append_left _ hp, hrest⟩
  new j hj := (h.new j hj).imp_right fun ⟨p, hp, hrest⟩ => ⟨p, List.mem_append_left _ hp, hrest⟩
  rows := h.rows
  once := h.once
  shielded := forall_split_concat h.shielded hshield
  received hapart p hp hpay := by
    rcases List.mem_append.mp hp with hp | hp
    · exact h.received (hapart.mono (List.subset_append_left ..)) p hp hpay
    · rw [List.mem_singleton.mp hp] at hpay ⊢
      exact hreceived hapart hpay

/-- **A payment is credited.** -/
theorem Scanning.credit (henv : env.Quiet db0) (hpay : db0.Payable o) (hnot : ¬ db0.Orphaned o)
    {id : String} (hid : env.entryID past.length = some id)
    (hcredits : db.CreditsTo o.txID o.amountMicro o.blockTSNs nowNs (scanEntry id o) intent) :
    Scanning env nowNs db0 (past ++ [o])
      (db.credited (scanEntry id o) intent o.txID nowNs depositCursorName o.blockTSMs) := by
  obtain ⟨hmem, hmatch⟩ := Db.intentForTransfer_eq_some hcredits.owner
  obtain ⟨hamount, hnotpaid, -⟩ := DepositIntent.matches_iff.mp hmatch
  have hiff := fun j => Db.mem_credited_iff h.ids hmem (scanEntry id o) o nowNs depositCursorName
    o.blockTSMs (j := j)
  have hstays := fun j => Db.mem_credited_of_paid h.ids hmem (scanEntry id o) o nowNs
    depositCursorName o.blockTSMs hnotpaid (j := j)
  have hrows := depositRows_credited db (scanEntry id o) intent o.txID nowNs depositCursorName
    o.blockTSMs
  have holast : o ∈ past ++ [o] := List.mem_append_right _ (List.mem_singleton_self o)
  have hentry : db.creditEntry (scanEntry id o) intent o.txID nowNs ∈ depositRows
      (db.credited (scanEntry id o) intent o.txID nowNs depositCursorName o.blockTSMs) := by
    rw [hrows]
    exact List.mem_append_right _ (List.mem_singleton_self _)
  refine ⟨?_, fun u => ?_, fun k hk r hr => ?_, fun e he => ?_, fun i hi => ?_, fun j hj => ?_,
    fun e he => ?_, fun j hj j' hj' hpaid hpaid' htx hnew => ?_,
    forall_split_concat h.shielded fun ho => absurd ho hnot, fun hapart p hp hp' => ?_⟩
  · refine keysNodup_updateWhere ?_ h.ids
    intro r _
    rfl
  · rw [Db.creditable_credited hcredits.creditable, h.creditable]
  · rw [List.length_append, List.length_singleton] at hk
    rcases List.mem_append.mp (show r ∈ db.balanceLedger ++ [_] from hr) with hr | hr
    · exact h.fresh k (by omega) r hr
    · rw [List.mem_singleton.mp hr]
      show env.entryID k ≠ some id
      rw [← hid]
      exact (henv.apart past.length k (by omega)).symm
  · rw [hrows]
    exact List.mem_append_left _ (h.ledger e he)
  · rcases h.kept i hi with hi | ⟨p, hp, hpay', hmatch', hsettled⟩
    · by_cases heq : i = intent
      · rw [heq]
        exact .inr ⟨o, holast, hpay, hmatch, (hiff _).mpr (.inl rfl)⟩
      · exact .inl ((hiff i).mpr (.inr ⟨hi, heq⟩))
    · exact .inr ⟨p, List.mem_append_left _ hp, hpay', hmatch', hstays _ hsettled rfl⟩
  · rcases (hiff j).mp hj with rfl | ⟨hj, -⟩
    · exact .inr ⟨o, holast, hpay, intent, h.mem_start hmem hnotpaid, hmatch, rfl, _, hentry, rfl,
        rfl, hamount⟩
    · refine (h.new j hj).imp_right ?_
      rintro ⟨p, hp, hpay', i, hi, hmatch', hsettled, e, he, hrow⟩
      refine ⟨p, List.mem_append_left _ hp, hpay', i, hi, hmatch', hsettled, e, ?_, hrow⟩
      rw [hrows]
      exact List.mem_append_left _ he
  · rw [hrows] at he
    rcases List.mem_append.mp he with he | he
    · refine (h.rows e he).imp_right ?_
      rintro ⟨j, hj, hpaid, htx⟩
      exact ⟨j, hstays j hj hpaid, hpaid, htx⟩
    · rw [List.mem_singleton.mp he]
      exact .inr ⟨_, (hiff _).mpr (.inl rfl), rfl, rfl⟩
  · -- no intent had been paid by the transaction before
    have hfresh : ∀ x ∈ db.depositIntents, x.status = .paid → x.txID ≠ o.txID :=
      fun x hx hxpaid hxtx => Db.paidBy_ne_none hx hxpaid (hxtx ▸ hcredits.fresh)
    rcases (hiff j).mp hj with rfl | ⟨hj, -⟩
    · rcases (hiff j').mp hj' with rfl | ⟨hj', -⟩
      · rfl
      · exact absurd htx.symm (hfresh j' hj' hpaid')
    · rcases (hiff j').mp hj' with rfl | ⟨hj', -⟩
      · exact absurd htx (hfresh j hj hpaid)
      · exact h.once j hj j' hj' hpaid hpaid' htx hnew
  · rcases List.mem_append.mp hp with hp | hp
    · refine Db.Received.credited h.ids hmem _ _ _ _ _ hnotpaid ?_
      exact h.received (hapart.mono (List.subset_append_left ..)) p hp hp'
    · rw [List.mem_singleton.mp hp]
      have hcovers : (intent.settledBy o nowNs).Covers o :=
        (DepositIntent.matches_iff_covers.mp hmatch).1
      exact ⟨_, (hiff _).mpr (.inl rfl), rfl, rfl, hcovers, _, hentry, rfl, rfl, hamount⟩

/-- What the turn of a transfer comes to: the scan goes on behind it, or it ends at an orphan. -/
inductive ScanTurn (env : ScanEnv) (nowNs : ℤ) (db₀ : Db) (past : List Transfer) (o : Transfer)
    (db : Db) : Prop where
  | go (db' : Db) (n : ℕ) (hscan : Scanning env nowNs db₀ (past ++ [o]) db')
      (h : ∀ ts c, creditTransfers env nowNs past.length (o :: ts) c db =
        creditTransfers env nowNs (past.length + 1) ts (c + n) db')
  | stop (horphan : db₀.Orphaned o) (hfresh : db.paidBy o.txID = none)
      (h : ∀ ts c, (creditTransfers env nowNs past.length (o :: ts) c db).2 = db)

/-- **One turn of the loop.**  Only an orphan ends it. -/
theorem scanTurn (honce : db0.MatchOnce) (henv : env.Quiet db0) (o : Transfer) :
    ScanTurn env nowNs db0 past o db := by
  by_cases hmin : depositMinMicro ≤ o.amountMicro
  swap
  · refine .go db 0 (h.pass (fun ho => absurd ho.amount hmin) fun _ hp => absurd hp.amount hmin)
      fun ts c => ?_
    rw [creditTransfers, if_pos (by omega)]
    rfl
  obtain ⟨id, hid⟩ := Option.isSome_iff_exists.mp (henv.minted past.length)
  have hnew : ∀ r ∈ db.balanceLedger, r.id ≠ (scanEntry id o).id := by
    intro r hr hrid
    exact h.fresh past.length le_rfl r hr (hid.trans (congrArg some hrid.symm))
  have hio := henv.io past.length
  have hlast : o ∈ past ++ [o] := List.mem_append_right _ (List.mem_singleton_self o)
  -- a payment whose transaction is settled at its turn was received by then
  have hpaid : ∀ j ∈ db.depositIntents, j.status = .paid → j.txID = o.txID →
      db0.Apart (past ++ [o]) → db0.Payable o → db.Received o := by
    intro j hj hjpaid hjtx hapart hpay
    refine h.received_of_paid honce hpay (fun p hp hp' htx => ?_) hj hjpaid hjtx
    exact (hapart p (List.mem_append_left _ hp) o hlast hp' hpay).mp htx
  -- one whose owner has an account is no orphan
  have hnot : ∀ i, db.intentForTransfer o.amountMicro o.blockTSNs = some i →
      db.Creditable i.userID → ¬ db0.Orphaned o := by
    rintro i howner hcreditable ⟨-, -, i', hi', hmatch, hgone⟩
    rw [h.owner_eq honce howner hi' hmatch, (h.creditable _).mp hcreditable] at hgone
    cases hgone
  cases creditDeposit_noFaults o.txID o.amountMicro o.blockTSNs nowNs depositCursorName
      o.blockTSMs (scanEntry id o) rfl hnew with
  | settled hsettled hr =>
    obtain ⟨j, hj, hjpaid, hjtx⟩ := Db.exists_of_paidBy hsettled
    refine .go db 0 (h.pass (fun ho => ?_) (hpaid j hj hjpaid hjtx)) fun ts c => ?_
    · rcases h.new j hj with hj0 | ⟨p, hp, hpay, i, -, -, rfl, -⟩
      · exact absurd (hjtx ▸ ho.fresh) (Db.paidBy_ne_none hj0 hjpaid)
      · exact ⟨p, hp, hpay, hjtx⟩
    · rw [creditTransfers_cons hmin hid, hio, creditTransfer, hr]
      rfl
  | unowned hfresh howner hr =>
    have hgone : ∀ i ∈ db0.depositIntents, i.Awaits o →
        ∃ p ∈ past, db0.Payable p ∧ i.Awaits p ∧
          i.settledBy p nowNs ∈ db.depositIntents := by
      intro i hi hmatch
      refine (h.kept i hi).resolve_left fun hin => ?_
      exact absurd hmatch (Bool.eq_false_iff.mp (Db.intentForTransfer_eq_none_iff.mp howner i hin))
    refine .go db 0 (h.pass (fun ho => ?_) fun hapart hpay => ?_) fun ts c => ?_
    · obtain ⟨i, hi, hmatch, hnone⟩ := ho.owner
      obtain ⟨p, -, hp, hmatchp, -⟩ := hgone i hi hmatch
      exact absurd (hp.hasUser honce hi hmatchp) (Bool.eq_false_iff.mp hnone)
    · obtain ⟨i, hi, hmatch, -⟩ := hpay.owner
      obtain ⟨p, hp, hp', hmatchp, hsettled⟩ := hgone i hi hmatch
      refine hpaid _ hsettled rfl ?_ hapart hpay
      exact (hapart p (List.mem_append_left _ hp) o hlast hp' hpay).mpr ⟨i, hi, hmatchp, hmatch⟩
    · rw [creditTransfers_cons hmin hid, hio, creditTransfer, hr]
      rfl
  | orphaned intent hfresh howner hgone hr =>
    obtain ⟨hmem, hmatch⟩ := Db.intentForTransfer_eq_some howner
    have hmem0 := h.mem_start hmem (DepositIntent.matches_iff.mp hmatch).2.1
    refine .stop ⟨hmin, h.paidBy_start hfresh, intent, hmem0, hmatch, ?_⟩ hfresh fun ts c => ?_
    · rw [← Bool.not_eq_true, ← h.creditable]
      exact hgone
    · rw [creditTransfers_cons hmin hid, hio, creditTransfer, hr]
  | posted intent howner hcreditable htaken hr =>
    refine .go db 0 (h.pass (fun ho => absurd ho (hnot intent howner hcreditable))
      fun hapart hpay => ?_) fun ts c => ?_
    · obtain ⟨hself, r, hr, hdeposit, hkey⟩ := htaken
      have href : r.refID = o.txID := congrArg Prod.snd hkey
      simp only [Db.hasDepositRef, Bool.and_eq_true, decide_eq_true_eq] at hdeposit
      have hrow : r ∈ depositRows db := List.mem_filter.mpr ⟨hr, decide_eq_true hdeposit.1⟩
      rcases h.rows r hrow with hrow0 | ⟨j, hj, hjpaid, hjtx⟩
      · exact absurd (.inr ⟨href ▸ hdeposit.2, r, hrow0, href⟩) hpay.fresh
      · exact hpaid j hj hjpaid (hjtx.trans href) hapart hpay
    · rw [creditTransfers_cons hmin hid, hio, creditTransfer, hr]
      rfl
  | credited intent hcredits hr =>
    obtain ⟨hmem, hmatch⟩ := Db.intentForTransfer_eq_some hcredits.owner
    have hmem0 := h.mem_start hmem (DepositIntent.matches_iff.mp hmatch).2.1
    have hpay : db0.Payable o := by
      refine ⟨hmin, ?_, intent, hmem0, hmatch, (h.creditable _).mp hcredits.creditable⟩
      rintro (⟨i, hi, htx, hipaid⟩ | ⟨hne, e, he, href⟩)
      · exact Db.paidBy_ne_none hi hipaid (htx ▸ h.paidBy_start hcredits.fresh)
      · obtain ⟨hledger, hreason⟩ := List.mem_filter.mp (h.ledger e he)
        have hdeposit := of_decide_eq_true hreason
        refine hcredits.accepts.ref ⟨?_, e, hledger, ?_, ?_⟩
        · simp [Db.hasDepositRef, Db.creditEntry, depositEntry, hne]
        · simp [Db.hasDepositRef, hdeposit, href, hne]
        · simp [Db.refKey, Db.creditEntry, depositEntry, hdeposit, href]
    refine .go _ 1 (h.credit henv hpay (hnot intent hcredits.owner hcredits.creditable) hid
      hcredits) fun ts c => ?_
    rw [creditTransfers_cons hmin hid, hio, creditTransfer, hr]

end

/-- **The loop.**  It leaves a front part of the page behind, and where that is not all of it, it has
ended at an orphan. -/
theorem scan_ends (honce : db0.MatchOnce) (henv : env.Quiet db0) {nowNs : ℤ} :
    ∀ (ts past : List Transfer) (c : ℕ) (db : Db), Scanning env nowNs db0 past db →
      ∃ past' rest, past ++ ts = past' ++ rest ∧
        Scanning env nowNs db0 past' (creditTransfers env nowNs past.length ts c db).2 ∧
        ∀ o rest', rest = o :: rest' → db0.Orphaned o ∧
          (creditTransfers env nowNs past.length ts c db).2.paidBy o.txID = none := by
  intro ts
  induction ts with
  | nil => exact fun past c db h => ⟨past, [], rfl, h, nofun⟩
  | cons o ts ih =>
    intro past c db h
    cases scanTurn h honce henv o with
    | stop horphan hfresh heq =>
      refine ⟨past, o :: ts, rfl, ?_, ?_⟩
      · rw [heq]
        exact h
      · rw [heq]
        rintro o' rest' hrest
        rw [← (List.cons.inj hrest).1]
        exact ⟨horphan, hfresh⟩
    | go db' n hscan heq =>
      obtain ⟨past', rest, happ, hend⟩ := ih (past ++ [o]) (c + n) db' hscan
      rw [List.length_append, List.length_singleton] at hend
      rw [heq]
      exact ⟨past', rest, by rw [← happ, List.append_assoc]; rfl, hend⟩

/-! ## The page -/

section Page

variable {nowNs : ℤ} (h : Scanning env nowNs db0 past db)

include h

/-- A payment that was received by the end was settled by one of the page that is one with it. -/
theorem Scanning.exists_of_received (ht : db0.Payable t) (hreceived : db.Received t) :
    ∃ i ∈ db0.depositIntents, i.Awaits t ∧
      ∃ p ∈ past, db0.Payable p ∧ p.txID = t.txID ∧ i.Awaits p ∧
        i.settledBy p nowNs ∈ db.depositIntents := by
  obtain ⟨j, hj, hpaid, htx, hcovers, -⟩ := hreceived
  rcases h.new j hj with hj0 | ⟨p, hp, hpay, i, hi, hmatch, rfl, -⟩
  · exact absurd (.inl ⟨j, hj0, htx, hpaid⟩) ht.fresh
  · have hnotpaid := (DepositIntent.matches_iff.mp hmatch).2.1
    exact ⟨i, hi, DepositIntent.matches_iff_covers.mpr ⟨hcovers, hnotpaid⟩, p, hp, hpay, htx, hmatch,
      hj⟩

end Page

/-- **Two things keep a payment out, and no third.**  In every state in which the intents have
distinct ids, a transfer could belong to one of them only and the balances are of accounts, and for
every page the chain answers with: a scan in which nothing fails credits all the payments on the page
that are due if and only if no two of them are for one intent or under one transaction, without being
one payment, and none of them is behind a payment for an intent whose account is gone. -/
theorem payable_credited {env : ScanEnv} {address : String} {tron : ℤ → Option TransferPage}
    {db : Db} {page : TransferPage}
    (hids : Table.KeysNodup DepositIntent.id db.depositIntents) (honce : db.MatchOnce)
    (hforeign : ∀ row ∈ db.userBalance, db.hasUser row.userID = true) (henv : env.Quiet db)
    (haddress : address ≠ "") (hpage : tron (db.cursor depositCursorName) = some page)
    (nowNs : ℤ) :
    (∀ t ∈ page.transfers, db.Payable t → (scanDeposits env address tron nowNs db).2.Received t) ↔
      db.Apart page.transfers ∧ db.Unblocked page.transfers := by
  -- the cursor is in neither table, so only the loop counts
  have hloop : ∀ t, (scanDeposits env address tron nowNs db).2.Received t ↔
      (creditTransfers env nowNs 0 page.transfers 0 db).2.Received t := by
    intro t
    have hcursor : env.ioCursor 0 = false := by rw [henv.ioCursor]; rfl
    rcases scanDeposits_of_page haddress hcursor hpage nowNs with hafter | ⟨-, hafter⟩
    · rw [hafter]
    · rw [hafter]
      exact Iff.rfl
  simp only [hloop]
  obtain ⟨past, rest, happ, hscan, hstop⟩ := scan_ends honce henv page.transfers [] 0 db
    (.start hids hforeign henv nowNs)
  rw [List.nil_append] at happ
  rw [List.length_nil] at hscan hstop
  generalize creditTransfers env nowNs 0 page.transfers 0 db = result at hscan hstop ⊢
  constructor
  · intro hall
    refine ⟨fun s hs t ht hpays hpayt => ?_, fun l o l' hsplit horphan hbare t ht hpay => ?_⟩
    · obtain ⟨i, hi, hmatch, p, hp, hpayp, hptx, hmatchp, hsettled⟩ :=
        hscan.exists_of_received hpays (hall s hs hpays)
      obtain ⟨j, hj, hmatch', q, hq, hpayq, hqtx, hmatchq, hsettled'⟩ :=
        hscan.exists_of_received hpayt (hall t ht hpayt)
      constructor
      · intro htx
        have hnew : i.settledBy p nowNs ∉ db.depositIntents :=
          fun hin => hpays.fresh (.inl ⟨_, hin, hptx, rfl⟩)
        have hsame := hscan.once _ hsettled _ hsettled' rfl rfl
          (hptx.trans (htx.trans hqtx.symm)) hnew
        have hid : (i.settledBy p nowNs).id = (j.settledBy q nowNs).id := by rw [hsame]
        obtain rfl := eq_of_mem_of_key_eq hids hi hj hid
        exact ⟨i, hi, hmatch, hmatch'⟩
      · rintro ⟨k, hk, hmatchs, hmatcht⟩
        obtain rfl := honce k hk i hi _ _ hmatchs hmatch
        obtain rfl := honce k hk j hj _ _ hmatcht hmatch'
        have hsame := eq_of_mem_of_key_eq hscan.ids hsettled hsettled' rfl
        exact hptx.symm.trans ((congrArg DepositIntent.txID hsame).trans hqtx)
    · have hfront : ∀ p ∈ past, p ∈ l := by
        intro p hp
        rcases List.append_eq_append_iff.mp (happ.symm.trans hsplit) with ⟨m, rfl, -⟩ | ⟨m, rfl, hm⟩
        · exact List.mem_append_left _ hp
        · cases m with
          | nil => rwa [List.append_nil] at hp
          | cons x m =>
            -- the scan has come past the orphan, so a payment before it is about its transaction
            rw [← (List.cons.inj hm).1] at hscan
            obtain ⟨q, hq, hpayq, htx⟩ := hscan.shielded l o m rfl horphan
            exact absurd htx (hbare q hq hpayq)
      have ht' : t ∈ page.transfers := by
        rw [hsplit]
        exact List.mem_append_right _ (.tail _ ht)
      obtain ⟨i, hi, hmatch, p, hp, hpayp, hptx, hmatchp, -⟩ :=
        hscan.exists_of_received hpay (hall t ht' hpay)
      exact ⟨p, hfront p hp, hpayp, hptx, i, hi, hmatchp, hmatch⟩
  · rintro ⟨hapart, hunblocked⟩ t ht hpay
    have hfront : past ⊆ page.transfers := happ ▸ List.subset_append_left ..
    have hreceived := hscan.received (hapart.mono hfront)
    have ht' := ht
    rw [happ] at ht'
    rcases List.mem_append.mp ht' with hin | hin
    · exact hreceived t hin hpay
    cases rest with
    | nil => cases hin
    | cons o rest =>
      obtain ⟨horphan, hnone⟩ := hstop o rest rfl
      have hbare : ∀ p ∈ past, db.Payable p → p.txID ≠ o.txID := by
        intro p hp hpayp htx
        obtain ⟨j, hj, hpaid, hjtx, -⟩ := hreceived p hp hpayp
        exact Db.paidBy_ne_none hj hpaid (hjtx.trans htx ▸ hnone)
      rcases List.mem_cons.mp hin with rfl | hin
      · obtain ⟨i, hi, hmatch, hgone⟩ := horphan.owner
        exact absurd (hpay.hasUser honce hi hmatch) (Bool.eq_false_iff.mp hgone)
      · obtain ⟨p, hp, hpayp, htx, -⟩ := hunblocked past o rest happ horphan hbare t hin hpay
        obtain ⟨j, hj, hpaid, hjtx, -⟩ := hreceived p hp hpayp
        refine hscan.received_of_paid honce hpay (fun q hq hpayq hqtx => ?_) hj hpaid (hjtx.trans htx)
        exact (hapart q (hfront hq) t ht hpayq hpay).mp hqtx

/-- Nothing fails, and the ids are all new. -/
def quietEnv : ScanEnv where
  entryID k := some (String.ofList (List.replicate k 'b'))
  io _ := noFaults
  ioCursor := noFaults
  ioAdvance := noFaults

theorem quiet_quietEnv (h : db.balanceLedger = []) : quietEnv.Quiet db where
  io _ := rfl
  ioCursor := rfl
  ioAdvance := rfl
  minted _ := rfl
  apart j k hlt heq := by
    have hlen := congrArg String.length (Option.some.inj heq)
    rw [String.length_ofList, String.length_ofList, List.length_replicate,
      List.length_replicate] at hlen
    omega
  fresh k r hr := by
    rw [h] at hr
    cases hr

def twoUsers : Db :=
  (insertUser noFaults { id := "v", username := "second", role := .user, status := .active }
    (insertUser noFaults { id := "u", username := "first", role := .user, status := .active } {}).2).2

def twoCalls : List DepositCall :=
  [.selfDeposit noFaults "T" (some "di1") "u" 5000000 1,
    .selfDeposit noFaults "T" (some "di2") "v" 7000000 2]

def twoIntents : Db := run DepositCall.step twoUsers twoCalls

theorem matchOnce_twoIntents : twoIntents.MatchOnce := by
  have h0 : Occupied 0 twoUsers := occupied_of_no_intents rfl rfl 0
  have hclock : List.Pairwise (· ≤ ·) ((0 : ℤ) :: (twoCalls ++ []).map DepositCall.nowNs) := by
    decide
  obtain ⟨clock, h, -⟩ := occupied_run h0 hclock
  exact h.matchOnce

def twoRows : List TronRow :=
  [⟨"tx1", 1, "A", "T", "Transfer", "5000001", "USDT", some 6⟩,
    ⟨"tx2", 2, "B", "T", "Transfer", "7000001", "USDT", some 6⟩]

def twoPayments : TransferPage :=
  (TronClient.mk "USDT" id).page "T" twoRows

def twoTron : ℤ → Option TransferPage := fun _ => some twoPayments

def paymentU : Transfer := ⟨"tx1", "A", "T", 5000001, 1⟩

def paymentV : Transfer := ⟨"tx2", "B", "T", 7000001, 2⟩

theorem twoPayments_eq : twoPayments = ⟨[paymentU, paymentV], 2⟩ := by
  have hdecoded : twoRows.filterMap ((TronClient.mk "USDT" id).decode "T") =
      [paymentU, paymentV] := by decide +kernel
  unfold twoPayments TronClient.page
  rw [hdecoded, List.mergeSort_of_pairwise (by decide)]
  rfl

theorem payable_credited_second :
    twoIntents.Payable paymentU ∧ twoIntents.Payable paymentV ∧
      (scanDeposits quietEnv "T" twoTron 3 twoIntents).2.Received paymentU ∧
      (scanDeposits quietEnv "T" twoTron 3 twoIntents).2.Received paymentV := by
  have hids : KeysNodup DepositIntent.id twoIntents.depositIntents := by decide
  have hforeign : ∀ row ∈ twoIntents.userBalance, twoIntents.hasUser row.userID = true := by decide
  have haddress : "T" ≠ "" := by decide
  have hpage : twoTron (twoIntents.cursor depositCursorName) = some twoPayments := rfl
  have hdue : twoIntents.Payable paymentU ∧ twoIntents.Payable paymentV := by decide
  have hclean : ∀ o ∈ twoPayments.transfers, ¬ twoIntents.Orphaned o := by
    rw [twoPayments_eq]
    decide
  have hall := (payable_credited hids matchOnce_twoIntents hforeign (quiet_quietEnv rfl) haddress
    hpage 3).mpr ⟨by rw [twoPayments_eq]; decide, fun l o l' hsplit horphan => absurd horphan
      (hclean o (by rw [hsplit]; exact List.mem_append_right _ (.head _)))⟩
  rw [twoPayments_eq] at hall
  exact ⟨hdue.1, hdue.2, hall paymentU (by decide) hdue.1, hall paymentV (by decide) hdue.2⟩

def orphanedIntent : Db := (deleteUser noFaults "u" twoIntents).2

/-- **A deleted account keeps the others' money out.**  The second customer's payment is due and
has no rival, nothing fails, and the scan ends at the first transfer with the tables as they
were. -/
theorem payment_blocked : orphanedIntent.Payable paymentV ∧ paymentV ∈ twoPayments.transfers ∧
      quietEnv.Quiet orphanedIntent ∧ orphanedIntent.Apart twoPayments.transfers ∧
      scanDeposits quietEnv "T" twoTron 3 orphanedIntent =
        ((0, some (.repo (.wrapped "write balance" .foreignKey))), orphanedIntent) ∧
      ¬ orphanedIntent.Credited paymentV := by
  unfold twoTron
  rw [twoPayments_eq]
  exact ⟨by decide, by decide, quiet_quietEnv rfl, by decide, by decide, by decide⟩

end Prism
