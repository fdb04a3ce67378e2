import Prism.Foundation.Run
import Prism.Service.Deposit

/-!
# A transfer belongs to one intent

Transfers carry no reference, so an intent is recognised by its amount: of the intents that wait for
a payment no two have the same one.  Amounts are reused over time.  A released intent still owns the
transfers of its own window, which come in late; a paid intent gives its amount back before its
window is over; and the match of a transfer looks at the window and not at the status.  That the
match is never a choice is an invariant of the whole history, not of one statement:

* an intent that waits holds its amount (the partial unique index);
* one that was released has its window behind it, on the clock of the calls;
* so a new intent of an amount starts after the windows of all earlier ones that are not paid.
-/

namespace Prism

open Table

variable {clock : ℤ} {db : Db}

/-- The calls that write intents. -/
inductive DepositCall where
  | selfDeposit (io : Faults) (address : String) (intentID : Option String) (userID : String)
      (wantMicro nowNs : ℤ)
  | sweepDeposits (io : Faults) (nowNs : ℤ)
  | creditDeposit (io : Faults) (txID : String) (amountMicro blockTSNs nowNs : ℤ)
      (cursorName : String) (watermarkMs : ℤ) (entry : BalanceEntry)

namespace DepositCall

def step (db : Db) : DepositCall → Db
  | .selfDeposit io address intentID userID wantMicro nowNs =>
    (Prism.selfDeposit io address intentID userID wantMicro nowNs db).2
  | .sweepDeposits io nowNs => (Prism.sweepDeposits io nowNs db).2
  | .creditDeposit io txID amountMicro blockTSNs nowNs cursorName watermarkMs entry =>
    (Prism.creditDeposit io txID amountMicro blockTSNs nowNs cursorName watermarkMs entry db).2

def nowNs : DepositCall → ℤ
  | .selfDeposit _ _ _ _ _ nowNs => nowNs
  | .sweepDeposits _ nowNs => nowNs
  | .creditDeposit _ _ _ _ nowNs _ _ _ => nowNs

inductive Effect (db : Db) (c : DepositCall) : Prop where
  | none (h : c.step db = db)
  | opened (id userID : String) (amount : ℤ)
      (haccepts : (db.releaseExpired c.nowNs).AcceptsIntent
        (intentRow (newIntent id userID c.nowNs) amount))
      (h : c.step db = { db.releaseExpired c.nowNs with
        depositIntents := (db.releaseExpired c.nowNs).depositIntents ++
          [intentRow (newIntent id userID c.nowNs) amount] })
  | swept (h : c.step db = db.swept c.nowNs)
  | credited (txID : String) (amountMicro blockTSNs : ℤ) (cursorName : String) (watermarkMs : ℤ)
      (entry : BalanceEntry) (intent : DepositIntent)
      (hcredits : db.CreditsTo txID amountMicro blockTSNs c.nowNs entry intent)
      (h : c.step db = db.credited entry intent txID c.nowNs cursorName watermarkMs)

theorem effect (db : Db) (c : DepositCall) : Effect db c := by
  cases c with
  | selfDeposit io address intentID userID wantMicro nowNs =>
    rcases selfDeposit_snd_cases io address intentID userID wantMicro nowNs db with
      hsame | ⟨id, amount, -, -, haccepts, hafter⟩
    · exact .none hsame
    · exact .opened id userID amount haccepts hafter
  | sweepDeposits io nowNs =>
    rcases atomically_snd_cases (sweepDepositsBody io nowNs) db with
      hsame | ⟨n, db', hbody, hafter⟩
    · exact .none hsame
    · exact .swept (hafter.trans (sweepDeposits_commit hbody))
  | creditDeposit io txID amountMicro blockTSNs nowNs cursorName watermarkMs entry =>
    rcases atomically_snd_cases (creditDepositBody io txID amountMicro blockTSNs nowNs cursorName
      watermarkMs entry) db with hsame | ⟨i, db', hbody, hafter⟩
    · exact .none hsame
    · obtain ⟨intent, hcredits, -, hdb'⟩ := creditDeposit_commit hbody
      exact .credited txID amountMicro blockTSNs cursorName watermarkMs entry intent hcredits
        (hafter.trans hdb')

end DepositCall

open DepositCall

/-- The intents that were paid. -/
def paidIntents (db : Db) : List DepositIntent :=
  db.depositIntents.filter fun i => i.status = .paid

def depositRows (db : Db) : List BalanceEntry :=
  db.balanceLedger.filter fun e => e.reason = .deposit

/-- What a settled intent says of its payment: transaction, user and amount. -/
def DepositIntent.payment (i : DepositIntent) : String × String × ℤ :=
  (i.txID, i.userID, i.amountMicro)

/-- What a deposit row says of the payment it credits. -/
def BalanceEntry.credit (e : BalanceEntry) : String × String × ℤ :=
  (e.refID, e.userID, e.deltaMicro)

structure Occupied (clock : ℤ) (db : Db) : Prop where
  ids : KeysNodup DepositIntent.id db.depositIntents
  /-- an amount is held by one waiting intent -/
  held : UniqueWhere DepositIntent.amountMicro Db.holdsAmount db.depositIntents
  /-- a released intent has its window behind it -/
  released : ∀ i ∈ db.depositIntents, i.status = .released → i.holdUntilNs ≤ clock
  /-- the windows of one amount are apart, among intents that are not paid -/
  apart : ∀ i ∈ db.depositIntents, ∀ j ∈ db.depositIntents, i.id ≠ j.id →
    i.amountMicro = j.amountMicro → i.status ≠ .paid → j.status ≠ .paid →
    i.holdUntilNs ≤ j.createdAtNs ∨ j.holdUntilNs ≤ i.createdAtNs
  /-- the deposit rows are the payments of the settled intents -/
  books : ((depositRows db).map BalanceEntry.credit).Perm
    ((paidIntents db).map DepositIntent.payment)
  /-- a transaction is on one deposit row -/
  txs : ((depositRows db).map BalanceEntry.refID).Nodup

theorem Occupied.mono {clock' : ℤ} (h : Occupied clock db) (hle : clock ≤ clock') :
    Occupied clock' db :=
  { h with released := fun i hi hs => (h.released i hi hs).trans hle }

theorem occupied_of_no_intents (hintents : db.depositIntents = []) (hrows : depositRows db = [])
    (clock : ℤ) : Occupied clock db := by
  refine ⟨?_, ?_, ?_, ?_, ?_, ?_⟩
  · rw [hintents]; exact List.nodup_nil
  · rw [hintents]; exact List.nodup_nil
  · rw [hintents]; simp
  · rw [hintents]; simp
  · rw [hrows, paidIntents, hintents]; exact List.Perm.refl _
  · rw [hrows]; exact List.nodup_nil

/-! ## Waiting intents grow old -/

section

variable (h : Occupied clock db)

include h

/-- **Ageing keeps the invariant**: some waiting intents move on to another status that is not
paid, and those that stop waiting have their window behind them. -/
theorem Occupied.aged {q : DepositIntent → Bool} {s : DepositStatus}
    (hq : ∀ i, q i = true → i.status.holds = true) (hs : s ≠ .paid)
    (hrel : s = .released → ∀ i, q i = true → i.holdUntilNs ≤ clock) :
    Occupied clock
      { db with depositIntents :=
          updateWhere q (fun i => { i with status := s }) db.depositIntents } := by
  have hnotpaid : ∀ i, q i = true → i.status ≠ .paid := by
    intro i hi hpaid
    have hholds := hq i hi
    rw [hpaid] at hholds
    cases hholds
  refine ⟨?_, ?_, ?_, ?_, ?_, h.txs⟩
  · refine keysNodup_updateWhere ?_ h.ids
    intro r _
    rfl
  · refine uniqueWhere_updateWhere _ h.held fun i _ hi _ => ⟨hq i hi, rfl⟩
  · intro i hi
    obtain ⟨i0, hi0, rfl⟩ := mem_updateWhere.mp hi
    split
    · rename_i hqi
      exact fun hst => hrel hst i0 hqi
    · exact h.released i0 hi0
  · intro i hi j hj
    obtain ⟨i0, hi0, rfl⟩ := mem_updateWhere.mp hi
    obtain ⟨j0, hj0, rfl⟩ := mem_updateWhere.mp hj
    have hrow := h.apart i0 hi0 j0 hj0
    by_cases hqi : q i0 = true <;> by_cases hqj : q j0 = true
    · rw [if_pos hqi, if_pos hqj]
      exact fun hne ham _ _ => hrow hne ham (hnotpaid i0 hqi) (hnotpaid j0 hqj)
    · rw [if_pos hqi, if_neg hqj]
      exact fun hne ham _ hpj => hrow hne ham (hnotpaid i0 hqi) hpj
    · rw [if_neg hqi, if_pos hqj]
      exact fun hne ham hpi _ => hrow hne ham hpi (hnotpaid j0 hqj)
    · rw [if_neg hqi, if_neg hqj]
      exact hrow
  · have hpaid : paidIntents
        { db with depositIntents :=
            updateWhere q (fun i => { i with status := s }) db.depositIntents } =
        paidIntents db := by
      refine filter_updateWhere_of_out fun i _ hi => ⟨?_, ?_⟩
      · exact decide_eq_false (hnotpaid i hi)
      · exact decide_eq_false hs
    rw [hpaid]
    exact h.books

theorem Occupied.releaseExpired : Occupied clock (db.releaseExpired clock) := by
  refine h.aged (fun i hi => ?_) (by decide) fun _ i hi => ?_
  · rw [Db.holdOver, Bool.and_eq_true] at hi
    exact hi.1
  · rw [Db.holdOver, Bool.and_eq_true, decide_eq_true_eq] at hi
    exact hi.2

theorem Occupied.markUnpaid : Occupied clock (db.markUnpaid clock) := by
  refine h.aged (fun i hi => ?_) (by decide) nofun
  simp only [Db.windowOver, Bool.and_eq_true, decide_eq_true_eq] at hi
  rw [hi.1.1]
  rfl

/-! ## A new intent -/

variable {i : DepositIntent}

/-- **Opening an intent keeps the invariant**: whoever has its amount and is not paid has been
released, so its window is over by now. -/
theorem Occupied.opened (haccepts : db.AcceptsIntent i) (hpending : i.status = .pending)
    (hnow : i.createdAtNs = clock) :
    Occupied clock { db with depositIntents := db.depositIntents ++ [i] } := by
  have hholds : Db.holdsAmount i = true := by rw [Db.holdsAmount, hpending]; rfl
  -- the windows of earlier intents of the amount are over
  have hover : ∀ j ∈ db.depositIntents, j.amountMicro = i.amountMicro → j.status ≠ .paid →
      j.holdUntilNs ≤ i.createdAtNs := by
    intro j hj ham hpaid
    rw [hnow]
    refine h.released j hj ?_
    have hfree : Db.holdsAmount j ≠ true := fun hj' => haccepts.amount ⟨hholds, j, hj, hj', ham⟩
    cases hst : j.status with
    | pending | unpaid => exact absurd (by rw [Db.holdsAmount, hst]; rfl) hfree
    | paid => exact absurd hst hpaid
    | released => rfl
  refine ⟨keysNodup_append_singleton h.ids haccepts.id,
    uniqueWhere_append_singleton _ h.held haccepts.amount, ?_, ?_, ?_, h.txs⟩
  · intro j hj hst
    rcases List.mem_append.mp hj with hj | hj
    · exact h.released j hj hst
    · rw [List.mem_singleton.mp hj, hpending] at hst
      cases hst
  · intro j hj k hk hne ham hpj hpk
    rcases List.mem_append.mp hj with hj' | hj' <;> rcases List.mem_append.mp hk with hk' | hk'
    · exact h.apart j hj' k hk' hne ham hpj hpk
    · rw [List.mem_singleton.mp hk'] at ham ⊢
      exact .inl (hover j hj' ham hpj)
    · rw [List.mem_singleton.mp hj'] at ham ⊢
      exact .inr (hover k hk' ham.symm hpk)
    · rw [List.mem_singleton.mp hj', List.mem_singleton.mp hk'] at hne
      exact absurd rfl hne
  · have hpaid : paidIntents { db with depositIntents := db.depositIntents ++ [i] } =
        paidIntents db := by
      simp [paidIntents, List.filter_append, hpending]
    rw [hpaid]
    exact h.books

/-! ## A payment -/

theorem Occupied.refID_iff {txID : String} : txID ∈ (depositRows db).map BalanceEntry.refID ↔
      ∃ i ∈ db.depositIntents, i.status = .paid ∧ i.txID = txID := by
  have hperm := h.books.map Prod.fst
  rw [List.map_map, List.map_map] at hperm
  have hmem : txID ∈ (depositRows db).map BalanceEntry.refID ↔
      txID ∈ (paidIntents db).map DepositIntent.txID := hperm.mem_iff
  rw [hmem, List.mem_map]
  constructor
  · rintro ⟨i, hi, rfl⟩
    obtain ⟨hi1, hi2⟩ := List.mem_filter.mp hi
    exact ⟨i, hi1, of_decide_eq_true hi2, rfl⟩
  · rintro ⟨i, hi, hpaid, rfl⟩
    exact ⟨i, List.mem_filter.mpr ⟨hi, decide_eq_true hpaid⟩, rfl⟩

end

theorem depositRows_credited (db : Db) (entry : BalanceEntry) (intent : DepositIntent)
    (txID : String) (nowNs : ℤ) (cursorName : String) (watermarkMs : ℤ) :
    depositRows (db.credited entry intent txID nowNs cursorName watermarkMs) =
      depositRows db ++ [db.creditEntry entry intent txID nowNs] := by
  show (db.balanceLedger ++ [_]).filter _ = _
  rw [List.filter_append]
  rfl

/-- **Crediting keeps the invariant**: the intent was not paid and its transaction is new. -/
theorem Occupied.credited (h : Occupied clock db) {txID : String} {amountMicro blockTSNs nowNs : ℤ}
    {entry : BalanceEntry} {intent : DepositIntent}
    (hcredits : db.CreditsTo txID amountMicro blockTSNs nowNs entry intent) (cursorName : String)
    (watermarkMs : ℤ) :
    Occupied clock (db.credited entry intent txID nowNs cursorName watermarkMs) := by
  obtain ⟨hmem, hmatch⟩ := Db.intentForTransfer_eq_some hcredits.owner
  obtain ⟨-, hnotpaid, -⟩ := DepositIntent.matches_iff.mp hmatch
  have hrows := depositRows_credited db entry intent txID nowNs cursorName watermarkMs
  refine ⟨?_, ?_, ?_, ?_, ?_, ?_⟩
  · refine keysNodup_updateWhere ?_ h.ids
    intro r _
    rfl
  · refine uniqueWhere_updateWhere _ h.held fun i _ _ hholds => ?_
    cases hholds
  · intro i hi
    obtain ⟨i0, hi0, rfl⟩ := mem_updateWhere.mp hi
    split
    · exact nofun
    · exact h.released i0 hi0
  · intro i hi j hj
    obtain ⟨i0, hi0, rfl⟩ := mem_updateWhere.mp hi
    obtain ⟨j0, hj0, rfl⟩ := mem_updateWhere.mp hj
    split
    · exact fun _ _ hpaid => absurd rfl hpaid
    · split
      · exact fun _ _ _ hpaid => absurd rfl hpaid
      · exact h.apart i0 hi0 j0 hj0
  · have hpaid : (paidIntents (db.credited entry intent txID nowNs cursorName watermarkMs)).Perm
        ({ intent with status := .paid, txID := txID, paidAtNs := nowNs } :: paidIntents db) :=
      filter_updateWhere_perm DepositIntent.id h.ids hmem (decide_eq_false hnotpaid) rfl
    rw [hrows, List.map_append]
    refine (List.perm_append_singleton _ _).trans ?_
    refine List.Perm.trans ?_ (hpaid.map DepositIntent.payment).symm
    exact h.books.cons _
  · rw [hrows, List.map_append, List.map_singleton]
    have hnew : txID ∉ (depositRows db).map BalanceEntry.refID := by
      rw [h.refID_iff]
      rintro ⟨i, hi, hpaid, htx⟩
      have hnone := List.find?_eq_none.mp hcredits.fresh i hi
      simp [hpaid, htx] at hnone
    rw [← List.concat_eq_append]
    exact List.Nodup.concat hnew h.txs

theorem Occupied.step {c : DepositCall} (h : Occupied clock db) (hle : clock ≤ c.nowNs) :
    Occupied c.nowNs (c.step db) := by
  have h' := h.mono hle
  cases c.effect db with
  | none hsame => rwa [hsame]
  | opened id userID amount haccepts hafter =>
    rw [hafter]
    exact h'.releaseExpired.opened haccepts rfl rfl
  | swept hafter =>
    rw [hafter]
    exact h'.markUnpaid.releaseExpired
  | credited txID amountMicro blockTSNs cursorName watermarkMs entry intent hcredits hafter =>
    rw [hafter]
    exact h'.credited hcredits cursorName watermarkMs

theorem Occupied.paid_step (h : Occupied clock db) (c : DepositCall) (hi : i ∈ db.depositIntents)
    (hpaid : i.status = .paid) : i ∈ (c.step db).depositIntents := by
  have hnothold : ∀ now, Db.holdOver now i = false := by
    intro now
    simp [Db.holdOver, hpaid, DepositStatus.holds]
  have hreleased : ∀ (db : Db) now, i ∈ db.depositIntents →
      i ∈ (db.releaseExpired now).depositIntents := by
    intro db now hi
    exact mem_updateWhere.mpr ⟨i, hi, if_neg (by simp [hnothold now])⟩
  cases c.effect db with
  | none hsame => rwa [hsame]
  | opened id userID amount haccepts hafter =>
    rw [hafter]
    exact List.mem_append_left _ (hreleased db _ hi)
  | swept hafter =>
    rw [hafter]
    refine hreleased _ _ (mem_updateWhere.mpr ⟨i, hi, if_neg ?_⟩)
    simp [Db.windowOver, hpaid]
  | credited txID amountMicro blockTSNs cursorName watermarkMs entry intent hcredits hafter =>
    rw [hafter]
    refine mem_updateWhere.mpr ⟨i, hi, if_neg ?_⟩
    -- the credited intent was not paid, so it is another one
    obtain ⟨hmem, hmatch⟩ := Db.intentForTransfer_eq_some hcredits.owner
    obtain ⟨-, hnotpaid, -⟩ := DepositIntent.matches_iff.mp hmatch
    intro heq
    have hsame := eq_of_mem_of_key_eq h.ids hi hmem (of_decide_eq_true heq)
    rw [hsame] at hpaid
    exact hnotpaid hpaid

/-- The watermark of a cursor, if it was ever set. -/
def Db.watermark (db : Db) (name : String) : Option ℤ :=
  (lookup CursorRow.name name db.chainCursor).map CursorRow.watermarkMs

theorem Db.watermark_advanceCursor (db : Db) (name name' : String) (watermarkMs nowNs : ℤ) :
    (db.advanceCursor name watermarkMs nowNs).watermark name' =
      if name' = name then some (match db.watermark name with
        | some w => max w watermarkMs
        | none => watermarkMs)
      else db.watermark name' := by
  by_cases hname : name' = name
  · subst hname
    rw [if_pos rfl]
    have h := lookup_upsertWith_self CursorRow.name
      (fun old row => { row with watermarkMs := max old.watermarkMs row.watermarkMs })
      (fun _ _ _ => rfl) ⟨name', watermarkMs, nowNs⟩ db.chainCursor
    unfold Db.watermark Db.advanceCursor
    simp only [h]
    cases lookup CursorRow.name name' db.chainCursor <;> rfl
  · rw [if_neg hname]
    have h := lookup_upsertWith_of_ne CursorRow.name
      (fun old row => { row with watermarkMs := max old.watermarkMs row.watermarkMs })
      (fun _ _ _ => rfl) ⟨name, watermarkMs, nowNs⟩ hname db.chainCursor
    unfold Db.watermark Db.advanceCursor
    simp only [h]

theorem watermark_step (db : Db) (c : DepositCall) {name : String} {w : ℤ}
    (hw : db.watermark name = some w) : ∃ w', (c.step db).watermark name = some w' ∧ w ≤ w' := by
  cases c.effect db with
  | none hsame => exact ⟨w, by rw [hsame]; exact hw, le_rfl⟩
  | opened _ _ _ _ hafter | swept hafter => exact ⟨w, by rw [hafter]; exact hw, le_rfl⟩
  | credited txID amountMicro blockTSNs cursorName watermarkMs entry intent hcredits hafter =>
    rw [hafter, Db.credited, Db.watermark_advanceCursor]
    by_cases hname : name = cursorName
    · subst hname
      have hw' : ((db.post (db.creditEntry entry intent txID c.nowNs)).settleIntent intent.id txID
          c.nowNs).watermark name = some w := hw
      rw [if_pos rfl, hw']
      exact ⟨_, rfl, le_max_left _ _⟩
    · rw [if_neg hname]
      exact ⟨w, hw, le_rfl⟩

/-! ## Whole histories -/

section

variable (h : Occupied clock db)

include h

/-- **The intent of a transfer is not a choice**: two windows around one instant are not apart. -/
theorem Occupied.eq_of_matches {j : DepositIntent} (hi : i ∈ db.depositIntents)
    (hj : j ∈ db.depositIntents) {amountMicro blockTSNs : ℤ}
    (hmi : i.matches amountMicro blockTSNs = true) (hmj : j.matches amountMicro blockTSNs = true) :
    i = j := by
  by_contra hne
  have hid : i.id ≠ j.id := fun heq => hne (eq_of_mem_of_key_eq h.ids hi hj heq)
  obtain ⟨ham, hpi, hci, hhi⟩ := DepositIntent.matches_iff.mp hmi
  obtain ⟨ham', hpj, hcj, hhj⟩ := DepositIntent.matches_iff.mp hmj
  rcases h.apart i hi j hj hid (ham.trans ham'.symm) hpi hpj with happ | happ <;> omega

theorem Occupied.countP_matches_le_one (amountMicro blockTSNs : ℤ) :
    db.depositIntents.countP (DepositIntent.matches amountMicro blockTSNs) ≤ 1 := by
  have hone : UniqueWhere (fun _ => ()) (DepositIntent.matches amountMicro blockTSNs)
      db.depositIntents := by
    rw [uniqueWhere_iff_pairwise]
    have hids : db.depositIntents.Pairwise fun i j => i.id ≠ j.id := List.pairwise_map.mp h.ids
    refine hids.imp_of_mem fun {i j} hi hj hne hmi hmj _ => ?_
    exact hne (congrArg DepositIntent.id (h.eq_of_matches hi hj hmi hmj))
  have hcount := hone.countP_le_one (fun _ => ()) ()
  simpa using hcount

theorem occupied_run {l1 l2 : List DepositCall}
    (hclock : List.Pairwise (· ≤ ·) (clock :: (l1 ++ l2).map nowNs)) :
    ∃ clock', Occupied clock' (run step db l1) ∧
      List.Pairwise (· ≤ ·) (clock' :: l2.map nowNs) := by
  induction l1 generalizing clock db with
  | nil => exact ⟨clock, h, hclock⟩
  | cons c l1 ih =>
    rw [List.cons_append, List.map_cons, List.pairwise_cons] at hclock
    exact ih (h.step (hclock.1 _ (by simp))) hclock.2

theorem paid_run {calls : List DepositCall}
    (hclock : List.Pairwise (· ≤ ·) (clock :: calls.map nowNs))
    (hi : i ∈ db.depositIntents) (hpaid : i.status = .paid) :
    i ∈ (run step db calls).depositIntents := by
  induction calls generalizing clock db with
  | nil => exact hi
  | cons c calls ih =>
    rw [List.map_cons, List.pairwise_cons] at hclock
    exact ih (h.step (hclock.1 _ (by simp))) hclock.2 (h.paid_step c hi hpaid)

end

theorem watermark_run {calls : List DepositCall} {name : String} {w : ℤ}
    (hw : db.watermark name = some w) :
    ∃ w', (run step db calls).watermark name = some w' ∧ w ≤ w' := by
  induction calls generalizing db w with
  | nil => exact ⟨w, hw, le_rfl⟩
  | cons c calls ih =>
    obtain ⟨w1, hw1, hle1⟩ := watermark_step db c hw
    obtain ⟨w2, hw2, hle2⟩ := ih hw1
    exact ⟨w2, hw2, hle1.trans hle2⟩

structure DepositsOccupied (db₀ : Db) (calls : List DepositCall) : Prop where
  /-- an amount is held by at most one waiting intent -/
  held_once : ∀ amountMicro, ((run step db₀ calls).depositIntents.countP fun i =>
    Db.holdsAmount i && decide (i.amountMicro = amountMicro)) ≤ 1
  /-- a transfer could belong to at most one intent -/
  match_once : ∀ amountMicro blockTSNs,
    (run step db₀ calls).depositIntents.countP
      (DepositIntent.matches amountMicro blockTSNs) ≤ 1
  /-- a transaction is on at most one deposit row -/
  tx_once : ((depositRows (run step db₀ calls)).map BalanceEntry.refID).Nodup
  /-- a transaction has settled at most one intent -/
  settled_once : ((paidIntents (run step db₀ calls)).map DepositIntent.txID).Nodup
  /-- the deposit rows are the payments of the settled intents: transaction, user, amount -/
  books : ((depositRows (run step db₀ calls)).map BalanceEntry.credit).Perm
    ((paidIntents (run step db₀ calls)).map DepositIntent.payment)
  /-- a settled intent stays as it is -/
  paid_terminal : ∀ l₁ l₂, calls = l₁ ++ l₂ → ∀ i ∈ (run step db₀ l₁).depositIntents,
    i.status = .paid → i ∈ (run step db₀ calls).depositIntents
  /-- a stored watermark never decreases -/
  cursor_mono : ∀ l₁ l₂, calls = l₁ ++ l₂ → ∀ name w,
    (run step db₀ l₁).watermark name = some w →
    ∃ w', (run step db₀ calls).watermark name = some w' ∧ w ≤ w'

/-- **A transfer belongs to one intent and is credited once.**  From tables without intents and
without deposit rows, over every sequence of `SelfDeposit`, `SweepDeposits` and `CreditDeposit`
calls, with any arguments and any faults, whose clock does not run backwards. -/
theorem deposits_occupied {db₀ : Db} (hintents : db₀.depositIntents = [])
    (hrows : depositRows db₀ = []) {calls : List DepositCall}
    (hclock : List.Pairwise (· ≤ ·) (calls.map DepositCall.nowNs)) :
    DepositsOccupied db₀ calls := by
  -- before the first call any clock will do: take one that none of the calls is behind
  obtain ⟨clock, hstart⟩ : ∃ clock : ℤ, List.Pairwise (· ≤ ·) (clock :: calls.map nowNs) := by
    cases calls with
    | nil => exact ⟨0, List.pairwise_singleton _ _⟩
    | cons c calls =>
      refine ⟨c.nowNs, List.pairwise_cons.mpr ⟨fun t ht => ?_, hclock⟩⟩
      rcases List.mem_cons.mp ht with rfl | ht
      · exact le_rfl
      · exact (List.pairwise_cons.mp hclock).1 t ht
  have h₀ := occupied_of_no_intents hintents hrows clock
  have hall : List.Pairwise (· ≤ ·) (clock :: (calls ++ []).map nowNs) := by
    rwa [List.append_nil]
  obtain ⟨clock', hend, -⟩ := occupied_run h₀ hall
  refine ⟨hend.held.countP_le_one _, hend.countP_matches_le_one, hend.txs, ?_, hend.books, ?_, ?_⟩
  · have hperm := hend.books.map Prod.fst
    rw [List.map_map, List.map_map] at hperm
    exact hperm.nodup_iff.mp hend.txs
  · rintro l₁ l₂ rfl i hi hpaid
    obtain ⟨clock₁, h₁, hrest⟩ := occupied_run h₀ hstart
    rw [run_append]
    exact paid_run h₁ hrest hi hpaid
  · rintro l₁ l₂ rfl name w hw
    rw [run_append]
    exact watermark_run hw

def depositDb : Db :=
  { users :=
      [{ id := "u", username := "first", role := .user, status := .active },
        { id := "v", username := "second", role := .user, status := .active }] }

/-- The first customer opens an intent for 5 USDT and gets 5.000001.  After its window the second
one gets the same amount.  A transfer of the first window comes in late, and one of the second
window after it; the first is then repeated. -/
def reuseCalls : List DepositCall :=
  [.selfDeposit noFaults "T" (some "di1") "u" 5000000 1,
    .sweepDeposits noFaults (depositWindowNs + 2),
    .selfDeposit noFaults "T" (some "di2") "v" 5000000 (depositWindowNs + depositHoldNs + 1),
    .creditDeposit noFaults "tx1" 5000001 (depositWindowNs + depositHoldNs)
      (depositWindowNs + depositHoldNs + 2) "tron" 1800000 { id := "bl1" },
    .creditDeposit noFaults "tx2" 5000001 (depositWindowNs + depositHoldNs + 2)
      (depositWindowNs + depositHoldNs + 3) "tron" 1800001 { id := "bl2" },
    .creditDeposit noFaults "tx1" 5000001 (depositWindowNs + depositHoldNs)
      (depositWindowNs + depositHoldNs + 4) "tron" 1800000 { id := "bl3" }]

theorem deposits_occupied_reuse : DepositsOccupied depositDb reuseCalls ∧
      (depositRows (run DepositCall.step depositDb reuseCalls)).map BalanceEntry.credit =
        [("tx1", "u", 5000001), ("tx2", "v", 5000001)] :=
  ⟨deposits_occupied rfl rfl (by decide), by decide⟩

end Prism
