import Prism.Foundation.Run
import Prism.Service.Helpers
import Prism.State.Account
import Prism.State.Balance

/-!
# A redeem code pays its amount once for each use

`Redeem` reads what a code is worth, and then claims a use and credits that amount in a transaction.
Nothing holds the code in between, so others may claim it or withdraw it.  `RedeemDesk` is the
tables with the redemptions *in flight*, those that have read and not yet claimed.  A list of events
is an interleaving of any number of redemptions, with codes that are minted and deleted.  Everything
else the program does is the event `other`: no other statement writes `redeem_codes`, and none but
an `INSERT` writes the ledger.
-/

namespace Prism

open Table

/-- What the code is worth, read without consuming it. -/
def redeemCodeAmount (io : Faults) (codeHash : List UInt8) (db : Db) : Except ServiceError ℤ :=
  if io 0 then .error (.internal "read redeem code")
  else match lookup RedeemCode.codeHash codeHash db.redeemCodes with
    | none => .error (.invalidArgument "code: the code is not valid")
    | some code => .ok code.amountMicro

structure Redemption where
  codeHash : List UInt8
  entry : BalanceEntry

structure RedeemDesk where
  db : Db := {}
  inFlight : List Redemption := []
  credited : List Redemption := []

inductive RedeemEvent where
  | read (io : Faults) (codeHash : List UInt8) (id userID refID : String) (nowNs : ℤ)
  /-- the redemption at the position opens its transaction -/
  | claim (position : ℕ) (io : Faults)
  | mint (io : Faults) (code : RedeemCode)
  | delete (io : Faults) (id : String)
  | other (after : Db)

namespace RedeemDesk

def step (w : RedeemDesk) : RedeemEvent → RedeemDesk
  | .read io codeHash id userID refID nowNs =>
    match redeemCodeAmount io codeHash w.db with
    | .error _ => w
    | .ok amount =>
      let entry : BalanceEntry :=
        { id := id, userID := userID, deltaMicro := amount, reason := .redeem, refID := refID,
          createdAtNs := nowNs }
      { w with inFlight := w.inFlight ++ [⟨codeHash, entry⟩] }
  | .claim k io =>
    match w.inFlight[k]? with
    | none => w
    | some r =>
      let answer := redeemCodeAndCredit io r.codeHash r.entry r.entry.createdAtNs w.db
      { db := answer.2
        inFlight := w.inFlight.eraseIdx k
        credited := w.credited ++ (answer.1.toOption.map (Redemption.mk r.codeHash)).toList }
  | .mint io code => { w with db := (insertRedeemCode io code w.db).2 }
  | .delete io id => { w with db := (deleteRedeemCode io id w.db).2 }
  | .other after =>
    { w with
      db := { after with
        redeemCodes := w.db.redeemCodes
        balanceLedger := w.db.balanceLedger ++ after.balanceLedger } }

/-- The redemptions credited in the name of the code. -/
def uses (w : RedeemDesk) (c : RedeemCode) : List Redemption :=
  w.credited.filter fun r => r.codeHash = c.codeHash

/-- A code is minted unused, under a hash that no redemption has seen. -/
def MintsNew (w : RedeemDesk) : RedeemEvent → Prop
  | .mint _ c => c.usedCount = 0 ∧ ∀ r ∈ w.inFlight ++ w.credited, r.codeHash ≠ c.codeHash
  | _ => True

end RedeemDesk

/-! ## What the transactions do to the codes -/

variable {io : Faults} {codeHash : List UInt8} {nowNs : ℤ} {db : Db}

theorem redeemCodeAmount_eq_ok {amount : ℤ} (h : redeemCodeAmount io codeHash db = .ok amount) :
    ∃ code ∈ db.redeemCodes, code.codeHash = codeHash ∧ code.amountMicro = amount := by
  unfold redeemCodeAmount at h
  split_ifs at h
  split at h
  · cases h
  · rename_i code hcode
    exact ⟨code, mem_of_lookup hcode, key_of_lookup hcode, Except.ok.inj h⟩

theorem redeemCodeAndCredit_cases (io : Faults) (codeHash : List UInt8) (entry : BalanceEntry)
    (nowNs : ℤ) (db : Db) : (∃ e, redeemCodeAndCredit io codeHash entry nowNs db = (.error e, db)) ∨
      0 < (db.claimCode codeHash nowNs).1 ∧ redeemCodeAndCredit io codeHash entry nowNs db =
        (.ok (db.settled entry), (db.claimCode codeHash nowNs).2.post (db.settled entry)) := by
  cases hbody : redeemCodeAndCreditBody io codeHash entry nowNs db with
  | error e => exact .inl ⟨e, atomically_of_error hbody⟩
  | ok r =>
    obtain ⟨e, _ | db'⟩ := r
    · -- a redemption that succeeds has committed
      obtain ⟨-, -, h⟩ := bind_eq_ok_iff.mp hbody
      obtain ⟨⟨n, db0⟩, -, h⟩ := bind_eq_ok_iff.mp h
      simp only at h
      split_ifs at h
      obtain ⟨⟨e1, db1⟩, -, h⟩ := bind_eq_ok_iff.mp h
      obtain ⟨-, -, h⟩ := bind_eq_ok_iff.mp h
      cases h
    · obtain ⟨hpos, -, rfl, rfl⟩ := redeemCodeAndCredit_commit hbody
      exact .inr ⟨hpos, atomically_of_commit hbody⟩

/-- The code under the hash is the one row a claim touches, and it had a use left. -/
theorem Db.claimCode_row {c' : RedeemCode} (hnd : KeysNodup RedeemCode.codeHash db.redeemCodes)
    (hpos : 0 < (db.claimCode codeHash nowNs).1)
    (hc' : c' ∈ (db.claimCode codeHash nowNs).2.redeemCodes) :
    ∃ c ∈ db.redeemCodes, (c'.codeHash = c.codeHash ∧ c'.amountMicro = c.amountMicro ∧
        c'.maxUses = c.maxUses) ∧
      (c.codeHash = codeHash ∧ c'.usedCount = c.usedCount + 1 ∧
          (c.maxUses = 0 ∨ c.usedCount < c.maxUses) ∨
        c.codeHash ≠ codeHash ∧ c'.usedCount = c.usedCount) := by
  have hgives : ∀ c, claimable codeHash nowNs c = true → c.codeHash = codeHash ∧
      (c.maxUses = 0 ∨ c.usedCount < c.maxUses) := by
    intro c hc
    simp only [claimable, Bool.and_eq_true, Bool.or_eq_true, decide_eq_true_eq] at hc
    exact ⟨hc.1.1.1, hc.2⟩
  obtain ⟨code, hcode, hclaim⟩ := List.countP_pos_iff.mp hpos
  obtain ⟨c, hc, rfl⟩ := mem_updateWhere.mp hc'
  refine ⟨c, hc, ?_⟩
  split_ifs with hthis
  · exact ⟨⟨rfl, rfl, rfl⟩, .inl ⟨(hgives c hthis).1, rfl, (hgives c hthis).2⟩⟩
  · refine ⟨⟨rfl, rfl, rfl⟩, .inr ⟨fun heq => hthis ?_, rfl⟩⟩
    rwa [eq_of_mem_of_key_eq hnd hc hcode (heq.trans (hgives code hclaim).1.symm)]

theorem insertRedeemCode_cases (io : Faults) (code : RedeemCode) (db : Db) :
    (insertRedeemCode io code db).2 = db ∨ (∀ r ∈ db.redeemCodes, r.codeHash ≠ code.codeHash) ∧
      (insertRedeemCode io code db).2 = { db with redeemCodes := db.redeemCodes ++ [code] } := by
  unfold insertRedeemCode
  refine (single_snd_cases _ db).imp_right fun ⟨db', hok, hafter⟩ => ?_
  have hins := ok_of_orConflict hok
  unfold Db.insertRedeemCode at hins
  split_ifs at hins with hhash hid
  refine ⟨fun r hr heq => hhash ?_, hafter.trans (Except.ok.inj hins).symm⟩
  exact List.any_eq_true.mpr ⟨r, hr, decide_eq_true heq⟩

namespace RedeemDesk

/-- No event but a claim rewrites a stored code, and the amount of a stored code is the one every
redemption in flight has read. -/
structure Accounts (w : RedeemDesk) : Prop where
  distinct : KeysNodup RedeemCode.codeHash w.db.redeemCodes
  used : ∀ c ∈ w.db.redeemCodes, c.usedCount = (w.uses c).length
  within : ∀ c ∈ w.db.redeemCodes, 0 < c.maxUses → c.usedCount ≤ c.maxUses
  worth : ∀ c ∈ w.db.redeemCodes, ∀ r ∈ w.inFlight ++ w.credited, r.codeHash = c.codeHash →
    r.entry.deltaMicro = c.amountMicro
  posted : (w.credited.map Redemption.entry).Sublist w.db.balanceLedger

variable {w : RedeemDesk}

theorem Accounts.of_sublist (hw : w.Accounts) {after : Db}
    (hcodes : after.redeemCodes.Sublist w.db.redeemCodes)
    (hledger : w.db.balanceLedger.Sublist after.balanceLedger) :
    Accounts { w with db := after } where
  distinct := hw.distinct.sublist (hcodes.map _)
  used c hc := hw.used c (hcodes.subset hc)
  within c hc := hw.within c (hcodes.subset hc)
  worth c hc := hw.worth c (hcodes.subset hc)
  posted := hw.posted.trans hledger

theorem Accounts.mint (hw : w.Accounts) {code : RedeemCode} (hnew : w.MintsNew (.mint io code)) :
    (w.step (.mint io code)).Accounts := by
  rcases insertRedeemCode_cases io code w.db with hsame | ⟨hfree, hadd⟩
  · exact hw.of_sublist (by rw [hsame]) (by rw [hsame])
  rw [step, hadd]
  obtain ⟨hunused, hseen⟩ := hnew
  have hnone : w.uses code = [] := by
    refine List.filter_eq_nil_iff.mpr fun r hr => ?_
    simpa using hseen r (List.mem_append_right _ hr)
  refine ⟨keysNodup_append_singleton hw.distinct hfree, ?_, ?_, ?_, hw.posted⟩
  all_goals
    intro c hc
    rcases List.mem_append.mp hc with hc | hc
  · exact hw.used c hc
  · rw [List.mem_singleton.mp hc, hunused]
    exact congrArg (fun l : List Redemption => (l.length : ℤ)) hnone.symm
  · exact hw.within c hc
  · rw [List.mem_singleton.mp hc, hunused]
    exact le_of_lt
  · exact hw.worth c hc
  · rw [List.mem_singleton.mp hc]
    exact fun r hr heq => (hseen r hr heq).elim

theorem Accounts.delete (hw : w.Accounts) (io : Faults) (id : String) :
    (w.step (.delete io id)).Accounts := by
  rcases deleteRedeemCode_snd_cases io id w.db with h | h
  · exact hw.of_sublist (by rw [h]) (by rw [h])
  · rw [step, h]
    exact hw.of_sublist List.filter_sublist (.refl _)

theorem Accounts.read (hw : w.Accounts) (io : Faults) (codeHash : List UInt8)
    (id userID refID : String) (nowNs : ℤ) :
    (w.step (.read io codeHash id userID refID nowNs)).Accounts := by
  rw [step]
  split
  · exact hw
  rename_i amount hread
  obtain ⟨code, hcode, hhash, rfl⟩ := redeemCodeAmount_eq_ok hread
  refine { hw with worth := fun c hc r hr heq => ?_ }
  rw [List.append_assoc, List.mem_append, List.mem_append, List.mem_singleton] at hr
  rcases hr with hr | rfl | hr
  · exact hw.worth c hc r (List.mem_append_left _ hr) heq
  · rw [eq_of_mem_of_key_eq hw.distinct hc hcode (heq.symm.trans hhash.symm)]
  · exact hw.worth c hc r (List.mem_append_right _ hr) heq

theorem Accounts.credit (hw : w.Accounts) {k : ℕ} {r : Redemption} (hr : w.inFlight[k]? = some r)
    (hpos : 0 < (w.db.claimCode r.codeHash nowNs).1) :
    Accounts ⟨(w.db.claimCode r.codeHash nowNs).2.post (w.db.settled r.entry),
      w.inFlight.eraseIdx k, w.credited ++ [⟨r.codeHash, w.db.settled r.entry⟩]⟩ where
  distinct := keysNodup_updateWhere (fun _ _ => rfl) hw.distinct
  used c' hc' := by
    obtain ⟨c, hc, hrow, hcase⟩ := Db.claimCode_row hw.distinct hpos hc'
    have huses := hw.used c hc
    simp only [uses, List.filter_append, hrow.1] at huses ⊢
    rcases hcase with ⟨hhash, hcount, -⟩ | ⟨hhash, hcount⟩
    · rw [hcount, huses]
      simp [hhash]
    · rw [hcount, huses]
      simp [Ne.symm hhash]
  within c' hc' hmax := by
    obtain ⟨c, hc, hrow, hcase⟩ := Db.claimCode_row hw.distinct hpos hc'
    have hle := hw.within c hc
    omega
  worth c' hc' r' hr' heq := by
    obtain ⟨c, hc, hrow, -⟩ := Db.claimCode_row hw.distinct hpos hc'
    rw [hrow.1] at heq
    rw [hrow.2.1]
    rcases List.mem_append.mp hr' with hr' | hr'
    · exact hw.worth c hc r' (List.mem_append_left _ (List.mem_of_mem_eraseIdx hr')) heq
    rcases List.mem_append.mp hr' with hr' | hr'
    · exact hw.worth c hc r' (List.mem_append_right _ hr') heq
    · -- what lands was in flight with the same amount
      obtain rfl := List.mem_singleton.mp hr'
      exact hw.worth c hc r (List.mem_append_left _ (List.mem_of_getElem? hr)) heq
  posted := by
    rw [List.map_append]
    exact hw.posted.append (.refl _)

theorem Accounts.claim (hw : w.Accounts) (k : ℕ) (io : Faults) :
    (w.step (.claim k io)).Accounts := by
  rw [step]
  split
  · exact hw
  rename_i r hr
  rcases redeemCodeAndCredit_cases io r.codeHash r.entry r.entry.createdAtNs w.db with
    ⟨e, h⟩ | ⟨hpos, h⟩
  · simp only [h, Except.toOption, Option.map_none, Option.toList_none, List.append_nil]
    refine { hw with worth := fun c hc r' hr' => hw.worth c hc r' ?_ }
    exact List.mem_append.mpr ((List.mem_append.mp hr').imp_left List.mem_of_mem_eraseIdx)
  · simp only [h, Except.toOption, Option.map_some, Option.toList_some]
    exact hw.credit hr hpos

theorem Accounts.step (hw : w.Accounts) {ev : RedeemEvent} (hnew : w.MintsNew ev) :
    (w.step ev).Accounts := by
  cases ev with
  | read io codeHash id userID refID nowNs => exact hw.read io codeHash id userID refID nowNs
  | claim k io => exact hw.claim k io
  | mint io code => exact hw.mint hnew
  | delete io id => exact hw.delete io id
  | other after => exact hw.of_sublist (.refl _) (List.sublist_append_left _ _)

/-- **Every use of a code pays its amount once, and there are no more uses than it has.**  However
redemptions interleave, with each other and with the rest of the program, and under any faults: a
stored code counts the redemptions credited in its name, keeps its limit, and each of them credited
its amount; and every credited redemption has a ledger row of its own. -/
theorem redeemed_once_per_use (events : List RedeemEvent) (hnew : Along step MintsNew {} events) :
    ((run step {} events).credited.map Redemption.entry).Sublist
        (run step {} events).db.balanceLedger ∧
      ∀ c ∈ (run step {} events).db.redeemCodes,
        c.usedCount = ((run step {} events).uses c).length ∧
        (0 < c.maxUses → c.usedCount ≤ c.maxUses) ∧
        ∀ r ∈ (run step {} events).uses c, r.entry.deltaMicro = c.amountMicro := by
  have hempty : Accounts {} := ⟨List.nodup_nil, List.forall_mem_nil _, List.forall_mem_nil _,
    List.forall_mem_nil _, .slnil⟩
  have hw := hnew.invariant (I := Accounts) (fun w ev hnew hw => hw.step hnew) hempty
  refine ⟨hw.posted, fun c hc => ⟨hw.used c hc, hw.within c hc, fun r hr => ?_⟩⟩
  obtain ⟨hr, heq⟩ := List.mem_filter.mp hr
  exact hw.worth c hc r (List.mem_append_right _ hr) (of_decide_eq_true heq)

/-- A code for one use, read by two redemptions before either claims it. -/
def lastUse : List RedeemEvent :=
  [.other { users := [⟨"us", "a", .user, .active, "", [], 0, 0⟩] },
    .mint noFaults ⟨"rc", [7], "ABCD", 50, 1, 0, 0, "", .active, "", 0, 0⟩,
    .read noFaults [7] "bl1" "us" "r" 1, .read noFaults [7] "bl2" "us" "r" 1, .claim 0 noFaults,
    .claim 0 noFaults]

theorem redeemed_once_per_use_last : (run step {} lastUse).credited.length = 1 ∧
    ((run step {} lastUse).credited.map Redemption.entry).Sublist
      (run step {} lastUse).db.balanceLedger :=
  ⟨by decide, (redeemed_once_per_use lastUse ⟨trivial,
    ⟨rfl, fun _ hr => (List.not_mem_nil hr).elim⟩, trivial, trivial, trivial, trivial, trivial⟩).1⟩

end RedeemDesk

end Prism
