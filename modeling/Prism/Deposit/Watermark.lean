import Prism.Deposit.Scan
import Prism.Tron.Amount

/-!
# No payment is skipped

The listener remembers the block time up to which it has looked.  It moves inside every credit, to
the block time of the transfer, and behind a page that was worked off, to the newest raw row of the
page.  In between, rows are dropped and the rest is sorted; and a scan may be cut anywhere.

That nothing is lost has two reasons.  A page is a front part of what the chain has from the
watermark on, so a row older than some row of the page is on it as well.  And the transfers of a
page are worked off in the order of their block times, so whatever is older than a credited transfer
has been handed over.

A scan that is cut behind its `n`-th transfer is one whose next statement fails, so cuts need no
event of their own.
-/

namespace Prism

variable {past : List Transfer} {log : List (Transfer × Bool)} {c : TronClient} {address : String}

/-! ## The chain -/

/-- The rows the endpoint answers with: from the watermark on, oldest first, at most `limit`.  The
query has no lower bound when the watermark is not positive. -/
def rowsSince (chain : List TronRow) (minTimestampMs : ℤ) (limit : ℕ) : List TronRow :=
  (chain.filter fun r => minTimestampMs ≤ 0 || minTimestampMs ≤ r.blockTS).take limit

/-- `TransfersSince`, against a chain that answers or does not. -/
def TronClient.transfersSince (c : TronClient) (address : String) (chain : List TronRow)
    (up : Bool) (minTimestampMs : ℤ) : Option TransferPage :=
  if up then some (c.page address (rowsSince chain minTimestampMs depositPageLimit)) else none

/-- Block times count milliseconds since 1970 and never fall. -/
structure ChainOrdered (chain : List TronRow) : Prop where
  sorted : chain.Pairwise fun r s => r.blockTS ≤ s.blockTS
  nonneg : ∀ r ∈ chain, 0 ≤ r.blockTS

/-- The transfers of the loop that `CreditDeposit` has answered, and whether it credited them.
The branches are those of `creditTransfers`. -/
def handOver (env : ScanEnv) (nowNs : ℤ) : ℕ → List Transfer → Db → List (Transfer × Bool)
  | _, [], _ => []
  | k, t :: ts, db =>
    if t.amountMicro < depositMinMicro then handOver env nowNs (k + 1) ts db
    else
      match env.entryID k with
      | none => []
      | some id =>
        match creditTransfer (env.io k) id nowNs t db with
        | (.ok _, db') => (t, true) :: handOver env nowNs (k + 1) ts db'
        | (.error .notFound, db') => (t, false) :: handOver env nowNs (k + 1) ts db'
        | (.error (.conflict _), db') => (t, false) :: handOver env nowNs (k + 1) ts db'
        | (.error _, _) => []

def scanHands (env : ScanEnv) (address : String) (tron : ℤ → Option TransferPage) (nowNs : ℤ)
    (db : Db) : List (Transfer × Bool) :=
  if address = "" then []
  else
    match orWrap "read chain cursor"
        (stmt env.ioCursor 0 .io (.ok (db.cursor depositCursorName))) with
    | .error _ => []
    | .ok watermarkMs =>
      match tron watermarkMs with
      | none => []
      | some page => handOver env nowNs 0 page.transfers db

/-! ## The world -/

/-- The panel, the chain, and what was handed to `CreditDeposit` so far. -/
structure ChainWorld where
  db : Db
  chain : List TronRow
  handed : List (Transfer × Bool)

inductive ChainEvent where
  /-- the chain gains a row -/
  | grow (row : TronRow)
  | scan (env : ScanEnv) (up : Bool) (nowNs : ℤ)
  | other (db : Db)

namespace ChainWorld

def step (c : TronClient) (address : String) (w : ChainWorld) : ChainEvent → ChainWorld
  | .grow row => { w with chain := w.chain ++ [row] }
  | .scan env up nowNs =>
    { w with
      db := (scanDeposits env address (c.transfersSince address w.chain up) nowNs w.db).2
      handed := w.handed ++
        scanHands env address (c.transfersSince address w.chain up) nowNs w.db }
  | .other db => { w with db := db }

/-- A row comes behind the ones that are there; other calls leave the cursor and keep the ledger. -/
def Admissible (w : ChainWorld) : ChainEvent → Prop
  | .grow row => 0 ≤ row.blockTS ∧ ∀ r ∈ w.chain, r.blockTS ≤ row.blockTS
  | .scan _ _ _ => True
  | .other db => db.chainCursor = w.db.chainCursor ∧ ∀ e ∈ depositRows w.db, e ∈ depositRows db

instance (w : ChainWorld) (ev : ChainEvent) : Decidable (w.Admissible ev) :=
  match ev with
  | .grow row => inferInstanceAs (Decidable (0 ≤ row.blockTS ∧ ∀ r ∈ w.chain, _ ≤ _))
  | .scan _ _ _ => inferInstanceAs (Decidable True)
  | .other db =>
    inferInstanceAs (Decidable (db.chainCursor = w.db.chainCursor ∧
      ∀ e ∈ depositRows w.db, e ∈ depositRows db))

structure Fresh (w : ChainWorld) : Prop where
  chain : ChainOrdered w.chain
  cursor : w.db.cursor depositCursorName = 0
  handed : w.handed = []

end ChainWorld

theorem mem_front_of_lt {α : Type} {f : α → ℤ} {l1 l2 : List α}
    (hsorted : (l1 ++ l2).Pairwise fun a b => f a ≤ f b) {x y : α} (hx : x ∈ l1 ++ l2)
    (hy : y ∈ l1) (hlt : f x < f y) : x ∈ l1 := by
  rcases List.mem_append.mp hx with hx | hx
  · exact hx
  · have hle := (List.pairwise_append.mp hsorted).2.2 y hy x hx
    omega

variable {w : ℤ} {row : TronRow}

theorem mem_rowsSince_of_lt {chain : List TronRow} (hchain : ChainOrdered chain) {n : ℕ}
    (hrow : row ∈ chain) (hle : w ≤ row.blockTS)
    (hlt : row.blockTS < newestRaw (rowsSince chain w n)) : row ∈ rowsSince chain w n := by
  obtain hzero | ⟨newest, hnewest, heq⟩ := newestRaw_eq_or (rowsSince chain w n)
  · have hnonneg := hchain.nonneg row hrow
    omega
  rw [← heq] at hlt
  have hin : row ∈ chain.filter fun r => w ≤ 0 || w ≤ r.blockTS := by
    refine List.mem_filter.mpr ⟨hrow, ?_⟩
    rw [Bool.or_eq_true, decide_eq_true_eq, decide_eq_true_eq]
    exact .inr hle
  have hsorted : (chain.filter fun r => w ≤ 0 || w ≤ r.blockTS).Pairwise
      fun r s => r.blockTS ≤ s.blockTS := hchain.sorted.filter _
  rw [← List.take_append_drop n (chain.filter fun r => w ≤ 0 || w ≤ r.blockTS)] at hin hsorted
  exact mem_front_of_lt hsorted hin hnewest hlt

/-! ## The loop -/

/-- The state of a scan that started at the watermark `w`, with the transfers `past` behind it and
`log` handed over by now. -/
structure Handing (w : ℤ) (past : List Transfer) (log : List (Transfer × Bool)) (db : Db) :
    Prop where
  /-- the cursor is where it was, or not ahead of a transfer that is behind -/
  reached : db.cursor depositCursorName ≤ w ∨
    ∃ t ∈ past, db.cursor depositCursorName ≤ t.blockTSMs
  answered : ∀ t ∈ past, depositMinMicro ≤ t.amountMicro → ∃ b, (t, b) ∈ log
  booked : ∀ t, (t, true) ∈ log → db.Credited t

variable {db : Db} {t : Transfer}

section

variable (h : Handing w past log db)

include h

theorem Handing.pass (hsmall : t.amountMicro < depositMinMicro) :
    Handing w (past ++ [t]) log db := by
  refine ⟨?_, ?_, h.booked⟩
  · refine h.reached.imp_right ?_
    rintro ⟨s, hs, hle⟩
    exact ⟨s, List.mem_append_left _ hs, hle⟩
  · intro s hs hmin
    rcases List.mem_append.mp hs with hs | hs
    · exact h.answered s hs hmin
    · rw [List.mem_singleton.mp hs] at hmin
      omega

theorem Handing.answer {db' : Db} {b : Bool}
    (hcursor : db'.cursor depositCursorName ≤ max (db.cursor depositCursorName) t.blockTSMs)
    (hbooked : ∀ s, (s, true) ∈ log ++ [(t, b)] → db'.Credited s) :
    Handing w (past ++ [t]) (log ++ [(t, b)]) db' := by
  refine ⟨?_, ?_, hbooked⟩
  · rcases le_max_iff.mp hcursor with hle | hle
    · refine h.reached.imp (fun hw => hle.trans hw) ?_
      rintro ⟨s, hs, hs'⟩
      exact ⟨s, List.mem_append_left _ hs, hle.trans hs'⟩
    · exact .inr ⟨t, List.mem_append_right _ (List.mem_singleton_self t), hle⟩
  · intro s hs hmin
    rcases List.mem_append.mp hs with hs | hs
    · obtain ⟨b', hb⟩ := h.answered s hs hmin
      exact ⟨b', List.mem_append_left _ hb⟩
    · rw [List.mem_singleton.mp hs]
      exact ⟨b, List.mem_append_right _ (List.mem_singleton_self _)⟩

theorem Handing.refuse (t : Transfer) : Handing w (past ++ [t]) (log ++ [(t, false)]) db := by
  refine h.answer (le_max_left _ _) fun s hs => ?_
  rcases List.mem_append.mp hs with hs | hs
  · exact h.booked s hs
  · cases List.mem_singleton.mp hs

theorem Handing.credit {entry : BalanceEntry} {intent : DepositIntent} {nowNs : ℤ}
    (hcredits : db.CreditsTo t.txID t.amountMicro t.blockTSNs nowNs entry intent) :
    Handing w (past ++ [t]) (log ++ [(t, true)])
      (db.credited entry intent t.txID nowNs depositCursorName t.blockTSMs) := by
  refine h.answer (Db.cursor_advanceCursor_le _ _ _ _) fun s hs => ?_
  unfold Db.Credited
  rw [depositRows_credited]
  rcases List.mem_append.mp hs with hs | hs
  · obtain ⟨e, he, hrest⟩ := h.booked s hs
    exact ⟨e, List.mem_append_left _ he, hrest⟩
  · cases List.mem_singleton.mp hs
    obtain ⟨-, hmatch⟩ := Db.intentForTransfer_eq_some hcredits.owner
    exact ⟨_, List.mem_append_right _ (List.mem_singleton_self _), rfl,
      (DepositIntent.matches_iff.mp hmatch).1⟩

end

/-- **The loop**, from a state with `past` behind it: wherever it ends, a front part of the page is
behind it, and the whole page when it ends without an error. -/
theorem handing_loop (env : ScanEnv) (nowNs : ℤ) :
    ∀ (ts past : List Transfer) (k c : ℕ) (log : List (Transfer × Bool)) (db : Db),
      Handing w past log db →
      ∃ past' rest, past ++ ts = past' ++ rest ∧ Handing w past' (log ++ handOver env nowNs k ts db)
          (creditTransfers env nowNs k ts c db).2 ∧
        ((creditTransfers env nowNs k ts c db).1.2 = none → rest = []) := by
  intro ts
  induction ts with
  | nil =>
    intro past k c log db h
    refine ⟨past, [], rfl, ?_, fun _ => rfl⟩
    rw [handOver, List.append_nil]
    exact h
  | cons t ts ih =>
    intro past k c log db h
    have happ : past ++ t :: ts = past ++ [t] ++ ts := by simp
    -- the loop ends here
    have hend : ∃ past' rest, past ++ t :: ts = past' ++ rest ∧
        Handing w past' (log ++ []) db ∧ (False → rest = []) :=
      ⟨past, t :: ts, rfl, by rwa [List.append_nil], fun hf => hf.elim⟩
    unfold creditTransfers handOver
    by_cases hsmall : t.amountMicro < depositMinMicro
    · rw [if_pos hsmall, if_pos hsmall, happ]
      exact ih (past ++ [t]) (k + 1) c log db (h.pass hsmall)
    rw [if_neg hsmall, if_neg hsmall]
    cases hid : env.entryID k with
    | none => simpa using hend
    | some id =>
      simp only
      -- a transfer that is answered without a credit leaves the tables
      have hrefused : ∃ past' rest, past ++ t :: ts = past' ++ rest ∧
          Handing w past' (log ++ (t, false) :: handOver env nowNs (k + 1) ts db)
            (creditTransfers env nowNs (k + 1) ts c db).2 ∧
          ((creditTransfers env nowNs (k + 1) ts c db).1.2 = none → rest = []) := by
        have hgo := ih (past ++ [t]) (k + 1) c (log ++ [(t, false)]) db (h.refuse t)
        rw [← happ, List.append_assoc] at hgo
        exact hgo
      cases hr : (creditTransfer (env.io k) id nowNs t db).1 with
      | ok i =>
        obtain ⟨intent, hcredits, hafter⟩ := creditDeposit_of_ok hr
        have hpair : creditTransfer (env.io k) id nowNs t db = (.ok i, db.credited
            (scanEntry id t) intent t.txID nowNs depositCursorName t.blockTSMs) :=
          Prod.ext hr hafter
        rw [hpair]
        have hgo := ih (past ++ [t]) (k + 1) (c + 1) (log ++ [(t, true)]) _ (h.credit hcredits)
        rw [← happ, List.append_assoc] at hgo
        exact hgo
      | error e =>
        have hpair : creditTransfer (env.io k) id nowNs t db = (.error e, db) :=
          Prod.ext hr (atomically_snd_of_fst_error hr)
        rw [hpair]
        cases e with
        | notFound | conflict => exact hrefused
        | insufficientBalance | invalid | wrapped => simpa using hend

/-- Whatever lies behind the cursor has been handed over. -/
structure Watched (c : TronClient) (address : String) (w : ChainWorld) : Prop where
  chain : ChainOrdered w.chain
  /-- the cursor is not ahead of the chain -/
  behind : w.db.cursor depositCursorName ≤ 0 ∨
    ∃ r ∈ w.chain, w.db.cursor depositCursorName ≤ r.blockTS
  handed : ∀ row ∈ w.chain, ∀ t, c.decode address row = some t →
    depositMinMicro ≤ t.amountMicro → row.blockTS < w.db.cursor depositCursorName →
    ∃ b, (t, b) ∈ w.handed
  booked : ∀ t, (t, true) ∈ w.handed → w.db.Credited t

theorem scan_cases (env : ScanEnv) (address : String) (tron : ℤ → Option TransferPage) (nowNs : ℤ)
    (db : Db) :
    (scanDeposits env address tron nowNs db).2 = db ∧ scanHands env address tron nowNs db = [] ∨
      ∃ page, tron (db.cursor depositCursorName) = some page ∧
        scanHands env address tron nowNs db = handOver env nowNs 0 page.transfers db ∧
        ((scanDeposits env address tron nowNs db).2 =
            (creditTransfers env nowNs 0 page.transfers 0 db).2 ∨
          (creditTransfers env nowNs 0 page.transfers 0 db).1.2 = none ∧
            (scanDeposits env address tron nowNs db).2 =
              (creditTransfers env nowNs 0 page.transfers 0 db).2.advanceCursor depositCursorName
                page.newestRawMs nowNs) := by
  by_cases haddress : address = ""
  · left
    simp [scanDeposits, scanHands, haddress]
  by_cases hcursor : env.ioCursor 0 = false
  swap
  · left
    rw [Bool.not_eq_false] at hcursor
    simp [scanDeposits, scanHands, haddress, stmt, hcursor, orWrap]
  have hread := readCursor_eq_ok db hcursor
  cases hpage : tron (db.cursor depositCursorName) with
  | none =>
    left
    simp [scanDeposits, scanHands, haddress, hread, hpage]
  | some page =>
    right
    refine ⟨page, rfl, ?_, scanDeposits_of_page haddress hcursor hpage nowNs⟩
    simp [scanHands, haddress, hread, hpage]

section Scan

variable {c : TronClient} {address : String} {chain : List TronRow} {w : ℤ} {n : ℕ}
  {past rest : List Transfer} {log : List (Transfer × Bool)} {db : Db} {row : TronRow}
  {t : Transfer}

theorem mem_transfers_of_lt (hchain : ChainOrdered chain) (hrow : row ∈ chain)
    (hdecode : c.decode address row = some t) (hle : w ≤ row.blockTS)
    (hlt : row.blockTS < newestRaw (rowsSince chain w n)) :
    t ∈ (c.page address (rowsSince chain w n)).transfers :=
  TronClient.mem_page.mpr ⟨row, mem_rowsSince_of_lt hchain hrow hle hlt, hdecode⟩

theorem exists_row_of_mem_transfers (ht : t ∈ (c.page address (rowsSince chain w n)).transfers) :
    ∃ r ∈ chain, t.blockTSMs = r.blockTS ∧ r.blockTS ≤ newestRaw (rowsSince chain w n) := by
  obtain ⟨r, hr, hdecode⟩ := TronClient.mem_page.mp ht
  refine ⟨r, ?_, (TronClient.decode_eq_some hdecode).2, le_newestRaw hr⟩
  exact List.mem_of_mem_filter (List.mem_of_mem_take hr)

theorem Handing.handed_of_lt_past (h : Handing w past log db) (hchain : ChainOrdered chain)
    (hsplit : (c.page address (rowsSince chain w n)).transfers = past ++ rest)
    (hrow : row ∈ chain) (hdecode : c.decode address row = some t)
    (hmin : depositMinMicro ≤ t.amountMicro) (hle : w ≤ row.blockTS) {s : Transfer}
    (hs : s ∈ past) (hlt : row.blockTS < s.blockTSMs) : ∃ b, (t, b) ∈ log := by
  have hs' : s ∈ (c.page address (rowsSince chain w n)).transfers := by
    rw [hsplit]
    exact List.mem_append_left _ hs
  obtain ⟨r, -, hsr, hnewest⟩ := exists_row_of_mem_transfers hs'
  have hlt' : row.blockTS < newestRaw (rowsSince chain w n) := by omega
  have ht := mem_transfers_of_lt hchain hrow hdecode hle hlt'
  have hsorted := c.page_sorted address (rowsSince chain w n)
  rw [hsplit] at ht hsorted
  have hts : t.blockTSMs = row.blockTS := (TronClient.decode_eq_some hdecode).2
  exact h.answered t (mem_front_of_lt hsorted ht hs (by omega)) hmin

end Scan

variable {w : ChainWorld}

section

variable (h : Watched c address w)

include h

theorem Watched.loop {n : ℕ} {rest : List Transfer}
    (hloop : Handing (w.db.cursor depositCursorName) past (w.handed ++ log) db)
    (hsplit : (c.page address (rowsSince w.chain (w.db.cursor depositCursorName) n)).transfers =
      past ++ rest) : Watched c address ⟨db, w.chain, w.handed ++ log⟩ := by
  refine ⟨h.chain, ?_, ?_, hloop.booked⟩
  · rcases hloop.reached with hreach | ⟨s, hs, hreach⟩
    · refine h.behind.imp (fun h0 => hreach.trans h0) ?_
      rintro ⟨r, hr, hle⟩
      exact ⟨r, hr, hreach.trans hle⟩
    · have hs' : s ∈ (c.page address (rowsSince w.chain (w.db.cursor depositCursorName)
          n)).transfers := by
        rw [hsplit]
        exact List.mem_append_left _ hs
      obtain ⟨r, hr, hsr, -⟩ := exists_row_of_mem_transfers hs'
      exact .inr ⟨r, hr, hreach.trans hsr.le⟩
  · intro row hrow t hdecode hmin hlt
    have hlt' : row.blockTS < db.cursor depositCursorName := hlt
    by_cases hold : row.blockTS < w.db.cursor depositCursorName
    · obtain ⟨b, hb⟩ := h.handed row hrow t hdecode hmin hold
      exact ⟨b, List.mem_append_left _ hb⟩
    rcases hloop.reached with hreach | ⟨s, hs, hreach⟩
    · omega
    · exact hloop.handed_of_lt_past h.chain hsplit hrow hdecode hmin (by omega) hs (by omega)

/-- **Advancing the cursor** to an instant of the chain keeps what is watched, when all that is
older has been handed over. -/
theorem Watched.advance {ms : ℤ} (hms : ms ≤ 0 ∨ ∃ r ∈ w.chain, ms ≤ r.blockTS)
    (hhanded : ∀ row ∈ w.chain, ∀ t, c.decode address row = some t → depositMinMicro ≤ t.amountMicro
      → row.blockTS < ms → ∃ b, (t, b) ∈ w.handed) (nowNs : ℤ) :
    Watched c address { w with db := w.db.advanceCursor depositCursorName ms nowNs } := by
  have hle := Db.cursor_advanceCursor_le w.db depositCursorName ms nowNs
  refine ⟨h.chain, ?_, ?_, h.booked⟩
  · rcases le_max_iff.mp hle with hle | hle
    · refine h.behind.imp (fun h0 => hle.trans h0) ?_
      rintro ⟨r, hr, hr'⟩
      exact ⟨r, hr, hle.trans hr'⟩
    · refine hms.imp (fun h0 => hle.trans h0) ?_
      rintro ⟨r, hr, hr'⟩
      exact ⟨r, hr, hle.trans hr'⟩
  · intro row hrow t hdecode hmin hlt
    rcases le_max_iff.mp hle with hle | hle
    · exact h.handed row hrow t hdecode hmin (lt_of_lt_of_le hlt hle)
    · exact hhanded row hrow t hdecode hmin (lt_of_lt_of_le hlt hle)

theorem Watched.scan (env : ScanEnv) (up : Bool) (nowNs : ℤ) :
    Watched c address (w.step c address (.scan env up nowNs)) := by
  have hstep : w.step c address (.scan env up nowNs) =
      ⟨(scanDeposits env address (c.transfersSince address w.chain up) nowNs w.db).2, w.chain,
        w.handed ++ scanHands env address (c.transfersSince address w.chain up) nowNs w.db⟩ := rfl
  rcases scan_cases env address (c.transfersSince address w.chain up) nowNs w.db with
    ⟨hdb, hhands⟩ | ⟨page, hpage, hhands, hafter⟩
  · rw [hstep, hdb, hhands, List.append_nil]
    exact h
  -- the page is the client's reading of the rows from the watermark on
  obtain rfl : page = c.page address
      (rowsSince w.chain (w.db.cursor depositCursorName) depositPageLimit) := by
    unfold TronClient.transfersSince at hpage
    split at hpage
    · exact (Option.some.inj hpage).symm
    · cases hpage
  have hstart : Handing (w.db.cursor depositCursorName) [] w.handed w.db :=
    ⟨.inl le_rfl, by simp, h.booked⟩
  obtain ⟨past, rest, hsplit, hloop, hwhole⟩ := handing_loop env nowNs
    (c.page address (rowsSince w.chain (w.db.cursor depositCursorName) depositPageLimit)).transfers
    [] 0 0 w.handed w.db hstart
  rw [List.nil_append] at hsplit
  have hwatched := h.loop hloop hsplit
  rw [hstep, hhands]
  rcases hafter with hdb | ⟨hnone, hdb⟩
  · rw [hdb]
    exact hwatched
  rw [hdb]
  refine hwatched.advance ?_ ?_ nowNs
  · obtain hzero | ⟨r, hr, hr'⟩ := newestRaw_eq_or
      (rowsSince w.chain (w.db.cursor depositCursorName) depositPageLimit)
    · exact .inl hzero.le
    · exact .inr ⟨r, List.mem_of_mem_filter (List.mem_of_mem_take hr), hr'.ge⟩
  · -- the page was worked off, so all that is older than its newest row has been handed over
    rw [hwhole hnone, List.append_nil] at hsplit
    intro row hrow t hdecode hmin hlt
    by_cases hold : row.blockTS < w.db.cursor depositCursorName
    · obtain ⟨b, hb⟩ := h.handed row hrow t hdecode hmin hold
      exact ⟨b, List.mem_append_left _ hb⟩
    · have ht := mem_transfers_of_lt h.chain hrow hdecode (not_lt.mp hold) hlt
      rw [hsplit] at ht
      exact hloop.answered t ht hmin

/-! ## Whole runs -/

theorem Watched.grow (hrow : w.Admissible (.grow row)) :
    Watched c address (w.step c address (.grow row)) := by
  obtain ⟨hnonneg, hlast⟩ := hrow
  have hsorted : (w.chain ++ [row]).Pairwise fun r s => r.blockTS ≤ s.blockTS := by
    refine List.pairwise_append.mpr ⟨h.chain.sorted, List.pairwise_singleton _ _, ?_⟩
    intro r hr s hs
    rw [List.mem_singleton.mp hs]
    exact hlast r hr
  refine ⟨⟨hsorted, ?_⟩, ?_, ?_, h.booked⟩
  · intro r hr
    rcases List.mem_append.mp hr with hr | hr
    · exact h.chain.nonneg r hr
    · rw [List.mem_singleton.mp hr]
      exact hnonneg
  · refine h.behind.imp_right ?_
    rintro ⟨r, hr, hle⟩
    exact ⟨r, List.mem_append_left _ hr, hle⟩
  · intro r hr t hdecode hmin hlt
    rcases List.mem_append.mp hr with hr | hr
    · exact h.handed r hr t hdecode hmin hlt
    -- the new row is not behind the cursor
    rw [List.mem_singleton.mp hr] at hlt
    have hlt' : row.blockTS < w.db.cursor depositCursorName := hlt
    rcases h.behind with hzero | ⟨s, hs, hle⟩
    · omega
    · have hs' := hlast s hs
      omega

theorem Watched.step {ev : ChainEvent} (hev : w.Admissible ev) :
    Watched c address (w.step c address ev) := by
  cases ev with
  | grow row => exact h.grow hev
  | scan env up nowNs => exact h.scan env up nowNs
  | other db =>
    obtain ⟨hcursor, hrows⟩ := hev
    have hsame : db.cursor depositCursorName = w.db.cursor depositCursorName := by
      unfold Db.cursor
      rw [hcursor]
    refine ⟨h.chain, ?_, ?_, ?_⟩
    · show db.cursor depositCursorName ≤ 0 ∨ ∃ r ∈ w.chain, db.cursor depositCursorName ≤ r.blockTS
      rw [hsame]
      exact h.behind
    · intro row hrow t hdecode hmin hlt
      have hlt' : row.blockTS < db.cursor depositCursorName := hlt
      rw [hsame] at hlt'
      exact h.handed row hrow t hdecode hmin hlt'
    · intro t ht
      obtain ⟨e, he, hrest⟩ := h.booked t ht
      exact ⟨e, hrows e he, hrest⟩

end

/-- A row of the chain that pays the watched address in the configured token. -/
structure TronRow.PaidTo (c : TronClient) (address : String) (row : TronRow) : Prop where
  type : row.type = "" ∨ row.type = "Transfer"
  recipient : equalFold c.fold row.recipient address = true
  token : row.tokenAddress = "" ∨ equalFold c.fold row.tokenAddress c.contract = true

def TronRow.scale (row : TronRow) : ℤ := row.decimals.getD microDecimals

def TronRow.transfer (row : TronRow) (amountMicro : ℤ) : Transfer :=
  ⟨row.transactionID, row.sender, row.recipient, amountMicro, row.blockTS⟩

theorem TronClient.decode_of_paidTo (h : row.PaidTo c address) {x : ℕ} {amountMicro : ℤ}
    (hx : rawUnits row.value = some x) (hexact : ExactMicro x row.scale amountMicro) :
    c.decode address row = some (row.transfer amountMicro) := by
  have hamount : toMicro row.value row.scale = some amountMicro :=
    toMicro_eq_some_iff.mpr ⟨x, hx, hexact⟩
  unfold TronClient.decode
  rw [if_neg, if_neg, if_neg]
  · show (toMicro row.value row.scale).map _ = _
    rw [hamount]
    rfl
  · rintro ⟨hne, hfold⟩
    rcases h.token with htoken | htoken
    · exact hne htoken
    · simp [htoken] at hfold
  · simp [h.recipient]
  · rintro ⟨hne, hne'⟩
    rcases h.type with htype | htype
    · exact hne htype
    · exact hne' htype

/-- No payment is behind the listener's back: whatever is older than the stored watermark and has
an exact amount of at least the minimum has been handed to `CreditDeposit`, and what it credited is
in the ledger. -/
structure NothingSkipped (c : TronClient) (address : String) (w : ChainWorld) : Prop where
  handed : ∀ row ∈ w.chain, row.PaidTo c address → ∀ x amountMicro,
    rawUnits row.value = some x → ExactMicro x row.scale amountMicro →
    depositMinMicro ≤ amountMicro → row.blockTS < w.db.cursor depositCursorName →
    ∃ b, (row.transfer amountMicro, b) ∈ w.handed
  booked : ∀ t, (t, true) ∈ w.handed → w.db.Credited t

/-- **No payment is skipped.**  From a listener that has not looked yet, over every sequence of
scans with any faults, of rows the chain gains, and of other calls. -/
theorem no_payment_skipped {c : TronClient} {address : String} {w : ChainWorld} (hw : w.Fresh)
    {events : List ChainEvent}
    (hevents : Along (ChainWorld.step c address) ChainWorld.Admissible w events) :
    NothingSkipped c address (run (ChainWorld.step c address) w events) := by
  have hstart : Watched c address w := by
    refine ⟨hw.chain, .inl hw.cursor.le, ?_, ?_⟩
    · intro row hrow t _ _ hlt
      have hnonneg := hw.chain.nonneg row hrow
      rw [hw.cursor] at hlt
      omega
    · intro t ht
      rw [hw.handed] at ht
      cases ht
  have hend : Watched c address (run (ChainWorld.step c address) w events) :=
    hevents.invariant (I := Watched c address) (fun w ev hP hI => hI.step hP) hstart
  refine ⟨?_, hend.booked⟩
  intro row hrow hpaid x amountMicro hx hexact hmin hlt
  exact hend.handed row hrow _ (TronClient.decode_of_paidTo hpaid hx hexact) hmin hlt

/-- The client of one token. -/
def usdtClient : TronClient := ⟨"USDT", id⟩

def wholeRow : TronRow := ⟨"tx1", 1, "A", "T", "Transfer", "5000001", "USDT", some 6⟩

def dustRow : TronRow := ⟨"tx1", 1, "A", "T", "Transfer", "5000000000000000001", "USDT", some 18⟩

def outRow : TronRow := ⟨"tx2", 2, "T", "B", "Transfer", "1", "USDT", some 6⟩

def unwatched : ChainWorld := ⟨twoIntents, [], []⟩

theorem fresh_unwatched : unwatched.Fresh :=
  ⟨⟨List.Pairwise.nil, by simp [unwatched]⟩, by decide, rfl⟩

theorem no_payment_skipped_whole :
    NothingSkipped usdtClient "T" (run (ChainWorld.step usdtClient "T") unwatched
        [.grow wholeRow, .grow outRow, .scan quietEnv true 3]) ∧
      (run (ChainWorld.step usdtClient "T") unwatched
        [.grow wholeRow, .grow outRow, .scan quietEnv true 3]).db.cursor depositCursorName = 2 ∧
      (run (ChainWorld.step usdtClient "T") unwatched
        [.grow wholeRow, .grow outRow, .scan quietEnv true 3]).handed = [(paymentU, true)] :=
  ⟨no_payment_skipped fresh_unwatched (by decide), by decide +kernel, by decide +kernel⟩

/-- **A payment of more than the minimum is left alone** when it is not a whole number of
micro-units: the watermark has passed it, and nothing was handed over. -/
theorem inexact_amount_skipped : unwatched.Fresh ∧
      Along (ChainWorld.step usdtClient "T") ChainWorld.Admissible unwatched
        [.grow dustRow, .grow outRow, .scan quietEnv true 3] ∧
      dustRow ∈ (run (ChainWorld.step usdtClient "T") unwatched
        [.grow dustRow, .grow outRow, .scan quietEnv true 3]).chain ∧
      dustRow.PaidTo usdtClient "T" ∧ rawUnits dustRow.value = some 5000000000000000001 ∧
      depositMinMicro * 10 ^ dustRow.scale.toNat ≤ 5000000000000000001 * 10 ^ microDecimals ∧
      dustRow.blockTS < (run (ChainWorld.step usdtClient "T") unwatched
        [.grow dustRow, .grow outRow, .scan quietEnv true 3]).db.cursor depositCursorName ∧
      (run (ChainWorld.step usdtClient "T") unwatched
        [.grow dustRow, .grow outRow, .scan quietEnv true 3]).handed = [] := by
  refine ⟨fresh_unwatched, by decide +kernel, by decide +kernel,
    ⟨by decide +kernel, by decide +kernel, by decide +kernel⟩, by decide +kernel,
    by decide, by decide +kernel, by decide +kernel⟩

end Prism
