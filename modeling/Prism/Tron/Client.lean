import Prism.Foundation.Text
import Prism.Model.Tenant
import Mathlib.Data.Int.Order.Basic

/-!
# Reading transfers off the chain

`internal/tron/client.go`.  One page of the account's token history comes back as raw rows.  The
client drops the rows that are not confirmed transfers of the configured token to the watched
address, decodes the amounts of the rest into micro-units, and sorts them by block time.  Beside
them it returns the newest block time of the page *before* any of that: the watermark of the
deposit scan moves on it.

The endpoint itself is a parameter: a function from the watermark to the raw rows it answers
with.  `strings.EqualFold` compares rune by rune under simple case folding; the folding is a
parameter too, since nothing here depends on which runes it identifies.
-/

namespace Prism

/-- A row of the endpoint. -/
structure TronRow where
  transactionID : String
  blockTS : ℤ
  sender : String
  recipient : String
  type : String
  value : String
  tokenAddress : String
  decimals : Option ℤ
  deriving DecidableEq

structure Transfer where
  txID : String
  sender : String
  recipient : String
  amountMicro : ℤ
  blockTSMs : ℤ
  deriving DecidableEq

/-- One page, and the block time of its newest row before filtering. -/
structure TransferPage where
  transfers : List Transfer
  newestRawMs : ℤ

def microDecimals : ℕ := 6

/-- `strconv.ParseInt(digits, 10, 64)` on a string of digits. -/
def parseInt (digits : List Char) : Option ℤ :=
  if digits = [] then none
  else if (natOfDigits digits : ℤ) ≤ maxInt64 then some (natOfDigits digits) else none

def toMicro (raw : String) (decimals : ℤ) : Option ℤ :=
  if decimals < 0 ∨ 24 < decimals then none else
    let digits := (trimSpace raw).toList
    if digits = [] then none
    else if !digits.all isDigit then none
    else if decimals ≤ microDecimals then
      parseInt (digits ++ List.replicate (microDecimals - decimals.toNat) '0')
    else
      let cut := decimals.toNat - microDecimals
      if digits.length ≤ cut then
        -- below one micro-unit: zero is exact, anything else is not
        if digits.all (· = '0') then some 0 else none
      else if (digits.drop (digits.length - cut)).all (· = '0') then
        parseInt (digits.take (digits.length - cut))
      else none

/-- `strings.EqualFold`. -/
def equalFold (fold : Char → Char) (s t : String) : Bool :=
  s.toList.map fold = t.toList.map fold

structure TronClient where
  contract : String
  fold : Char → Char

def TronClient.decode (c : TronClient) (address : String) (row : TronRow) : Option Transfer :=
  if row.type ≠ "" ∧ row.type ≠ "Transfer" then none
  else if !equalFold c.fold row.recipient address then none
  else if row.tokenAddress ≠ "" ∧ !equalFold c.fold row.tokenAddress c.contract then none
  else
    (toMicro row.value (row.decimals.getD microDecimals)).map fun amount =>
      ⟨row.transactionID, row.sender, row.recipient, amount, row.blockTS⟩

def newestRaw (rows : List TronRow) : ℤ :=
  rows.foldl (fun m r => max m r.blockTS) 0

/-- The page the client makes of the raw rows, oldest transfer first. -/
def TronClient.page (c : TronClient) (address : String) (rows : List TronRow) : TransferPage :=
  ⟨(rows.filterMap (c.decode address)).mergeSort fun s t => s.blockTSMs ≤ t.blockTSMs,
    newestRaw rows⟩

theorem TronClient.mem_page {c : TronClient} {address : String} {rows : List TronRow}
    {t : Transfer} :
    t ∈ (c.page address rows).transfers ↔ ∃ row ∈ rows, c.decode address row = some t := by
  unfold TronClient.page
  rw [List.mem_mergeSort, List.mem_filterMap]

theorem TronClient.decode_eq_some {c : TronClient} {address : String} {row : TronRow}
    {t : Transfer} (h : c.decode address row = some t) :
    t.txID = row.transactionID ∧ t.blockTSMs = row.blockTS := by
  unfold TronClient.decode at h
  split at h
  · cases h
  split at h
  · cases h
  · split at h
    · cases h
    · obtain ⟨amount, -, rfl⟩ := Option.map_eq_some_iff.mp h
      exact ⟨rfl, rfl⟩

theorem TronClient.page_sorted (c : TronClient) (address : String) (rows : List TronRow) :
    (c.page address rows).transfers.Pairwise fun s t => s.blockTSMs ≤ t.blockTSMs := by
  have hsorted := @List.pairwise_mergeSort _ (fun s t : Transfer => s.blockTSMs ≤ t.blockTSMs)
    (fun a b c hab hbc => by simp only [decide_eq_true_eq] at *; omega)
    (fun a b => by simp only [Bool.or_eq_true, decide_eq_true_eq]; omega)
    (rows.filterMap (c.decode address))
  exact hsorted.imp fun hst => of_decide_eq_true hst

theorem le_newestRaw {rows : List TronRow} {row : TronRow} (h : row ∈ rows) :
    row.blockTS ≤ newestRaw rows := by
  have key : ∀ (l : List TronRow) (m : ℤ), m ≤ l.foldl (fun m r => max m r.blockTS) m ∧
        ∀ r ∈ l, r.blockTS ≤ l.foldl (fun m r => max m r.blockTS) m := by
    intro l
    induction l with
    | nil => intro m; simp
    | cons r l ih =>
      intro m
      obtain ⟨hm, hl⟩ := ih (max m r.blockTS)
      refine ⟨le_trans (le_max_left _ _) hm, ?_⟩
      intro s hs
      rcases List.mem_cons.mp hs with rfl | hs
      · exact le_trans (le_max_right _ _) hm
      · exact hl s hs
  exact (key rows 0).2 row h

theorem newestRaw_eq_or (rows : List TronRow) :
    newestRaw rows = 0 ∨ ∃ row ∈ rows, row.blockTS = newestRaw rows := by
  have key : ∀ (l : List TronRow) (m : ℤ), l.foldl (fun m r => max m r.blockTS) m = m ∨
        ∃ r ∈ l, r.blockTS = l.foldl (fun m r => max m r.blockTS) m := by
    intro l
    induction l with
    | nil => intro m; exact .inl rfl
    | cons r l ih =>
      intro m
      rcases ih (max m r.blockTS) with h | ⟨s, hs, h⟩
      · rcases le_total r.blockTS m with hm | hm
        · exact .inl (h.trans (max_eq_left hm))
        · exact .inr ⟨r, .head _, (h.trans (max_eq_right hm)).symm⟩
      · exact .inr ⟨s, .tail _ hs, h⟩
  exact key rows 0

end Prism
