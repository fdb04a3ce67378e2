import Prism.Foundation.Run
import Prism.Service.Helpers

/-!
# The budget of a data provider

`ConsumeProviderBudget` and the calls that block, pause and resume a provider, of
`internal/intel/store/repo_provider.go`.  Each is one transaction on the row of the provider.  A
call that would be let through may still be refused by four gates, and even then the row is written
back: with the new day, and with the new credential.

The new day starts the count of requests over, and the time of the next request as well.  So the
last request of a day and the first one of the next may come right after each other
(`midnight_forgets_spacing`).
-/

namespace Prism

/-- A row of `provider_state`.  A day is the number of its date, and none where the text is empty. -/
structure ProviderState where
  day : Option ℤ := none
  used : ℤ := 0
  nextRequestAtNs : ℤ := 0
  blockedUntilNs : ℤ := 0
  paused : Bool := false
  errorCode : String := ""
  credentialID : String := ""

/-- `spacingNs` is what the QPS come to, if they are positive. -/
structure BudgetRequest where
  day : Option ℤ
  dailyLimit : ℤ
  spacingNs : Option ℤ
  nowNs : ℤ
  credentialID : String := ""

/-- Why a request is refused. -/
inductive BudgetError where
  | nowRequired
  | paused
  | blocked
  | exhausted
  | notReady

namespace ProviderState

variable (st : ProviderState)

/-- Another credential lifts a pause. -/
def rotate (credentialID : String) : ProviderState :=
  if credentialID ≠ "" ∧ credentialID ≠ st.credentialID then
    { st with paused := false, errorCode := "", credentialID := credentialID }
  else st

/-- Another day starts the count over. -/
def roll (day : Option ℤ) : ProviderState :=
  if day ≠ none ∧ day ≠ st.day then { st with day := day, used := 0, nextRequestAtNs := 0 } else st

/-- The four gates, in their order. -/
def refusal (req : BudgetRequest) : Option BudgetError :=
  if st.paused then some .paused
  else if req.nowNs < st.blockedUntilNs then some .blocked
  else if 0 < req.dailyLimit ∧ req.dailyLimit ≤ st.used then some .exhausted
  else if req.nowNs < st.nextRequestAtNs then some .notReady
  else none

def spend (req : BudgetRequest) : ProviderState :=
  { st with
    used := st.used + 1
    nextRequestAtNs := req.spacingNs.elim st.nextRequestAtNs fun gap => req.nowNs + gap }

end ProviderState

/-- The row as the request finds it. -/
def BudgetRequest.current (req : BudgetRequest) (row : Option ProviderState) : ProviderState :=
  ((row.getD { day := req.day, credentialID := req.credentialID }).rotate req.credentialID).roll
    req.day

variable (row : Option ProviderState)

/-- `ConsumeProviderBudget`. -/
def consumeProviderBudget (req : BudgetRequest) : Option BudgetError × Option ProviderState :=
  if req.nowNs ≤ 0 then (some .nowRequired, row)
  else
    match (req.current row).refusal req with
    | some e => (some e, some (req.current row))
    | none => (none, some ((req.current row).spend req))

def patchProviderState (apply : ProviderState → ProviderState) : Option ProviderState :=
  some (apply (row.getD {}))

inductive ProviderCall where
  | consume (req : BudgetRequest)
  | markBlocked (untilNs : ℤ) (errorCode : String)
  | markPaused (errorCode credentialID : String)
  | resume

namespace ProviderCall

def apply : ProviderCall → Option ProviderState
  | .consume req => (consumeProviderBudget row req).2
  | .markBlocked untilNs errorCode => patchProviderState row fun st =>
    { st with blockedUntilNs := untilNs, errorCode := errorCode }
  | .markPaused errorCode credentialID => patchProviderState row fun st =>
    { st with
      paused := true
      errorCode := errorCode
      credentialID := if credentialID ≠ "" then credentialID else st.credentialID }
  | .resume => patchProviderState row fun st =>
    { st with paused := false, blockedUntilNs := 0, errorCode := "" }

/-- When the call let a request through. -/
def grant : ProviderCall → Option ℤ
  | .consume req => if (consumeProviderBudget row req).1 = none then some req.nowNs else none
  | _ => none

def time : ProviderCall → Option ℤ
  | .consume req => if req.nowNs ≤ 0 then none else some req.nowNs
  | _ => none

/-- The call ends a pause. -/
def Lifts : ProviderCall → Prop
  | .resume => True
  | .consume req => req.credentialID ≠ "" ∧ ∀ st ∈ row, req.credentialID ≠ st.credentialID
  | _ => False

/-- **A new day finds the spacing over.** -/
def RollsRested : ProviderCall → Prop
  | .consume req => ∀ st ∈ row, req.day ≠ st.day → st.nextRequestAtNs ≤ req.nowNs
  | _ => True

instance (row : Option ProviderState) (c : ProviderCall) : Decidable (c.RollsRested row) := by
  cases c <;> unfold RollsRested <;> infer_instance

end ProviderCall

open ProviderCall

/-- The row, and the times of the requests that were granted, the latest first. -/
structure ProviderLog where
  row : Option ProviderState := none
  grants : List ℤ := []

def ProviderLog.step (s : ProviderLog) (c : ProviderCall) : ProviderLog where
  row := c.apply s.row
  grants := (c.grant s.row).toList ++ s.grants

/-! ## Blocked and paused -/

section Gates

variable {row : Option ProviderState} {req : BudgetRequest} {st : ProviderState} {c : ProviderCall}

theorem grant_of_shut (h : (req.current row).paused = true ∨
    req.nowNs < (req.current row).blockedUntilNs) :
    grant row (.consume req) = none := by
  have hrefused : (req.current row).refusal req ≠ none := by
    unfold ProviderState.refusal
    grind
  refine if_neg fun herror => hrefused ?_
  unfold consumeProviderBudget at herror
  grind

theorem apply_consume_cases (row : Option ProviderState) (req : BudgetRequest) :
    apply row (.consume req) = row ∨ ∃ st, apply row (.consume req) = some st ∧
        (st = req.current row ∨ st = (req.current row).spend req) := by
  show (consumeProviderBudget row req).2 = row ∨ ∃ st, (consumeProviderBudget row req).2 = some st ∧ _
  unfold consumeProviderBudget
  split
  · exact .inl rfl
  · split
    · exact .inr ⟨_, rfl, .inl rfl⟩
    · exact .inr ⟨_, rfl, .inr rfl⟩

theorem blockedUntilNs_current : (req.current (some st)).blockedUntilNs = st.blockedUntilNs := by
  unfold BudgetRequest.current ProviderState.roll ProviderState.rotate
  split <;> split <;> rfl

theorem paused_current (h : ¬ Lifts (some st) (.consume req)) :
    (req.current (some st)).paused = st.paused := by
  have hrotate : st.rotate req.credentialID = st :=
    if_neg fun hc => h ⟨hc.1, fun st' hst => Option.some.inj hst ▸ hc.2⟩
  unfold BudgetRequest.current ProviderState.roll
  rw [Option.getD_some, hrotate]
  split <;> rfl

theorem apply_of_blocked {untilNs : ℤ} (hrow : ∃ st, row = some st ∧ st.blockedUntilNs = untilNs)
    (hc : c ≠ .resume ∧ ∀ u e, c ≠ .markBlocked u e) :
    ∃ st, c.apply row = some st ∧ st.blockedUntilNs = untilNs := by
  obtain ⟨st, rfl, hst⟩ := hrow
  cases c with
  | consume req =>
    rcases apply_consume_cases (some st) req with h | ⟨st', h, rfl | rfl⟩
    · exact ⟨st, h, hst⟩
    · exact ⟨_, h, blockedUntilNs_current.trans hst⟩
    · exact ⟨_, h, blockedUntilNs_current.trans hst⟩
  | markBlocked u e => exact absurd rfl (hc.2 u e)
  | markPaused e credentialID => exact ⟨_, rfl, hst⟩
  | resume => exact absurd rfl hc.1

theorem apply_of_paused (hrow : ∃ st, row = some st ∧ st.paused = true) (hc : ¬ c.Lifts row) :
    ∃ st, c.apply row = some st ∧ st.paused = true := by
  obtain ⟨st, rfl, hst⟩ := hrow
  cases c with
  | consume req =>
    rcases apply_consume_cases (some st) req with h | ⟨st', h, rfl | rfl⟩
    · exact ⟨st, h, hst⟩
    · exact ⟨_, h, (paused_current hc).trans hst⟩
    · exact ⟨_, h, (paused_current hc).trans hst⟩
  | markBlocked u e => exact ⟨_, rfl, hst⟩
  | markPaused e credentialID => exact ⟨_, rfl, rfl⟩
  | resume => exact absurd trivial hc

end Gates

/-! ## Counted and spaced -/

/-- What the row says about the requests that were granted until now. -/
structure Accounts (gap now : ℤ) (grants : List ℤ) (st : ProviderState) : Prop where
  day : grants ≠ [] → st.day = some (now / dayNs)
  used : ∀ day, st.day = some day → (grants.countP (· / dayNs = day) : ℤ) = st.used
  next : ∀ t ∈ grants, t + gap ≤ max st.nextRequestAtNs now

/-- **The invariant**. -/
structure WithinBudget (limit gap now : ℤ) (s : ProviderLog) : Prop where
  past : ∀ t ∈ s.grants, t ≤ now
  limited : ∀ day, (s.grants.countP (· / dayNs = day) : ℤ) ≤ limit
  spaced : s.grants.Pairwise fun later earlier => earlier + gap ≤ later
  row : ∀ st ∈ s.row, Accounts gap now s.grants st
  fresh : s.row = none → s.grants = []

section Budget

variable {limit gap now : ℤ} {s : ProviderLog} {grants : List ℤ} {st : ProviderState}
  {req : BudgetRequest} {c : ProviderCall}

theorem accounts_nil (h : ∀ day, st.day = some day → st.used = 0) : Accounts gap now [] st :=
  ⟨nofun, fun day hday => (h day hday).symm, nofun⟩

theorem Accounts.congr {st' : ProviderState} (h : Accounts gap now grants st)
    (hsame : st'.day = st.day ∧ st'.used = st.used ∧ st'.nextRequestAtNs = st.nextRequestAtNs) :
    Accounts gap now grants st' where
  day hne := hsame.1.trans (h.day hne)
  used day hd := (h.used day (hsame.1.symm.trans hd)).trans hsame.2.1.symm
  next t ht := hsame.2.2 ▸ h.next t ht

theorem Accounts.roll (h : Accounts gap now grants st) (hpast : ∀ t ∈ grants, t ≤ now) {now' : ℤ}
    (hnow : now ≤ now')
    (hrest : some (now' / dayNs) ≠ st.day → st.nextRequestAtNs ≤ now') :
    Accounts gap now' grants (st.roll (some (now' / dayNs))) ∧
      (st.roll (some (now' / dayNs))).day = some (now' / dayNs) := by
  unfold ProviderState.roll
  by_cases hday : some (now' / dayNs) = st.day
  · rw [if_neg fun hroll => hroll.2 hday]
    refine ⟨⟨fun _ => hday.symm, h.used, fun t ht => ?_⟩, hday.symm⟩
    have hle := h.next t ht
    omega
  · rw [if_pos ⟨by simp, hday⟩]
    refine ⟨⟨fun _ => rfl, fun day hd => ?_, fun t ht => ?_⟩, rfl⟩
    · cases hd
      rw [List.countP_eq_zero.mpr fun t ht => ?_]
      · rfl
      -- a grant of this day would have been the row's day
      have hne : now / dayNs ≠ now' / dayNs := fun heq =>
        hday ((congrArg some heq.symm).trans (h.day (List.ne_nil_of_mem ht)).symm)
      have h1 : t / dayNs ≤ now / dayNs := Int.ediv_le_ediv dayNs_pos (hpast t ht)
      have h2 : now / dayNs ≤ now' / dayNs := Int.ediv_le_ediv dayNs_pos hnow
      simpa using (by omega : t / dayNs ≠ now' / dayNs)
    · have hle := h.next t ht
      have hover := hrest hday
      omega

theorem rotate_columns (st : ProviderState) (credentialID : String) :
    (st.rotate credentialID).day = st.day ∧ (st.rotate credentialID).used = st.used ∧
      (st.rotate credentialID).nextRequestAtNs = st.nextRequestAtNs := by
  unfold ProviderState.rotate
  split <;> exact ⟨rfl, rfl, rfl⟩

section

variable (h : WithinBudget limit gap now s)

include h

theorem WithinBudget.current (hday : req.day = some (req.nowNs / dayNs)) (hnow : now ≤ req.nowNs)
    (hrest : RollsRested s.row (.consume req)) :
    Accounts gap req.nowNs s.grants (req.current s.row) ∧
      (req.current s.row).day = some (req.nowNs / dayNs) := by
  unfold BudgetRequest.current
  rw [hday]
  cases hrow : s.row with
  | none =>
    have hsame := rotate_columns ⟨some (req.nowNs / dayNs), 0, 0, 0, false, "", req.credentialID⟩
      req.credentialID
    rw [h.fresh hrow]
    have hnil : Accounts gap now [] _ := accounts_nil fun _ _ => hsame.2.1
    exact hnil.roll nofun hnow fun hne => absurd hsame.1.symm hne
  | some st =>
    have hsame := rotate_columns st req.credentialID
    refine ((h.row st hrow).congr hsame).roll h.past hnow fun hne => ?_
    rw [hsame.1, ← hday] at hne
    exact hsame.2.2.le.trans (hrest st hrow hne)

theorem WithinBudget.spend (hlimit : 0 < limit)
    (hreq : req.dailyLimit = limit ∧ req.spacingNs = some gap) (hnow : now ≤ req.nowNs)
    (hacc : Accounts gap req.nowNs s.grants (req.current s.row))
    (hday : (req.current s.row).day = some (req.nowNs / dayNs))
    (hopen : (req.current s.row).refusal req = none) :
    WithinBudget limit gap req.nowNs
      ⟨some ((req.current s.row).spend req), req.nowNs :: s.grants⟩ := by
  have hgates : (req.current s.row).used < limit ∧
      (req.current s.row).nextRequestAtNs ≤ req.nowNs := by
    unfold ProviderState.refusal at hopen
    grind
  have hlast : ∀ t ∈ s.grants, t + gap ≤ req.nowNs := fun t ht =>
    (hacc.next t ht).trans (max_le hgates.2 (le_refl _))
  have hcount := hacc.used _ hday
  refine ⟨?_, fun day => ?_, List.pairwise_cons.mpr ⟨hlast, h.spaced⟩, ?_, nofun⟩
  · exact List.forall_mem_cons.mpr ⟨le_refl _, fun t ht => (h.past t ht).trans hnow⟩
  · rw [List.countP_cons]
    by_cases hd : req.nowNs / dayNs = day
    · subst hd
      simp only [decide_true, if_true]
      push_cast
      omega
    · simpa [hd] using h.limited day
  · intro st hst
    cases hst
    unfold ProviderState.spend
    rw [hreq.2]
    refine ⟨fun _ => hday, fun day hd => ?_, List.forall_mem_cons.mpr
      ⟨le_max_left _ _, fun t ht => (hlast t ht).trans (le_max_right _ _)⟩⟩
    cases hday.symm.trans hd
    rw [List.countP_cons_of_pos (by simp)]
    push_cast
    rw [hcount]

theorem WithinBudget.patch {f : ProviderState → ProviderState} (hf : ∀ st, (f st).day = st.day ∧ (f
      st).used = st.used ∧ (f st).nextRequestAtNs = st.nextRequestAtNs) :
    WithinBudget limit gap now ⟨patchProviderState s.row f, s.grants⟩ := by
  refine ⟨h.past, h.limited, h.spaced, fun st hst => ?_, nofun⟩
  cases hst
  cases hrow : s.row with
  | none =>
    rw [h.fresh hrow]
    exact accounts_nil fun _ _ => (hf {}).2.1
  | some st => exact (h.row st hrow).congr (hf st)

theorem WithinBudget.step (hlimit : 0 < limit) (hreq : ∀ req, c = .consume req → req.day = some
      (req.nowNs / dayNs) ∧ req.dailyLimit = limit ∧ req.spacingNs = some gap)
    (hnow : ∀ t ∈ c.time, now ≤ t) (hrest : c.RollsRested s.row) :
    WithinBudget limit gap (c.time.getD now) (s.step c) := by
  cases c with
  | consume req =>
    obtain ⟨hday, hsame⟩ := hreq req rfl
    unfold ProviderLog.step apply grant consumeProviderBudget
    by_cases hpos : req.nowNs ≤ 0
    · simp only [time, if_pos hpos]
      exact h
    have htime : time (.consume req) = some req.nowNs := if_neg hpos
    have hlater := hnow req.nowNs htime
    obtain ⟨hacc, hcurrent⟩ := h.current hday hlater hrest
    simp only [htime, if_neg hpos]
    cases hgate : (req.current s.row).refusal req with
    | none => exact h.spend hlimit hsame hlater hacc hcurrent hgate
    | some e =>
      exact ⟨fun t ht => (h.past t ht).trans hlater, h.limited, h.spaced,
        fun st hst => Option.some.inj hst ▸ hacc, nofun⟩
  | markBlocked u e =>
    exact h.patch (f := fun st => { st with blockedUntilNs := u, errorCode := e })
      fun _ => ⟨rfl, rfl, rfl⟩
  | markPaused e credentialID =>
    exact h.patch (f := fun st => { st with
      paused := true
      errorCode := e
      credentialID := if credentialID ≠ "" then credentialID else st.credentialID })
      fun _ => ⟨rfl, rfl, rfl⟩
  | resume =>
    exact h.patch (f := fun st => { st with paused := false, blockedUntilNs := 0, errorCode := "" })
      fun _ => ⟨rfl, rfl, rfl⟩

theorem WithinBudget.run {calls : List ProviderCall} (hlimit : 0 < limit)
    (hreq : ∀ req, .consume req ∈ calls → req.day = some (req.nowNs / dayNs) ∧ req.dailyLimit =
      limit ∧ req.spacingNs = some gap)
    (hclock : (calls.filterMap time).Pairwise (· ≤ ·))
    (hnow : ∀ t ∈ calls.filterMap time, now ≤ t)
    (hrest : Along ProviderLog.step (fun s c => c.RollsRested s.row) s calls) :
    ∃ now', WithinBudget limit gap now' (run ProviderLog.step s calls) := by
  induction calls generalizing s now with
  | nil => exact ⟨now, h⟩
  | cons c calls ih =>
    have hnext := h.step hlimit (fun req hc => hreq req (hc ▸ .head _))
      (fun t ht => hnow t (List.mem_filterMap.mpr ⟨c, .head _, ht⟩)) hrest.1
    refine ih hnext (fun req hc => hreq req (.tail _ hc)) ?_ (fun t ht => ?_) hrest.2
    · exact hclock.sublist ((List.sublist_cons_self c calls).filterMap _)
    · cases htime : c.time with
      | none => exact hnow t (by rwa [List.filterMap_cons, htime])
      | some t' =>
        rw [List.filterMap_cons, htime] at hclock
        exact List.rel_of_pairwise_cons hclock ht

end

end Budget

/-- **A data provider is never called beyond its budget.**  In every sequence of calls with a limit a
day and a spacing, on a clock that does not go back, in which a new day finds the spacing over: no
more requests are granted on a day than the limit, and any two are the spacing apart.  After a block
none is granted before its end, unless there was a resume or another block; and after a pause none,
unless something has lifted it. -/
theorem provider_within_budget (limit gap : ℤ) (hlimit : 0 < limit) (calls : List ProviderCall)
    (hreq : ∀ req, .consume req ∈ calls → req.day = some (req.nowNs / dayNs) ∧
      req.dailyLimit = limit ∧ req.spacingNs = some gap)
    (hclock : (calls.filterMap ProviderCall.time).Pairwise (· ≤ ·))
    (hrest : Along ProviderLog.step (fun s c => c.RollsRested s.row) {} calls) :
    ((∀ day, ((run ProviderLog.step {} calls).grants.countP (· / dayNs = day) : ℤ) ≤ limit) ∧
      (run ProviderLog.step {} calls).grants.Pairwise fun later earlier => earlier + gap ≤ later) ∧
      (∀ s untilNs e between req, (∀ c ∈ between, c ≠ .resume ∧ ∀ u e, c ≠ .markBlocked u e) →
        req.nowNs < untilNs →
        ProviderCall.grant (run ProviderLog.step s (.markBlocked untilNs e :: between)).row
          (.consume req) = none) ∧
      ∀ s e credentialID between req, Along ProviderLog.step (fun s c => ¬ c.Lifts s.row)
          (s.step (.markPaused e credentialID)) (between ++ [.consume req]) →
        ProviderCall.grant (run ProviderLog.step s (.markPaused e credentialID :: between)).row
          (.consume req) = none := by
  refine ⟨?_, ?_, ?_⟩
  · have hstart : WithinBudget limit gap 0 {} := ⟨nofun, fun _ => hlimit.le, .nil, nofun, fun _ => rfl⟩
    have hpositive : ∀ t ∈ calls.filterMap time, 0 ≤ t := by
      intro t ht
      obtain ⟨c, -, htime⟩ := List.mem_filterMap.mp ht
      unfold time at htime
      grind
    obtain ⟨now, hkept⟩ := hstart.run hlimit hreq hclock hpositive hrest
    exact ⟨hkept.limited, hkept.spaced⟩
  · intro s untilNs e between req hbetween hearly
    have hrow : ∃ st, (run ProviderLog.step (s.step (.markBlocked untilNs e)) between).row = some st ∧
        st.blockedUntilNs = untilNs :=
      run_invariant_of_mem (I := fun s : ProviderLog => ∃ st, s.row = some st ∧ _)
        (fun s c hc hs => apply_of_blocked hs (hbetween c hc)) ⟨_, rfl, rfl⟩
    obtain ⟨st, hrow, hst⟩ := hrow
    rw [run_cons, hrow]
    exact grant_of_shut (.inr (by rwa [blockedUntilNs_current, hst]))
  · intro s e credentialID between req hlifts
    rw [along_append] at hlifts
    obtain ⟨st, hrow, hst⟩ := hlifts.1.invariant
      (I := fun s : ProviderLog => ∃ st, s.row = some st ∧ st.paused = true)
      (fun s c hc hs => apply_of_paused hs hc) ⟨_, rfl, rfl⟩
    have hlast : ¬ Lifts (some st) (.consume req) := hrow ▸ hlifts.2.1
    rw [run_cons, hrow]
    exact grant_of_shut (.inl ((paused_current hlast).trans hst))

/-- A request ten seconds before the other, and one right after midnight that the spacing allows. -/
def budgetRequest (nowNs : ℤ) : ProviderCall :=
  .consume ⟨some (nowNs / dayNs), 2, some 10, nowNs, "k"⟩

theorem provider_within_budget_midnight :
    (run ProviderLog.step {} [budgetRequest (dayNs - 20), budgetRequest (dayNs - 15),
      budgetRequest (dayNs - 10), budgetRequest dayNs]).grants = [dayNs, dayNs - 10, dayNs - 20] ∧
    [dayNs, dayNs - 10, dayNs - 20].Pairwise fun later earlier => earlier + 10 ≤ later := by
  have hgrants : (run ProviderLog.step {} [budgetRequest (dayNs - 20), budgetRequest (dayNs - 15),
      budgetRequest (dayNs - 10), budgetRequest dayNs]).grants = [dayNs, dayNs - 10, dayNs - 20] := by
    decide +kernel
  refine ⟨hgrants, hgrants ▸ (provider_within_budget 2 10 (by decide) _ ?_ (by decide +kernel)
    (by decide +kernel)).1.2⟩
  simp [budgetRequest]

/-- The last request of a day and the first of the next, a nanosecond apart. -/
theorem midnight_forgets_spacing :
    (run ProviderLog.step {} [budgetRequest (dayNs - 1), budgetRequest dayNs]).grants =
      [dayNs, dayNs - 1] := by
  decide +kernel

end Prism
