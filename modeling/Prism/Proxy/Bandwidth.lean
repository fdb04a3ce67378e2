import Prism.Usage.Rate

/-!
# The pace of a key's bytes

`bandwidthTable` of `internal/proxy/bandwidth.go`.  A schedule says when the next byte of a key is
due, and may lag behind the clock by up to a second of credit; a key without a schedule starts with
the whole second.  A large table drops the schedules that the clock has caught up with.

A schedule that is a second behind is worth as much as none, so nobody sees it go.  One that has
caught up but lags by less has spent some of its credit, and gets it back when it is dropped: the
pace of its key then depends on how many other keys there are (`pruned_schedule_regains_credit`).
-/

namespace Prism

open Table

/-- A second of credit. -/
def bandwidthBurstNs : ℤ := 1000000000

/-- The size above which the table is pruned. -/
def bandwidthTableMax : ℕ := 65536

/-- A call of `reserve`: so many bytes of a key, at its rate, at an instant. -/
structure ReserveCall where
  name : String
  n : ℤ
  rateBps : ℤ
  nowNs : ℤ

namespace ReserveCall

variable (c : ReserveCall)

/-- The call is not waved through: it has a rate, bytes and a name. -/
def Counts : Prop := ¬ (c.rateBps ≤ 0 ∨ c.n ≤ 0 ∨ c.name = "")
  deriving Decidable

/-- How long the bytes take at the rate, and one nanosecond at least. -/
def cost : ℤ :=
  let cost := c.n * 1000000000 / c.rateBps
  if cost ≤ 0 then 1 else cost

/-- When the key's next byte is due after the call; a new key starts a second behind the clock. -/
def due (t : RateTable) : ℤ := t.dueAt c.name (c.nowNs - bandwidthBurstNs) + c.cost

/-- The call pushes its key's schedule back. -/
def charge (t : RateTable) : RateTable :=
  upsertWith RateEntry.name (fun _ row => row) ⟨c.name, c.due t⟩ t

end ReserveCall

namespace RateTable

variable (t : RateTable)

/-- Drop the schedules the clock has caught up with, and all if that is not enough. -/
def pruneLocked (nowNs : ℤ) : RateTable :=
  let t := t.live nowNs
  if bandwidthTableMax < t.length then [] else t

variable (c : ReserveCall)

/-- `bandwidthTable.reserve`: how long the caller waits, and the table. -/
def reserve : ℤ × RateTable :=
  if c.Counts then
    (if 0 < c.due t - c.nowNs then c.due t - c.nowNs else 0,
      if bandwidthTableMax < (c.charge t).length then (c.charge t).pruneLocked c.nowNs
      else c.charge t)
  else (0, t)

/-- The table a call leaves. -/
def reserved : RateTable := (t.reserve c).2

/-- The call makes the table too large, so that it is pruned. -/
abbrev Overflows : Prop :=
  c.Counts ∧ bandwidthTableMax < (c.charge t).length

/-- Pruning does not make it small enough, so that it is emptied. -/
abbrev Clears : Prop :=
  t.Overflows c ∧ bandwidthTableMax < ((c.charge t).live c.nowNs).length

/-- **What the call drops has its whole credit.** -/
abbrev DropsIdle : Prop :=
  t.Overflows c → ∀ e ∈ c.charge t, e.due ≤ c.nowNs → e.due ≤ c.nowNs - bandwidthBurstNs

variable {t t' : RateTable} {c : ReserveCall} {name : String} {now n : ℤ}

/-! ## One call -/

theorem reserved_eq (t : RateTable) (c : ReserveCall) : t.reserved c = if c.Counts then
      if bandwidthTableMax < (c.charge t).length then (c.charge t).pruneLocked c.nowNs
      else c.charge t else t := by
  unfold reserved reserve
  split <;> rfl

theorem reserved_of_overflows (h : t.Overflows c) (hkept : ¬ t.Clears c) :
    t.reserved c = (c.charge t).live c.nowNs := by
  rw [reserved_eq, if_pos h.1, if_pos h.2]
  exact if_neg fun hlive => hkept ⟨h, hlive⟩

theorem reserved_of_not_overflows (h : ¬ t.Overflows c) (hc : c.Counts) :
    t.reserved c = c.charge t := by
  rw [reserved_eq, if_pos hc, if_neg fun hlen => h ⟨hc, hlen⟩]

theorem reserved_of_not_counts (h : ¬ c.Counts) : t.reserved c = t := by
  rw [reserved_eq, if_neg h]

theorem Named.charge (ht : t.Named) (c : ReserveCall) : (c.charge t).Named :=
  keysNodup_upsertWith RateEntry.name (fun _ row => row) (fun _ _ _ => rfl) _ ht

theorem Named.reserved (ht : t.Named) (hkept : ¬ t.Clears c) : (t.reserved c).Named := by
  by_cases hc : c.Counts
  · by_cases hover : t.Overflows c
    · rw [reserved_of_overflows hover hkept]
      exact (ht.charge c).live _
    · rw [reserved_of_not_overflows hover hc]
      exact ht.charge c
  · rwa [reserved_of_not_counts hc]

theorem dueAt_charge (ht : t.Named) (c : ReserveCall) (name : String) (n : ℤ) :
    (c.charge t).dueAt name n = if name = c.name then max n (c.due t) else t.dueAt name n :=
  dueAt_scheduled ht ⟨c.name, c.cost, 0, c.nowNs - bandwidthBurstNs⟩ name n

theorem dueAt_live (ht : t.Named) (hidle : ∀ e ∈ t, e.due ≤ now → e.due ≤ now - bandwidthBurstNs)
    (hn : now - bandwidthBurstNs ≤ n) (name : String) :
    (t.live now).dueAt name n = t.dueAt name n := by
  by_cases hmem : ∃ e ∈ t, e.name = name
  · obtain ⟨e, he, rfl⟩ := hmem
    by_cases hahead : now < e.due
    · rw [dueAt_of_mem ht he, dueAt_of_mem (ht.live now) (mem_live.mpr ⟨he, hahead⟩)]
    have hlag := hidle e he (not_lt.mp hahead)
    rw [dueAt_of_mem ht he, max_eq_left (hlag.trans hn)]
    refine dueAt_of_forall_ne (fun e' he' hname => ?_) n
    obtain ⟨hmem', hahead'⟩ := mem_live.mp he'
    rw [eq_of_mem_of_key_eq ht hmem' he hname] at hahead'
    exact hahead hahead'
  · rw [dueAt_of_forall_ne fun e he hname => hmem ⟨e, he, hname⟩]
    exact dueAt_of_forall_ne (fun e he hname => hmem ⟨e, (mem_live.mp he).1, hname⟩) n

theorem dueAt_reserved (ht : t.Named) (hkept : ¬ t.Clears c) (hidle : t.DropsIdle c)
    (hn : c.nowNs - bandwidthBurstNs ≤ n) (name : String) :
    (t.reserved c).dueAt name n =
      if c.Counts ∧ name = c.name then max n (c.due t) else t.dueAt name n := by
  by_cases hc : c.Counts
  · simp only [hc, true_and]
    rw [← dueAt_charge ht]
    by_cases hover : t.Overflows c
    · rw [reserved_of_overflows hover hkept]
      exact dueAt_live (ht.charge c) (hidle hover) hn name
    · rw [reserved_of_not_overflows hover hc]
  · rw [reserved_of_not_counts hc, if_neg fun h => hc h.1]

/-- The table has no schedule but the key's. -/
def Solo (name : String) (t : RateTable) : Prop := t = [] ∨ ∃ due, t = [⟨name, due⟩]

theorem Solo.charge (h : Solo c.name t) : c.charge t = [⟨c.name, c.due t⟩] := by
  unfold ReserveCall.charge
  rcases h with rfl | ⟨due, rfl⟩
  · rfl
  · simp [upsertWith, updateWhere]

theorem Solo.not_overflows (h : Solo c.name t) : ¬ t.Overflows c := by
  rintro ⟨-, hlen⟩
  rw [h.charge, List.length_singleton] at hlen
  exact absurd hlen (by decide)

theorem Solo.named (h : Solo name t) : t.Named := by
  rcases h with rfl | ⟨due, rfl⟩
  · exact List.nodup_nil
  · exact List.nodup_singleton _

theorem Solo.reserved (h : Solo c.name t) : Solo c.name (t.reserved c) := by
  by_cases hc : c.Counts
  · rw [reserved_of_not_overflows h.not_overflows hc, h.charge]
    exact .inr ⟨_, rfl⟩
  · rwa [reserved_of_not_counts hc]

/-- The tables have the schedule of the name in the same place, as far as calls from now on see. -/
def Alike (name : String) (now : ℤ) (t t' : RateTable) : Prop :=
  ∀ n, now - bandwidthBurstNs ≤ n → t.dueAt name n = t'.dueAt name n

theorem Alike.mono (h : Alike name now t t') (hn : now ≤ n) : Alike name n t t' :=
  fun m hm => h m (by omega)

theorem Alike.due (h : Alike c.name now t t') (hn : now ≤ c.nowNs) : c.due t = c.due t' := by
  unfold ReserveCall.due
  rw [h _ (by omega)]

theorem Alike.reserve (h : Alike c.name now t t') (hn : now ≤ c.nowNs) :
    (t.reserve c).1 = (t'.reserve c).1 := by
  unfold RateTable.reserve
  rw [h.due hn]
  split <;> rfl

theorem Alike.other (h : Alike name now t t') (ht : t.Named) (hkept : ¬ t.Clears c)
    (hidle : t.DropsIdle c) (hn : now ≤ c.nowNs) (hname : c.name ≠ name) :
    Alike name c.nowNs (t.reserved c) t' := by
  intro n hn'
  rw [dueAt_reserved ht hkept hidle hn', if_neg fun hown => hname hown.2.symm]
  exact h n (by omega)

theorem Alike.own (h : Alike c.name now t t') (ht : t.Named) (hs : Solo c.name t')
    (hkept : ¬ t.Clears c) (hidle : t.DropsIdle c) (hn : now ≤ c.nowNs) :
    Alike c.name c.nowNs (t.reserved c) (t'.reserved c) := by
  intro n hn'
  rw [dueAt_reserved ht hkept hidle hn',
    dueAt_reserved hs.named (fun hclear => hs.not_overflows hclear.1)
      (fun hover => absurd hover hs.not_overflows) hn', h.due hn, h n (by omega)]

/-- **The calls of one key find its schedule where they would have put it alone.** -/
theorem alike_run {calls : List ReserveCall} (ht : t.Named) (hs : Solo name t')
    (h : Alike name now t t') (hclock : calls.Pairwise fun c d => c.nowNs ≤ d.nowNs)
    (hnow : ∀ c ∈ calls, now ≤ c.nowNs)
    (hkept : Along reserved (fun t c => ¬ t.Clears c ∧ t.DropsIdle c) t calls) :
    ∀ m, now ≤ m → (∀ c ∈ calls, c.nowNs ≤ m) → Alike name m (run reserved t calls)
      (run reserved t' (calls.filter fun c => c.name = name)) := by
  -- the induction is on the calls; those of other keys are missing in the second run
  induction calls generalizing t t' now with
  | nil => exact fun m hm _ => h.mono hm
  | cons c calls ih =>
    intro m _ hm
    have hn := hnow c (.head _)
    obtain ⟨⟨hclear, hidle⟩, hrest⟩ := hkept
    have hlater : ∀ d ∈ calls, c.nowNs ≤ d.nowNs := fun _ => List.rel_of_pairwise_cons hclock
    have hm' : ∀ d ∈ calls, d.nowNs ≤ m := fun d hd => hm d (.tail _ hd)
    by_cases hname : c.name = name
    · subst hname
      rw [List.filter_cons_of_pos (by simp), run_cons, run_cons]
      exact ih (ht.reserved hclear) hs.reserved (h.own ht hs hclear hidle hn) hclock.of_cons hlater
        hrest m (hm c (.head _)) hm'
    · rw [List.filter_cons_of_neg (by simpa using hname), run_cons]
      exact ih (ht.reserved hclear) hs (h.other ht hclear hidle hn hname) hclock.of_cons hlater
        hrest m (hm c (.head _)) hm'

end RateTable

/-- **The pace of a key does not depend on the other keys.**  For every sequence of calls on a clock
that does not go back, none of which empties the table, and where what is dropped has its whole
credit: every call waits as long as it would if only the calls of its own key had been made. -/
theorem pacing_independent (calls : List ReserveCall)
    (hclock : calls.Pairwise fun c d => c.nowNs ≤ d.nowNs)
    (hkept : Along RateTable.reserved (fun t c => ¬ t.Clears c ∧ t.DropsIdle c) [] calls)
    (before : List ReserveCall) (c : ReserveCall) (later : List ReserveCall)
    (hcalls : calls = before ++ c :: later) :
    ((run RateTable.reserved [] before).reserve c).1 =
      ((run RateTable.reserved [] (before.filter fun d => d.name = c.name)).reserve c).1 := by
  rw [hcalls] at hclock hkept
  rw [along_append] at hkept
  obtain ⟨hbefore, -, hmeet⟩ := List.pairwise_append.mp hclock
  have halike : RateTable.Alike c.name c.nowNs (run RateTable.reserved [] before)
      (run RateTable.reserved [] (before.filter fun d => d.name = c.name)) := by
    cases before with
    | nil => exact fun _ _ => rfl
    | cons d before =>
      -- the clock of the first call is the earliest one
      have hfirst : ∀ e ∈ d :: before, d.nowNs ≤ e.nowNs := by
        intro e he
        rcases List.mem_cons.mp he with rfl | he
        · exact le_refl _
        · exact List.rel_of_pairwise_cons hbefore he
      exact RateTable.alike_run (t := []) List.nodup_nil (.inl rfl) (fun _ _ => rfl) hbefore hfirst
        hkept.1 c.nowNs (hmeet d (.head _) c (.head _)) fun e he => hmeet e he c (.head _)
  exact halike.reserve (le_refl _)

/-- Two transfers of one key, with another key's between them. -/
def twoTransfers : List ReserveCall :=
  [⟨"k", 1, 2, 0⟩, ⟨"other", 5, 1, 0⟩, ⟨"k", 2, 1, 0⟩]

theorem pacing_independent_two :
    ((run RateTable.reserved [] [⟨"k", 1, 2, 0⟩, ⟨"other", 5, 1, 0⟩]).reserve ⟨"k", 2, 1, 0⟩).1 =
      1500000000 :=
  (pacing_independent twoTransfers (by decide) (by decide +kernel)
    [⟨"k", 1, 2, 0⟩, ⟨"other", 5, 1, 0⟩] ⟨"k", 2, 1, 0⟩ [] rfl).trans (by decide +kernel)

/-- The schedule of a key that starts with the call. -/
def ReserveCall.entry (c : ReserveCall) : RateEntry :=
  ⟨c.name, c.nowNs - bandwidthBurstNs + c.cost⟩

namespace RateTable

variable {t : RateTable} {c : ReserveCall}

theorem charge_of_new (h : ∀ e ∈ t, e.name ≠ c.name) : c.charge t = t ++ [c.entry] := by
  unfold ReserveCall.charge ReserveCall.due upsertWith
  rw [if_neg (by simpa using h), dueAt_of_forall_ne h]
  rfl

theorem run_reserved_of_new {calls : List ReserveCall} (hcount : ∀ c ∈ calls, c.Counts)
    (hnames : (calls.map ReserveCall.name).Nodup) (hnew : ∀ c ∈ calls, ∀ e ∈ t, e.name ≠ c.name)
    (hroom : t.length + calls.length ≤ bandwidthTableMax) :
    run reserved t calls = t ++ calls.map ReserveCall.entry ∧
      Along reserved (fun t c => ¬ t.Clears c) t calls := by
  induction calls generalizing t with
  | nil => exact ⟨(List.append_nil t).symm, trivial⟩
  | cons c calls ih =>
    rw [List.length_cons] at hroom
    have hcharge := charge_of_new (hnew c (.head _))
    have hover : ¬ t.Overflows c := by
      rintro ⟨-, hlen⟩
      rw [hcharge, List.length_append, List.length_singleton] at hlen
      omega
    have hnext : t.reserved c = t ++ [c.entry] := by
      rw [reserved_of_not_overflows hover (hcount c (.head _)), hcharge]
    obtain ⟨hne, hnames'⟩ := List.nodup_cons.mp hnames
    have hnew' : ∀ d ∈ calls, ∀ e ∈ t.reserved c, e.name ≠ d.name := by
      intro d hd e he
      rw [hnext] at he
      rcases List.mem_append.mp he with he | he
      · exact hnew d (.tail _ hd) e he
      · rw [List.mem_singleton.mp he]
        exact fun heq => hne (List.mem_map.mpr ⟨d, hd, heq.symm⟩)
    obtain ⟨hrun, halong⟩ := ih (fun d hd => hcount d (.tail _ hd)) hnames' hnew'
      (by rw [hnext, List.length_append, List.length_singleton]; omega)
    rw [run_cons, hrun, hnext, List.append_assoc]
    exact ⟨rfl, fun hclear => hover hclear.1, halong⟩

theorem reserved_of_full (hfull : t.length = bandwidthTableMax) (hbusy : ∀ e ∈ t, c.nowNs < e.due)
    (hnew : ∀ e ∈ t, e.name ≠ c.name) (hc : c.Counts) (hlag : c.entry.due ≤ c.nowNs) :
    t.reserved c = t ∧ ¬ t.Clears c := by
  have hlive : (c.charge t).live c.nowNs = t := by
    rw [charge_of_new hnew]
    unfold live
    rw [List.filter_append, List.filter_eq_self.mpr (by simpa using hbusy),
      List.filter_cons_of_neg (by simpa using hlag)]
    exact List.append_nil t
  have hclear : ¬ t.Clears c := by
    rintro ⟨-, hlen⟩
    rw [hlive] at hlen
    omega
  have hover : t.Overflows c := by
    refine ⟨hc, ?_⟩
    rw [charge_of_new hnew, List.length_append, List.length_singleton]
    omega
  exact ⟨(reserved_of_overflows hover hclear).trans hlive, hclear⟩

end RateTable

/-- Distinct names, by their length. -/
def busyName (i : ℕ) : String := String.ofList (List.replicate (i + 1) 'a')

theorem busyName_injective : Function.Injective busyName := by
  intro i j h
  have hlen := congrArg (fun s => s.toList.length) h
  simpa [busyName] using hlen

theorem busyName_ne {s : String} (hs : s.toList.head? ≠ some 'a') (i : ℕ) : busyName i ≠ s := by
  rintro rfl
  exact hs (by simp [busyName, List.replicate_succ])

/-- That many keys, each with a transfer of three seconds. -/
def crowd (n : ℕ) : List ReserveCall := (List.range n).map fun i => ⟨busyName i, 3, 1, 0⟩

/-- What the crowd leaves: nobody is due before two seconds. -/
def busyTable (n : ℕ) : RateTable := (List.range n).map fun i => ⟨busyName i, 2000000000⟩

theorem run_crowd {n : ℕ} (hn : n = bandwidthTableMax) :
    run RateTable.reserved [] (crowd n) = busyTable n ∧
      Along RateTable.reserved (fun t c => ¬ t.Clears c) [] (crowd n) := by
  have hcount : ∀ c ∈ crowd n, c.Counts := by
    intro c hc
    obtain ⟨i, -, rfl⟩ := List.mem_map.mp hc
    simpa [ReserveCall.Counts] using busyName_ne (s := "") (by decide) i
  have hnames : ((crowd n).map ReserveCall.name).Nodup := by
    unfold crowd
    rw [List.map_map]
    exact List.nodup_range.map busyName_injective
  obtain ⟨hrun, halong⟩ := RateTable.run_reserved_of_new (t := []) hcount hnames
    (fun _ _ => nofun) (by simp [crowd, hn])
  refine ⟨hrun.trans ?_, halong⟩
  unfold crowd busyTable
  rw [List.map_map]
  rfl

/-- Half a second of bytes, while the crowd is busy. -/
def firstTransfer : ReserveCall := ⟨"k", 1, 2, 1900000000⟩

/-- Two seconds of bytes, when the crowd is due. -/
def secondTransfer : ReserveCall := ⟨"k", 2, 1, 2000000000⟩

/-- The table is full, and the key spends half of its credit and has it back. -/
theorem pruned_schedule_regains_credit : Along RateTable.reserved (fun t c => ¬ t.Clears c) []
        (crowd 65536 ++ [firstTransfer, secondTransfer]) ∧
      ((run RateTable.reserved [] (crowd 65536 ++ [firstTransfer])).reserve secondTransfer).1 =
        1000000000 ∧
      ((run RateTable.reserved [] ((crowd 65536 ++ [firstTransfer]).filter
        fun d => d.name = secondTransfer.name)).reserve secondTransfer).1 = 1400000000 := by
  generalize hn : 65536 = n
  replace hn : n = bandwidthTableMax := hn.symm
  have hnew : ∀ e ∈ busyTable n, e.name ≠ secondTransfer.name := by
    intro e he
    obtain ⟨i, -, rfl⟩ := List.mem_map.mp he
    exact busyName_ne (by decide) i
  have hdue : ∀ e ∈ busyTable n, e.due = 2000000000 := by
    intro e he
    obtain ⟨i, -, rfl⟩ := List.mem_map.mp he
    rfl
  obtain ⟨hfirst, hkept⟩ := RateTable.reserved_of_full (c := firstTransfer)
    (by rw [busyTable, List.length_map, List.length_range, hn])
    (fun e he => by rw [hdue e he]; decide) hnew (by decide) (by decide)
  have hsecond : ¬ (busyTable n).Clears secondTransfer := by
    rintro ⟨-, hlen⟩
    have hlive : (secondTransfer.charge (busyTable n)).live secondTransfer.nowNs =
        [secondTransfer.entry] := by
      rw [RateTable.charge_of_new hnew]
      unfold RateTable.live
      rw [List.filter_append, List.filter_eq_nil_iff.mpr fun e he => by rw [hdue e he]; decide]
      rfl
    rw [hlive] at hlen
    exact absurd hlen (by decide)
  refine ⟨?_, ?_, ?_⟩
  · rw [along_append, (run_crowd hn).1]
    refine ⟨(run_crowd hn).2, hkept, ?_, trivial⟩
    rw [hfirst]
    exact hsecond
  · rw [run_append, (run_crowd hn).1, run_cons, hfirst, run_nil]
    unfold RateTable.reserve ReserveCall.due
    rw [RateTable.dueAt_of_forall_ne hnew, if_pos (by decide)]
    rfl
  · have hown : (crowd n ++ [firstTransfer]).filter (fun d => d.name = secondTransfer.name) =
        [firstTransfer] := by
      rw [List.filter_append, List.filter_eq_nil_iff.mpr fun c hc => ?_]
      · rfl
      · obtain ⟨i, -, rfl⟩ := List.mem_map.mp hc
        simpa using busyName_ne (by decide) i
    rw [hown]
    decide +kernel

end Prism
