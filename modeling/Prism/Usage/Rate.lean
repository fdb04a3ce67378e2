import Prism.Usage.Limiter

/-!
# The rate of requests

`rateTable` of `internal/usage/limiter.go` keeps, for every name, the time its next request is due.
A request is admitted if it comes no more than the burst ahead of that time, and moves the time on
by one interval.  Admitted requests therefore leave a schedule that grows by an interval a request
and never runs further ahead of the clock than the burst, and that is the bound on every window
(`rate_limited`).

Two things could come between.  A schedule that has fallen behind the clock starts from the clock,
which only makes it later.  And a large table drops the schedules the clock has caught up with; a
dropped one reads as a new one, and a new one starts from the clock, which is where the old one
would have started.  So two tables that agree on what lies ahead of the clock (`Agree`) give the
same answers from then on.
-/

namespace Prism

open Table

structure RateCall where
  name : String
  intervalNs : ℤ
  burstNs : ℤ
  nowNs : ℤ

namespace RateTable

variable (t : RateTable) (c : RateCall)

/-- The answer to a call, and the table it leaves. -/
def call : Bool × RateTable :=
  t.allow c.name c.intervalNs c.burstNs c.nowNs

def after : RateTable := (t.call c).2

def answers : RateTable → List RateCall → List Bool
  | _, [] => []
  | t, c :: calls => (t.call c).1 :: answers (t.after c) calls

def admissions (name : String) : RateTable → List RateCall → List ℤ
  | _, [] => []
  | t, c :: calls =>
    if c.name = name ∧ (t.call c).1 = true then c.nowNs :: admissions name (t.after c) calls
    else admissions name (t.after c) calls

def live (nowNs : ℤ) : RateTable :=
  t.filter fun e => !decide (e.due ≤ nowNs)

def scheduled : RateTable :=
  upsertWith RateEntry.name (fun _ row => row)
    ⟨c.name, t.dueAt c.name c.nowNs + c.intervalNs⟩ t

/-- The call is refused: its interval counts, and it comes too early. -/
def Refuses : Prop :=
  0 < c.intervalNs ∧ c.burstNs < t.dueAt c.name c.nowNs + c.intervalNs - c.nowNs
  deriving Decidable

/-- The call takes the overflow branch: even the schedules ahead of the clock are too many, and the
table is emptied. -/
def Empties : Prop :=
  0 < c.intervalNs ∧ ¬ t.Refuses c ∧ maxRateEntries < ((t.scheduled c).live c.nowNs).length
  deriving Decidable

variable {t t' : RateTable} {c : RateCall} {name : String} {now n : ℤ}

theorem prune_eq (t : RateTable) (nowNs : ℤ) :
    t.prune nowNs = if maxRateEntries < (t.live nowNs).length then [] else t.live nowNs := rfl

/-- **What a call does**: one that does not count is admitted and changes nothing, one that is
refused changes nothing, and one that is admitted moves its schedule on, where it may drop what the
clock has caught up with. -/
theorem call_cases (t : RateTable) (c : RateCall) (hkept : ¬ t.Empties c) :
    c.intervalNs ≤ 0 ∧ t.call c = (true, t) ∨ t.Refuses c ∧ t.call c = (false, t) ∨
      0 < c.intervalNs ∧ ¬ t.Refuses c ∧ (t.call c = (true, t.scheduled c) ∨
        t.call c = (true, (t.scheduled c).live c.nowNs)) := by
  unfold call allow
  by_cases hcount : c.intervalNs ≤ 0
  · exact .inl ⟨hcount, if_pos hcount⟩
  rw [if_neg hcount]
  by_cases hrefuse : t.Refuses c
  · exact .inr (.inl ⟨hrefuse, if_pos hrefuse.2⟩)
  have hnext : ¬ c.burstNs < t.dueAt c.name c.nowNs + c.intervalNs - c.nowNs :=
    fun h => hrefuse ⟨not_le.mp hcount, h⟩
  refine .inr (.inr ⟨not_le.mp hcount, hrefuse, ?_⟩)
  simp only [if_neg hnext]
  split
  · have hfits : ¬ maxRateEntries < ((t.scheduled c).live c.nowNs).length :=
      fun h => hkept ⟨not_le.mp hcount, hrefuse, h⟩
    refine .inr (congrArg (Prod.mk true) ?_)
    show (t.scheduled c).prune c.nowNs = _
    rw [prune_eq, if_neg hfits]
  · exact .inl rfl

/-! ## Where a schedule stands -/

variable {e : RateEntry}

theorem mem_live : e ∈ t.live now ↔ e ∈ t ∧ now < e.due := by
  unfold live
  rw [List.mem_filter, Bool.not_eq_true', decide_eq_false_iff_not, not_le]

theorem mem_scheduled : e ∈ t.scheduled c ↔
      e = ⟨c.name, t.dueAt c.name c.nowNs + c.intervalNs⟩ ∨ e ∈ t ∧ e.name ≠ c.name :=
  mem_upsertWith_replace RateEntry.name

abbrev Named (t : RateTable) : Prop := KeysNodup RateEntry.name t

theorem Named.live (ht : t.Named) (nowNs : ℤ) : (t.live nowNs).Named :=
  List.Nodup.sublist (List.filter_sublist.map RateEntry.name) ht

theorem Named.scheduled (ht : t.Named) (c : RateCall) : (t.scheduled c).Named :=
  keysNodup_upsertWith RateEntry.name (fun _ row => row) (fun _ _ _ => rfl) _ ht

theorem dueAt_of_mem (ht : t.Named) (he : e ∈ t) (n : ℤ) : t.dueAt e.name n = max n e.due := by
  unfold dueAt
  rw [lookup_of_mem ht he]
  show (if e.due < n then n else e.due) = max n e.due
  split <;> omega

theorem dueAt_of_forall_ne (h : ∀ e ∈ t, e.name ≠ name) (n : ℤ) : t.dueAt name n = n := by
  unfold dueAt
  rw [(lookup_eq_none_iff RateEntry.name).mpr h]

theorem dueAt_scheduled (ht : t.Named) (c : RateCall) (name : String) (n : ℤ) :
    (t.scheduled c).dueAt name n =
      if name = c.name then max n (t.dueAt c.name c.nowNs + c.intervalNs) else t.dueAt name n := by
  split
  · rename_i hname
    rw [hname]
    exact dueAt_of_mem (ht.scheduled c) (mem_scheduled.mpr (.inl rfl)) n
  · rename_i hname
    have hlookup : lookup RateEntry.name name (t.scheduled c) = lookup RateEntry.name name t :=
      (lookup_replace ..).trans (if_neg hname)
    unfold dueAt
    rw [hlookup]

/-! ## Tables that give the same answers -/

/-- The tables have the same schedules ahead of the clock. -/
def Agree (now : ℤ) (t t' : RateTable) : Prop :=
  ∀ e : RateEntry, now < e.due → (e ∈ t ↔ e ∈ t')

theorem Agree.refl (now : ℤ) (t : RateTable) : Agree now t t := fun _ _ => Iff.rfl

theorem Agree.symm (h : Agree now t t') : Agree now t' t := fun e he => (h e he).symm

theorem Agree.trans {t'' : RateTable} (h : Agree now t t') (h' : Agree now t' t'') :
    Agree now t t'' :=
  fun e he => (h e he).trans (h' e he)

theorem Agree.mono (h : Agree now t t') (hn : now ≤ n) : Agree n t t' :=
  fun e he => h e (lt_of_le_of_lt hn he)

theorem agree_live (now : ℤ) (t : RateTable) : Agree now (t.live now) t :=
  fun _ he => mem_live.trans (and_iff_left he)

theorem le_dueAt (t : RateTable) (name : String) (n : ℤ) : n ≤ t.dueAt name n := by
  unfold dueAt
  split
  · exact le_refl n
  · split <;> omega

section

variable (h : Agree now t t')

include h

section

variable (ht : t.Named)

include ht

theorem Agree.dueAt_le (ht' : t'.Named) (hn : now ≤ n) (name : String) :
    t.dueAt name n ≤ t'.dueAt name n := by
  have hclock := le_dueAt t' name n
  by_cases hmem : ∃ e ∈ t, e.name = name
  · obtain ⟨e, he, rfl⟩ := hmem
    rw [dueAt_of_mem ht he]
    by_cases hdue : now < e.due
    · rw [dueAt_of_mem ht' ((h e hdue).mp he)]
    · omega
  · rw [dueAt_of_forall_ne fun e he hname => hmem ⟨e, he, hname⟩]
    exact hclock

theorem Agree.dueAt (ht' : t'.Named) (hn : now ≤ n) (name : String) :
    t.dueAt name n = t'.dueAt name n :=
  le_antisymm (h.dueAt_le ht ht' hn name) (h.symm.dueAt_le ht' ht hn name)

theorem Agree.length_live (ht' : t'.Named) (hn : now ≤ n) :
    (t.live n).length = (t'.live n).length := by
  have hmem : ∀ e, e ∈ t.live n ↔ e ∈ t'.live n := by
    intro e
    rw [mem_live, mem_live]
    refine and_congr_left fun he => h e (by omega)
  exact ((List.perm_ext_iff_of_nodup (ht.live n).of_map (ht'.live n).of_map).mpr hmem).length_eq

theorem Agree.scheduled (ht' : t'.Named) (hn : now ≤ c.nowNs) :
    Agree c.nowNs (t.scheduled c) (t'.scheduled c) := by
  intro e he
  rw [mem_scheduled, mem_scheduled, h.dueAt ht ht' hn]
  refine or_congr_right (and_congr_left fun _ => h e (by omega))

theorem Agree.refuses_iff (ht' : t'.Named) (hn : now ≤ c.nowNs) : t.Refuses c ↔ t'.Refuses c := by
  unfold Refuses
  rw [h.dueAt ht ht' hn]

theorem Agree.empties_iff (ht' : t'.Named) (hn : now ≤ c.nowNs) : t.Empties c ↔ t'.Empties c := by
  unfold Empties
  rw [h.refuses_iff ht ht' hn, (h.scheduled ht ht' hn).length_live (ht.scheduled c)
    (ht'.scheduled c) (le_refl _)]

end

end

/-! ## One call -/

theorem call_fst_iff (hkept : ¬ t.Empties c) : (t.call c).1 = true ↔ ¬ t.Refuses c := by
  rcases call_cases t c hkept with ⟨hle, h⟩ | ⟨hrefuse, h⟩ | ⟨-, hroom, h | h⟩
  · rw [h]
    exact iff_of_true rfl fun hrefuse => absurd hrefuse.1 (not_lt.mpr hle)
  · rw [h]
    exact iff_of_false (by simp) (not_not.mpr hrefuse)
  · rw [h]
    exact iff_of_true rfl hroom
  · rw [h]
    exact iff_of_true rfl hroom

theorem after_eq_self (h : c.intervalNs ≤ 0 ∨ t.Refuses c) : t.after c = t := by
  unfold after call allow
  by_cases hcount : c.intervalNs ≤ 0
  · rw [if_pos hcount]
  · have hrefuse := h.resolve_left hcount
    rw [if_neg hcount]
    simp only [if_pos hrefuse.2]

theorem agree_after (hkept : ¬ t.Empties c) (hcount : 0 < c.intervalNs) (hroom : ¬ t.Refuses c) :
    Agree c.nowNs (t.after c) (t.scheduled c) := by
  unfold after
  rcases call_cases t c hkept with ⟨hle, -⟩ | ⟨hrefuse, -⟩ | ⟨-, -, h | h⟩
  · exact absurd hcount (not_lt.mpr hle)
  · exact absurd hrefuse hroom
  · rw [h]
    exact .refl _ _
  · rw [h]
    exact agree_live _ _

theorem Named.after (ht : t.Named) (hkept : ¬ t.Empties c) : (t.after c).Named := by
  unfold RateTable.after
  rcases call_cases t c hkept with ⟨-, h⟩ | ⟨-, h⟩ | ⟨-, -, h | h⟩
  · rwa [h]
  · rwa [h]
  · rw [h]
    exact ht.scheduled c
  · rw [h]
    exact (ht.scheduled c).live _

theorem Agree.call (h : Agree now t t') (ht : t.Named) (ht' : t'.Named) (hn : now ≤ c.nowNs)
    (hkept : ¬ t.Empties c) :
    (t.call c).1 = (t'.call c).1 ∧ Agree c.nowNs (t.after c) (t'.after c) := by
  have hkept' : ¬ t'.Empties c := fun he => hkept ((h.empties_iff ht ht' hn).mpr he)
  constructor
  · rw [Bool.eq_iff_iff, call_fst_iff hkept, call_fst_iff hkept', h.refuses_iff ht ht' hn]
  by_cases hcall : c.intervalNs ≤ 0 ∨ t.Refuses c
  · have hcall' : c.intervalNs ≤ 0 ∨ t'.Refuses c := hcall.imp_right (h.refuses_iff ht ht' hn).mp
    rw [after_eq_self hcall, after_eq_self hcall']
    exact h.mono hn
  · rw [not_or, not_le] at hcall
    have hroom' : ¬ t'.Refuses c := fun he => hcall.2 ((h.refuses_iff ht ht' hn).mpr he)
    exact (agree_after hkept hcall.1 hcall.2).trans
      ((h.scheduled ht ht' hn).trans (agree_after hkept' hcall.1 hroom').symm)

theorem dueAt_after (ht : t.Named) (hkept : ¬ t.Empties c) (hn : c.nowNs ≤ n) (name : String) :
    (t.after c).dueAt name n = if name = c.name ∧ 0 < c.intervalNs ∧ (t.call c).1 = true then
        max n (t.dueAt name c.nowNs + c.intervalNs)
      else t.dueAt name n := by
  simp only [call_fst_iff hkept]
  by_cases hcall : c.intervalNs ≤ 0 ∨ t.Refuses c
  · rw [after_eq_self hcall, if_neg]
    rintro ⟨-, hpos, hroom⟩
    exact hcall.elim (not_le.mpr hpos) hroom
  · rw [not_or, not_le] at hcall
    rw [(agree_after hkept hcall.1 hcall.2).dueAt (ht.after hkept) (ht.scheduled c) hn,
      dueAt_scheduled ht]
    by_cases hname : name = c.name
    · rw [if_pos hname, if_pos ⟨hname, hcall.1, hcall.2⟩, hname]
    · rw [if_neg hname, if_neg fun h => hname h.1]

/-- The calls come in the order of the clock. -/
abbrev Ordered (calls : List RateCall) : Prop :=
  calls.Pairwise fun c d => c.nowNs ≤ d.nowNs

abbrev Kept (t : RateTable) (calls : List RateCall) : Prop :=
  Along after (fun t c => ¬ t.Empties c) t calls

theorem Agree.answers {calls : List RateCall} (h : Agree now t t') (ht : t.Named) (ht' : t'.Named)
    (hclock : Ordered calls) (hnow : ∀ c ∈ calls, now ≤ c.nowNs) (hkept : t.Kept calls) :
    t.answers calls = t'.answers calls := by
  induction calls generalizing t t' now with
  | nil => rfl
  | cons c calls ih =>
    have hn : now ≤ c.nowNs := hnow c (.head _)
    have hkept' : ¬ t'.Empties c := fun he => hkept.1 ((h.empties_iff ht ht' hn).mpr he)
    obtain ⟨hanswer, hagree⟩ := h.call ht ht' hn hkept.1
    show (t.call c).1 :: (t.after c).answers calls = (t'.call c).1 :: (t'.after c).answers calls
    rw [hanswer, ih hagree (ht.after hkept.1) (ht'.after hkept') hclock.of_cons
      (fun _ => List.rel_of_pairwise_cons hclock) hkept.2]

section Bound

variable {interval burst : ℤ}

/-- The name has this interval and this burst in every call. -/
abbrev Fixed (name : String) (interval burst : ℤ) (calls : List RateCall) : Prop :=
  ∀ c ∈ calls, c.name = name → c.intervalNs = interval ∧ c.burstNs = burst

/-- A call for the name that is admitted finds the schedule at most the burst ahead, and moves it on
by the interval. -/
theorem moved_of_admitted (ht : t.Named) (hkept : ¬ t.Empties c) (hpos : 0 < interval)
    (hname : c.name = name) (hfixed : c.intervalNs = interval ∧ c.burstNs = burst)
    (hadmitted : (t.call c).1 = true) :
    t.dueAt name c.nowNs + interval ≤ c.nowNs + burst ∧
      ∀ n, c.nowNs ≤ n → t.dueAt name c.nowNs + interval ≤ (t.after c).dueAt name n := by
  have hcount : 0 < c.intervalNs := by omega
  have hroom := (call_fst_iff hkept).mp hadmitted
  constructor
  · by_contra hlate
    refine hroom ⟨hcount, ?_⟩
    rw [hname]
    omega
  · intro n hn
    rw [dueAt_after ht hkept hn, if_pos ⟨hname.symm, hcount, hadmitted⟩]
    omega

theorem dueAt_after_other (ht : t.Named) (hkept : ¬ t.Empties c)
    (hother : ¬ (c.name = name ∧ (t.call c).1 = true)) (hn : c.nowNs ≤ n) :
    (t.after c).dueAt name n = t.dueAt name n := by
  rw [dueAt_after ht hkept hn, if_neg fun h => hother ⟨h.1.symm, h.2.2⟩]

/-- **Every admission moves the schedule on**: a schedule that stands at `due` or later leaves room
for the `j`-th admission to come only so many intervals later. -/
theorem le_of_admissions {calls : List RateCall} (hpos : 0 < interval) (ht : t.Named)
    (hclock : Ordered calls) (hkept : t.Kept calls) (hfixed : Fixed name interval burst calls)
    {due : ℤ} (hnow : ∀ c ∈ calls, now ≤ c.nowNs) (hdue : ∀ n, now ≤ n → due ≤ t.dueAt name n) :
    ∀ (j : ℕ) (b : ℤ), (t.admissions name calls)[j]? = some b →
      due + (j + 1) * interval ≤ b + burst := by
  -- the induction is on the calls, with the schedule moved on by each admission
  induction calls generalizing t now due with
  | nil => intro j b hb; exact nomatch hb
  | cons c calls ih =>
    intro j b hb
    have hn : now ≤ c.nowNs := hnow c (.head _)
    have hrest : ∀ due' : ℤ, (∀ n, c.nowNs ≤ n → due' ≤ (t.after c).dueAt name n) →
        ∀ (j : ℕ) (b : ℤ), ((t.after c).admissions name calls)[j]? = some b →
          due' + (j + 1) * interval ≤ b + burst :=
      fun due' hdue' => ih (ht.after hkept.1) hclock.of_cons hkept.2
        (fun d hd => hfixed d (.tail _ hd))
        (fun _ => List.rel_of_pairwise_cons hclock) hdue'
    unfold admissions at hb
    by_cases hown : c.name = name ∧ (t.call c).1 = true
    · obtain ⟨hearly, hmoved⟩ := moved_of_admitted ht hkept.1 hpos hown.1
        (hfixed c (.head _) hown.1) hown.2
      have hstood := hdue c.nowNs hn
      rw [if_pos hown] at hb
      cases j with
      | zero =>
        rw [List.getElem?_cons_zero, Option.some.injEq] at hb
        push_cast
        omega
      | succ j =>
        rw [List.getElem?_cons_succ] at hb
        have hle := hrest (due + interval) (fun n hn => le_trans (by omega) (hmoved n hn)) j b hb
        push_cast
        rw [add_mul _ 1 interval, one_mul]
        omega
    · rw [if_neg hown] at hb
      refine hrest due (fun n hn' => ?_) j b hb
      rw [dueAt_after_other ht hkept.1 hown hn']
      exact hdue n (hn.trans hn')

theorem admissions_spaced {calls : List RateCall} (hpos : 0 < interval) (ht : t.Named)
    (hclock : Ordered calls) (hkept : t.Kept calls) (hfixed : Fixed name interval burst calls) :
    ∀ (i j : ℕ) (a b : ℤ), i < j → (t.admissions name calls)[i]? = some a →
      (t.admissions name calls)[j]? = some b →
      ((j : ℤ) - i + 1) * interval ≤ b - a + burst := by
  induction calls generalizing t with
  | nil => intro i j a b _ ha _; exact nomatch ha
  | cons c calls ih =>
    intro i j a b hij ha hb
    have hfixed' : Fixed name interval burst calls := fun d hd => hfixed d (.tail _ hd)
    have hrest := ih (ht.after hkept.1) hclock.of_cons hkept.2 hfixed'
    unfold admissions at ha hb
    by_cases hown : c.name = name ∧ (t.call c).1 = true
    · rw [if_pos hown] at ha hb
      obtain ⟨j, rfl⟩ := Nat.exists_eq_succ_of_ne_zero (show j ≠ 0 by omega)
      rw [List.getElem?_cons_succ] at hb
      cases i with
      | zero =>
        -- the first of the two: the schedule is an interval ahead of it from then on
        obtain ⟨-, hmoved⟩ := moved_of_admitted ht hkept.1 hpos hown.1
          (hfixed c (.head _) hown.1) hown.2
        have hstood := le_dueAt t name c.nowNs
        have hahead : ∀ n, c.nowNs ≤ n → c.nowNs + interval ≤ (t.after c).dueAt name n :=
          fun n hn => le_trans (by omega) (hmoved n hn)
        have hle := le_of_admissions hpos (ht.after hkept.1) hclock.of_cons hkept.2 hfixed'
          (fun _ => List.rel_of_pairwise_cons hclock) hahead j b hb
        rw [List.getElem?_cons_zero, Option.some.injEq] at ha
        rw [add_mul, one_mul] at hle
        push_cast
        rw [sub_zero, add_mul, add_mul, one_mul]
        omega
      | succ i =>
        rw [List.getElem?_cons_succ] at ha
        have hle := hrest i j a b (by omega) ha hb
        push_cast
        rwa [show (j : ℤ) + 1 - (i + 1) + 1 = j - i + 1 by omega]
    · rw [if_neg hown] at ha hb
      exact hrest i j a b hij ha hb

end Bound

end RateTable

open RateTable

/-! ## The limit -/

/-- **The request-rate limit holds over every window.**  In every sequence of calls on a clock that
does not go back, none of which empties the table: any two calls admitted for one name, the `i`-th
and the `j`-th, are as far apart as its interval and its burst ask for; a call that is refused
changes no later answer; and neither does dropping the schedules the clock has caught up with. -/
theorem rate_limited (t : RateTable) (ht : t.Named) (calls : List RateCall)
    (hclock : RateTable.Ordered calls) (hkept : t.Kept calls) :
    (∀ (name : String) (interval burst : ℤ), 0 < interval →
        RateTable.Fixed name interval burst calls → ∀ (i j : ℕ) (a b : ℤ), i < j →
        (t.admissions name calls)[i]? = some a → (t.admissions name calls)[j]? = some b →
        ((j : ℤ) - i + 1) * interval ≤ b - a + burst) ∧
      (∀ before c later, calls = before ++ c :: later →
        ((run RateTable.after t before).call c).1 = false →
        (run RateTable.after t (before ++ [c])).answers later =
          (run RateTable.after t before).answers later) ∧
      (∀ before later now, calls = before ++ later → (∀ c ∈ later, now ≤ c.nowNs) →
        ((run RateTable.after t before).live now).answers later =
          (run RateTable.after t before).answers later) := by
  refine ⟨fun name interval burst hpos hfixed =>
    admissions_spaced hpos ht hclock hkept hfixed, ?_, ?_⟩
  · intro before c later hcalls hrefused
    have hc : ¬ (run after t before).Empties c := by
      rw [hcalls, Kept, along_append] at hkept
      exact hkept.2.1
    have hrefuses : (run after t before).Refuses c := by
      by_contra hroom
      rw [(call_fst_iff hc).mpr hroom] at hrefused
      cases hrefused
    rw [run_append, run_cons, run_nil, after_eq_self (Or.inr hrefuses)]
  · intro before later now hcalls hnow
    rw [hcalls, Kept, along_append] at hkept
    rw [hcalls] at hclock
    have hnamed : (run after t before).Named :=
      hkept.1.invariant (fun _ _ hk hu => Named.after hu hk) ht
    exact ((agree_live now _).symm.answers hnamed (hnamed.live now)
      (List.pairwise_append.mp hclock).2.1 hnow hkept.2).symm

def busySecond : List RateCall :=
  [⟨"k", 500, 1000, 0⟩, ⟨"k", 500, 1000, 0⟩, ⟨"k", 500, 1000, 100⟩, ⟨"other", 10, 1000, 200⟩,
    ⟨"k", 500, 1000, 600⟩]

theorem rate_limited_busy_second :
    RateTable.answers [] busySecond = [true, true, false, true, true] ∧
      (3 : ℤ) * 500 ≤ 600 - 0 + 1000 := by
  have hkept : Kept [] busySecond := by decide +kernel
  have hspaced := (rate_limited [] List.nodup_nil busySecond (by decide) hkept).1 "k" 500 1000
    (by decide) (by decide) 0 2 0 600 (by decide) (by decide +kernel) (by decide +kernel)
  exact ⟨by decide +kernel, hspaced⟩

end Prism
