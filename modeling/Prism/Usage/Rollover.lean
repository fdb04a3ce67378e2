import Prism.Console.Sale
import Prism.Usage.Accounting

/-!
# Who hands the allowance back

A pass of `PeriodReset` reads the start of a period, asks for a guarded update, and starts the
user's counters over when the answer is no error.  A row that somebody else has moved in between is
no error either: the answer does not tell a period that was started here from one that was started
elsewhere, and the counters are started over a second time, with whatever the new period has counted
by then.

What the pass does is right in the runs in which no guarded update finds its row moved (`RaceWon`).
Then each time it starts counters over it has just moved the row itself, and set its usage to zero
(`ResetsBacked`).  Nothing is asked of the other threads, which may be any programs at all.
-/

namespace Prism

open Table

/-- The event has its reason in what the same thread did just before: the aggregate is started over
behind a guarded update that moved the row and set its usage to zero, the mark behind the
aggregate. -/
def StepBacked (older : Trace) : ServerEvent → Prop
  | .aggregateReset userID => ∃ i sub row next,
      older.head? = some (i, .periodReset sub (some row)
        (some { row with periodStartNs := next, periodUsedBytes := 0 })) ∧
      sub.userID = userID ∧ row.id = sub.id ∧ row.periodStartNs = sub.periodStartNs ∧
      row.periodStartNs < next
  | .markReset userID => ∃ i, older.head? = some (i, .aggregateReset userID)
  | _ => True

/-- Each reset follows a move of the row that cleared its usage. -/
def ResetsBacked : Trace → Prop
  | [] => True
  | p :: older => StepBacked older p.2 ∧ ResetsBacked older

/-- The row a guarded update finds is still at the start that was read, or is gone. -/
def RaceWon (_ : History) (_ : ℕ) : ServerEvent → Prop
  | .periodReset sub before _ => ∀ row, before = some row → row.periodStartNs = sub.periodStartNs
  | _ => True

instance (h : History) (i : ℕ) (e : ServerEvent) : Decidable (RaceWon h i e) := by
  unfold RaceWon
  split
  · rename_i sub before _
    exact match before with
      | none => isTrue (by simp)
      | some row => decidable_of_iff (row.periodStartNs = sub.periodStartNs) (by simp)
  · infer_instance

def rollovers (rolls : ℕ → Prop) : Discipline Server ServerEvent Mutex where
  inv h := ∀ i, rolls i → ResetsBacked (own i h.trace)
  may := RaceWon
  rely i h h' := own i h'.trace = own i h.trace
  rely_refl := own_kept_refl
  rely_trans := @own_kept_trans

section

variable {rolls : ℕ → Prop} {i : ℕ} {h : History}

theorem rollovers_did {e : ServerEvent} {s : Server} (hinv : (rollovers rolls).inv h)
    (he : rolls i → StepBacked (own i h.trace) e) :
    (rollovers rolls).Keeps i h (h.did i e s) := by
  refine ⟨fun j hj => ?_, fun j hj => own_cons_of_ne (Ne.symm hj) _ _⟩
  by_cases hij : i = j
  · subst hij
    rw [Hist.did_trace, own_cons_self]
    exact ⟨he hj, hinv i hj⟩
  · rw [Hist.did_trace, own_cons_of_ne hij]
    exact hinv j hj

theorem rollovers_relock {holder : Mutex → Option ℕ} (hinv : (rollovers rolls).inv h) :
    (rollovers rolls).Keeps i h { h with holder := holder } :=
  ⟨hinv, fun _ _ => rfl⟩

/-- What an update that answers no error has done to a row it found at the start it was asked
about. -/
theorem subscription_of_resetSubscriptionPeriod {io : Faults} {id : String} {fromNs toNs : ℤ}
    {db db' : Db} {row : UserSubscription}
    (h : resetSubscriptionPeriod io id fromNs toNs db = (.ok (), db'))
    (hrow : db.subscription id = some row) (hstart : row.periodStartNs = fromNs) :
    db'.subscription id = some { row with periodStartNs := toNs, periodUsedBytes := 0 } := by
  have hid : row.id = id := key_of_lookup hrow
  rw [(resetSubscriptionPeriod_ok h).2]
  have hlookup := lookup_updateWhere UserSubscription.id
    (p := fun r => r.id = id && r.periodStartNs = fromNs)
    (f := fun r => { r with periodStartNs := toNs, periodUsedBytes := 0 }) (fun _ _ => rfl) id
    db.userSubscriptions
  refine hlookup.trans ?_
  have hrow' : lookup UserSubscription.id id db.userSubscriptions = some row := hrow
  rw [hrow', Option.map_some, if_pos (by simp [hid, hstart])]

theorem safe_periodFor (env : PeriodEnv) (sub : UserSubscription) (h : History) :
    (rollovers rolls).Tame i (periodFor env sub) h := by
  unfold periodFor
  split
  · exact .done
  split
  · exact .done
  · exact fun k _ hinv _ => ⟨rollovers_did hinv fun _ => trivial, fun _ _ _ => trivial⟩

theorem safe_resetUser {userID : String}
    (hbacked : StepBacked (own i h.trace) (.aggregateReset userID)) :
    (rollovers rolls).Tame i (resetUser userID) h := by
  unfold resetUser
  split
  · exact .done
  intro k hr hinv _
  have hr' : own i k.trace = own i h.trace := hr
  refine ⟨rollovers_did hinv fun _ => by rw [hr']; exact hbacked, ?_⟩
  intro k' hr' hinv' _
  have hr'' : own i k'.trace = (i, .aggregateReset userID) :: own i k.trace :=
    Eq.trans hr' (own_cons_self ..)
  refine ⟨rollovers_did hinv' fun _ => ⟨i, by rw [hr'']; rfl⟩, ?_⟩
  exact .done

theorem safe_rollOne (env : PeriodEnv) (sub : UserSubscription) (h : History) :
    (rollovers rolls).Tame i (rollOne env sub) h := by
  unfold rollOne
  split
  · exact .done
  refine (safe_periodFor env sub h).seq fun period k _ => ?_
  by_cases honce : normalizePeriod period = "once"
  · rw [if_pos honce]
    exact .done
  rw [if_neg honce]
  cases hadvance : advancePeriod env.loc sub.periodStartNs env.nowNs period with
  | none => exact .done
  | some next =>
    refine Task.safe_write fun k' _ hinv answer db hcall hmay => ?_
    refine ⟨rollovers_did hinv fun _ => trivial, ?_⟩
    cases answer with
    | error e => exact .done
    | ok u =>
      -- the row was found where it was read, so this update has moved it
      obtain ⟨row, hrow⟩ := Option.isSome_iff_exists.mp (resetSubscriptionPeriod_ok hcall).1
      have hstart : row.periodStartNs = sub.periodStartNs := hmay row hrow
      have hafter := subscription_of_resetSubscriptionPeriod hcall hrow hstart
      refine (safe_resetUser ?_).seq fun _ _ _ => ?_
      · refine ⟨i, sub, row, next, ?_, rfl, key_of_lookup hrow, hstart, ?_⟩
        · rw [Hist.did_trace, own_cons_self, List.head?_cons]
          simp only [hrow, hafter]
        · rw [hstart]
          exact (advancePeriod_eq_some hadvance).1
      · exact .done

theorem safe_rollAll (env : PeriodEnv) :
    ∀ (subs : List UserSubscription) (result : PeriodResetResult) (h : History),
      (rollovers rolls).Tame i (rollAll env subs result) h
  | [], _, _ => fun _ _ _ => trivial
  | sub :: subs, result, h => by
    unfold rollAll
    split
    · exact safe_rollAll env subs result h
    · refine (safe_rollOne env sub h).seq fun _ k _ => ?_
      exact safe_rollAll env subs _ k

theorem safe_runOnce (env : PeriodEnv) (h : History) :
    (rollovers rolls).Tame i (runOnce env) h := by
  intro k _ hinv _
  refine ⟨rollovers_relock hinv, .bind ?_⟩
  refine .mono (Q := fun _ _ => True)
    (fun _ _ _ _ _ _ hinv' => ⟨rollovers_relock hinv', fun _ _ _ => trivial⟩) ?_
  refine Task.safe_query fun k' _ hinv' _ => ⟨rollovers_did hinv' fun _ => trivial, ?_⟩
  split
  · exact .done
  · refine (safe_rollAll env _ _ _).seq fun _ _ _ => ?_
    exact .done

end

/-- What runs beside a pass: another pass, or anything else, such as traffic, a flush, a purchase
or a renewal. -/
inductive PeriodCall where
  | rollover (env : PeriodEnv)
  | other (task : Task Unit)

namespace PeriodCall

def task : PeriodCall → Task Unit
  | .rollover env => do
    let _ ← runOnce env
    pure ()
  | .other task => task

def rolls : PeriodCall → Bool
  | .rollover _ => true
  | .other _ => false

end PeriodCall

/-- **The allowance is handed back behind a period that was moved**: in every interleaving in which
no guarded update finds its row moved by somebody else, each time a pass starts a user's aggregate
over it has just moved a row of that user to a later start and set its usage to zero, and it starts
the mark over behind the aggregate. -/
theorem rollover_resets_backed (server : Server) (calls : List PeriodCall) (sched : List ℕ)
    (hraces : Along Pool.step (Pool.Meets RaceWon)
      (Pool.start server (calls.map PeriodCall.task)) sched)
    (i : ℕ) (env : PeriodEnv) (hi : calls[i]? = some (.rollover env)) :
    ResetsBacked (own i
      (run Pool.step (Pool.start server (calls.map PeriodCall.task)) sched).hist.trace) := by
  let rolls : ℕ → Prop := fun j => (calls[j]?.any PeriodCall.rolls) = true
  have hstart : Discipline.Kept (rollovers rolls) (fun _ _ _ => True)
      (Pool.start server (calls.map PeriodCall.task)) := by
    refine .of_calls (fun _ _ => trivial) fun j call hcall => ?_
    cases call with
    | rollover env =>
      refine (safe_runOnce env _).seq fun _ _ _ => ?_
      exact .done
    | other task =>
      -- whatever such a thread does, it is not one of those that roll periods over
      have hnot : ¬ rolls j := by
        show ¬ (calls[j]?.any PeriodCall.rolls) = true
        rw [hcall]
        simp [PeriodCall.rolls]
      exact .of_keeps (fun k e s hinv => rollovers_did hinv fun hrolls => absurd hrolls hnot)
        (fun _ _ hinv => rollovers_relock hinv) (fun _ _ hinv => rollovers_relock hinv) task _
  refine (Discipline.run_safe hstart hraces).inv i ?_
  show (calls[i]?.any PeriodCall.rolls) = true
  rw [hi]
  rfl

def refillPlan : Plan :=
  { id := "p", period := "30d", durationDays := 30, priceMicro := 5000000, status := .active }

def refillSub : UserSubscription :=
  { id := "s", userID := "u", planID := "p", planSnapshot := .plan refillPlan, startsAtNs := dayNs,
    expiresAtNs := 31 * dayNs, periodStartNs := dayNs, periodUsedBytes := 100, status := .active }

def refillServer : Server :=
  { db :=
      { users := [.customer]
        plans := [refillPlan]
        userSubscriptions := [refillSub]
        userBalance := [⟨"u", 20000000, 0⟩] } }

def refillCalls : List PeriodCall :=
  [.rollover { loc := utc, nowNs := 31 * dayNs },
    .other (do
      let _ ← Console.selfRenew noFaults (some "bl") "u" ⟨"s", "r"⟩ (31 * dayNs)
      pure ()),
    .other (add ⟨"k", "u", ""⟩ ⟨3, 4, 1, 0⟩)]

theorem rollover_resets_backed_alone :
    ResetsBacked (own 0 (run Pool.step (Pool.start refillServer (refillCalls.map PeriodCall.task))
      (List.replicate 6 0)).hist.trace) ∧
    (run Pool.step (Pool.start refillServer (refillCalls.map PeriodCall.task))
      (List.replicate 6 0)).hist.state.db.userSubscriptions =
        [{ refillSub with periodStartNs := 31 * dayNs, periodUsedBytes := 0 }] :=
  ⟨rollover_resets_backed refillServer refillCalls _ (by decide +kernel) 0 _ rfl, by decide +kernel⟩

/-- **A lost race hands the allowance back a second time.**  The renewal moves the period between
the listing of the pass and its update, and seven bytes are counted in the new period; the update
finds another start and changes nothing, and the pass clears the seven bytes. -/
theorem rollover_resets_twice :
    (run Pool.step (Pool.start refillServer (refillCalls.map PeriodCall.task))
        ([0, 0] ++ List.replicate 8 1 ++ [2, 2])).hist.state.usage.userBytes "u" = 7 ∧
      (run Pool.step (Pool.start refillServer (refillCalls.map PeriodCall.task))
        ([0, 0] ++ List.replicate 8 1 ++ [2, 2] ++ [0, 0])).hist.state.usage.userBytes "u" = 0 ∧
      (run Pool.step (Pool.start refillServer (refillCalls.map PeriodCall.task))
          ([0, 0] ++ List.replicate 8 1 ++ [2, 2] ++ [0])).hist.state.db =
        (run Pool.step (Pool.start refillServer (refillCalls.map PeriodCall.task))
          ([0, 0] ++ List.replicate 8 1 ++ [2, 2])).hist.state.db := by
  decide +kernel

end Prism
