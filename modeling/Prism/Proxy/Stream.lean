import Prism.Usage.Limiter

/-!
# Cutting a stream that runs past its allowance

`internal/proxy/quota_stream.go`.  A stream counts the bytes it moves, asks every so often whether
the allowance of its key is used up, and ends itself when it is.  The same bytes are handed to the
counter the question is asked of, each direction in steps of its own.

So three counts run side by side and out of step: the bytes moved, and the bytes of either direction
that are not reported yet.  What the counter lacks is less than a step for each direction and the
call under way; the next question is asked no later than a step and a call after the last one.
Together that is how far a stream can run past the level it is cut at (`stream_cut`).
-/

namespace Prism

open Function

/-- Which way bytes flow: towards the client, or towards the upstream. -/
inductive Direction where
  | ingress
  | egress
  deriving DecidableEq

/-- The counter behind the gate: what is reported is added up. -/
structure ByteCounter where
  State : Type
  used : State → ℤ
  report : Direction → ℤ → State → State
  used_report : ∀ d n s, used (report d n s) = used s + n

def Direction.delta : Direction → ℤ → Delta
  | .ingress, n => { ingressBytes := n }
  | .egress, n => { egressBytes := n }

theorem Direction.total_delta (d : Direction) (n : ℤ) : (d.delta n).total = n := by
  cases d with
  | ingress => exact add_zero n
  | egress => exact zero_add n

/-- `Counters.Add`, alone. -/
def Counters.add (c : Counters) (key : CounterKey) (delta : Delta) : Counters :=
  if delta = 0 then c
  else if delta.total ≠ 0 ∧ key.userID ≠ "" then
    (c.addToBuckets key delta).addToUser key.userID delta.total
  else c.addToBuckets key delta

theorem Counters.users_add {c : Counters} {key : CounterKey} {delta : Delta} {total : ℤ}
    (huser : key.userID ≠ "") (h : c.users key.userID = some total) :
    (c.add key delta).users key.userID = some (total + delta.total) := by
  unfold Counters.add
  split
  · rename_i hzero
    rw [hzero, Delta.total_zero, add_zero, h]
  split
  · show update c.users key.userID (some ((c.users key.userID).getD 0 + delta.total)) key.userID = _
    rw [update_self, h, Option.getD_some]
  · rename_i hnone
    have hzero : delta.total = 0 := not_not.mp fun hne => hnone ⟨hne, huser⟩
    rw [hzero, add_zero]
    exact h

theorem Limiter.usedBytes_of_users {c : Counters} {key : KeyState} {total : ℤ}
    (huser : key.userID ≠ "") (h : c.users key.userID = some total) :
    Limiter.usedBytes c key = total := by
  unfold Limiter.usedBytes
  rw [if_neg huser, h]

/-- The live counters, for a key whose owner has an aggregate, and the sink that feeds them. -/
def ByteCounter.ofUser (key : KeyState) (platformID : String) (huser : key.userID ≠ "") :
    ByteCounter where
  State := { c : Counters // (c.users key.userID).isSome = true }
  used c := Limiter.usedBytes c.1 key
  report d n c := ⟨c.1.add ⟨key.keyID, key.userID, platformID⟩ (d.delta n), by
    obtain ⟨total, htotal⟩ := Option.isSome_iff_exists.mp c.2
    rw [Counters.users_add huser htotal]
    rfl⟩
  used_report d n c := by
    obtain ⟨total, htotal⟩ := Option.isSome_iff_exists.mp c.2
    rw [Limiter.usedBytes_of_users huser htotal, Limiter.usedBytes_of_users huser
      (Counters.users_add huser htotal), Direction.total_delta]

/-- The key of a stream, its grace, and how often it is checked. -/
structure StreamConfig where
  key : KeyState
  gracePercent : ℤ
  interval : ℤ

/-- `streamQuota`, with the counter, the reports made and the calls of `abort`. -/
structure StreamQuota (C : ByteCounter) where
  counter : C.State
  bytes : ℤ := 0
  /-- the byte count at which the next check runs -/
  next : ℤ := 0
  /-- the bytes not yet handed to the sink -/
  pending : Direction → ℤ := fun _ => 0
  limited : Bool := false
  onceDone : Bool := false
  reports : List (Direction × ℤ) := []
  aborts : ℕ := 0

namespace StreamQuota

variable {C : ByteCounter} (cfg : StreamConfig) (q : StreamQuota C)

/-- `q.once.Do(abort)`. -/
def abortOnce : StreamQuota C :=
  if q.onceDone then q else { q with onceDone := true, aborts := q.aborts + 1 }

/-- Ask the gate whether the allowance is used up, and end the stream when it is. -/
def check : StreamQuota C :=
  if q.limited then q
  else if !Limiter.exceededAt cfg.key cfg.gracePercent (C.used q.counter) then q
  else abortOnce { q with limited := true }

def account (n : ℤ) : StreamQuota C :=
  if n ≤ 0 then q
  else
    let total := q.bytes + n
    if total < q.next then { q with bytes := total }
    else check cfg { q with bytes := total, next := total + cfg.interval }

def report (d : Direction) (n : ℤ) : StreamQuota C :=
  { q with counter := C.report d n q.counter, reports := q.reports ++ [(d, n)] }

/-- Add to what is not reported yet, and report it where it makes a step. -/
def hold (d : Direction) (n : ℤ) : StreamQuota C :=
  if cfg.interval ≤ q.pending d + n then
    report { q with pending := update q.pending d 0 } d (q.pending d + n)
  else { q with pending := update q.pending d (q.pending d + n) }

/-- What `ingressBytes` and `egressBytes` have in common. -/
def moveBytes (d : Direction) (n : ℤ) : StreamQuota C :=
  if n ≤ 0 then q else hold cfg (account cfg q n) d n

def ingressBytes (n : ℤ) : StreamQuota C := moveBytes cfg q .ingress n

def egressBytes (n : ℤ) : StreamQuota C := moveBytes cfg q .egress n

def flushDirection (d : Direction) : StreamQuota C :=
  if 0 < q.pending d then
    report { q with pending := update q.pending d 0 } d (q.pending d)
  else { q with pending := update q.pending d 0 }

def flushReports : StreamQuota C := (q.flushDirection .ingress).flushDirection .egress

/-- Bytes pass in one direction. -/
def call (q : StreamQuota C) : Direction × ℤ → StreamQuota C
  | (.ingress, n) => ingressBytes cfg q n
  | (.egress, n) => egressBytes cfg q n

theorem call_eq (p : Direction × ℤ) : call cfg q p = moveBytes cfg q p.1 p.2 := by
  obtain ⟨d, n⟩ := p
  cases d with
  | ingress | egress => rfl

end StreamQuota

def movedBytes (calls : List (Direction × ℤ)) (d : Direction) : ℤ :=
  (calls.map fun p => if p.1 = d then max p.2 0 else 0).sum

def StreamQuota.reported {C : ByteCounter} (q : StreamQuota C) (d : Direction) : ℤ :=
  (q.reports.map fun p => if p.1 = d then p.2 else 0).sum

namespace StreamQuota

/-! ## Reports -/

section Reports

variable {C : ByteCounter} {cfg : StreamConfig} {q : StreamQuota C} {used0 : ℤ}
  {moved : Direction → ℤ}

/-- **Every byte is reported or pending**, what was reported is in the counter, and what is pending
is less than a step. -/
structure Told (cfg : StreamConfig) (used₀ : ℤ) (moved : Direction → ℤ) (q : StreamQuota C) :
    Prop where
  told : ∀ d, q.reported d + q.pending d = moved d
  counter : C.used q.counter = used₀ + q.reported .ingress + q.reported .egress
  nonneg : ∀ d, 0 ≤ q.pending d
  lt : ∀ d, q.pending d < cfg.interval

theorem reported_report (q : StreamQuota C) (d d' : Direction) (n : ℤ) :
    (q.report d n).reported d' = q.reported d' + if d = d' then n else 0 := by
  show ((q.reports ++ [(d, n)]).map fun p => if p.1 = d' then p.2 else 0).sum = _
  rw [List.map_append, List.sum_append, List.map_singleton, List.sum_singleton]
  rfl

theorem Told.report (h : Told cfg used0 moved q) {d : Direction} {n : ℤ} {moved' : Direction → ℤ}
    (hinterval : 0 < cfg.interval) (hd : moved' d = q.reported d + n)
    (hother : ∀ d', d ≠ d' → moved' d' = moved d') :
    Told cfg used0 moved' (StreamQuota.report { q with pending := update q.pending d 0 } d n) := by
  have hreported : ∀ d', (StreamQuota.report { q with pending := update q.pending d 0 }
      d n).reported d' = q.reported d' + if d = d' then n else 0 :=
    fun d' => reported_report _ d d' n
  have hpending : ∀ d', (StreamQuota.report { q with pending := update q.pending d 0 }
      d n).pending d' = if d' = d then 0 else q.pending d' :=
    fun d' => update_apply ..
  refine ⟨fun d' => ?_, ?_, fun d' => ?_, fun d' => ?_⟩
  · rw [hreported, hpending]
    by_cases hdd : d = d'
    · subst hdd
      rw [if_pos rfl, if_pos rfl, hd, add_zero]
    · rw [if_neg hdd, if_neg (Ne.symm hdd), hother d' hdd, add_zero]
      exact h.told d'
  · rw [hreported, hreported]
    show C.used (C.report d n q.counter) = _
    rw [C.used_report, h.counter]
    cases d with
    | ingress | egress => simp only [if_true, reduceCtorEq, if_false]; omega
  · rw [hpending]
    split
    · exact le_refl 0
    · exact h.nonneg d'
  · rw [hpending]
    split
    · exact hinterval
    · exact h.lt d'

theorem Told.hold (h : Told cfg used0 moved q) (hinterval : 0 < cfg.interval) (d : Direction)
    {n : ℤ} (hn : 0 ≤ n) :
    Told cfg used0 (update moved d (moved d + n)) (hold cfg q d n) := by
  have hd := h.told d
  unfold StreamQuota.hold
  split
  · refine h.report hinterval ?_ fun d' hne => update_of_ne (Ne.symm hne) ..
    rw [update_self]
    omega
  · rename_i hshort
    refine ⟨fun d' => ?_, h.counter, fun d' => ?_, fun d' => ?_⟩
    · show q.reported d' + update q.pending d (q.pending d + n) d' = _
      by_cases hdd : d' = d
      · subst hdd
        rw [update_self, update_self]
        omega
      · rw [update_of_ne hdd, update_of_ne hdd]
        exact h.told d'
    · show 0 ≤ update q.pending d (q.pending d + n) d'
      rw [update_apply]
      split
      · have := h.nonneg d
        omega
      · exact h.nonneg d'
    · show update q.pending d (q.pending d + n) d' < cfg.interval
      rw [update_apply]
      split
      · omega
      · exact h.lt d'

theorem Told.flushDirection (h : Told cfg used0 moved q) (hinterval : 0 < cfg.interval)
    (d : Direction) : Told cfg used0 moved (q.flushDirection d) := by
  have hd := h.told d
  unfold StreamQuota.flushDirection
  split
  · exact h.report hinterval hd.symm fun _ _ => rfl
  -- nothing is pending, and nothing is put in its place
  rename_i hnone
  have hzero : q.pending d = 0 := by
    have := h.nonneg d
    omega
  rwa [show update q.pending d 0 = q.pending from
    update_eq_self_iff.mpr hzero.symm]

theorem pending_flushReports (q : StreamQuota C) (d : Direction) :
    q.flushReports.pending d = 0 := by
  have hone : ∀ (q : StreamQuota C) (d d' : Direction),
      (q.flushDirection d).pending d' = if d' = d then 0 else q.pending d' := by
    intro q d d'
    unfold StreamQuota.flushDirection
    split <;> exact update_apply ..
  unfold flushReports
  rw [hone, hone]
  cases d with
  | ingress | egress => rfl

theorem flushReports_of_pending (h : ∀ d, q.pending d = 0) : q.flushReports = q := by
  have hone : ∀ d, q.flushDirection d = q := by
    intro d
    unfold StreamQuota.flushDirection
    rw [if_neg (by rw [h d]; exact lt_irrefl 0), show update q.pending d 0 = q.pending from
        update_eq_self_iff.mpr (h d).symm]
  unfold flushReports
  rw [hone, hone]

end Reports

/-! ## Checks -/

section Checks

variable {C : ByteCounter} {cfg : StreamConfig} {q : StreamQuota C} {used0 size : ℤ}

/-- **A stream that goes on was asked in time**: the next question lies ahead, and at the last one
the counter, which may lack a step for each direction and one call, was below the level. -/
structure Watched (cfg : StreamConfig) (used₀ size : ℤ) (q : StreamQuota C) : Prop where
  once : q.onceDone = q.limited
  aborts : q.aborts = if q.limited then 1 else 0
  cut : q.limited = true → Limiter.cutLevel cfg.key cfg.gracePercent ≤ used₀ + q.bytes
  ahead : q.bytes < q.next ∨ q.bytes = 0 ∧ q.next = 0
  found : q.limited = false → q.next = 0 ∨
    used₀ + (q.next - cfg.interval) - size - 2 * cfg.interval <
      Limiter.cutLevel cfg.key cfg.gracePercent

theorem account_reports (cfg : StreamConfig) (q : StreamQuota C) (n : ℤ) :
    (account cfg q n).counter = q.counter ∧ (account cfg q n).pending = q.pending ∧
      (account cfg q n).reports = q.reports := by
  unfold account check abortOnce
  simp only
  split_ifs <;> exact ⟨rfl, rfl, rfl⟩

theorem Told.account {moved : Direction → ℤ} (h : Told cfg used0 moved q) (n : ℤ) :
    Told cfg used0 moved (account cfg q n) := by
  obtain ⟨hcounter, hpending, hreports⟩ := account_reports cfg q n
  have hreported : ∀ d, (StreamQuota.account cfg q n).reported d = q.reported d := by
    intro d
    unfold StreamQuota.reported
    rw [hreports]
  refine ⟨fun d => ?_, ?_, fun d => ?_, fun d => ?_⟩
  · rw [hreported, hpending]
    exact h.told d
  · rw [hreported, hreported, hcounter]
    exact h.counter
  · rw [hpending]
    exact h.nonneg d
  · rw [hpending]
    exact h.lt d

/-- **One question**: where the counter has reached the level the stream is ended, once, and where
it has not, that is found. -/
theorem Watched.account (h : Watched cfg used0 size q) (hplan : 0 < cfg.key.plan.trafficBytes)
    (hgrace : 0 ≤ cfg.gracePercent) (hinterval : 0 < cfg.interval)
    (hlow : used0 + q.bytes - 2 * cfg.interval ≤ C.used q.counter)
    (hhigh : C.used q.counter ≤ used0 + q.bytes) {n : ℤ} (hn : 0 < n) (hsize : n ≤ size) :
    Watched cfg used0 size (account cfg q n) ∧ (account cfg q n).bytes = q.bytes + n := by
  unfold StreamQuota.account
  rw [if_neg (not_le.mpr hn)]
  simp only
  by_cases hearly : q.bytes + n < q.next
  · rw [if_pos hearly]
    refine ⟨⟨h.once, h.aborts, fun hl => ?_, .inl hearly, h.found⟩, rfl⟩
    have := h.cut hl
    show _ ≤ used0 + (q.bytes + n)
    omega
  rw [if_neg hearly]
  have hahead : q.bytes + n < q.bytes + n + cfg.interval := by omega
  unfold check
  cases hlimited : q.limited with
  | true =>
    rw [if_pos rfl]
    refine ⟨⟨?_, ?_, fun _ => ?_, .inl hahead, nofun⟩, rfl⟩
    · rw [h.once, hlimited]
    · rw [h.aborts, hlimited, if_pos rfl]
    · have := h.cut hlimited
      show _ ≤ used0 + (q.bytes + n)
      omega
  | false =>
    have honce : q.onceDone = false := by rw [h.once, hlimited]
    have haborts : q.aborts = 0 := by rw [h.aborts, hlimited]; rfl
    rw [if_neg (by simp)]
    by_cases hexceeded : Limiter.exceededAt cfg.key cfg.gracePercent (C.used q.counter) = true
    · have hlevel := (Limiter.exceededAt_iff hplan hgrace).mp hexceeded
      rw [if_neg (by rw [hexceeded]; simp)]
      unfold abortOnce
      simp only [honce, Bool.false_eq_true, if_false]
      refine ⟨⟨rfl, ?_, fun _ => ?_, .inl hahead, nofun⟩, trivial⟩
      · show q.aborts + 1 = 1
        rw [haborts]
      · show _ ≤ used0 + (q.bytes + n)
        omega
    · have hbelow : C.used q.counter < Limiter.cutLevel cfg.key cfg.gracePercent :=
        not_le.mp fun hle => hexceeded ((Limiter.exceededAt_iff hplan hgrace).mpr hle)
      rw [if_pos (by rw [Bool.not_eq_true] at hexceeded; rw [hexceeded]; rfl)]
      refine ⟨⟨?_, ?_, nofun, .inl hahead, fun _ => .inr ?_⟩, rfl⟩
      · exact honce
      · exact haborts
      · show used0 + (q.bytes + n + cfg.interval - cfg.interval) - size - 2 * cfg.interval < _
        omega

theorem Watched.hold (h : Watched cfg used0 size q) (d : Direction) (n : ℤ) :
    Watched cfg used0 size (hold cfg q d n) ∧ (hold cfg q d n).bytes = q.bytes := by
  unfold StreamQuota.hold
  split <;> exact ⟨⟨h.once, h.aborts, h.cut, h.ahead, h.found⟩, rfl⟩

end Checks

/-! ## Whole streams -/

section Runs

variable {C : ByteCounter} {cfg : StreamConfig} {q : StreamQuota C} {used0 size : ℤ}
  {moved : Direction → ℤ}

structure Streamed (cfg : StreamConfig) (used₀ size : ℤ) (moved : Direction → ℤ)
    (q : StreamQuota C) : Prop where
  told : Told cfg used₀ moved q
  watched : Watched cfg used₀ size q
  bytes : q.bytes = moved .ingress + moved .egress

theorem Streamed.moveBytes (h : Streamed cfg used0 size moved q)
    (hplan : 0 < cfg.key.plan.trafficBytes) (hgrace : 0 ≤ cfg.gracePercent)
    (hinterval : 0 < cfg.interval) (d : Direction) {n : ℤ} (hsize : n ≤ size) :
    Streamed cfg used0 size (fun d' => moved d' + if d = d' then max n 0 else 0)
      (moveBytes cfg q d n) := by
  unfold StreamQuota.moveBytes
  split
  · rename_i hn
    have hsame : (fun d' => moved d' + if d = d' then max n 0 else 0) = moved := by
      funext d'
      rw [max_eq_right hn, ite_self, add_zero]
    rwa [hsame]
  · rename_i hn
    have hpos : 0 < n := not_le.mp hn
    -- the counter lacks what is pending, which is less than a step for each direction
    have hin := h.told.told .ingress
    have heg := h.told.told .egress
    have hcounter := h.told.counter
    have hin0 := h.told.nonneg .ingress
    have heg0 := h.told.nonneg .egress
    have hin1 := h.told.lt .ingress
    have heg1 := h.told.lt .egress
    have hbytes := h.bytes
    obtain ⟨hwatched, hmoved⟩ := h.watched.account hplan hgrace hinterval (by omega) (by omega) hpos
      hsize
    obtain ⟨hwatched', hmoved'⟩ := hwatched.hold d n
    have htold := (h.told.account n).hold hinterval d hpos.le
    have hupdate : update moved d (moved d + n) =
        fun d' => moved d' + if d = d' then max n 0 else 0 := by
      funext d'
      rw [max_eq_left hpos.le]
      by_cases hdd : d = d'
      · rw [if_pos hdd, ← hdd, update_self]
      · rw [if_neg hdd, update_of_ne (Ne.symm hdd), add_zero]
    rw [hupdate] at htold
    refine ⟨htold, hwatched', ?_⟩
    rw [hmoved', hmoved, hbytes, max_eq_left hpos.le]
    cases d with
    | ingress | egress => simp only [if_true, reduceCtorEq, if_false]; omega

theorem Streamed.run (h : Streamed cfg used0 size moved q)
    (hplan : 0 < cfg.key.plan.trafficBytes) (hgrace : 0 ≤ cfg.gracePercent)
    (hinterval : 0 < cfg.interval) {calls : List (Direction × ℤ)}
    (hsize : ∀ p ∈ calls, p.2 ≤ size) :
    Streamed cfg used0 size (fun d => moved d + movedBytes calls d)
      (Prism.run (call cfg) q calls) := by
  induction calls generalizing q moved with
  | nil =>
    have hsame : (fun d => moved d + movedBytes [] d) = moved := funext fun d => add_zero (moved d)
    rwa [hsame]
  | cons p calls ih =>
    have hstep := h.moveBytes hplan hgrace hinterval p.1 (hsize p (.head _))
    have hrest := ih hstep fun p' hp' => hsize p' (.tail _ hp')
    have hsum : (fun d => moved d + movedBytes (p :: calls) d) = fun d =>
        (moved d + if p.1 = d then max p.2 0 else 0) + movedBytes calls d := by
      funext d
      show moved d + ((if p.1 = d then max p.2 0 else 0) + movedBytes calls d) = _
      rw [add_assoc]
    rw [run_cons, call_eq, hsum]
    exact hrest

theorem streamed_start (hinterval : 0 < cfg.interval) (counter : C.State) (size : ℤ) :
    Streamed cfg (C.used counter) size (fun _ => 0) { counter := counter } :=
  ⟨⟨fun _ => rfl, by show C.used counter = C.used counter + 0 + 0; omega,
    fun _ => le_refl 0, fun _ => hinterval⟩,
    ⟨rfl, rfl, nofun, .inr ⟨rfl, rfl⟩, fun _ => .inl rfl⟩, rfl⟩

end Runs

end StreamQuota

open StreamQuota

/-! ## The cut -/

/-- **A running stream is cut soon after its allowance is gone, and every byte is reported once.**
A stream with live reports, asked every `interval` bytes, whose key has an allowance, on a counter
that only its own reports change: after every sequence of calls of at most `size` bytes,

* for each direction what was reported and what is pending are what was moved;
* a flush reports exactly the rest, and a second one nothing;
* the stream was ended at most once, and not while what was used before and what was moved are below
  the level;
* it was ended, if what was moved has come to three intervals and two calls past a total at which
  the level is reached. -/
theorem stream_cut (C : ByteCounter) (cfg : StreamConfig) (counter : C.State) (size : ℕ)
    (hplan : 0 < cfg.key.plan.trafficBytes) (hgrace : 0 ≤ cfg.gracePercent)
    (hinterval : 1 ≤ cfg.interval) (calls : List (Direction × ℤ))
    (hsize : ∀ p ∈ calls, p.2 ≤ size) {q : StreamQuota C}
    (hq : q = run (StreamQuota.call cfg) { counter := counter } calls) :
    (∀ d, q.reported d + q.pending d = movedBytes calls d) ∧
      (∀ d, q.flushReports.reported d = movedBytes calls d) ∧
      q.flushReports.flushReports = q.flushReports ∧
      q.aborts ≤ 1 ∧
      (q.aborts ≠ 0 → Limiter.cutLevel cfg.key cfg.gracePercent ≤
        C.used counter + (movedBytes calls .ingress + movedBytes calls .egress)) ∧
      ∀ total : ℕ, Limiter.cutLevel cfg.key cfg.gracePercent ≤ C.used counter + total →
        total + 3 * cfg.interval + 2 * size ≤
          movedBytes calls .ingress + movedBytes calls .egress → q.aborts = 1 := by
  have hstreamed := (streamed_start hinterval counter (size : ℤ)).run hplan hgrace hinterval hsize
  rw [← hq] at hstreamed
  have hmoved : (fun d => 0 + movedBytes calls d) = movedBytes calls :=
    funext fun d => zero_add (movedBytes calls d)
  rw [hmoved] at hstreamed
  obtain ⟨htold, hwatched, hbytes⟩ := hstreamed
  have hflushed := (htold.flushDirection hinterval .ingress).flushDirection hinterval .egress
  refine ⟨htold.told, fun d => ?_, ?_, ?_, fun haborts => ?_, fun total htotal hlong => ?_⟩
  · have hrest := hflushed.told d
    rwa [show ((q.flushDirection .ingress).flushDirection .egress).pending d = 0 from
      pending_flushReports q d, add_zero] at hrest
  · exact flushReports_of_pending (pending_flushReports q)
  · rw [hwatched.aborts]
    split <;> omega
  · rw [← hbytes]
    refine hwatched.cut ?_
    by_contra hlimited
    rw [hwatched.aborts, if_neg hlimited] at haborts
    exact haborts rfl
  · rw [hwatched.aborts]
    cases hlimited : q.limited with
    | true => rfl
    | false =>
      -- the last question came within a step and a call, and would have found the level reached
      have hahead := hwatched.ahead
      have hfound := hwatched.found hlimited
      omega

def meteredKey : KeyState :=
  { keyID := "k", userID := "u", secretHash := [], scope := .proxy, status := .active,
    expiresAtNs := 0, platforms := [], userStatus := .active, userRole := .user,
    plan := { trafficBytes := 100, status := .active } }

theorem stream_cut_twelve_calls :
    (run (StreamQuota.call (C := ByteCounter.ofUser meteredKey "p" (by decide)) ⟨meteredKey, 1, 10⟩)
      { counter := ⟨{ users := fun _ => some 0 }, rfl⟩ }
      (List.replicate 12 (.ingress, 20))).aborts = 1 :=
  (stream_cut (ByteCounter.ofUser meteredKey "p" (by decide)) ⟨meteredKey, 1, 10⟩
    ⟨{ users := fun _ => some 0 }, rfl⟩ 20 (by decide) (by decide) (by decide)
    (List.replicate 12 (.ingress, 20)) (by decide) rfl).2.2.2.2.2 101 (by decide) (by decide)

end Prism
