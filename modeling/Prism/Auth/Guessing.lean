import Prism.Auth.Login

/-!
# How often a password can be guessed

`Login` asks the limiter about the account, compares the password and counts a failure, in three
critical sections of their own.  How many wrong passwords are compared in an interval as long as the
window depends on the attempts in flight: those that were let through and have not counted yet.

Fix an interval `[t, t + window)`.  While no more attempts are let through than the window has
failures left for, what was counted in it and what is in flight never exceed `maxFailures` together.
A comparison in the interval is then of one of two kinds.

* The window of the entry has not started again since `t`.  Every comparison of the interval is
  counted in the entry, or is about to be.
* It has started again.  Then it started inside the interval, so it starts again only once; and the
  window before it ended with at most `maxFailures - 1` failures, because an entry that was full is
  let go only when its block is over, and a block is as long as the interval.

So there are at most `maxFailures - 1` of the old window and `maxFailures` of the new one
(`Bounded`).
-/

namespace Prism

open AuthFailureLimiter
open Hist (did_trace)

/-- The failures counted so far. -/
def failuresOf (entry : Option FailureEntry) : ℤ := entry.elim 0 FailureEntry.failures

@[simp] theorem failuresOf_none : failuresOf none = 0 := rfl

@[simp] theorem failuresOf_some (e : FailureEntry) : failuresOf (some e) = e.failures := rfl

/-- **Where the count stands** at an instant: `count` wrong passwords were compared in the interval
`[t, t + window)`, `attempts` are in flight, and `guesses` of them have compared theirs. -/
structure Bounded (l : AuthFailureLimiter) (t now : ℤ) (entry : Option FailureEntry)
    (attempts guesses count : ℕ) : Prop where
  counted : 0 ≤ failuresOf entry
  within : guesses ≤ attempts
  room : failuresOf entry + attempts ≤ l.maxFailures
  before : now < t → count = 0
  inside : t ≤ now → now < t + l.window →
    (count ≤ failuresOf entry + guesses ∧ (l.maxFailures ≤ failuresOf entry →
        count = 0 ∨ ∃ e ∈ entry, ∃ u ∈ e.blockedUntil, t + l.window ≤ u)) ∨
      (count ≤ l.maxFailures - 1 + failuresOf entry + guesses ∧ ∀ e ∈ entry, t ≤ e.windowStart)
  after : t + l.window ≤ now → count ≤ 2 * l.maxFailures - 1

namespace Bounded

variable {l : AuthFailureLimiter} {t now : ℤ} {entry : Option FailureEntry}
  {attempts guesses count : ℕ}

theorem start (hl : 1 ≤ l.maxFailures) (hcounted : 0 ≤ failuresOf entry)
    (hfull : failuresOf entry ≤ l.maxFailures) : Bounded l t now entry 0 0 0 := by
  refine ⟨hcounted, le_refl 0, by simpa using hfull, fun _ => rfl, fun _ _ => .inl ?_, fun _ => ?_⟩
  · exact ⟨by simpa using hcounted, fun _ => .inl rfl⟩
  · simp only [Nat.cast_zero]
    omega

theorem later (h : Bounded l t now entry attempts guesses count) (hl : 1 ≤ l.maxFailures)
    {now' : ℤ} (hnow : now ≤ now') : Bounded l t now' entry attempts guesses count := by
  obtain ⟨hcounted, hwithin, hroom, hbefore, hinside, hafter⟩ := h
  refine ⟨hcounted, hwithin, hroom, fun hlt => hbefore (by omega), fun hge hlt => ?_, fun hge => ?_⟩
  · by_cases ht : t ≤ now
    · exact hinside ht (by omega)
    · have hzero : count = 0 := hbefore (by omega)
      exact .inl ⟨by omega, fun _ => .inl hzero⟩
  · by_cases hend : t + l.window ≤ now
    · exact hafter hend
    by_cases ht : t ≤ now
    · rcases hinside ht (by omega) with ⟨hcount, -⟩ | ⟨hcount, -⟩ <;> omega
    · have hzero : count = 0 := hbefore (by omega)
      omega

theorem pass (h : Bounded l t now entry attempts guesses count)
    (hroom : failuresOf entry + attempts < l.maxFailures) :
    Bounded l t now entry (attempts + 1) guesses count :=
  ⟨h.counted, Nat.le_succ_of_le h.within, by push_cast; omega, h.before, h.inside, h.after⟩

variable {e : FailureEntry}

theorem pass_expired (h : Bounded l t now (some e) attempts guesses count)
    (hexpired : l.expired now e = true) (hblocks : e.blocks now = false)
    (hroom : (attempts : ℤ) < l.maxFailures) :
    Bounded l t now none (attempts + 1) guesses count := by
  have hover : l.window ≤ now - e.windowStart := of_decide_eq_true hexpired
  refine ⟨le_refl 0, Nat.le_succ_of_le h.within, by push_cast; simp only [failuresOf_none]; omega,
    h.before, fun hge hlt => .inr ⟨?_, fun _ he => nomatch he⟩, h.after⟩
  rw [failuresOf_none]
  rcases h.inside hge hlt with ⟨hcount, hfull⟩ | ⟨-, hstart⟩
  · by_cases hm : l.maxFailures ≤ failuresOf (some e)
    · -- a full entry that lets go was filled before the interval
      rcases hfull hm with hzero | ⟨e', he', u, hu, hlate⟩
      · rw [hzero, Nat.cast_zero]
        omega
      obtain rfl : e = e' := Option.some.inj he'
      have hblocked : e.blocks now = true := by
        unfold FailureEntry.blocks
        rw [Option.mem_def.mp hu]
        exact decide_eq_true (by omega)
      rw [hblocks] at hblocked
      cases hblocked
    · omega
  · -- a window that started in the interval does not end there
    have := hstart e rfl
    omega

theorem verify (h : Bounded l t now entry attempts guesses count) (hlt : guesses < attempts) :
    Bounded l t now entry attempts (guesses + 1)
      (count + if t ≤ now ∧ now < t + l.window then 1 else 0) := by
  have hroom := h.room
  refine ⟨h.counted, hlt, hroom, fun hearly => ?_, fun hge hin => ?_, fun hlate => ?_⟩
  · rw [if_neg (by omega), Nat.add_zero]
    exact h.before hearly
  · rw [if_pos ⟨hge, hin⟩]
    rcases h.inside hge hin with ⟨hcount, -⟩ | ⟨hcount, hstart⟩
    · -- an entry with an attempt in flight is not full
      exact .inl ⟨by push_cast; omega, fun hfull => by omega⟩
    · exact .inr ⟨by push_cast; omega, hstart⟩
  · rw [if_neg (by omega), Nat.add_zero]
    exact h.after hlate

theorem blockedUntil_counting (hfull : l.maxFailures ≤ (l.counting now e).failures) :
    (l.counting now e).blockedUntil = some (now + l.blockFor) := by
  rw [counting_failures] at hfull
  unfold AuthFailureLimiter.counting
  rw [if_pos hfull]

theorem count_on (hb : l.window ≤ l.blockFor)
    (h : Bounded l t now entry (attempts + 1) (guesses + 1) count)
    (hfailures : e.failures = failuresOf entry)
    (hstart : ∀ e' ∈ entry, e.windowStart = e'.windowStart)
    (hnew : entry = none → e.windowStart = now) :
    Bounded l t now (some (l.counting now e)) attempts guesses count := by
  have hcounted := h.counted
  have hroom := h.room
  have hwithin := h.within
  push_cast at hroom
  refine ⟨?_, by omega, ?_, h.before, fun hge hlt => ?_, h.after⟩
  · rw [failuresOf_some, counting_failures]
    omega
  · rw [failuresOf_some, counting_failures]
    omega
  rcases h.inside hge hlt with ⟨hcount, -⟩ | ⟨hcount, hwindow⟩
  · refine .inl ⟨?_, fun hfull => .inr ⟨_, rfl, _, blockedUntil_counting hfull, by omega⟩⟩
    rw [failuresOf_some, counting_failures]
    push_cast at hcount
    omega
  · refine .inr ⟨?_, fun e' he' => ?_⟩
    · rw [failuresOf_some, counting_failures]
      push_cast at hcount
      omega
    · obtain rfl := Option.some.inj he'
      rw [counting_windowStart]
      cases entry with
      | none => rw [hnew rfl]; exact hge
      | some old => rw [hstart old rfl]; exact hwindow old rfl

theorem count_again (h : Bounded l t now (some e) (attempts + 1) (guesses + 1) count)
    (hexpired : l.expired now e = true) :
    Bounded l t now (some (l.counting now { e with failures := 0, windowStart := now }))
      attempts guesses count := by
  have hcounted := h.counted
  have hroom := h.room
  have hwithin := h.within
  have hover : l.window ≤ now - e.windowStart := of_decide_eq_true hexpired
  push_cast at hroom
  rw [failuresOf_some] at hcounted hroom
  have hone : failuresOf (some (l.counting now { e with failures := 0, windowStart := now })) = 1 := by
    rw [failuresOf_some, counting_failures]
    rfl
  refine ⟨by omega, by omega, by omega, h.before,
    fun hge hlt => .inr ⟨?_, fun e' he' => ?_⟩, h.after⟩
  · rw [hone]
    rcases h.inside hge hlt with ⟨hcount, -⟩ | ⟨-, hwindow⟩
    · rw [failuresOf_some] at hcount
      push_cast at hcount
      omega
    · have := hwindow e rfl
      omega
  · obtain rfl := Option.some.inj he'
    rw [counting_windowStart]
    exact hge

theorem record (hb : l.window ≤ l.blockFor)
    (h : Bounded l t now entry (attempts + 1) (guesses + 1) count) (ip : String) :
    Bounded l t now
      (some (l.counting now (entry.elim { ip := ip, windowStart := now } (l.current now))))
      attempts guesses count := by
  cases entry with
  | none =>
    exact h.count_on hb rfl (fun _ he => nomatch he) fun _ => rfl
  | some e =>
    show Bounded l t now (some (l.counting now (l.current now e))) attempts guesses count
    unfold current
    split
    · rename_i hboth
      exact h.count_again (Bool.and_eq_true_iff.mp hboth).1
    · refine h.count_on hb rfl (fun e' he' => ?_) nofun
      rw [Option.some.inj he']

theorem count_le (h : Bounded l t now entry attempts guesses count) (hl : 1 ≤ l.maxFailures) :
    (count : ℤ) ≤ 2 * l.maxFailures - 1 := by
  have hlater := h.later hl (le_max_left now (t + l.window))
  exact hlater.after (le_max_right now (t + l.window))

end Bounded

/-! ## Attempts in flight -/

variable (userID : String)

/-- An attempt is in flight from when it is let through to when its failure is counted. -/
def attemptSpan : ServerEvent → Option Bool
  | .keyChecked key false => if key = Auth.accountFailureKey userID then some true else none
  | .failureRecorded key => if key = Auth.accountFailureKey userID then some false else none
  | _ => none

/-- A wrong password was compared, and its failure is not counted yet. -/
def guessSpan : ServerEvent → Option Bool
  | .passwordVerified id false _ => if id = userID then some true else none
  | .failureRecorded key => if key = Auth.accountFailureKey userID then some false else none
  | _ => none

section Spans

variable (userID : String)

theorem attemptSpan_pass :
    attemptSpan userID (.keyChecked (Auth.accountFailureKey userID) false) = some true :=
  if_pos rfl

theorem attemptSpan_record :
    attemptSpan userID (.failureRecorded (Auth.accountFailureKey userID)) = some false :=
  if_pos rfl

theorem guessSpan_verify (atNs : ℤ) :
    guessSpan userID (.passwordVerified userID false atNs) = some true :=
  if_pos rfl

theorem guessSpan_record :
    guessSpan userID (.failureRecorded (Auth.accountFailureKey userID)) = some false :=
  if_pos rfl

variable {userID} {key : String} (hkey : key ≠ Auth.accountFailureKey userID)

include hkey

theorem attemptSpan_check_of_ne (b : Bool) : attemptSpan userID (.keyChecked key b) = none := by
  cases b with
  | true => rfl
  | false => exact if_neg hkey

theorem attemptSpan_record_of_ne : attemptSpan userID (.failureRecorded key) = none :=
  if_neg hkey

theorem guessSpan_record_of_ne : guessSpan userID (.failureRecorded key) = none :=
  if_neg hkey

end Spans

/-- A wrong password of the account was compared in the interval. -/
def ServerEvent.guesses (t t' : ℤ) : ServerEvent → Bool
  | .passwordVerified id false atNs => id = userID && t ≤ atNs && atNs < t'
  | _ => false

/-- The wrong passwords compared in `[t, t')`. -/
def guessedIn (t t' : ℤ) (trace : Trace) : ℕ :=
  trace.countP fun q => q.2.guesses userID t t'

theorem guessedIn_cons (t t' : ℤ) (i : ℕ) (e : ServerEvent)
    (trace : Trace) : guessedIn userID t t' ((i, e) :: trace) =
      guessedIn userID t t' trace + if e.guesses userID t t' then 1 else 0 :=
  List.countP_cons

/-- The failures counted against a key in the window that is not over. -/
def AuthFailureLimiter.windowFailures (l : AuthFailureLimiter) (key : String) (now : ℤ) : ℤ :=
  (l.entry key).elim 0 fun e => if l.expired now e then 0 else e.failures

/-- **Attempts are let through one by one**: only while the window has failures left for all that
are in flight.  And the table has room. -/
def LetThroughInTurn (h : PortalHistory) (_ : ℕ) : ServerEvent → Prop
  | .keyChecked key false => key = Auth.accountFailureKey userID →
      h.state.failures.windowFailures key h.state.clockNs +
        (openBy (attemptSpan userID) h.trace).length < h.state.failures.maxFailures
  | .failureRecorded _ => h.state.failures.Roomy
  | _ => True

instance (userID : String) (h : PortalHistory) (i : ℕ) (e : ServerEvent) :
    Decidable (LetThroughInTurn userID h i e) := by
  unfold LetThroughInTurn
  split <;> infer_instance

/-- The account that is attacked, how its failures are measured, and the interval. -/
structure Siege where
  db : Db
  limits : AuthFailureLimiter
  user : User
  t : ℤ
  known : user.id ≠ ""
  enabled : 1 ≤ limits.maxFailures
  long : limits.window ≤ limits.blockFor

/-- The bucket that the failures of the account are counted in. -/
abbrev Siege.key (g : Siege) : String := Auth.accountFailureKey g.user.id

/-- The tables stay, nobody attempts twice at once, and the books of the interval are in order. -/
structure Besieged (g : Siege) (h : PortalHistory) : Prop where
  db : h.state.db = g.db
  limits : SameLimits g.limits h.state.failures
  attempts : (openBy (attemptSpan g.user.id) h.trace).Nodup
  guesses : (openBy (guessSpan g.user.id) h.trace).Nodup
  inFlight : openBy (guessSpan g.user.id) h.trace ⊆ openBy (attemptSpan g.user.id) h.trace
  bounded : Bounded g.limits g.t h.state.clockNs (h.state.failures.entry g.key)
    (openBy (attemptSpan g.user.id) h.trace).length (openBy (guessSpan g.user.id) h.trace).length
    (guessedIn g.user.id g.t (g.t + g.limits.window) h.trace)

/-- Attempts are let through in turn. -/
def besieging (g : Siege) : Discipline Portal ServerEvent Mutex where
  inv := Besieged g
  may := LetThroughInTurn g.user.id
  rely i h h' := own i h'.trace = own i h.trace
  rely_refl _ _ := rfl
  rely_trans h₁ h₂ := h₂.trans h₁

theorem accountFailureKey_ne : Auth.accountFailureKey userID ≠ "" := by
  intro h
  have hlen := congrArg String.length h
  unfold Auth.accountFailureKey at hlen
  rw [String.length_append] at hlen
  exact absurd hlen (by simp)

theorem AuthFailureLimiter.SameLimits.enabled {l l' : AuthFailureLimiter} (h : SameLimits l l')
    (hl : 1 ≤ l.maxFailures) : l'.enabled = true := by
  unfold AuthFailureLimiter.enabled
  rw [h.maxFailures]
  exact decide_eq_true (by omega)

namespace AuthFailureLimiter.SameLimits

variable {l l' : AuthFailureLimiter} (h : SameLimits l l') (now : ℤ) (e : FailureEntry)

include h

theorem expired : l'.expired now e = l.expired now e := by
  unfold AuthFailureLimiter.expired
  rw [h.window]

theorem current : l'.current now e = l.current now e := by
  unfold AuthFailureLimiter.current
  rw [h.expired]

theorem counting : l'.counting now e = l.counting now e := by
  unfold AuthFailureLimiter.counting
  rw [h.maxFailures, h.blockFor]

end AuthFailureLimiter.SameLimits

section Threads

variable {g : Siege} {i : ℕ} {h k : PortalHistory} {e : ServerEvent} {p : Portal}

theorem besieging_did (hinv : Besieged g (h.did i e p)) : (besieging g).Keeps i h (h.did i e p) :=
  ⟨hinv, fun _ hj => own_cons_of_ne (Ne.symm hj) e h.trace⟩

section

variable (hk : Besieged g h)

include hk

theorem Besieged.quiet (hattempt : attemptSpan g.user.id e = none)
    (hguess : guessSpan g.user.id e = none)
    (hnot : e.guesses g.user.id g.t (g.t + g.limits.window) = false) (hdb : p.db = h.state.db)
    (hlimits : SameLimits h.state.failures p.failures)
    (hentry : p.failures.entry g.key = h.state.failures.entry g.key)
    (hclock : h.state.clockNs ≤ p.clockNs) : Besieged g (h.did i e p) := by
  have hcount : guessedIn g.user.id g.t (g.t + g.limits.window) ((i, e) :: h.trace) =
      guessedIn g.user.id g.t (g.t + g.limits.window) h.trace := by
    rw [guessedIn_cons, hnot]
    rfl
  refine ⟨hdb.trans hk.db, hk.limits.trans hlimits, ?_, ?_, ?_, ?_⟩
  · rw [did_trace, openBy_other _ _ hattempt]
    exact hk.attempts
  · rw [did_trace, openBy_other _ _ hguess]
    exact hk.guesses
  · rw [did_trace, openBy_other _ _ hattempt, openBy_other _ _ hguess]
    exact hk.inFlight
  · rw [did_trace, openBy_other _ _ hattempt, openBy_other _ _ hguess, hcount, Hist.did_state,
      hentry]
    exact hk.bounded.later g.enabled hclock

theorem Besieged.bounded_pass
    (hpass : (h.state.failures.blocked g.key h.state.clockNs).1.isSome = false)
    (hmay : h.state.failures.windowFailures g.key h.state.clockNs +
      (openBy (attemptSpan g.user.id) h.trace).length < h.state.failures.maxFailures) :
    Bounded g.limits g.t h.state.clockNs
      ((h.state.failures.blocked g.key h.state.clockNs).2.entry g.key)
      ((openBy (attemptSpan g.user.id) h.trace).length + 1)
      (openBy (guessSpan g.user.id) h.trace).length
      (guessedIn g.user.id g.t (g.t + g.limits.window) h.trace) := by
  have hbounded := hk.bounded
  rw [hk.limits.maxFailures] at hmay
  unfold windowFailures at hmay
  rcases blocked_cases (hk.limits.enabled g.enabled)
    (accountFailureKey_ne g.user.id) h.state.clockNs with ⟨hnone, hsame⟩ | ⟨e, hentry, hcases⟩
  · rw [hnone] at hmay hbounded
    rw [hsame, hnone]
    exact hbounded.pass hmay
  · rw [hentry] at hmay hbounded
    rcases hcases with ⟨-, hblocked, -⟩ | ⟨hblocks, hexpired, hdropped⟩ | ⟨-, hexpired, hsame⟩
    · rw [hpass] at hblocked
      cases hblocked
    · rw [hdropped, entry_remove_self]
      refine hbounded.pass_expired (hk.limits.expired _ _ ▸ hexpired) hblocks ?_
      simpa [hexpired] using hmay
    · rw [hsame, hentry]
      refine hbounded.pass ?_
      simpa [hexpired] using hmay

theorem Besieged.pass (hidle : i ∉ openBy (attemptSpan g.user.id) h.trace)
    (hpass : (h.state.failures.blocked g.key h.state.clockNs).1.isSome = false)
    (hmay : LetThroughInTurn g.user.id h i (.keyChecked g.key false)) :
    Besieged g (h.did i (.keyChecked g.key false) { h.state with
      failures := (h.state.failures.blocked g.key h.state.clockNs).2 }) := by
  have hbegin := attemptSpan_pass g.user.id
  have hother : guessSpan g.user.id (.keyChecked g.key false) = none := rfl
  refine ⟨hk.db, hk.limits.trans (sameLimits_blocked ..),
    nodup_openBy_begin hbegin hk.attempts hidle, ?_, ?_, ?_⟩
  · rw [did_trace, openBy_other _ _ hother]
    exact hk.guesses
  · rw [did_trace, openBy_other _ _ hother, openBy_begin _ _ hbegin]
    exact List.subset_cons_of_subset _ hk.inFlight
  · rw [did_trace, openBy_other _ _ hother, openBy_begin _ _ hbegin, List.length_cons,
      guessedIn_cons]
    exact hk.bounded_pass hpass (hmay rfl)

theorem Besieged.verify (hattempt : i ∈ openBy (attemptSpan g.user.id) h.trace)
    (hidle : i ∉ openBy (guessSpan g.user.id) h.trace) :
    Besieged g (h.did i (.passwordVerified g.user.id false h.state.clockNs) h.state) := by
  have hbegin := guessSpan_verify g.user.id h.state.clockNs
  have hother : attemptSpan g.user.id (.passwordVerified g.user.id false h.state.clockNs) = none :=
    rfl
  have hnodup := List.nodup_cons.mpr ⟨hidle, hk.guesses⟩
  have hsubset : i :: openBy (guessSpan g.user.id) h.trace ⊆ openBy (attemptSpan g.user.id) h.trace :=
    List.cons_subset.mpr ⟨hattempt, hk.inFlight⟩
  refine ⟨hk.db, hk.limits, ?_, nodup_openBy_begin hbegin hk.guesses hidle, ?_, ?_⟩
  · rw [did_trace, openBy_other _ _ hother]
    exact hk.attempts
  · rw [did_trace, openBy_other _ _ hother, openBy_begin _ _ hbegin]
    exact hsubset
  have hcount : guessedIn g.user.id g.t (g.t + g.limits.window)
      ((i, .passwordVerified g.user.id false h.state.clockNs) :: h.trace) =
        guessedIn g.user.id g.t (g.t + g.limits.window) h.trace +
          if g.t ≤ h.state.clockNs ∧ h.state.clockNs < g.t + g.limits.window then 1 else 0 := by
    rw [guessedIn_cons]
    simp [ServerEvent.guesses]
  rw [did_trace, openBy_other _ _ hother, openBy_begin _ _ hbegin, List.length_cons, hcount]
  exact hk.bounded.verify (List.subperm_of_subset hnodup hsubset).length_le

theorem Besieged.record (hguess : i ∈ openBy (guessSpan g.user.id) h.trace) :
    Besieged g (h.did i (.failureRecorded g.key) { h.state with
      failures := h.state.failures.recordFailure g.key h.state.clockNs }) := by
  have hends := attemptSpan_record g.user.id
  have hends' := guessSpan_record g.user.id
  refine ⟨hk.db, hk.limits.trans (sameLimits_recordFailure ..),
    nodup_openBy_end hends hk.attempts, nodup_openBy_end hends' hk.guesses, ?_, ?_⟩
  · rw [did_trace, openBy_end _ _ hends, openBy_end _ _ hends']
    intro j hj
    obtain ⟨hmem, hne⟩ := List.mem_filter.mp hj
    exact List.mem_filter.mpr ⟨hk.inFlight hmem, hne⟩
  · have hbounded := hk.bounded
    rw [← length_openBy_end hends hk.attempts (hk.inFlight hguess),
      ← length_openBy_end hends' hk.guesses hguess] at hbounded
    have hentry : (h.state.failures.recordFailure g.key h.state.clockNs).entry g.key =
        some (g.limits.counting h.state.clockNs ((h.state.failures.entry g.key).elim
          { ip := g.key, windowStart := h.state.clockNs }
          (g.limits.current h.state.clockNs))) := by
      rw [entry_recordFailure_self (hk.limits.enabled g.enabled)
        (accountFailureKey_ne g.user.id), hk.limits.counting]
      rw [show h.state.failures.current h.state.clockNs = g.limits.current h.state.clockNs from
        funext (hk.limits.current h.state.clockNs)]
    rw [did_trace, guessedIn_cons, Hist.did_state]
    rw [hentry]
    exact hbounded.record g.long _

end

/-- The thread has no attempt under way. -/
def Idle (g : Siege) (i : ℕ) (trace : Trace) : Prop :=
  i ∉ openBy (attemptSpan g.user.id) trace ∧ i ∉ openBy (guessSpan g.user.id) trace

theorem Idle.of_own {trace trace' : Trace} (h : Idle g i trace)
    (hown : own i trace' = own i trace) : Idle g i trace' :=
  ⟨fun hi => h.1 ((mem_openBy_of_own hown).mp hi), fun hi => h.2 ((mem_openBy_of_own hown).mp hi)⟩

variable {key : String}

theorem safe_checkBlocked {β : Type} {D : Discipline Portal ServerEvent Mutex}
    {Q : β → PortalHistory → Prop} {f : Bool → PortalTask β} (hs : ∀ k, D.rely i h k → D.inv k → ∀
      b, (k.state.failures.blocked key k.state.clockNs).1.isSome = b → D.may k i (.keyChecked key b)
      → D.Keeps i k (k.did i (.keyChecked key b) { k.state with failures :=
      (k.state.failures.blocked key k.state.clockNs).2 }) ∧ D.Safe i Q (f b) (k.did i (.keyChecked
      key b) { k.state with failures := (k.state.failures.blocked key k.state.clockNs).2 })) :
    D.Safe i Q ((Auth.checkBlocked key).bind f) h :=
  fun k hr hi hm => hs k hr hi _ rfl hm

theorem Besieged.checkOther (hk : Besieged g h) (hkey : key ≠ g.key) (b : Bool) :
    Besieged g (h.did i (.keyChecked key b) { h.state with
      failures := (h.state.failures.blocked key h.state.clockNs).2 }) :=
  hk.quiet (attemptSpan_check_of_ne hkey b) rfl rfl rfl (sameLimits_blocked ..)
    (entry_blocked_of_ne (Ne.symm hkey) _ _) (le_refl _)

theorem Besieged.refused (hk : Besieged g h)
    (hblocked : (h.state.failures.blocked g.key h.state.clockNs).1.isSome = true) :
    Besieged g (h.did i (.keyChecked g.key true) { h.state with
      failures := (h.state.failures.blocked g.key h.state.clockNs).2 }) := by
  have hsame : (h.state.failures.blocked g.key h.state.clockNs).2 = h.state.failures := by
    rcases blocked_cases (hk.limits.enabled g.enabled)
      (accountFailureKey_ne g.user.id) h.state.clockNs with ⟨-, hpass⟩ | ⟨e, -, hcases⟩
    · rw [hpass]
    · rcases hcases with ⟨-, -, hsame⟩ | ⟨-, -, hpass⟩ | ⟨-, -, hpass⟩
      · exact hsame
      · rw [hpass] at hblocked
        cases hblocked
      · rw [hpass]
  refine hk.quiet rfl rfl rfl rfl ?_ (by rw [hsame]) (le_refl _)
  rw [hsame]
  exact .refl _

theorem Besieged.recordOther (hk : Besieged g h) (hkey : key ≠ g.key)
    (hroom : h.state.failures.Roomy) :
    Besieged g (h.did i (.failureRecorded key) { h.state with
      failures := h.state.failures.recordFailure key h.state.clockNs }) :=
  hk.quiet (attemptSpan_record_of_ne hkey) (guessSpan_record_of_ne hkey) rfl rfl
    (sameLimits_recordFailure ..)
    (entry_recordFailure_of_ne (Ne.symm hkey) _ hroom) (le_refl _)

theorem safe_refuse {α : Type} {clientKey : String} {a : LoginError} (ha : a ≠ .totpRequired)
    (hkey : clientKey ≠ g.key) (hguess : i ∈ openBy (guessSpan g.user.id) h.trace) :
    (besieging g).Tame i
      (Auth.refuse clientKey g.user.id a : PortalTask (Except LoginError α)) h := by
  have haccount : ∀ k : PortalHistory, i ∈ openBy (guessSpan g.user.id) k.trace →
      (besieging g).Tame i
        (do Auth.recordAccountFailure g.user.id; pure (.error a) :
          PortalTask (Except LoginError α)) k := by
    intro k hk
    unfold Auth.recordAccountFailure Auth.recordFailure
    rw [if_neg g.known, if_neg (accountFailureKey_ne g.user.id)]
    intro m hr hinv _
    refine ⟨besieging_did (Besieged.record hinv ((mem_openBy_of_own hr).mpr hk)), ?_⟩
    exact .done
  unfold Auth.refuse Auth.recordFailure
  rw [if_neg ha]
  by_cases hempty : clientKey = ""
  · rw [if_pos hempty]
    exact haccount h hguess
  · rw [if_neg hempty]
    intro k hr hinv hroom
    refine ⟨besieging_did (Besieged.recordOther hinv hkey hroom), haccount _ ?_⟩
    rw [did_trace, openBy_other _ _ (guessSpan_record_of_ne hkey)]
    exact (mem_openBy_of_own hr).mpr hguess

theorem safe_wrongLogin (c : Crypto) (env : LoginEnv) (req : LoginRequest)
    (hrow : g.db.userNamed req.username = some g.user)
    (hwrong : c.verifyPassword g.user.passwordHash req.password = false)
    (hkey : req.clientKey ≠ g.key) (hidle : Idle g i h.trace) :
    (besieging g).Tame i (Auth.login c env req) h := by
  have haccount : ∀ k : PortalHistory, Idle g i k.trace → (besieging g).Tame i
      (Auth.loginTo c env req g.user) k := by
    intro k hk
    refine safe_checkBlocked fun m hr hinv b hb hmay => ?_
    cases b with
    | true => exact ⟨besieging_did (Besieged.refused hinv hb), fun _ _ _ => trivial⟩
    | false =>
      have hk' := hk.of_own hr
      refine ⟨besieging_did (Besieged.pass hinv hk'.1 hb hmay), fun n hr' hinv' _ => ?_⟩
      have hattempt : i ∈ openBy (attemptSpan g.user.id) n.trace := by
        refine (mem_openBy_of_own hr').mpr ?_
        rw [did_trace, openBy_begin _ _ (attemptSpan_pass g.user.id)]
        exact .head _
      have hnoguess : i ∉ openBy (guessSpan g.user.id) n.trace := by
        refine fun hmem => hk'.2 ?_
        have := (mem_openBy_of_own hr').mp hmem
        rwa [did_trace, openBy_other _ _ rfl] at this
      rw [hwrong]
      refine ⟨besieging_did (Besieged.verify hinv' hattempt hnoguess), ?_⟩
      refine safe_refuse (by simp) hkey ?_
      rw [did_trace, openBy_begin _ _ (guessSpan_verify g.user.id n.state.clockNs)]
      exact .head _
  have hnamed : ∀ (next : Option User → PortalTask (Except LoginError LoginResult))
      (k : PortalHistory), next (some g.user) = Auth.loginTo c env req g.user → Idle g i k.trace →
      (besieging g).Tame i (Auth.getUserByName req.username >>= next) k := by
    intro next k hnext hk
    refine Task.safe_query_inPortal fun m hr hinv _ => ⟨besieging_did ?_, ?_⟩
    · exact Besieged.quiet hinv rfl rfl rfl rfl (.refl _) rfl (le_refl _)
    have hdb : m.state.db = g.db := hinv.db
    rw [hdb, hrow, hnext]
    refine haccount _ ?_
    have hm := hk.of_own hr
    exact ⟨by rw [did_trace, openBy_other _ _ rfl]; exact hm.1,
      by rw [did_trace, openBy_other _ _ rfl]; exact hm.2⟩
  unfold Auth.login Auth.clientBlocked
  by_cases hempty : req.clientKey = ""
  · rw [if_pos hempty]
    exact hnamed _ h rfl hidle
  rw [if_neg hempty]
  refine safe_checkBlocked fun m hr hinv b _ _ => ⟨besieging_did (Besieged.checkOther hinv hkey b), ?_⟩
  have hm := hidle.of_own hr
  cases b with
  | true => exact .done
  | false =>
    refine hnamed _ _ rfl ⟨?_, ?_⟩
    · rw [did_trace, openBy_other _ _ (attemptSpan_check_of_ne hkey false)]
      exact hm.1
    · rw [did_trace, openBy_other _ _ rfl]
      exact hm.2

theorem safe_passing (ns : ℕ) : (besieging g).Tame i (Auth.tick ns) h := by
  refine fun k _ hinv _ => ⟨besieging_did ?_, fun _ _ _ => trivial⟩
  exact Besieged.quiet hinv rfl rfl rfl rfl (.refl _) rfl (by simp)

end Threads

/-! ## Any number of attempts -/

/-- What happens in a siege: somebody tries a password, or time passes. -/
inductive GuessCall where
  | login (env : LoginEnv) (req : LoginRequest)
  | tick (ns : ℕ)

/-- The program of a call. -/
def GuessCall.task (c : Crypto) : GuessCall → PortalTask (Option (Except LoginError LoginResult))
  | .login env req => (Auth.login c env req).bind fun a => .ret (some a)
  | .tick ns => (Auth.tick ns).bind fun _ => .ret none

/-- The call is a login to the account with a wrong password, from an address.  No address is the
bucket of the account. -/
def GuessCall.Guesses (c : Crypto) (username : String) (user : User) : GuessCall → Prop
  | .login _ req => req.username = username ∧
      c.verifyPassword user.passwordHash req.password = false ∧
      req.clientKey ≠ Auth.accountFailureKey user.id
  | .tick _ => True

theorem safe_guessCall (g : Siege) (c : Crypto) {username : String}
    (hrow : g.db.userNamed username = some g.user) {call : GuessCall}
    (hcall : call.Guesses c username g.user) (i : ℕ) (s : Portal) :
    (besieging g).Tame i (call.task c) { state := s } := by
  cases call with
  | login env req =>
    obtain ⟨hname, hwrong, hkey⟩ := hcall
    refine .bind ((safe_wrongLogin c env req (hname ▸ hrow) hwrong hkey ?_).mono ?_)
    · exact ⟨by simp, by simp⟩
    · exact fun _ _ _ _ _ _ _ => trivial
  | tick ns =>
    refine (safe_passing ns).seq ?_
    exact fun _ _ _ _ _ _ => trivial

/-- **Guessing is bounded**, in every run in which attempts are let through one by one.  Whatever
wrong passwords are tried for an account, from whatever addresses and in whatever order, at most
`2 m - 1` of them are compared in an interval as long as the window. -/
theorem guessing_bounded (c : Crypto) (s : Portal) (username : String) (user : User)
    (hrow : s.db.userNamed username = some user) (hknown : user.id ≠ "")
    (henabled : 1 ≤ s.failures.maxFailures) (hlong : s.failures.window ≤ s.failures.blockFor)
    (hentry : ∀ e ∈ s.failures.entry (Auth.accountFailureKey user.id),
      0 ≤ e.failures ∧ e.failures ≤ s.failures.maxFailures)
    (calls : List GuessCall) (hcalls : ∀ call ∈ calls, call.Guesses c username user)
    (sched : List ℕ)
    (hmeets : Along Pool.step (Pool.Meets (LetThroughInTurn user.id))
      (Pool.start s (calls.map (GuessCall.task c))) sched) (t : ℤ) :
    (guessedIn user.id t (t + s.failures.window)
      (run Pool.step (Pool.start s (calls.map (GuessCall.task c))) sched).hist.trace : ℤ) ≤
        2 * s.failures.maxFailures - 1 := by
  let g : Siege := ⟨s.db, s.failures, user, t, hknown, henabled, hlong⟩
  have hinit : Besieged g { state := s } := by
    refine ⟨rfl, .refl _, List.nodup_nil, List.nodup_nil, fun _ h => h, ?_⟩
    show Bounded s.failures t s.clockNs (s.failures.entry (Auth.accountFailureKey user.id)) 0 0 0
    cases hfound : s.failures.entry (Auth.accountFailureKey user.id) with
    | none => exact .start henabled (le_refl 0) (by simp; omega)
    | some e => exact .start henabled (hentry e hfound).1 (hentry e hfound).2
  have hstart : Discipline.Kept (besieging g) (fun _ _ _ => True)
      (Pool.start s (calls.map (GuessCall.task c))) :=
    .of_calls hinit fun i call hcall =>
      safe_guessCall g c hrow (hcalls call (List.mem_of_getElem? hcall)) i s
  exact (Discipline.run_safe hstart hmeets).inv.bounded.count_le henabled

/-- Passwords are stored as they are. -/
def barePasswords : Crypto where
  verifyPassword hash password := hash = password
  hashSessionID id := id
  codeAt _ _ := none
  pepper := none

/-- The account under attack. -/
def strictOwner : User :=
  { id := "u", username := "owner", role := .user, status := .active, passwordHash := "password" }

/-- One failure blocks for five minutes. -/
def strictPortal : Portal :=
  { db := { users := [strictOwner] }
    failures := newAuthFailureLimiter 1 60000000000 300000000000 }

/-- Two wrong passwords, from two addresses. -/
def twoGuesses : List GuessCall :=
  [.login { sessionID := none }
      { username := "owner", password := "first guess", clientKey := "192.0.2.1" },
    .login { sessionID := none }
      { username := "owner", password := "second guess", clientKey := "192.0.2.2" }]

theorem guessing_bounded_in_turn : (guessedIn "u" 0 (0 + strictPortal.failures.window)
      (run Pool.step (Pool.start strictPortal (twoGuesses.map (GuessCall.task barePasswords)))
        [0, 0, 0, 0, 0, 0, 1, 1, 1]).hist.trace : ℤ) ≤ 2 * strictPortal.failures.maxFailures - 1 :=
  guessing_bounded barePasswords strictPortal "owner" strictOwner (by decide +kernel)
    (by decide +kernel) (by decide +kernel) (by decide +kernel)
    (fun e he => absurd he (by simp [strictPortal, newAuthFailureLimiter, entry])) twoGuesses
    (by
      intro call hcall
      rcases List.mem_cons.mp hcall with rfl | hcall
      · exact ⟨rfl, rfl, by decide +kernel⟩
      · obtain rfl := List.mem_singleton.mp hcall
        exact ⟨rfl, rfl, by decide +kernel⟩)
    [0, 0, 0, 0, 0, 0, 1, 1, 1] (by decide +kernel) 0

/-- **Guesses outrun the limiter.**  Both attempts ask before either has counted its failure: both
are let through and compare a password in the same instant, where the bound is one. -/
theorem guesses_outrun_the_limiter :
    let pool := run Pool.step
      (Pool.start strictPortal (twoGuesses.map (GuessCall.task barePasswords)))
      [0, 0, 0, 1, 1, 1, 0, 1, 0, 0, 1, 1]
    pool.answers = [some (some (.error .invalidCredentials)),
        some (some (.error .invalidCredentials))] ∧
      guessedIn "u" 0 (0 + strictPortal.failures.window) pool.hist.trace = 2 ∧
      2 * strictPortal.failures.maxFailures - 1 = 1 := by
  decide +kernel

end Prism
