import Prism.Foundation.Table
import Mathlib.Tactic.Linarith

/-!
# The failure limiter

`internal/api/rate_limiter.go`.  Failed authentications are counted for every key: a client address,
or an account.  A key that collects `maxFailures` of them inside `window` is blocked for `blockFor`.

The window of an entry is not moved by a clock.  It is looked at when the key is: `Blocked` drops an
entry whose window and block are both over, and `RecordFailure` starts a new window in its place.
The two do not agree to the instant (`Blocked` lets go at the end of a block, `RecordFailure` just
after it), and both are kept as the source has them.
-/

namespace Prism

open Table

/-- The failures of one key, in the window that runs for it. -/
structure FailureEntry where
  ip : String
  failures : ℤ := 0
  windowStart : ℤ
  /-- the zero time of the source is `none` -/
  blockedUntil : Option ℤ := none

/-- The limits, and the entries in the order they were last counted: the one to be evicted first is
at the head, so that the map and the list of the source are one list. -/
structure AuthFailureLimiter where
  maxFailures : ℤ := 10
  window : ℤ := 60000000000
  blockFor : ℤ := 300000000000
  maxEntries : ℕ := 65536
  entries : List FailureEntry := []

/-- A window or a block that is not positive is replaced by the usual one. -/
def newAuthFailureLimiter (maxFailures window blockFor : ℤ) : AuthFailureLimiter where
  maxFailures := maxFailures
  window := if window ≤ 0 then 60000000000 else window
  blockFor := if blockFor ≤ 0 then 300000000000 else blockFor

/-- The key is blocked. -/
def FailureEntry.blocks (e : FailureEntry) (now : ℤ) : Bool :=
  e.blockedUntil.any fun t => now < t

/-- The block is over, by more than an instant. -/
def FailureEntry.released (e : FailureEntry) (now : ℤ) : Bool :=
  e.blockedUntil.all fun t => t < now

namespace AuthFailureLimiter

variable (l : AuthFailureLimiter)

/-- A limiter with no failures to allow counts none. -/
def enabled : Bool := 0 < l.maxFailures

/-- The entry of a key. -/
def entry (ip : String) : Option FailureEntry :=
  lookup FailureEntry.ip ip l.entries

/-- The window is over. -/
def expired (now : ℤ) (e : FailureEntry) : Bool :=
  l.window ≤ now - e.windowStart

/-- Drop the entry of a key. -/
def remove (ip : String) : AuthFailureLimiter :=
  { l with entries := l.entries.filter fun e => e.ip ≠ ip }

/-- Whether a key is blocked, and for how much longer.  An entry that says nothing any more is
dropped on the way. -/
def blocked (ip : String) (now : ℤ) (l : AuthFailureLimiter) : Option ℤ × AuthFailureLimiter :=
  if !l.enabled || ip = "" then (none, l)
  else
    match l.entry ip with
    | none => (none, l)
    | some e =>
      if e.blocks now then (e.blockedUntil.map fun t => t - now, l)
      else if l.expired now e then (none, l.remove ip)
      else (none, l)

/-- Evict the oldest entry if there is no room. -/
def roomForOne : List FailureEntry :=
  if 0 < l.maxEntries ∧ l.maxEntries ≤ l.entries.length then l.entries.tail else l.entries

/-- The entry a failure is counted in: a window that is over starts again. -/
def current (now : ℤ) (e : FailureEntry) : FailureEntry :=
  if l.expired now e && e.released now then { e with failures := 0, windowStart := now } else e

/-- One more failure; the last that is allowed starts a block. -/
def counting (now : ℤ) (e : FailureEntry) : FailureEntry :=
  if l.maxFailures ≤ e.failures + 1 then
    { e with failures := e.failures + 1, blockedUntil := some (now + l.blockFor) }
  else { e with failures := e.failures + 1 }

/-- `RecordFailure`: a window that is over starts again. -/
def recordFailure (ip : String) (now : ℤ) (l : AuthFailureLimiter) : AuthFailureLimiter :=
  if !l.enabled || ip = "" then l
  else
    match l.entry ip with
    | none => { l with entries := l.roomForOne ++ [l.counting now { ip := ip, windowStart := now }] }
    | some e => { l with
        entries := (l.remove ip).entries ++ [l.counting now (l.current now e)] }

/-- `Reset`. -/
def reset (key : String) (l : AuthFailureLimiter) : AuthFailureLimiter :=
  if key = "" then l else l.remove key

/-- Counting a new key evicts nobody. -/
def Roomy : Prop := l.maxEntries = 0 ∨ l.entries.length < l.maxEntries
  deriving Decidable

/-- The limits are never changed. -/
structure SameLimits (l l' : AuthFailureLimiter) : Prop where
  maxFailures : l'.maxFailures = l.maxFailures
  window : l'.window = l.window
  blockFor : l'.blockFor = l.blockFor

variable (l : AuthFailureLimiter)

theorem SameLimits.refl : SameLimits l l := ⟨rfl, rfl, rfl⟩

variable {l : AuthFailureLimiter}

theorem SameLimits.trans {l' l'' : AuthFailureLimiter} (h : SameLimits l l')
    (h' : SameLimits l' l'') : SameLimits l l'' :=
  ⟨h'.maxFailures.trans h.maxFailures, h'.window.trans h.window, h'.blockFor.trans h.blockFor⟩

variable (ip : String)

theorem sameLimits_blocked (now : ℤ) (l : AuthFailureLimiter) :
    SameLimits l (l.blocked ip now).2 := by
  unfold blocked
  split
  · exact .refl l
  split
  · exact .refl l
  · split
    · exact .refl l
    · split
      · exact ⟨rfl, rfl, rfl⟩
      · exact .refl l

theorem sameLimits_recordFailure (now : ℤ) (l : AuthFailureLimiter) :
    SameLimits l (l.recordFailure ip now) := by
  unfold recordFailure
  split
  · exact .refl l
  · split <;> exact ⟨rfl, rfl, rfl⟩

variable {ip key : String}

theorem entry_remove_of_ne (h : key ≠ ip) : (l.remove ip).entry key = l.entry key := by
  unfold entry remove lookup
  rw [List.find?_filter]
  refine congrArg (fun p => List.find? p l.entries) (funext fun e => ?_)
  by_cases he : e.ip = key
  · simp [he, h]
  · simp [he]

@[simp] theorem entry_remove_self : (l.remove ip).entry ip = none :=
  (lookup_eq_none_iff _).mpr fun _ he => of_decide_eq_true (List.mem_filter.mp he).2

theorem ip_of_entry {e : FailureEntry} (h : l.entry ip = some e) : e.ip = ip :=
  key_of_lookup h

variable (now : ℤ) (e : FailureEntry)

@[simp] theorem current_ip : (l.current now e).ip = e.ip := by
  unfold current
  split <;> rfl

@[simp] theorem counting_ip : (l.counting now e).ip = e.ip := by
  unfold counting
  split <;> rfl

@[simp] theorem counting_windowStart : (l.counting now e).windowStart = e.windowStart := by
  unfold counting
  split <;> rfl

@[simp] theorem counting_failures : (l.counting now e).failures = e.failures + 1 := by
  unfold counting
  split <;> rfl

theorem entry_blocked_of_ne (h : key ≠ ip) (now : ℤ) (l : AuthFailureLimiter) :
    (l.blocked ip now).2.entry key = l.entry key := by
  unfold blocked
  split
  · rfl
  split
  · rfl
  · split
    · rfl
    · split
      · exact entry_remove_of_ne h
      · rfl

/-- **What asking about a key finds**: no entry; an entry that blocks; one that is over, and is
dropped; or one whose window goes on. -/
theorem blocked_cases (hl : l.enabled = true) (hip : ip ≠ "") (now : ℤ) :
    (l.entry ip = none ∧ l.blocked ip now = (none, l)) ∨ ∃ e, l.entry ip = some e ∧
        ((e.blocks now = true ∧ (l.blocked ip now).1.isSome = true ∧ (l.blocked ip now).2 = l) ∨
          (e.blocks now = false ∧ l.expired now e = true ∧ l.blocked ip now = (none, l.remove ip)) ∨
          (e.blocks now = false ∧ l.expired now e = false ∧ l.blocked ip now = (none, l))) := by
  have hgo : (!l.enabled || decide (ip = "")) = false := by simp [hl, hip]
  unfold blocked
  simp only [hgo, Bool.false_eq_true, if_false]
  cases hentry : l.entry ip with
  | none => exact .inl ⟨rfl, rfl⟩
  | some e =>
    refine .inr ⟨e, rfl, ?_⟩
    cases hblocks : e.blocks now with
    | true =>
      refine Or.inl ⟨rfl, ?_, by simp [hblocks]⟩
      cases huntil : e.blockedUntil with
      | none => exact absurd hblocks (by simp [FailureEntry.blocks, huntil])
      | some t => simp [hblocks, huntil]
    | false =>
      cases hexpired : l.expired now e with
      | true => exact Or.inr (Or.inl ⟨rfl, rfl, by simp [hblocks, hexpired]⟩)
      | false => exact Or.inr (Or.inr ⟨rfl, rfl, by simp [hblocks, hexpired]⟩)

theorem entry_recordFailure_of_ne (h : key ≠ ip) (now : ℤ) (hroom : l.Roomy) :
    (l.recordFailure ip now).entry key = l.entry key := by
  have hrest : ∀ (rows : List FailureEntry) (e : FailureEntry), e.ip = ip →
      lookup FailureEntry.ip key (rows ++ [e]) = lookup FailureEntry.ip key rows := by
    intro rows e he
    rw [lookup_append, lookup_cons, if_neg (he ▸ Ne.symm h), lookup_nil, Option.or_none]
  unfold recordFailure
  split
  · rfl
  split
  · have hroom' : l.roomForOne = l.entries := by
      refine if_neg fun hfull => ?_
      rcases hroom with hzero | hless
      · exact absurd hfull.1 (by simp [hzero])
      · exact absurd hfull.2 (not_le.mpr hless)
    show lookup FailureEntry.ip key (l.roomForOne ++ [_]) = _
    rw [hrest _ _ (by simp), hroom']
    rfl
  · rename_i e he
    show lookup FailureEntry.ip key ((l.remove ip).entries ++ [_]) = _
    rw [hrest _ _ (by simp [ip_of_entry he])]
    exact entry_remove_of_ne h

theorem entry_recordFailure_self (hl : l.enabled = true) (hip : ip ≠ "") (now : ℤ) :
    (l.recordFailure ip now).entry ip = some (l.counting now
      ((l.entry ip).elim { ip := ip, windowStart := now } (l.current now))) := by
  have hgo : (!l.enabled || decide (ip = "")) = false := by simp [hl, hip]
  have hlast : ∀ (rows : List FailureEntry) (e : FailureEntry), (∀ r ∈ rows, r.ip ≠ ip) →
      e.ip = ip → lookup FailureEntry.ip ip (rows ++ [e]) = some e := by
    intro rows e hrows he
    rw [lookup_append, (lookup_eq_none_iff _).mpr hrows, lookup_cons, if_pos he]
    rfl
  unfold recordFailure
  simp only [hgo, Bool.false_eq_true, if_false]
  cases hentry : l.entry ip with
  | none =>
    have hnone : ∀ r ∈ l.entries, r.ip ≠ ip := (lookup_eq_none_iff _).mp hentry
    refine hlast _ _ (fun r hr => hnone r ?_) (by simp)
    unfold roomForOne at hr
    split at hr
    · exact List.mem_of_mem_tail hr
    · exact hr
  | some e =>
    refine hlast _ _ (fun r hr => ?_) (by simp [ip_of_entry hentry])
    exact of_decide_eq_true (List.mem_filter.mp hr).2

end AuthFailureLimiter

end Prism
