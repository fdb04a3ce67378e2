import Prism.Foundation.Run
import Mathlib.Data.List.Nodup

/-!
# The request log on its way to the database

The flush loop of `internal/requestlog/service.go`.  Entries are taken from the queue into a batch,
and a batch is offered to `InsertBatch`, which stores all of it or nothing.  What was refused waits
in a buffer and goes in front of the next batch.  A buffer that is refused too often in a row is
given up, and one that has grown too long loses its oldest entries.

Entries settle in the order they were taken, so nothing gets lost on the way.  The refusals are
counted for the buffer and not for its entries: an entry that joins an old one is given up with it.
-/

namespace Prism

/-- The sizes the service was made with, defaulted where they are not positive, and which calls of
`InsertBatch` fail. -/
structure LogConfig where
  queueSize : Int
  flushBatch : Int
  maxFlushAttempts : Int
  fails : ℕ → Bool

namespace LogConfig

variable (cfg : LogConfig)

def queueCap : ℕ := if cfg.queueSize ≤ 0 then 8192 else cfg.queueSize.toNat

def batchSize : ℕ := if cfg.flushBatch ≤ 0 then 4096 else cfg.flushBatch.toNat

def attemptLimit : ℕ := if cfg.maxFlushAttempts ≤ 0 then 6 else cfg.maxFlushAttempts.toNat

def retryBufferLimit : ℕ := cfg.queueCap + cfg.batchSize

theorem attemptLimit_pos : 0 < cfg.attemptLimit := by
  unfold attemptLimit
  split <;> omega

theorem retryBufferLimit_pos : 0 < cfg.retryBufferLimit := by
  unfold retryBufferLimit batchSize
  split <;> omega

end LogConfig

/-- A call of `InsertBatch`: what it was offered from the buffer and beside it. -/
structure LogOffer (ε : Type) where
  waiting : List ε
  fresh : List ε
  failed : Bool

/-- The service and the repository behind it.  What was taken from the queue, the calls made, newest
first, and the entries given up are history. -/
structure LogService (ε : Type) where
  batch : List ε := []
  retry : List ε := []
  retryAttempts : ℕ := 0
  dropped : ℕ := 0
  stored : List ε := []
  taken : List ε := []
  offers : List (LogOffer ε) := []
  givenUp : List ε := []

/-- What wakes the flush loop. -/
inductive LogEvent (ε : Type) where
  | arrival (entry : ε)
  | tick
  | barrier (queued : List ε)
  | retry

/-- The entries the event takes from the queue. -/
def LogEvent.entries {ε : Type} : LogEvent ε → List ε
  | .arrival entry => [entry]
  | .barrier queued => queued
  | .tick | .retry => []

namespace LogService

variable {ε : Type} (cfg : LogConfig) (s : LogService ε)

def clearRetry : LogService ε := { s with retry := [], retryAttempts := 0 }

variable (entries : List ε)

/-- The entries are dropped. -/
def giveUp : LogService ε :=
  { s.clearRetry with
    dropped := s.dropped + entries.length
    givenUp := s.givenUp ++ entries }

/-- The entries wait for another offer. -/
def requeue : LogService ε :=
  let s := { s with retryAttempts := s.retryAttempts + 1 }
  if cfg.attemptLimit ≤ s.retryAttempts then s.giveUp entries
  else
    let overflow := entries.length - cfg.retryBufferLimit
    { s with retry := entries.drop overflow, dropped := s.dropped + overflow }

/-- One offer to `InsertBatch`. -/
def flush : LogService ε :=
  let pending := s.retry ++ entries
  if pending.isEmpty then s
  else
    let failed := cfg.fails s.offers.length
    let s := { s with retry := [], offers := ⟨s.retry, entries, failed⟩ :: s.offers }
    if failed then s.requeue cfg pending
    else { s.clearRetry with stored := s.stored ++ pending }

def flushRetry : LogService ε :=
  if s.retry.isEmpty then s.clearRetry else { s with retry := [] }.flush cfg s.retry

def flushBatch : LogService ε := { s.flush cfg s.batch with batch := [] }

def push (entry : ε) : LogService ε :=
  { s with batch := s.batch ++ [entry], taken := s.taken ++ [entry] }

/-- An entry from the queue. -/
def take (entry : ε) : LogService ε :=
  let s := s.push entry
  if cfg.batchSize ≤ s.batch.length then s.flushBatch cfg else s

def flushIfAny : LogService ε := if s.batch.isEmpty then s else s.flushBatch cfg

def abandon : LogService ε := { s.clearRetry with dropped := s.dropped + s.retry.length }

/-- One turn of the loop.  A barrier takes what is queued by then. -/
def step (s : LogService ε) : LogEvent ε → LogService ε
  | .arrival entry => s.take cfg entry
  | .tick => s.flushIfAny cfg
  | .barrier queued => (run (take cfg) s queued).flushIfAny cfg
  | .retry => s.flushRetry cfg

/-- The last turn takes what is queued, and what cannot be written then is dropped. -/
def drainAndFlush (queued : List ε) : LogService ε :=
  ((run (take cfg) s queued).flushBatch cfg).abandon

variable {cfg s} {I : LogService ε → Prop}

/-- **What the moves of the loop keep, every run keeps**, and the last turn up to its end. -/
theorem run_keeps (hpush : ∀ s e, I s → I (s.push e)) (hflush : ∀ s, I s → I (s.flushBatch cfg))
    (hretry : ∀ s, I s → I (s.flushRetry cfg)) (h : I s) (events : List (LogEvent ε)) :
    I (run (step cfg) s events) ∧
      ∀ queued, I ((run (take cfg) (run (step cfg) s events) queued).flushBatch cfg) := by
  have htake : ∀ s e, I s → I (s.take cfg e) := by
    intro s e hs
    unfold take
    dsimp only
    split
    · exact hflush _ (hpush s e hs)
    · exact hpush s e hs
  have hany : ∀ s, I s → I (s.flushIfAny cfg) := by
    intro s hs
    unfold flushIfAny
    split
    · exact hs
    · exact hflush s hs
  have hrun : I (run (step cfg) s events) := by
    refine run_invariant (fun s event hs => ?_) h events
    cases event with
    | arrival entry => exact htake s entry hs
    | tick => exact hany s hs
    | barrier queued => exact hany _ (run_invariant htake hs queued)
    | retry => exact hretry s hs
  exact ⟨hrun, fun queued => hflush _ (run_invariant htake hrun queued)⟩

def offered (s : LogService ε) (entries : List ε) (failed : Bool) : LogService ε :=
  { s with retry := [], offers := ⟨s.retry, entries, failed⟩ :: s.offers }

theorem flush_cases (cfg : LogConfig) (s : LogService ε) (entries : List ε) :
    s.retry ++ entries = [] ∧ s.flush cfg entries = s ∨
    s.flush cfg entries =
      { (s.offered entries false).clearRetry with stored := s.stored ++ (s.retry ++ entries) } ∨
    cfg.attemptLimit ≤ s.retryAttempts + 1 ∧
      s.flush cfg entries = (s.offered entries true).giveUp (s.retry ++ entries) ∨
    s.retryAttempts + 1 < cfg.attemptLimit ∧ s.retry ++ entries ≠ [] ∧
      s.flush cfg entries = { s.offered entries true with
        retryAttempts := s.retryAttempts + 1
        retry := (s.retry ++ entries).drop
          ((s.retry ++ entries).length - cfg.retryBufferLimit)
        dropped := s.dropped + ((s.retry ++ entries).length - cfg.retryBufferLimit) } := by
  unfold flush requeue
  by_cases hempty : s.retry ++ entries = []
  · exact .inl ⟨hempty, by simp [hempty]⟩
  refine .inr ?_
  simp only [List.isEmpty_iff, hempty, if_false]
  cases cfg.fails s.offers.length with
  | false => exact .inl rfl
  | true =>
    by_cases hlimit : cfg.attemptLimit ≤ s.retryAttempts + 1
    · exact .inr (.inl ⟨hlimit, by simp only [if_pos, hlimit]; rfl⟩)
    · refine .inr (.inr ⟨Nat.lt_of_not_le hlimit, hempty, ?_⟩)
      simp only [if_true, hlimit, if_false]
      rfl

theorem batch_flush : (s.flush cfg entries).batch = s.batch := by
  rcases flush_cases cfg s entries with ⟨-, hf⟩ | hf | ⟨-, hf⟩ | ⟨-, -, hf⟩ <;> rw [hf] <;> rfl

/-! ## What is taken -/

theorem taken_flush : (s.flush cfg entries).taken = s.taken := by
  rcases flush_cases cfg s entries with ⟨-, hf⟩ | hf | ⟨-, hf⟩ | ⟨-, -, hf⟩ <;> rw [hf] <;> rfl

theorem taken_flushIfAny : (s.flushIfAny cfg).taken = s.taken := by
  unfold flushIfAny
  split
  · rfl
  · exact taken_flush s.batch

theorem taken_run_take (s : LogService ε) (queued : List ε) :
    (run (take cfg) s queued).taken = s.taken ++ queued := by
  refine (run_gathers (f := taken) (g := fun e => [e]) (fun s e => ?_) s queued).trans (by simp)
  unfold take
  dsimp only
  split
  · exact taken_flush (s.push e).batch
  · rfl

/-- The entries taken are those of the events, in their order. -/
theorem taken_run (s : LogService ε) (events : List (LogEvent ε)) :
    (run (step cfg) s events).taken = s.taken ++ events.flatMap LogEvent.entries := by
  refine run_gathers (fun s event => ?_) s events
  cases event with
  | arrival entry => exact taken_run_take s [entry]
  | tick => exact taken_flushIfAny.trans (List.append_nil _).symm
  | barrier queued => exact taken_flushIfAny.trans (taken_run_take s queued)
  | retry =>
    refine Eq.trans ?_ (List.append_nil _).symm
    unfold step flushRetry
    dsimp only
    split
    · rfl
    · exact taken_flush s.retry

/-! ## Nothing is lost -/

/-- The entries taken are settled but for the rest, each of them stored or dropped. -/
def Settles (s : LogService ε) (rest : List ε) : Prop :=
  ∃ settled : List (ε × Bool), s.taken = settled.map Prod.fst ++ rest ∧
    s.stored = (settled.filter Prod.snd).map Prod.fst ∧
    s.dropped = (settled.filter fun p => !p.2).length

theorem Settles.settle {s' : LogService ε} {l rest : List ε} (h : s.Settles (l ++ rest)) (b : Bool)
    (htaken : s'.taken = s.taken) (hstored : s'.stored = s.stored ++ if b then l else [])
    (hdropped : s'.dropped = s.dropped + if b then 0 else l.length) : s'.Settles rest := by
  obtain ⟨settled, h1, h2, h3⟩ := h
  refine ⟨settled ++ l.map fun e => (e, b), ?_, ?_, ?_⟩
  · simp [htaken, h1, Function.comp_def]
  · cases b <;> simp [hstored, h2, List.filter_map, Function.comp_def]
  · cases b <;> simp [hdropped, h3, List.filter_map, Function.comp_def]

theorem Settles.flush {entries rest : List ε} (h : s.Settles (s.retry ++ entries ++ rest)) :
    (s.flush cfg entries).Settles ((s.flush cfg entries).retry ++ rest) := by
  rcases flush_cases cfg s entries with ⟨hempty, hf⟩ | hf | ⟨-, hf⟩ | ⟨-, -, hf⟩
  · rw [hempty] at h
    rwa [hf, (List.append_eq_nil_iff.mp hempty).1]
  · rw [hf]
    exact h.settle true rfl rfl rfl
  · rw [hf]
    exact h.settle false rfl (by simp [giveUp, clearRetry, offered]) rfl
  · rw [hf]
    -- the oldest go, and the others stay in the buffer
    set overflow := (s.retry ++ entries).length - cfg.retryBufferLimit with hover
    have hsplit : s.Settles ((s.retry ++ entries).take overflow ++
        ((s.retry ++ entries).drop overflow ++ rest)) := by
      rwa [← List.append_assoc, List.take_append_drop]
    refine hsplit.settle false rfl (by simp [offered]) ?_
    have hle : overflow ≤ (s.retry ++ entries).length := Nat.sub_le _ _
    simp [-List.length_append, hle]

theorem length_retry_flush (h : s.retry.length ≤ cfg.retryBufferLimit) (entries : List ε) :
    (s.flush cfg entries).retry.length ≤ cfg.retryBufferLimit := by
  rcases flush_cases cfg s entries with ⟨-, hf⟩ | hf | ⟨-, hf⟩ | ⟨-, -, hf⟩
  · rwa [hf]
  · simp [hf, clearRetry]
  · simp [hf, giveUp, clearRetry]
  · rw [hf]
    simp only [List.length_drop]
    omega

/-- **The invariant**. -/
structure Accounted (cfg : LogConfig) (s : LogService ε) : Prop where
  settles : s.Settles (s.retry ++ s.batch)
  bounded : s.retry.length ≤ cfg.queueCap + cfg.batchSize

theorem Accounted.push (h : s.Accounted cfg) (e : ε) : (s.push e).Accounted cfg := by
  obtain ⟨⟨settled, htaken, hrest⟩, hbound⟩ := h
  refine ⟨⟨settled, ?_, hrest⟩, hbound⟩
  simp [LogService.push, htaken]

theorem Accounted.flushBatch (h : s.Accounted cfg) : (s.flushBatch cfg).Accounted cfg := by
  have hsettles : s.Settles (s.retry ++ s.batch ++ []) := by simpa using h.settles
  exact ⟨hsettles.flush, length_retry_flush h.bounded s.batch⟩

theorem Accounted.flushRetry (h : s.Accounted cfg) : (s.flushRetry cfg).Accounted cfg := by
  unfold LogService.flushRetry
  split
  · rename_i hempty
    have hsettles := h.settles
    rw [List.isEmpty_iff.mp hempty] at hsettles
    exact ⟨hsettles, Nat.zero_le _⟩
  · refine ⟨?_, length_retry_flush (Nat.zero_le _) s.retry⟩
    rw [batch_flush]
    exact Settles.flush (s := { s with retry := [] }) h.settles

/-- **No request-log entry disappears unaccounted.**  Between any two events, and when the loop has
ended, the entries of the events are those that were stored or dropped, in order, then the buffer,
then the batch; and in the end the last two are empty. -/
theorem entries_accounted (cfg : LogConfig) (events : List (LogEvent ε)) :
    let s : LogService ε := run (step cfg) {} events
    s.Accounted cfg ∧ s.taken = events.flatMap LogEvent.entries ∧
      ∀ queued, (s.drainAndFlush cfg queued).Accounted cfg ∧
        (s.drainAndFlush cfg queued).taken = events.flatMap LogEvent.entries ++ queued ∧
        (s.drainAndFlush cfg queued).batch = [] ∧ (s.drainAndFlush cfg queued).retry = [] := by
  have hstart : Accounted cfg ({} : LogService ε) := ⟨⟨[], rfl, rfl, rfl⟩, Nat.zero_le _⟩
  obtain ⟨hrun, hend⟩ := run_keeps (I := Accounted cfg) (fun s e h => h.push e)
    (fun s h => h.flushBatch) (fun s h => h.flushRetry) hstart events
  have htaken : (run (step cfg) {} events).taken = [] ++ events.flatMap LogEvent.entries :=
    taken_run {} events
  refine ⟨hrun, htaken, fun queued => ⟨⟨?_, Nat.zero_le _⟩, ?_, rfl, rfl⟩⟩
  · exact (hend queued).settles.settle false rfl
      (by simp [drainAndFlush, abandon, clearRetry]) rfl
  · -- the last flush and what it abandons take nothing
    refine (taken_flush _).trans ?_
    rw [taken_run_take, htaken]
    rfl

/-! ## Attempts -/

/-- How many refused calls offered the entry. -/
def refusals [DecidableEq ε] (s : LogService ε) (e : ε) : ℕ :=
  s.offers.countP fun o => o.failed && decide (e ∈ o.waiting ++ o.fresh)

/-- The entries are told apart, and no call offered old and new ones together. -/
def Unmixed (s : LogService ε) : Prop :=
  s.taken.Nodup ∧ ∀ o ∈ s.offers, o.waiting = [] ∨ o.fresh = []

theorem Unmixed.of_flush {entries : List ε} (h : (s.flush cfg entries).Unmixed) :
    s.Unmixed ∧ (s.retry = [] ∨ entries = []) := by
  rcases flush_cases cfg s entries with ⟨hempty, hf⟩ | hf | ⟨-, hf⟩ | ⟨-, -, hf⟩ <;> rw [hf] at h
  · exact ⟨h, .inl (List.append_eq_nil_iff.mp hempty).1⟩
  all_goals
    obtain ⟨hnodup, hoffers⟩ := h
    exact ⟨⟨hnodup, fun o ho => hoffers o (List.mem_cons_of_mem _ ho)⟩,
      hoffers _ List.mem_cons_self⟩

variable [DecidableEq ε]

structure Counted (cfg : LogConfig) (s : LogService ε) (waiting fresh : List ε) : Prop where
  old : ∀ e ∈ waiting, s.refusals e = s.retryAttempts
  idle : waiting = [] → s.retryAttempts = 0
  below : s.retryAttempts < cfg.attemptLimit
  new : ∀ e ∈ fresh, s.refusals e = 0
  unseen : ∀ e ∉ s.taken, s.refusals e = 0
  givenUp : ∀ e ∈ s.givenUp, s.refusals e = cfg.attemptLimit
  sublist : (s.givenUp ++ waiting ++ fresh).Sublist s.taken

theorem refusals_offered (failed : Bool) (e : ε) :
    (s.offered entries failed).refusals e =
      s.refusals e + if failed ∧ e ∈ s.retry ++ entries then 1 else 0 := by
  simp [refusals, offered, List.countP_cons]

theorem Counted.flush {entries rest : List ε} (h : s.Counted cfg (s.retry ++ entries) rest)
    (hnodup : s.taken.Nodup) :
    (s.flush cfg entries).Counted cfg (s.flush cfg entries).retry rest := by
  obtain ⟨hwaiting, hidle, hbelow, hfresh, hunseen, hgiven, hsub⟩ := h
  have hold := hsub.nodup hnodup
  simp only [List.nodup_append] at hold
  obtain ⟨⟨-, -, hgu⟩, -, hrest⟩ := hold
  -- only what was offered is counted again
  have hother : ∀ {b e}, e ∉ s.retry ++ entries → (s.offered entries b).refusals e = s.refusals e :=
    fun {b e} he => by simp [refusals_offered, he]
  have hfresh' : ∀ b, ∀ e ∈ rest, (s.offered entries b).refusals e = 0 := fun b e he =>
    (hother fun hp => hrest e (List.mem_append_right _ hp) e he rfl).trans (hfresh e he)
  have hunseen' : ∀ b, ∀ e ∉ s.taken, (s.offered entries b).refusals e = 0 := fun b e he =>
    (hother fun hp => he (hsub.subset (List.mem_append_left _ (List.mem_append_right _ hp)))).trans
      (hunseen e he)
  have hgiven' : ∀ b, ∀ e ∈ s.givenUp, (s.offered entries b).refusals e = cfg.attemptLimit :=
    fun b e he => (hother fun hp => hgu e he e hp rfl).trans (hgiven e he)
  have hpending : ∀ e ∈ s.retry ++ entries,
      (s.offered entries true).refusals e = s.retryAttempts + 1 := fun e he => by
    simp [refusals_offered, List.mem_append.mp he, hwaiting e he]
  have hkept : ∀ {l}, List.Sublist l (s.retry ++ entries) → List.Sublist (s.givenUp ++ l ++ rest)
      (s.givenUp ++ (s.retry ++ entries) ++ rest) :=
    fun hl => ((List.Sublist.refl s.givenUp).append hl).append (.refl rest)
  rcases flush_cases cfg s entries with ⟨hempty, hf⟩ | hf | ⟨hlimit, hf⟩ | ⟨hlimit, hne, hf⟩
  · rw [hf, (List.append_eq_nil_iff.mp hempty).1]
    rw [hempty] at hwaiting hidle hsub
    exact ⟨hwaiting, hidle, hbelow, hfresh, hunseen, hgiven, hsub⟩
  · rw [hf]
    refine ⟨by simp [clearRetry], fun _ => rfl, cfg.attemptLimit_pos, hfresh' _, hunseen' _,
      hgiven' _, ?_⟩
    exact (hkept (List.nil_sublist _)).trans hsub
  · rw [hf]
    refine ⟨by simp [giveUp, clearRetry], fun _ => rfl, cfg.attemptLimit_pos, hfresh' _, hunseen' _,
      fun e he => ?_, by simpa [giveUp, clearRetry, offered] using hsub⟩
    rcases List.mem_append.mp he with he | he
    · exact hgiven' _ e he
    · exact (hpending e he).trans (by omega)
  · rw [hf]
    refine ⟨fun e he => hpending e (List.mem_of_mem_drop he), fun hnil => ?_, hlimit, hfresh' _,
      hunseen' _, hgiven' _, ?_⟩
    · have hlen := List.length_pos_iff.mpr hne
      have hpos := cfg.retryBufferLimit_pos
      have := List.drop_eq_nil_iff.mp hnil
      omega
    · exact (hkept (List.drop_sublist _ _)).trans hsub

/-- While no call mixes old and new entries, the buffer's count is each entry's own. -/
theorem counted_run (cfg : LogConfig) (events : List (LogEvent ε))
    (h : (run (step cfg) {} events : LogService ε).Unmixed) :
    let s : LogService ε := run (step cfg) {} events
    s.Counted cfg s.retry s.batch := by
  revert h
  refine (run_keeps (I := fun s => s.Unmixed → s.Counted cfg s.retry s.batch) ?_ ?_ ?_ ?_ events).1
  · rintro s e ih ⟨hnodup, hoffers⟩
    have hlast : s.taken.Nodup ∧ e ∉ s.taken := by
      rw [LogService.push, List.nodup_append] at hnodup
      exact ⟨hnodup.1, fun he => hnodup.2.2 e he e List.mem_cons_self rfl⟩
    obtain ⟨hwaiting, hidle, hbelow, hfresh, hunseen, hgiven, hsub⟩ := ih ⟨hlast.1, hoffers⟩
    refine ⟨hwaiting, hidle, hbelow, fun e' he => ?_, fun e' he => ?_, hgiven, ?_⟩
    · rcases List.mem_append.mp he with he | he
      · exact hfresh e' he
      · cases List.mem_singleton.mp he
        exact hunseen e hlast.2
    · exact hunseen e' fun h => he (List.mem_append_left _ h)
    · have := hsub.append (List.Sublist.refl [e])
      rwa [List.append_assoc _ s.batch] at this
  · intro s ih hunmixed
    obtain ⟨hs, hside⟩ := Unmixed.of_flush hunmixed
    obtain ⟨hwaiting, hidle, hbelow, hfresh, hunseen, hgiven, hsub⟩ := ih hs
    have hcounted : s.Counted cfg (s.retry ++ s.batch) [] := by
      refine ⟨fun e he => ?_, fun hnil => hidle (List.append_eq_nil_iff.mp hnil).1, hbelow, by simp,
        hunseen, hgiven, by simpa using hsub⟩
      rcases hside with hside | hside <;> rw [hside] at he
      · rw [hfresh e he, hidle hside]
      · exact hwaiting e (by simpa using he)
    exact { hcounted.flush hs.1 with }
  · intro s ih hunmixed
    unfold flushRetry at hunmixed ⊢
    split at hunmixed
    · rename_i hempty
      rw [if_pos hempty]
      obtain ⟨-, -, -, hfresh, hunseen, hgiven, hsub⟩ := ih hunmixed
      rw [List.isEmpty_iff.mp hempty] at hsub
      exact ⟨by simp [clearRetry], fun _ => rfl, cfg.attemptLimit_pos, hfresh, hunseen, hgiven,
        hsub⟩
    · rename_i hne
      rw [if_neg hne, batch_flush]
      have hs := (Unmixed.of_flush hunmixed).1
      exact Counted.flush { ih hs with } hs.1
  · intro _
    exact ⟨by simp, fun _ => rfl, cfg.attemptLimit_pos, by simp, fun _ _ => rfl, by simp, .refl _⟩

/-- **An entry is given up only after its own attempts ran out**, as long as no call offers the
buffer and newer entries together. -/
theorem givenUp_after_attempts (cfg : LogConfig) (events : List (LogEvent ε))
    (h : (run (step cfg) {} events : LogService ε).Unmixed) :
    ∀ e ∈ (run (step cfg) {} events : LogService ε).givenUp,
      (run (step cfg) {} events).refusals e = cfg.attemptLimit :=
  (counted_run cfg events h).givenUp

def downConfig : LogConfig := ⟨8, 1, 2, fun _ => true⟩

theorem givenUp_after_attempts_single :
    let s : LogService ℕ := run (step downConfig) {} [.arrival 1, .retry]
    s.givenUp = [1] ∧ s.refusals 1 = 2 := by
  refine ⟨by decide, givenUp_after_attempts downConfig _ ⟨?_, ?_⟩ 1 ?_⟩ <;> decide

/-- The second entry joins a buffer that was refused once, and is given up with it after one call
of its own. -/
theorem givenUp_too_early :
    let s : LogService ℕ := run (step downConfig) {} [.arrival 1, .arrival 2]
    s.givenUp = [1, 2] ∧ s.refusals 1 = 2 ∧ s.refusals 2 = 1 := by decide

end LogService

end Prism
