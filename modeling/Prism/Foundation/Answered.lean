import Prism.Foundation.Thread

/-!
# What others do after a thread has answered

A thread that has answered takes no more steps, so its answer stays and the history grows by what
the other threads do only.
-/

namespace Prism

variable {ε : Type}

/-- The history grew, and not by steps of thread `i`. -/
def GrownBy (i : ℕ) (trace trace' : List (ℕ × ε)) : Prop :=
  ∃ ext, trace' = ext ++ trace ∧ ∀ p ∈ ext, p.1 ≠ i

theorem GrownBy.refl (i : ℕ) (trace : List (ℕ × ε)) : GrownBy i trace trace :=
  ⟨[], rfl, by simp⟩

variable {i : ℕ}

theorem GrownBy.trans {t t' t'' : List (ℕ × ε)} (h1 : GrownBy i t t') (h2 : GrownBy i t' t'') :
    GrownBy i t t'' := by
  obtain ⟨ext1, rfl, hne1⟩ := h1
  obtain ⟨ext2, rfl, hne2⟩ := h2
  refine ⟨ext2 ++ ext1, (List.append_assoc ..).symm, fun p hp => ?_⟩
  rcases List.mem_append.mp hp with hp | hp
  · exact hne2 p hp
  · exact hne1 p hp

theorem GrownBy.did {j : ℕ} (h : j ≠ i) (e : ε) (trace : List (ℕ × ε)) :
    GrownBy i trace ((j, e) :: trace) :=
  ⟨[(j, e)], rfl, fun p hp => by rwa [List.mem_singleton.mp hp]⟩

theorem Pool.answered_step {σ ι α : Type} [DecidableEq ι] {p : Pool σ ε ι α} {a : α}
    (h : p.threads[i]? = some (.ret a)) (j : ℕ) :
    (p.step j).threads[i]? = some (.ret a) ∧ GrownBy i p.hist.trace (p.step j).hist.trace := by
  cases hj : p.threads[j]? with
  | none =>
    rw [Pool.step_none hj]
    exact ⟨h, .refl _ _⟩
  | some prog =>
    cases ha : Pool.advance j p.hist prog with
    | none =>
      rw [Pool.step_waiting hj ha]
      exact ⟨h, .refl _ _⟩
    | some r =>
      obtain ⟨k, prog'⟩ := r
      have hne : j ≠ i := by
        rintro rfl
        rw [h] at hj
        rw [← Option.some.inj hj] at ha
        cases ha
      rw [Pool.step_of_advance hj ha]
      refine ⟨?_, ?_⟩
      · rw [List.getElem?_set_ne hne]
        exact h
      · cases prog with
        | ret b => cases ha
        | act event update next =>
          cases ha
          exact GrownBy.did hne _ _
        | lock l next =>
          obtain ⟨-, rfl, rfl⟩ := Pool.advance_lock ha
          exact .refl _ _
        | unlock l next =>
          cases ha
          exact .refl _ _

theorem Pool.answered_run {σ ι α : Type} [DecidableEq ι] {p : Pool σ ε ι α} {a : α}
    (h : p.threads[i]? = some (.ret a)) (sched : List ℕ) :
    (run Pool.step p sched).threads[i]? = some (.ret a) ∧
      GrownBy i p.hist.trace (run Pool.step p sched).hist.trace := by
  induction sched generalizing p with
  | nil => exact ⟨h, .refl _ _⟩
  | cons j sched ih =>
    obtain ⟨hstep, hgrown⟩ := Pool.answered_step h j
    obtain ⟨hrun, hgrown'⟩ := ih hstep
    exact ⟨hrun, hgrown.trans hgrown'⟩

end Prism
