import Prism.Foundation.Thread

/-!
# Moments of a run

A history says which events there were; a result about single steps speaks of the moments of a
schedule.  This file goes from one to the other, for threads whose steps are all of one kind `S`: a
step of the pool either changes neither state nor history, or it adds one event and is a step of
that kind (`Kind.step_cases`), and every event of the history was added at some moment
(`Kind.moment`).
-/

namespace Prism

namespace Pool

variable {σ ε ι α : Type} [DecidableEq ι]

/-- What a thread still does is all of one kind. -/
def Kind (S : σ → ε → σ → Prop) (p : Pool σ ε ι α) : Prop :=
  ∀ prog ∈ p.threads, prog.Acts S

section Kind

variable {S : σ → ε → σ → Prop} {p : Pool σ ε ι α}

theorem acts_of_advance {i : ℕ} {h h' : Hist σ ε ι} {prog prog' : Prog σ ε ι α}
    (hacts : prog.Acts S) (ha : advance i h prog = some (h', prog')) :
    prog'.Acts S ∧ ((h'.state = h.state ∧ h'.trace = h.trace) ∨
      ∃ e, h'.trace = (i, e) :: h.trace ∧ S h.state e h'.state) := by
  cases prog with
  | ret a => cases ha
  | act event update next =>
    cases ha
    exact ⟨(hacts h.state).2, .inr ⟨event h.state, rfl, (hacts h.state).1⟩⟩
  | lock l next =>
    obtain ⟨-, rfl, rfl⟩ := advance_lock ha
    exact ⟨hacts, .inl ⟨rfl, rfl⟩⟩
  | unlock l next =>
    cases ha
    exact ⟨hacts, .inl ⟨rfl, rfl⟩⟩

section

variable (hp : p.Kind S)

include hp

theorem Kind.step_cases (i : ℕ) : (p.step i).Kind S ∧
      (((p.step i).hist.state = p.hist.state ∧ (p.step i).hist.trace = p.hist.trace) ∨
        ∃ e, (p.step i).hist.trace = (i, e) :: p.hist.trace ∧
          S p.hist.state e (p.step i).hist.state) := by
  cases hi : p.threads[i]? with
  | none =>
    rw [step_none hi]
    exact ⟨hp, .inl ⟨rfl, rfl⟩⟩
  | some prog =>
    cases ha : advance i p.hist prog with
    | none =>
      rw [step_waiting hi ha]
      exact ⟨hp, .inl ⟨rfl, rfl⟩⟩
    | some q =>
      obtain ⟨h', prog'⟩ := q
      obtain ⟨hrest, hstep⟩ := acts_of_advance (hp prog (List.mem_of_getElem? hi)) ha
      rw [step_of_advance hi ha]
      refine ⟨fun other hother => ?_, hstep⟩
      rcases List.mem_or_eq_of_mem_set hother with hmem | rfl
      · exact hp other hmem
      · exact hrest

theorem Kind.step (i : ℕ) : (p.step i).Kind S := (hp.step_cases i).1

theorem Kind.run (sched : List ℕ) : (Prism.run Pool.step p sched).Kind S := by
  have hstep : ∀ (q : Pool σ ε ι α) i, q.Kind S → (q.step i).Kind S := fun _ i hq => hq.step i
  exact run_invariant hstep hp sched

theorem Kind.at_moment (l : List ℕ) (i : ℕ) :
    let before := Prism.run Pool.step p l
    let after := Prism.run Pool.step p (l ++ [i])
    (after.hist.state = before.hist.state ∧ after.hist.trace = before.hist.trace) ∨
      ∃ e, after.hist.trace = (i, e) :: before.hist.trace ∧
        S before.hist.state e after.hist.state := by
  intro before after
  have hafter : after = before.step i := by
    show Prism.run Pool.step p (l ++ [i]) = _
    rw [run_append, run_cons, run_nil]
  rw [hafter]
  exact ((hp.run l).step_cases i).2

theorem Kind.trace_suffix (sched : List ℕ) :
    p.hist.trace <:+ (Prism.run Pool.step p sched).hist.trace := by
  induction sched generalizing p with
  | nil => exact List.suffix_refl _
  | cons i sched ih =>
    obtain ⟨hp', hstep⟩ := hp.step_cases i
    refine List.IsSuffix.trans ?_ (ih hp')
    rcases hstep with ⟨-, htrace⟩ | ⟨e, htrace, -⟩
    · exact htrace.symm ▸ List.suffix_refl _
    · rw [htrace]
      exact List.suffix_cons ..

theorem Kind.mem_trace_of_moment {l l' : List ℕ} {q : ℕ × ε}
    (hq : q ∈ (Prism.run Pool.step p l).hist.trace) :
    q ∈ (Prism.run Pool.step p (l ++ l')).hist.trace := by
  rw [run_append]
  exact ((hp.run l).trace_suffix l').mem hq

theorem Kind.moment {sched : List ℕ} {i : ℕ} {e : ε}
    (he : (i, e) ∈ (Prism.run Pool.step p sched).hist.trace) (hnew : (i, e) ∉ p.hist.trace) :
    ∃ l l', sched = l ++ i :: l' ∧
      S (Prism.run Pool.step p l).hist.state e (Prism.run Pool.step p (l ++ [i])).hist.state := by
  induction sched generalizing p with
  | nil => exact absurd he hnew
  | cons j sched ih =>
    obtain ⟨hp', hstep⟩ := hp.step_cases j
    by_cases hnow : (i, e) ∈ (p.step j).hist.trace
    · rcases hstep with ⟨-, htrace⟩ | ⟨e', htrace, hS⟩
      · rw [htrace] at hnow
        exact absurd hnow hnew
      · rw [htrace] at hnow
        rcases List.mem_cons.mp hnow with heq | hold
        · cases heq
          exact ⟨[], sched, rfl, hS⟩
        · exact absurd hold hnew
    · obtain ⟨l, l', rfl, hS⟩ := ih hp' he hnow
      exact ⟨j :: l, l', rfl, hS⟩

end

end Kind

end Pool

end Prism
