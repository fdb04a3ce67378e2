import Mathlib.Order.Basic

/-!
# Runs of a step function

A run of a system is a list of steps folded over a state.  This file packages the two inductions
every safety result needs.

* `run_invariant`: what one step keeps, a run keeps; `run_gathers`: a list that every step adds to
  is the list of what the steps added.
* `Along`: a condition on every step of a run, judged in the state the step is taken from.  It is
  how a result is stated that holds for the runs whose steps all meet a condition;
  `Along.invariant` is the induction for it.
-/

namespace Prism

universe u v

variable {σ : Type u} {ι : Type v}

def run (step : σ → ι → σ) (s : σ) (l : List ι) : σ :=
  l.foldl step s

variable {step : σ → ι → σ}

@[simp] theorem run_nil (s : σ) : run step s [] = s := rfl

@[simp] theorem run_cons (s : σ) (i : ι) (l : List ι) :
    run step s (i :: l) = run step (step s i) l := rfl

theorem run_append (s : σ) (l l' : List ι) : run step s (l ++ l') = run step (run step s l) l' :=
  List.foldl_append

variable {I : σ → Prop} {s : σ}

theorem run_invariant (hstep : ∀ s i, I s → I (step s i)) (hs : I s) (l : List ι) :
    I (run step s l) := by
  induction l generalizing s with
  | nil => exact hs
  | cons i l ih => exact ih (hstep s i hs)

variable {l : List ι}

theorem run_gathers {β : Type*} {f : σ → List β} {g : ι → List β}
    (hstep : ∀ s i, f (step s i) = f s ++ g i) (s : σ) (l : List ι) :
    f (run step s l) = f s ++ l.flatMap g := by
  induction l generalizing s with
  | nil => simp
  | cons i l ih => rw [run_cons, ih, hstep, List.flatMap_cons, List.append_assoc]

theorem run_invariant_of_mem (hstep : ∀ s, ∀ i ∈ l, I s → I (step s i)) (hs : I s) :
    I (run step s l) := by
  induction l generalizing s with
  | nil => exact hs
  | cons i l ih =>
    refine ih (fun t j hj => hstep t j (List.mem_cons_of_mem i hj)) ?_
    exact hstep s i (.head _) hs

/-- The condition holds of every step of the run, in the state the step is taken from. -/
def Along (step : σ → ι → σ) (P : σ → ι → Prop) : σ → List ι → Prop
  | _, [] => True
  | s, i :: l => P s i ∧ Along step P (step s i) l

@[simp] theorem along_nil (P : σ → ι → Prop) (s : σ) : Along step P s [] := trivial

@[simp] theorem along_cons (P : σ → ι → Prop) (s : σ) (i : ι) (l : List ι) :
    Along step P s (i :: l) ↔ P s i ∧ Along step P (step s i) l := Iff.rfl

instance decidableAlong (P : σ → ι → Prop) [∀ s i, Decidable (P s i)] :
    ∀ (s : σ) (l : List ι), Decidable (Along step P s l)
  | _, [] => isTrue trivial
  | s, i :: l =>
    have := decidableAlong P (step s i) l
    inferInstanceAs (Decidable (P s i ∧ Along step P (step s i) l))

variable {P : σ → ι → Prop}

theorem along_append {l' : List ι} :
    Along step P s (l ++ l') ↔ Along step P s l ∧ Along step P (run step s l) l' := by
  induction l generalizing s with
  | nil => simp
  | cons i l ih =>
    rw [List.cons_append, along_cons, along_cons, ih, run_cons, and_assoc]

theorem Along.invariant (hstep : ∀ s i, P s i → I s → I (step s i)) (h : Along step P s l)
    (hs : I s) : I (run step s l) := by
  induction l generalizing s with
  | nil => exact hs
  | cons i l ih => exact ih h.2 (hstep s i h.1 hs)

/-- A condition holds along a run exactly when it holds of every step, in the state the steps
before it lead to. -/
theorem along_iff_forall :
    Along step P s l ↔ ∀ l1 i l2, l = l1 ++ i :: l2 → P (run step s l1) i := by
  constructor
  · intro h l1 i l2 hl
    subst hl
    exact (along_append.mp h).2.1
  · intro h
    induction l generalizing s with
    | nil => trivial
    | cons i l ih =>
      refine ⟨h [] i l rfl, ih fun l1 j l2 hl => ?_⟩
      exact h (i :: l1) j l2 (by rw [hl]; rfl)

theorem Along.imp_of_invariant {Q : σ → ι → Prop} (hstep : ∀ s i, P s i → I s → I (step s i))
    (himp : ∀ s i, P s i → I s → Q s i) (h : Along step P s l) (hs : I s) : Along step Q s l := by
  induction l generalizing s with
  | nil => trivial
  | cons i l ih => exact ⟨himp s i h.1 hs, ih h.2 (hstep s i h.1 hs)⟩

end Prism
