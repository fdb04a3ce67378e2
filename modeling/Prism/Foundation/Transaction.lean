import Mathlib.Data.List.Basic

/-!
# Transactions that commit whole or not at all

A transaction opens on a store and works on a copy of it.  It commits, and the copy becomes the
store; or it returns without committing, or a statement fails, and the deferred rollback drops the
copy.

A *body* is therefore a function from the store to an error, or to a value together with the
committed copy (`some`) or nothing (`none`).  `atomically` is the only way from a body to the store.

`Faults` lets any statement of a body fail for reasons of its own.  The statements are numbered in
the order they are issued and a fault pattern says which of them fail, so a theorem over every
pattern covers every point at which a transaction can be cut short.
-/

namespace Prism

universe u v w

/-! ## Sequencing fallible computations -/

section Bind

variable {ε : Type u} {α β : Type v}

theorem bind_eq_ok_iff {x : Except ε α} {f : α → Except ε β} {b : β} :
    (x >>= f) = .ok b ↔ ∃ a, x = .ok a ∧ f a = .ok b := by
  cases x with
  | error e =>
    constructor
    · intro h
      cases h
    · rintro ⟨a, ha, -⟩
      cases ha
  | ok a =>
    constructor
    · intro h
      exact ⟨a, rfl, h⟩
    · rintro ⟨a', ha, h⟩
      rw [← Except.ok.inj ha] at h
      exact h

theorem refuse_eq_ok_iff {bad : Prop} [Decidable bad] {e : ε} {x : Except ε α} {a : α} :
    (if bad then .error e else x) = .ok a ↔ ¬ bad ∧ x = .ok a := by
  by_cases h : bad <;> simp [h]

@[simp] theorem ok_bind (a : α) (f : α → Except ε β) : (Except.ok a >>= f) = f a := rfl

@[simp] theorem error_bind (e : ε) (f : α → Except ε β) :
    ((Except.error e : Except ε α) >>= f) = .error e := rfl

end Bind

/-- Which of the numbered statements of a call fail by themselves. -/
abbrev Faults := ℕ → Bool

def noFaults : Faults := fun _ => false

/-- Statement `n`: fail with `e` if the pattern says so, else do what the statement does. -/
def stmt {ε : Type u} {α : Type v} (io : Faults) (n : ℕ) (e : ε) (r : Except ε α) : Except ε α :=
  if io n then .error e else r

theorem stmt_eq_ok_iff {ε : Type u} {α : Type v} {io : Faults} {n : ℕ} {e : ε}
    {r : Except ε α} {a : α} : stmt io n e r = .ok a ↔ io n = false ∧ r = .ok a := by
  unfold stmt
  cases io n <;> simp

@[simp] theorem stmt_noFaults {ε : Type u} {α : Type v} (n : ℕ) (e : ε) (r : Except ε α) :
    stmt noFaults n e r = r := rfl

section Atomically

variable {σ : Type w} {ε : Type u} {α : Type v}

/-- Run a body on the store.  Only a committed copy reaches the store. -/
def atomically (body : σ → Except ε (α × Option σ)) (s : σ) : Except ε α × σ :=
  match body s with
  | .ok (a, some s') => (.ok a, s')
  | .ok (a, none) => (.ok a, s)
  | .error e => (.error e, s)

variable {body : σ → Except ε (α × Option σ)} {s s' : σ} {a : α} {e : ε}

theorem atomically_of_commit (h : body s = .ok (a, some s')) : atomically body s = (.ok a, s') := by
  unfold atomically
  rw [h]

theorem atomically_of_return (h : body s = .ok (a, none)) : atomically body s = (.ok a, s) := by
  unfold atomically
  rw [h]

theorem atomically_of_error (h : body s = .error e) : atomically body s = (.error e, s) := by
  unfold atomically
  rw [h]

/-- **A call that reports an error has changed nothing.** -/
theorem atomically_snd_of_fst_error (h : (atomically body s).1 = .error e) :
    (atomically body s).2 = s := by
  unfold atomically at h ⊢
  cases hb : body s with
  | error e' => rfl
  | ok r =>
    obtain ⟨a, _ | s'⟩ := r
    · rfl
    · rw [hb] at h
      cases h

/-- What a call did to the store: nothing, or what its body committed. -/
theorem atomically_snd_cases (body : σ → Except ε (α × Option σ)) (s : σ) :
    (atomically body s).2 = s ∨ ∃ a s', body s = .ok (a, some s') ∧ (atomically body s).2 = s' := by
  cases hb : body s with
  | error e => exact Or.inl (by rw [atomically_of_error hb])
  | ok r =>
    obtain ⟨a, _ | s'⟩ := r
    · exact Or.inl (by rw [atomically_of_return hb])
    · exact Or.inr ⟨a, s', rfl, by rw [atomically_of_commit hb]⟩

end Atomically

end Prism
