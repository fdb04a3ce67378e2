import Mathlib.Data.Finset.Card

/-!
# Names that are not taken

A name is drawn from a list of candidates: the first one that is not among the names already taken.
If the candidates are distinct and there are more of them than names, one of them is free.
-/

namespace Prism

variable {α : Type*} [DecidableEq α] {taken candidates : List α} {a : α}

/-- The first candidate that is not taken. -/
def firstFree (taken candidates : List α) : Option α :=
  candidates.find? fun a => a ∉ taken

theorem not_mem_of_firstFree (h : firstFree taken candidates = some a) : a ∉ taken := by
  have hfree := List.find?_some h
  exact of_decide_eq_true hfree

theorem firstFree_eq_none_iff : firstFree taken candidates = none ↔ ∀ a ∈ candidates, a ∈ taken := by
  unfold firstFree
  rw [List.find?_eq_none]
  simp

theorem exists_firstFree (hnd : candidates.Nodup) (hlen : taken.length < candidates.length) :
    ∃ a, firstFree taken candidates = some a := by
  cases h : firstFree taken candidates with
  | some a => exact ⟨a, rfl⟩
  | none =>
    -- all the candidates are taken, so there are no more of them than names
    have hsub : candidates ⊆ taken := firstFree_eq_none_iff.mp h
    have hle := (hnd.subperm hsub).length_le
    omega

end Prism
