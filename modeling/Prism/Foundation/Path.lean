import Mathlib.Data.Nat.Notation
import Mathlib.Logic.Relation

/-!
# Paths of a partial function

A partial function `next` leads from every point along one path, which ends, or goes on for ever.
On a path that ends no point comes twice: the number of points still ahead is a function of the
point.  A path that runs into a cycle therefore does not end.
-/

namespace Prism.Path

variable {α : Type} (next : α → Option α)

/-- The path from the point ends after this many further points. -/
def Ends : ℕ → α → Prop
  | 0, a => next a = none
  | k + 1, a => ∃ b, next a = some b ∧ Ends k b

instance decidableEnds : ∀ k a, Decidable (Ends next k a)
  | 0, a => inferInstanceAs (Decidable (next a = none))
  | k + 1, a =>
    match h : next a with
    | none => isFalse fun ⟨_, hb, _⟩ => nomatch h.symm.trans hb
    | some b =>
      have := decidableEnds k b
      decidable_of_iff (Ends next k b)
        ⟨fun hk => ⟨b, h, hk⟩, fun ⟨_, hc, hk⟩ => Option.some.inj (h.symm.trans hc) ▸ hk⟩

variable {next} {a b : α} {j k : ℕ}

theorem Ends.unique (hj : Ends next j a) (hk : Ends next k a) : j = k := by
  induction j generalizing k a with
  | zero =>
    cases k with
    | zero => rfl
    | succ k =>
      obtain ⟨b, hb, -⟩ := hk
      rw [show next a = none from hj] at hb
      cases hb
  | succ j ih =>
    obtain ⟨b, hb, hj⟩ := hj
    cases k with
    | zero =>
      rw [show next a = none from hk] at hb
      cases hb
    | succ k =>
      obtain ⟨c, hc, hk⟩ := hk
      obtain rfl : b = c := Option.some.inj (hb.symm.trans hc)
      rw [ih hj hk]

end Prism.Path
