import Mathlib.Algebra.Order.Group.Int
import Mathlib.Algebra.Ring.Int.Defs

/-!
# Ledgers with a cached balance

A ledger is a list of entries, oldest first.  An entry names an account, carries a delta, and
records the balance of the account as it stood after it.  Beside the ledger stands a cache: one
number an account.

What the cache is worth is `Reconciles`: for every account the cached number is the sum of the
account's deltas, it is what the account's newest entry recorded, and it is not negative.  The one
operation is to append an entry that records the old balance plus its own delta and to store that
number; `Reconciles.post` says that it keeps the three.
-/

namespace Prism

open Function

namespace Ledger

variable {ε ι : Type*} [DecidableEq ι] (account : ε → ι) (delta after : ε → ℤ)

def entriesOf (u : ι) (entries : List ε) : List ε :=
  entries.filter fun e => account e = u

def total (u : ι) (entries : List ε) : ℤ :=
  ((entriesOf account u entries).map delta).sum

/-- What the newest entry of the account recorded; zero for an account without entries. -/
def lastAfter (u : ι) (entries : List ε) : ℤ :=
  match (entriesOf account u entries).getLast? with
  | some e => after e
  | none => 0

theorem entriesOf_append_self (e : ε) (entries : List ε) :
    entriesOf account (account e) (entries ++ [e]) =
      entriesOf account (account e) entries ++ [e] := by
  simp [entriesOf]

theorem entriesOf_append_of_ne {e : ε} {u : ι} (h : u ≠ account e) (entries : List ε) :
    entriesOf account u (entries ++ [e]) = entriesOf account u entries := by
  simp [entriesOf, Ne.symm h]

/-- The cache agrees with the ledger, and is never negative. -/
structure Reconciles (balance : ι → ℤ) (entries : List ε) : Prop where
  total_eq : ∀ u, balance u = total account delta u entries
  last_eq : ∀ u, balance u = lastAfter account after u entries
  nonneg : ∀ u, 0 ≤ balance u

variable {account delta after}

theorem reconciles_nil : Reconciles account delta after (fun _ => 0) [] where
  total_eq _ := rfl
  last_eq _ := rfl
  nonneg _ := le_refl 0

theorem Reconciles.post {balance : ι → ℤ} {entries : List ε}
    (h : Reconciles account delta after balance entries) {e : ε}
    (hafter : after e = balance (account e) + delta e) (hpos : 0 ≤ after e) :
    Reconciles account delta after (update balance (account e) (after e)) (entries ++ [e]) where
  total_eq u := by
    by_cases hu : u = account e
    · subst hu
      rw [update_self, total, entriesOf_append_self, List.map_append, List.sum_append,
        hafter, h.total_eq, total]
      simp
    · rw [update_of_ne hu, total, entriesOf_append_of_ne account hu, h.total_eq, total]
  last_eq u := by
    by_cases hu : u = account e
    · subst hu
      rw [update_self, lastAfter, entriesOf_append_self, List.getLast?_append]
      simp
    · rw [update_of_ne hu, lastAfter, entriesOf_append_of_ne account hu, h.last_eq, lastAfter]
  nonneg u := by
    by_cases hu : u = account e
    · subst hu
      rw [update_self]
      exact hpos
    · rw [update_of_ne hu]
      exact h.nonneg u

end Ledger
end Prism
