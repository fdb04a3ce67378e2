import Mathlib.Algebra.Order.Ring.Int

/-!
# Buying periods ahead of their end

A meter runs out at `expires`.  Someone looks at it now and then, and may buy one more period of
length `D` when it runs out within a window `W`; the period is added to the end of the one that is
running, or to the present when that is over.  How often can this happen between two instants?

The purchases after the first need `D` more each, and the last one may come `W` early.
-/

namespace Prism

/-- When it runs out, and how many periods were bought. -/
structure Meter where
  expires : ℤ
  bought : ℕ

namespace Meter

variable {W D : ℤ}

/-- One look at the meter. -/
inductive Look (W D now : ℤ) : Meter → Meter → Prop where
  | skip (m : Meter) : Look W D now m m
  | buy (m : Meter) (h : m.expires ≤ now + W) :
      Look W D now m ⟨max m.expires now + D, m.bought + 1⟩

/-- One look after the other. -/
inductive Looks (W D : ℤ) : List ℤ → Meter → Meter → Prop where
  | nil (m : Meter) : Looks W D [] m m
  | cons {now : ℤ} {nows : List ℤ} {m m' m'' : Meter} (h : Look W D now m m')
      (hs : Looks W D nows m' m'') : Looks W D (now :: nows) m m''

/-- What is known of a meter that was first looked at at `first`, with the expiry `e`, and last
looked at at `now`. -/
def Bounded (W D e first now : ℤ) (m : Meter) : Prop :=
  (m.bought = 0 ∧ m.expires = e) ∨
    (1 ≤ m.bought ∧ max e first + m.bought * D ≤ m.expires ∧
      max e first + (m.bought - 1) * D ≤ now + W)

variable {m : Meter}

theorem Bounded.mono {e first now now' : ℤ} (h : Bounded W D e first now m) (hle : now ≤ now') :
    Bounded W D e first now' m := by
  rcases h with h | ⟨h1, h2, h3⟩
  · exact .inl h
  · exact .inr ⟨h1, h2, by omega⟩

theorem Look.bounded {e first now : ℤ} {m' : Meter} (hW : 0 ≤ W) (hfirst : first ≤ now)
    (h : Look W D now m m') (hm : Bounded W D e first now m) : Bounded W D e first now m' := by
  cases h with
  | skip => exact hm
  | buy hdue =>
    have hle := le_max_left m.expires now
    rcases hm with ⟨hzero, rfl⟩ | ⟨hone, hexp, -⟩
    · refine .inr ⟨Nat.le_add_left 1 _, ?_, ?_⟩
      · simp only [hzero]
        have hmono : max m.expires first ≤ max m.expires now := max_le_max le_rfl hfirst
        push_cast
        omega
      · simp only [hzero]
        have hmax : max m.expires first ≤ now + W := max_le hdue (by omega)
        push_cast
        omega
    · refine .inr ⟨Nat.le_add_left 1 _, ?_, ?_⟩
      · push_cast
        rw [add_mul]
        omega
      · push_cast
        rw [add_sub_cancel_right]
        omega

theorem Looks.bounded {e first : ℤ} (hW : 0 ≤ W) :
    ∀ {nows : List ℤ} {now : ℤ} {m m' : Meter}, Looks W D nows m m' →
      List.Pairwise (· ≤ ·) (now :: nows) → first ≤ now → Bounded W D e first now m →
      Bounded W D e first (nows.getLastD now) m'
  | [], now, m, m', h, _, _, hm => by
    cases h
    exact hm
  | now' :: nows, now, m, m', h, hsorted, hfirst, hm => by
    cases h with
    | cons hlook hrest =>
      rw [List.pairwise_cons] at hsorted
      have hle : now ≤ now' := hsorted.1 now' (by simp)
      have hm' := hlook.bounded hW (hfirst.trans hle) (hm.mono hle)
      rw [List.getLastD_cons]
      exact Looks.bounded hW hrest hsorted.2 (hfirst.trans hle) hm'

/-- The quotient, rounded up. -/
def ceilDiv (T D : ℤ) : ℤ := -(-T / D)

theorem le_ceilDiv {T n : ℤ} (hD : 0 < D) (h : (n - 1) * D < T) : n ≤ ceilDiv T D := by
  have hlt : -T / D < 1 - n := by
    rw [Int.ediv_lt_iff_lt_mul hD, ← neg_sub n 1, neg_mul]
    omega
  unfold ceilDiv
  omega

/-- **How often a period is bought**: not more than once and once more for every period, or part of
one, between the first look and the last.  This needs a window shorter than the period, or a meter
that was still running at the first look. -/
theorem bought_le {e first : ℤ} {nows : List ℤ} (hD : 0 < D) (hW : 0 ≤ W) (hWD : W ≤ D)
    (hcond : W < D ∨ first < e) (hsorted : List.Pairwise (· ≤ ·) (first :: nows))
    (h : Looks W D (first :: nows) ⟨e, 0⟩ m) :
    (m.bought : ℤ) ≤ 1 + ceilDiv (nows.getLastD first - first) D := by
  have hstart : Bounded W D e first first ⟨e, 0⟩ := .inl ⟨rfl, rfl⟩
  have hsorted' : List.Pairwise (· ≤ ·) (first :: first :: nows) := by
    rw [List.pairwise_cons]
    refine ⟨fun t ht => ?_, hsorted⟩
    rcases List.mem_cons.mp ht with rfl | ht
    · exact le_rfl
    · exact (List.pairwise_cons.mp hsorted).1 t ht
  have hend := h.bounded hW hsorted' le_rfl hstart
  rw [List.getLastD_cons] at hend
  have hlast : (0 : ℤ) ≤ nows.getLastD first - first := by
    have hmem : ∀ {l : List ℤ} {a : ℤ}, (∀ t ∈ l, first ≤ t) → first ≤ a → first ≤ l.getLastD a := by
      intro l
      induction l with
      | nil => exact fun _ ha => ha
      | cons b l ih =>
        intro a hl _
        rw [List.getLastD_cons]
        exact ih (fun t ht => hl t (by simp [ht])) (hl b (by simp))
    have := hmem (List.pairwise_cons.mp hsorted).1 le_rfl
    omega
  rcases hend with ⟨hzero, -⟩ | ⟨hone, -, hback⟩
  · rw [hzero]
    have := le_ceilDiv (T := nows.getLastD first - first) (n := 0) hD (by omega)
    push_cast
    omega
  · have hmax1 := le_max_left e first
    have hlt : ((m.bought : ℤ) - 1 - 1) * D < nows.getLastD first - first := by
      rw [sub_mul _ 1 D, one_mul]
      omega
    have := le_ceilDiv hD hlt
    omega

end Meter
end Prism
