import Prism.Tron.Client
import Mathlib.Tactic.Linarith
import Mathlib.Tactic.Ring

/-!
# Amounts are exact

`toMicro` walks the digits of a raw amount: it appends zeros when the token has fewer decimals than
a micro-unit and cuts digits off when it has more.  Cutting is exact when the digits that go are
zeros; otherwise there is no such number of micro-units, and the client leaves the row alone.
-/

namespace Prism

/-! ## The number a string of digits denotes -/

theorem natOfDigits_append (l1 l2 : List Char) :
    natOfDigits (l1 ++ l2) = natOfDigits l1 * 10 ^ l2.length + natOfDigits l2 := by
  -- the digits behind move the ones in front up by their number
  have key : ∀ (l : List Char) (n : ℕ), l.foldl (fun n c => 10 * n + (c.toNat - '0'.toNat)) n =
        n * 10 ^ l.length + natOfDigits l := by
    intro l
    induction l with
    | nil => intro n; simp [natOfDigits]
    | cons c l ih =>
      intro n
      have hcons : natOfDigits (c :: l) =
          (c.toNat - '0'.toNat) * 10 ^ l.length + natOfDigits l := by
        unfold natOfDigits
        rw [List.foldl_cons, ih, Nat.mul_zero, Nat.zero_add]
        rfl
      rw [List.foldl_cons, ih, hcons, List.length_cons, pow_succ]
      ring
  unfold natOfDigits
  rw [List.foldl_append, key]
  rfl

theorem natOfDigits_cons (c : Char) (l : List Char) :
    natOfDigits (c :: l) = (c.toNat - '0'.toNat) * 10 ^ l.length + natOfDigits l := by
  have happ := natOfDigits_append [c] l
  have hone : natOfDigits [c] = c.toNat - '0'.toNat := by simp [natOfDigits]
  rw [hone] at happ
  exact happ

theorem natOfDigits_replicate_zero (k : ℕ) : natOfDigits (List.replicate k '0') = 0 := by
  induction k with
  | zero => rfl
  | succ k ih => rw [List.replicate_succ, natOfDigits_cons, ih]; simp

theorem isDigit_iff {c : Char} : isDigit c = true ↔ '0'.toNat ≤ c.toNat ∧ c.toNat ≤ '9'.toNat := by
  unfold isDigit
  rw [Bool.and_eq_true, decide_eq_true_eq, decide_eq_true_eq]
  rfl

theorem natOfDigits_lt {l : List Char} (h : l.all isDigit = true) :
    natOfDigits l < 10 ^ l.length := by
  induction l with
  | nil => simp [natOfDigits]
  | cons c l ih =>
    rw [List.all_cons, Bool.and_eq_true] at h
    have hl := ih h.2
    have hc : c.toNat - '0'.toNat ≤ 9 := by
      obtain ⟨-, hle⟩ := isDigit_iff.mp h.1
      have h9 : '9'.toNat = '0'.toNat + 9 := rfl
      omega
    rw [natOfDigits_cons, List.length_cons, pow_succ]
    have hmul : (c.toNat - '0'.toNat) * 10 ^ l.length ≤ 9 * 10 ^ l.length :=
      Nat.mul_le_mul_right _ hc
    omega

theorem natOfDigits_eq_zero_iff {l : List Char} (h : l.all isDigit = true) :
    natOfDigits l = 0 ↔ l.all (fun c => c = '0') = true := by
  induction l with
  | nil => simp [natOfDigits]
  | cons c l ih =>
    rw [List.all_cons, Bool.and_eq_true] at h
    obtain ⟨hge, -⟩ := isDigit_iff.mp h.1
    have hpow : 0 < 10 ^ l.length := Nat.pow_pos (by decide)
    have hc : c.toNat - '0'.toNat = 0 ↔ c = '0' := by
      constructor
      · intro hzero
        exact Char.toNat_inj.mp (by omega)
      · rintro rfl
        rfl
    rw [natOfDigits_cons, Nat.add_eq_zero_iff, Nat.mul_eq_zero, ih h.2, List.all_cons,
      Bool.and_eq_true, decide_eq_true_eq, hc]
    constructor
    · rintro ⟨hc' | hp, hl⟩
      · exact ⟨hc', hl⟩
      · omega
    · rintro ⟨hc', hl⟩
      exact ⟨.inl hc', hl⟩

variable {v : ℤ} {digits : List Char}

theorem parseInt_eq_some_iff :
    parseInt digits = some v ↔ digits ≠ [] ∧ v = natOfDigits digits ∧ v ≤ maxInt64 := by
  unfold parseInt
  by_cases hnil : digits = []
  · simp [hnil]
  rw [if_neg hnil]
  split
  · rename_i hle
    constructor
    · intro h
      have hv := Option.some.inj h
      exact ⟨hnil, hv.symm, by omega⟩
    · rintro ⟨-, rfl, -⟩
      rfl
  · rename_i hgt
    constructor
    · intro h
      cases h
    · rintro ⟨-, rfl, hle⟩
      exact absurd hle hgt

/-- The raw amount, if it is all digits. -/
def rawUnits (raw : String) : Option ℕ :=
  let digits := (trimSpace raw).toList
  if digits ≠ [] ∧ digits.all isDigit then some (natOfDigits digits) else none

variable {x : ℕ}

theorem rawUnits_eq_some_iff {raw : String} : rawUnits raw = some x ↔ (trimSpace raw).toList ≠ [] ∧
      (trimSpace raw).toList.all isDigit = true ∧ natOfDigits (trimSpace raw).toList = x := by
  unfold rawUnits
  dsimp only
  split
  · rename_i h
    simp [h.1, h.2]
  rename_i h
  constructor
  · intro hx
    cases hx
  · rintro ⟨hnil, hall, -⟩
    exact absurd ⟨hnil, hall⟩ h

/-- `v` micro-units are exactly `x` raw units of a token of so many decimals. -/
def ExactMicro (x : ℕ) (decimals v : ℤ) : Prop :=
  0 ≤ decimals ∧ decimals ≤ 24 ∧ (x : ℤ) * 10 ^ microDecimals = v * 10 ^ decimals.toNat ∧
    v ≤ maxInt64

theorem exact_append_iff {d : ℕ} (hd : d ≤ microDecimals) :
    (natOfDigits digits : ℤ) * 10 ^ microDecimals = v * 10 ^ d ↔
      v = natOfDigits (digits ++ List.replicate (microDecimals - d) '0') := by
  rw [natOfDigits_append, natOfDigits_replicate_zero, List.length_replicate, Nat.add_zero]
  have hsplit : (10 : ℤ) ^ microDecimals = 10 ^ (microDecimals - d) * 10 ^ d := by
    rw [← pow_add, Nat.sub_add_cancel hd]
  have hpos : (10 : ℤ) ^ d ≠ 0 := pow_ne_zero _ (by decide)
  rw [hsplit, ← mul_assoc, mul_left_inj' hpos, eq_comm]
  push_cast
  rfl

theorem exact_cut_iff {d : ℕ} (hd : microDecimals < d) :
    (x : ℤ) * 10 ^ microDecimals = v * 10 ^ d ↔ (x : ℤ) = v * 10 ^ (d - microDecimals) := by
  have hsplit : (10 : ℤ) ^ d = 10 ^ (d - microDecimals) * 10 ^ microDecimals := by
    rw [← pow_add, Nat.sub_add_cancel hd.le]
  have hpos : (10 : ℤ) ^ microDecimals ≠ 0 := pow_ne_zero _ (by decide)
  rw [hsplit, ← mul_assoc, mul_left_inj' hpos]

theorem eq_mul_pow_iff_of_lt {k : ℕ} (h : x < 10 ^ k) : (x : ℤ) = v * 10 ^ k ↔ x = 0 ∧ v = 0 := by
  have hlt : (x : ℤ) < 10 ^ k := by exact_mod_cast h
  constructor
  · intro heq
    have hv : v = 0 := by
      rcases lt_trichotomy v 0 with hv | hv | hv
      · nlinarith
      · exact hv
      · nlinarith
    rw [hv, zero_mul] at heq
    exact ⟨by exact_mod_cast heq, hv⟩
  · rintro ⟨rfl, rfl⟩
    simp

theorem exact_take_iff {cut : ℕ} (hcut : cut ≤ digits.length) (hall : digits.all isDigit = true) :
    (natOfDigits digits : ℤ) = v * 10 ^ cut ↔
      (digits.drop (digits.length - cut)).all (fun c => c = '0') = true ∧
        v = natOfDigits (digits.take (digits.length - cut)) := by
  have hlen : (digits.drop (digits.length - cut)).length = cut := by
    rw [List.length_drop]
    omega
  have htail : (digits.drop (digits.length - cut)).all isDigit = true := by
    rw [List.all_eq_true] at hall ⊢
    exact fun c hc => hall c (List.mem_of_mem_drop hc)
  have hlt := natOfDigits_lt htail
  have hsplit := natOfDigits_append (digits.take (digits.length - cut))
    (digits.drop (digits.length - cut))
  rw [hlen] at hlt
  rw [List.take_append_drop, hlen] at hsplit
  have hdiff : (natOfDigits digits : ℤ) = v * 10 ^ cut ↔
      ((natOfDigits (digits.drop (digits.length - cut)) : ℕ) : ℤ) =
        (v - natOfDigits (digits.take (digits.length - cut))) * 10 ^ cut := by
    rw [hsplit, sub_mul]
    push_cast
    constructor <;> intro h <;> linarith
  rw [hdiff, eq_mul_pow_iff_of_lt hlt, sub_eq_zero, natOfDigits_eq_zero_iff htail]

theorem toMicro_eq_some_iff {raw : String} {decimals : ℤ} : toMicro raw decimals = some v ↔
      ∃ x, rawUnits raw = some x ∧ ExactMicro x decimals v := by
  simp only [rawUnits_eq_some_iff, ExactMicro]
  unfold toMicro
  by_cases hscale : decimals < 0 ∨ 24 < decimals
  · rw [if_pos hscale]
    refine iff_of_false (by simp) ?_
    rintro ⟨x, -, h0, h24, -⟩
    omega
  rw [if_neg hscale]
  obtain ⟨h0, h24⟩ : 0 ≤ decimals ∧ decimals ≤ 24 := by omega
  generalize (trimSpace raw).toList = digits
  by_cases hnil : digits = []
  · rw [if_pos hnil]
    exact iff_of_false (by simp) fun ⟨x, hx, _⟩ => hx.1 hnil
  rw [if_neg hnil]
  by_cases hall : digits.all isDigit = true
  swap
  · rw [if_pos (by simpa using hall)]
    exact iff_of_false (by simp) fun ⟨x, hx, _⟩ => hall hx.2.1
  rw [if_neg (by simp [hall])]
  -- what is left of the right side: the equation and the bound
  have hright : (∃ x, (digits ≠ [] ∧ digits.all isDigit = true ∧ natOfDigits digits = x) ∧
      0 ≤ decimals ∧ decimals ≤ 24 ∧ (x : ℤ) * 10 ^ microDecimals = v * 10 ^ decimals.toNat ∧
        v ≤ maxInt64) ↔
      (natOfDigits digits : ℤ) * 10 ^ microDecimals = v * 10 ^ decimals.toNat ∧ v ≤ maxInt64 := by
    constructor
    · rintro ⟨x, ⟨-, -, rfl⟩, -, -, heq, hle⟩
      exact ⟨heq, hle⟩
    · rintro ⟨heq, hle⟩
      exact ⟨_, ⟨hnil, hall, rfl⟩, h0, h24, heq, hle⟩
  rw [hright]
  by_cases hfew : decimals ≤ microDecimals
  · rw [if_pos hfew, parseInt_eq_some_iff, exact_append_iff (by omega)]
    simp [hnil]
  have hmany : microDecimals < decimals.toNat := by omega
  rw [if_neg hfew, exact_cut_iff hmany]
  have hlt := natOfDigits_lt hall
  by_cases hshort : digits.length ≤ decimals.toNat - microDecimals
  · rw [if_pos hshort]
    have hlt' : natOfDigits digits < 10 ^ (decimals.toNat - microDecimals) :=
      lt_of_lt_of_le hlt (Nat.pow_le_pow_right (by decide) hshort)
    rw [eq_mul_pow_iff_of_lt hlt', natOfDigits_eq_zero_iff hall]
    by_cases hzero : digits.all (fun c => c = '0') = true
    · rw [if_pos hzero]
      constructor
      · intro hv
        rw [← Option.some.inj hv]
        exact ⟨⟨hzero, rfl⟩, by decide⟩
      · rintro ⟨⟨-, rfl⟩, -⟩
        rfl
    · rw [if_neg hzero]
      exact iff_of_false (by simp) fun h => hzero h.1.1
  rw [if_neg hshort]
  generalize decimals.toNat - microDecimals = cut at *
  have hkept : digits.take (digits.length - cut) ≠ [] := by
    rw [Ne, List.take_eq_nil_iff]
    rintro (hzero | h)
    · omega
    · exact hnil h
  rw [exact_take_iff (by omega) hall]
  by_cases hzero : (digits.drop (digits.length - cut)).all (fun c => c = '0') = true
  · rw [if_pos hzero, parseInt_eq_some_iff]
    simp [hkept, hzero]
  · rw [if_neg hzero]
    exact iff_of_false (by simp) fun h => hzero h.1.1

/-- **A token amount is converted exactly or refused**: the answer is `v` just when the text without
the blanks around it is a number `x` in digits, the scale is in range, `x * 10 ^ 6` is
`v * 10 ^ decimals`, and `v` is an `int64` that is not negative. -/
theorem amount_exact_or_refused (raw : String) (decimals v : ℤ) : toMicro raw decimals = some v ↔
      (0 ≤ decimals ∧ decimals ≤ 24) ∧
        ((trimSpace raw).toList ≠ [] ∧ (trimSpace raw).toList.all isDigit = true) ∧
        (natOfDigits (trimSpace raw).toList : ℤ) * 10 ^ 6 = v * 10 ^ decimals.toNat ∧
        0 ≤ v ∧ v ≤ 2 ^ 63 - 1 := by
  rw [toMicro_eq_some_iff]
  simp only [rawUnits_eq_some_iff]
  constructor
  · rintro ⟨x, ⟨hnil, hall, rfl⟩, h0, h24, hexact, hle⟩
    refine ⟨⟨h0, h24⟩, ⟨hnil, hall⟩, hexact, ?_, hle⟩
    -- the left side is not negative, and the power is positive
    have hpow : (0 : ℤ) < 10 ^ decimals.toNat := pow_pos (by decide) _
    have hleft : (0 : ℤ) ≤ v * 10 ^ decimals.toNat := hexact ▸ by positivity
    exact nonneg_of_mul_nonneg_left hleft hpow
  · rintro ⟨⟨h0, h24⟩, ⟨hnil, hall⟩, hexact, -, hle⟩
    exact ⟨_, ⟨hnil, hall, rfl⟩, h0, h24, hexact, hle⟩

end Prism
