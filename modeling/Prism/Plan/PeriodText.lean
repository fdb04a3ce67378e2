import Prism.Service.Plan
import Prism.Usage.Period

/-!
# What a plan may name as its period

The console refuses a period it cannot read, and the rollover leaves a subscription alone whose
period it cannot read.  Each has a reader of its own for the `<n>d` form: the console hands what
stands before the `d` to `strconv.Atoi`, the rollover goes through the digits one by one.  For a
string of digits both come to the same number and the same bounds (`periodDays_isSome_iff`,
`any_atoi_iff`).

They part on two kinds of text.  `Atoi` takes a sign, so the console admits `+5d`, a plan whose
allowance never comes back; and the rollover does not ask for the `d`, so it would act on the `30`
that the console refuses.
-/

namespace Prism

/-! ## Numbers -/

variable (digits : List Char)

theorem le_foldl_digits (n : ℕ) :
    n ≤ digits.foldl (fun n c => 10 * n + (c.toNat - '0'.toNat)) n := by
  induction digits generalizing n with
  | nil => exact le_refl n
  | cons c digits ih =>
    rw [List.foldl_cons]
    exact le_trans (by omega) (ih (10 * n + (c.toNat - '0'.toNat)))

theorem periodDays_eq_some_iff {n : ℕ} (hn : (n : ℤ) ≤ maxPeriodDays) {days : ℤ} :
    periodDays digits n = some days ↔ digits.all isDigit = true ∧ 0 < days ∧ days ≤ maxPeriodDays ∧
      days = digits.foldl (fun n c => 10 * n + (c.toNat - '0'.toNat)) n := by
  induction digits generalizing n with
  | nil =>
    show (if (n : ℤ) ≤ 0 then none else some (n : ℤ)) = some days ↔ _
    rw [List.foldl_nil, List.all_nil]
    split
    · rename_i hzero
      refine iff_of_false (by simp) ?_
      rintro ⟨-, hpos, -, rfl⟩
      omega
    · rename_i hpos
      rw [Option.some.injEq]
      constructor
      · rintro rfl
        exact ⟨rfl, not_le.mp hpos, hn, rfl⟩
      · rintro ⟨-, -, -, heq⟩
        exact heq.symm
  | cons c digits ih =>
    have hdigit : isDigit c = true ↔ ¬ (c < '0' ∨ '9' < c) := by
      unfold isDigit
      rw [not_or, not_lt, not_lt, Bool.and_eq_true, decide_eq_true_eq, decide_eq_true_eq]
    rw [List.all_cons, List.foldl_cons, Bool.and_eq_true]
    unfold periodDays
    by_cases hc : c < '0' ∨ '9' < c
    · rw [if_pos hc]
      have hnot : ¬ isDigit c = true := fun h => hdigit.mp h hc
      simp [hnot]
    · rw [if_neg hc]
      have hzero : 48 ≤ c.toNat := not_lt.mp fun h => hc (.inl h)
      have hnext : (n : ℤ) * 10 + ((c.toNat : ℤ) - ('0'.toNat : ℤ)) =
          ((10 * n + (c.toNat - '0'.toNat) : ℕ) : ℤ) := by
        show (n : ℤ) * 10 + ((c.toNat : ℤ) - 48) = ((10 * n + (c.toNat - 48) : ℕ) : ℤ)
        omega
      rw [hnext]
      split
      · -- the number is out of bounds already, and digits only make it larger
        rename_i hbig
        have hle := le_foldl_digits digits (10 * n + (c.toNat - '0'.toNat))
        simp only [reduceCtorEq, false_iff]
        omega
      · rename_i hsmall
        rw [ih (not_lt.mp hsmall), hdigit]
        simp [hc]

/-- The digits stand for a number of days the rollover counts by. -/
def CountsDays (digits : List Char) : Prop :=
  digits.all isDigit = true ∧ 0 < natOfDigits digits ∧ (natOfDigits digits : ℤ) ≤ maxPeriodDays
  deriving Decidable

theorem periodDays_isSome_iff : (periodDays digits 0).isSome = true ↔ CountsDays digits := by
  have hspec : ∀ days, periodDays digits 0 = some days ↔ digits.all isDigit = true ∧ 0 < days ∧
      days ≤ maxPeriodDays ∧ days = natOfDigits digits :=
    fun days => periodDays_eq_some_iff digits (n := 0) (by decide)
  rw [Option.isSome_iff_exists]
  constructor
  · rintro ⟨days, hdays⟩
    obtain ⟨hall, hpos, hle, heq⟩ := (hspec days).mp hdays
    exact ⟨hall, by omega, by omega⟩
  · rintro ⟨hall, hpos, hle⟩
    exact ⟨natOfDigits digits, (hspec _).mpr ⟨hall, by exact_mod_cast hpos, hle, rfl⟩⟩

theorem any_plain_iff (digits : List Char) :
    ((if digits = [] ∨ (!digits.all isDigit) = true then none
        else some (natOfDigits digits : ℤ)).any fun days => 0 < days && days ≤ maxExpiryDays) =
      true ↔ CountsDays digits := by
  unfold CountsDays
  by_cases hnil : digits = []
  · subst hnil
    simp [natOfDigits]
  · cases hall : digits.all isDigit with
    | false => simp
    | true => simp [hnil, maxExpiryDays, maxPeriodDays]

theorem not_countsDays_cons {c : Char} (hc : isDigit c = false) (rest : List Char) :
    ¬ CountsDays (c :: rest) := by
  rintro ⟨hall, -⟩
  rw [List.all_cons, hc] at hall
  cases hall

/-- `Atoi` reads a number of days, with or without a plus sign. -/
theorem any_atoi_iff (digits : List Char) :
    ((atoi digits).any fun days => 0 < days && days ≤ maxExpiryDays) = true ↔
      CountsDays digits ∨ ∃ ds, digits = '+' :: ds ∧ CountsDays ds := by
  unfold atoi
  split
  · rename_i ds
    rw [any_plain_iff, or_iff_right (not_countsDays_cons rfl ds)]
    simp
  · -- a negative number is no number of days, and a minus sign is no digit
    rename_i rest
    refine iff_of_false (fun hany => ?_) ?_
    · obtain ⟨days, hdays, hpos⟩ := (Option.any_eq_true ..).mp hany
      split_ifs at hdays
      rw [← Option.some.inj hdays, Bool.and_eq_true, decide_eq_true_eq] at hpos
      omega
    · rintro (h | ⟨ds, heq, -⟩)
      · exact not_countsDays_cons rfl rest h
      · cases heq
  · rename_i hplus _
    rw [any_plain_iff, or_iff_left]
    rintro ⟨ds, heq, -⟩
    exact hplus ds heq

/-! ## The two readers -/

theorem not_countsDays_nil : ¬ CountsDays [] := fun h => absurd h.2.1 (lt_irrefl 0)

theorem periodRecognized_iff {text : String} (hnormal : normalizePeriod text = text) :
    periodRecognized text = true ↔
      text ∈ ["month", "day", "week"] ∨ CountsDays (trimSuffix text 'd').toList := by
  have hlength : ((periodLength text).any fun length => 0 < length) = true ↔
      text ∈ ["day", "week"] ∨ CountsDays (trimSuffix text 'd').toList := by
    unfold periodLength
    rw [hnormal]
    split
    · rename_i hday
      refine iff_of_true (by decide) ?_
      rcases hday with rfl | rfl
      · exact .inl (by decide)
      · exact .inr (by decide +kernel)
    rename_i hday
    split
    · rename_i hweek
      refine iff_of_true (by decide) ?_
      rcases hweek with rfl | rfl
      · exact .inl (by decide)
      · exact .inr (by decide +kernel)
    rename_i hweek
    have hnamed : text ∉ ["day", "week"] := by
      rw [List.mem_cons, List.mem_singleton]
      exact fun h => h.elim (fun h => hday (.inl h)) fun h => hweek (.inl h)
    rw [or_iff_right hnamed]
    split
    · rename_i hempty
      subst hempty
      exact iff_of_false (by simp) not_countsDays_nil
    split
    · rename_i hempty
      rw [hempty]
      exact iff_of_false (by simp) not_countsDays_nil
    · rw [← periodDays_isSome_iff]
      cases hdays : periodDays (trimSuffix text 'd').toList 0 with
      | none => exact iff_of_false (by simp) (by simp)
      | some days =>
        have hpos := ((periodDays_eq_some_iff _ (by decide)).mp hdays).2.1
        refine iff_of_true ?_ rfl
        exact decide_eq_true (Int.mul_pos hpos dayNs_pos)
  unfold periodRecognized
  rw [hnormal, Bool.or_eq_true, decide_eq_true_eq, hlength, ← or_assoc, ← List.mem_cons]

theorem validPlanPeriod_iff {period : String} (hempty : normalizePlanPeriod period ≠ "")
    (honce : normalizePlanPeriod period ≠ "once") :
    validPlanPeriod period = true ↔ normalizePlanPeriod period ∈ ["month", "day", "week"] ∨
      (trimSuffix (normalizePlanPeriod period) 'd' ≠ normalizePlanPeriod period ∧
        ((atoi (trimSuffix (normalizePlanPeriod period) 'd').toList).any
          fun days => 0 < days && days ≤ maxExpiryDays) = true) := by
  unfold validPlanPeriod
  simp only
  generalize normalizePlanPeriod period = text at hempty honce
  by_cases hnamed : text ∈ ["month", "day", "week"]
  · refine iff_of_true (if_pos ?_) (.inl hnamed)
    simp only [List.mem_cons, List.not_mem_nil, or_false] at hnamed ⊢
    tauto
  · have hother : text ∉ ["", "month", "day", "week", "once"] := by
      simp only [List.mem_cons, List.not_mem_nil, or_false] at hnamed ⊢
      tauto
    rw [if_neg hother, or_iff_right hnamed]
    by_cases hdigits : trimSuffix text 'd' = ""
    · rw [if_pos (Or.inl hdigits), hdigits]
      exact iff_of_false (by simp) fun h => nomatch h.2
    by_cases hsuffix : trimSuffix text 'd' = text
    · rw [if_pos (Or.inr hsuffix)]
      exact iff_of_false (by simp) fun h => h.1 hsuffix
    · rw [if_neg (not_or.mpr ⟨hdigits, hsuffix⟩)]
      exact (and_iff_right hsuffix).symm

/-- The texts on which the readers part: a number of days without its `d`, or with a plus sign
before it. -/
def Misread (text : List Char) : Prop :=
  CountsDays text ∨ ∃ ds, text = '+' :: ds ++ ['d'] ∧ CountsDays ds

theorem not_countsDays_of_named {text : String} (h : text ∈ ["month", "day", "week"]) :
    ¬ CountsDays text.toList := by
  rw [List.mem_cons, List.mem_cons, List.mem_singleton] at h
  rcases h with rfl | rfl | rfl <;> decide

/-- **Exactly when a plan period the console admits is one the rollover acts on**, for every text
that does not normalise to the empty one or to `once`: it is neither a bare number of days nor one
with a plus sign. -/
theorem plan_period_accepted_iff (period : String) (hempty : normalizePlanPeriod period ≠ "")
    (honce : normalizePlanPeriod period ≠ "once") :
    (validPlanPeriod period = true ↔ periodRecognized (defaultPlanPeriod period) = true) ↔
      ¬ Misread (normalizePlanPeriod period).toList := by
  have hnormal : normalizePeriod (normalizePlanPeriod period) = normalizePlanPeriod period :=
    toLower_trimSpace_idem period
  have hdefault : defaultPlanPeriod period = normalizePlanPeriod period := if_neg hempty
  rw [hdefault, periodRecognized_iff hnormal, validPlanPeriod_iff hempty honce, any_atoi_iff]
  generalize normalizePlanPeriod period = text
  have hnamed : text ∈ ["month", "day", "week"] → ¬ CountsDays text.toList :=
    not_countsDays_of_named
  unfold Misread
  by_cases hd : text.toList.getLast? = some 'd'
  · -- what stands before the `d` is read twice
    obtain ⟨digits, htext⟩ : ∃ digits, text.toList = digits ++ ['d'] :=
      ⟨_, (List.dropLast_append_getLast? 'd' hd).symm⟩
    have htrim : trimSuffix text 'd' = String.ofList digits := by
      rw [trimSuffix, if_pos hd, htext, List.dropLast_concat]
    have hunnamed : text ∉ ["month", "day", "week"] := by
      rw [List.mem_cons, List.mem_cons, List.mem_singleton]
      rintro (rfl | rfl | rfl) <;> cases hd
    have hletter : ¬ CountsDays (digits ++ ['d']) := fun h => by
      have hall := h.1
      rw [List.all_append] at hall
      simp [isDigit] at hall
    have hshorter : String.ofList digits ≠ text := fun h => by
      rw [← h, String.toList_ofList] at htext
      simp at htext
    have hplus : ∀ ds, digits = '+' :: ds → ¬ CountsDays digits :=
      fun ds h => h ▸ not_countsDays_cons rfl ds
    simp only [htrim, htext, String.toList_ofList, ne_eq, hshorter, not_false_iff, true_and,
      hunnamed, false_or, hletter, List.append_left_inj]
    constructor
    · rintro hagree ⟨ds, heq, hds⟩
      exact hplus ds heq (hagree.mp (.inr ⟨ds, heq, hds⟩))
    · exact fun hnot => or_iff_left hnot
  · have hlast : ¬ ∃ ds, text.toList = '+' :: ds ++ ['d'] ∧ CountsDays ds := by
      rintro ⟨ds, heq, -⟩
      exact hd (by rw [heq, List.getLast?_concat])
    have htrim : trimSuffix text 'd' = text := if_neg hd
    simp only [htrim, ne_eq, not_true_eq_false, false_and, or_false, hlast]
    constructor
    · exact fun hagree hbare => hnamed (hagree.mpr (.inr hbare)) hbare
    · exact fun hnot => (or_iff_left hnot).symm

theorem plan_period_accepted_ten_days : normalizePlanPeriod " 10D " = "10d" ∧
      (validPlanPeriod " 10D " = true ↔ periodRecognized (defaultPlanPeriod " 10D ") = true) := by
  have hnormal : normalizePlanPeriod " 10D " = "10d" := by decide +kernel
  refine ⟨hnormal, (plan_period_accepted_iff " 10D " ?_ ?_).mpr ?_⟩ <;> rw [hnormal]
  · decide
  · decide
  · rintro (h | ⟨ds, heq, -⟩)
    · revert h
      decide
    · cases heq

/-- **A period that is admitted and never acted on**, and one that would be acted on and is
refused. -/
theorem signed_period_admitted :
    validPlanPeriod "+5d" = true ∧ periodRecognized (defaultPlanPeriod "+5d") = false ∧
      validPlanPeriod "30" = false ∧ periodRecognized (defaultPlanPeriod "30") = true := by
  decide +kernel

end Prism
