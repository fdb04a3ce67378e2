import Mathlib.Data.List.DropRight

/-!
# Trimming text, and reading numbers

White space as Go's `unicode.IsSpace` has it, `strings.TrimSpace`, the lower case of a text, and the
number a string of digits stands for.
-/

namespace Prism

/-- `unicode.IsSpace`: the Latin-1 spaces, and the code points with property `White_Space`. -/
def isSpace (c : Char) : Bool :=
  c.toNat ∈ [0x09, 0x0a, 0x0b, 0x0c, 0x0d, 0x20, 0x85, 0xa0, 0x1680, 0x2028, 0x2029, 0x202f,
    0x205f, 0x3000] || (0x2000 ≤ c.toNat && c.toNat ≤ 0x200a)

def trimSpace (s : String) : String :=
  String.ofList ((s.toList.dropWhile isSpace).reverse.dropWhile isSpace).reverse

/-- `unicode.ToLower`, for the letters whose lower case is ASCII: the Latin capitals, the Kelvin sign
and the dotted capital I.  The others are left as they are, since none of the texts a lower case is
compared with has one. -/
def lowerChar (c : Char) : Char :=
  if c.toNat = 0x212a then 'k' else if c.toNat = 0x130 then 'i' else c.toLower

def toLower (s : String) : String := String.ofList (s.toList.map lowerChar)

/-- `strings.TrimSuffix` with a suffix of one character. -/
def trimSuffix (s : String) (c : Char) : String :=
  if s.toList.getLast? = some c then String.ofList s.toList.dropLast else s

def isDigit (c : Char) : Bool := '0' ≤ c && c ≤ '9'

/-- The number a digit string denotes in base ten. -/
def natOfDigits (digits : List Char) : ℕ :=
  digits.foldl (fun n c => 10 * n + (c.toNat - '0'.toNat)) 0

example : trimSpace " \t a b \n" = "a b" := by decide

theorem toString_nat_injective : Function.Injective fun n : ℕ => toString n := by
  intro m n h
  have hdigits : Nat.toDigits 10 m = Nat.toDigits 10 n := by
    rw [← Nat.toList_repr, ← Nat.toList_repr]
    exact congrArg String.toList h
  rw [← Nat.ofDigitChars_ten_toDigits (n := m), hdigits, Nat.ofDigitChars_ten_toDigits]

theorem isDigit_of_mem_toDigits {n : ℕ} {c : Char} (hc : c ∈ Nat.toDigits 10 n) :
    isDigit c = true := by
  have hdigit := Nat.isDigit_of_mem_toDigits (by decide) (by decide) hc
  unfold Char.isDigit at hdigit
  simp only [ge_iff_le, Bool.and_eq_true, decide_eq_true_eq] at hdigit
  unfold isDigit
  simp only [Bool.and_eq_true, decide_eq_true_eq]
  exact hdigit

theorem utf8ByteSize_le (s : String) : s.utf8ByteSize ≤ 4 * s.length := by
  have hlist : ∀ l : List Char, (String.ofList l).utf8ByteSize ≤ 4 * l.length := by
    intro l
    induction l with
    | nil => simp
    | cons c l ih =>
      have hc := Char.utf8Size_le_four c
      rw [String.ofList_cons, String.utf8ByteSize_append, String.utf8ByteSize_singleton,
        List.length_cons]
      omega
  have hs := hlist s.toList
  rwa [String.ofList_toList, String.length_toList] at hs

variable (c : Char)

/-- A lower case is the character itself, or a small letter in the place of one that is neither. -/
theorem lowerChar_cases :
    lowerChar c = c ∨ isSpace c = false ∧ 97 ≤ (lowerChar c).toNat ∧ (lowerChar c).toNat ≤ 122 := by
  unfold lowerChar
  split
  · rename_i hkelvin
    refine .inr ⟨?_, by decide⟩
    unfold isSpace
    rw [hkelvin]
    decide
  split
  · rename_i hdotted
    refine .inr ⟨?_, by decide⟩
    unfold isSpace
    rw [hdotted]
    decide
  unfold Char.toLower
  split
  · rename_i hupper
    obtain ⟨h1, h2⟩ := hupper
    have hlow : 65 ≤ c.toNat := h1
    have hhigh : c.toNat ≤ 90 := h2
    refine .inr ⟨?_, ?_⟩
    · unfold isSpace
      simp only [List.mem_cons, List.not_mem_nil, or_false, Bool.or_eq_false_iff,
        decide_eq_false_iff_not, Bool.and_eq_false_iff]
      omega
    · show 97 ≤ (c.val + 32).toNat ∧ (c.val + 32).toNat ≤ 122
      have hval : (c.val + 32).toNat = c.toNat + 32 := by
        rw [UInt32.toNat_add]
        exact Nat.mod_eq_of_lt (show c.toNat + 32 < 2 ^ 32 by omega)
      omega
  · exact .inl rfl

theorem lowerChar_of_small {c : Char} (h1 : 97 ≤ c.toNat) (h2 : c.toNat ≤ 122) :
    lowerChar c = c := by
  unfold lowerChar
  rw [if_neg (by omega), if_neg (by omega)]
  refine dif_neg fun hupper => ?_
  have hhigh : c.toNat ≤ 90 := hupper.2
  omega

theorem lowerChar_lowerChar : lowerChar (lowerChar c) = lowerChar c := by
  rcases lowerChar_cases c with h | ⟨-, h1, h2⟩
  · rw [h, h]
  · exact lowerChar_of_small h1 h2

theorem isSpace_lowerChar : isSpace (lowerChar c) = isSpace c := by
  rcases lowerChar_cases c with h | ⟨hspace, h1, h2⟩
  · rw [h]
  · rw [hspace]
    unfold isSpace
    simp only [List.mem_cons, List.not_mem_nil, or_false, Bool.or_eq_false_iff,
      decide_eq_false_iff_not, Bool.and_eq_false_iff]
    omega

variable (s : String)

theorem toList_trimSpace :
    (trimSpace s).toList = (s.toList.dropWhile isSpace).rdropWhile isSpace := by
  unfold trimSpace
  rw [String.toList_ofList]
  rfl

theorem trimSpace_trimSpace : trimSpace (trimSpace s) = trimSpace s := by
  refine String.toList_injective ?_
  rw [toList_trimSpace, toList_trimSpace]
  -- what is left begins as the text without its leading space does
  have hfirst : ((s.toList.dropWhile isSpace).rdropWhile isSpace).dropWhile isSpace =
      (s.toList.dropWhile isSpace).rdropWhile isSpace := by
    refine List.dropWhile_eq_self_iff.mpr fun hl => ?_
    have hpre := List.rdropWhile_prefix isSpace (s.toList.dropWhile isSpace)
    rw [hpre.getElem hl]
    exact List.dropWhile_eq_self_iff.mp (List.dropWhile_idempotent isSpace s.toList)
      (lt_of_lt_of_le hl hpre.length_le)
  rw [hfirst, List.rdropWhile_idempotent]

theorem utf8ByteSize_trimSpace_le : (trimSpace s).utf8ByteSize ≤ s.utf8ByteSize := by
  obtain ⟨tail, htail⟩ := List.rdropWhile_prefix isSpace (s.toList.dropWhile isSpace)
  obtain ⟨lead, hlead⟩ := List.dropWhile_suffix (l := s.toList) isSpace
  have hs : String.ofList lead ++ (trimSpace s ++ String.ofList tail) = s := by
    refine String.toList_injective ?_
    simp [toList_trimSpace, htail, hlead]
  have hsize := congrArg String.utf8ByteSize hs
  rw [String.utf8ByteSize_append, String.utf8ByteSize_append] at hsize
  omega

theorem trimSpace_toLower : trimSpace (toLower s) = toLower (trimSpace s) := by
  have hspace : (isSpace ∘ lowerChar) = isSpace := funext isSpace_lowerChar
  refine String.toList_injective ?_
  rw [toList_trimSpace]
  unfold toLower
  rw [String.toList_ofList, String.toList_ofList, toList_trimSpace, List.dropWhile_map, hspace]
  unfold List.rdropWhile
  rw [← List.map_reverse, List.dropWhile_map, hspace, List.map_reverse]

theorem toLower_toLower : toLower (toLower s) = toLower s := by
  unfold toLower
  rw [String.toList_ofList, List.map_map]
  refine congrArg String.ofList (List.map_congr_left fun c _ => ?_)
  exact lowerChar_lowerChar c

/-- **A text in its normal form is in its normal form.** -/
theorem toLower_trimSpace_idem :
    toLower (trimSpace (toLower (trimSpace s))) = toLower (trimSpace s) := by
  rw [trimSpace_toLower, trimSpace_trimSpace, toLower_toLower]

-- no proof looks into a trimmed text, and a condition on one is not to be evaluated
attribute [irreducible] trimSpace

end Prism
