import Mathlib.Data.List.TakeWhile

/-!
# The spelling of a credential

`internal/keys/credential.go`.  A key is shown as `pk_<id>_<secret>`, and what a client presents is
split at the first two underscores.  Texts are the bytes Go compares.
-/

namespace Prism

abbrev Bytes := List UInt8

def underscore : UInt8 := 0x5f

/-- `strings.SplitN` with a separator of one byte. -/
def splitN (sep : UInt8) : ℕ → Bytes → List Bytes
  | 0, _ => []
  | 1, s => [s]
  | n + 2, s =>
    match s.dropWhile (· ≠ sep) with
    | [] => [s]
    | _ :: rest => s.takeWhile (· ≠ sep) :: splitN sep (n + 1) rest

def hexDigit (n : Fin 16) : UInt8 := if n < 10 then 0x30 + .ofNat n else 0x57 + .ofNat n

/-- `hex.EncodeToString`, and what a UUID is written as without its dashes. -/
def hexEncode (bytes : Bytes) : Bytes :=
  bytes.flatMap fun c => [hexDigit (.ofNat 16 (c.toNat / 16)), hexDigit (.ofNat 16 c.toNat)]

def isHexDigit (c : UInt8) : Bool := (0x30 ≤ c && c ≤ 0x39) || (0x61 ≤ c && c ≤ 0x66)

def isLowerHex (value : Bytes) : Bool := value.all isHexDigit

/-- `pk_`. -/
def credentialPrefix : Bytes := [0x70, 0x6b, underscore]

/-- The halves of a new credential; the id is a UUIDv7. -/
def generateCredential (uuid : Vector UInt8 16) (buf : Vector UInt8 32) : Bytes × Bytes :=
  (hexEncode uuid.toList, hexEncode buf.toList)

/-- `FormatCredential`. -/
def formatCredential (id secret : Bytes) : Bytes :=
  credentialPrefix ++ id ++ [underscore] ++ secret

/-- `ParseCredential`. -/
def parseCredential (credential : Bytes) : Option (Bytes × Bytes) :=
  if !credentialPrefix.isPrefixOf credential then none
  else match splitN underscore 3 credential with
    | [_, id, secret] =>
      if id.length ≠ 32 || secret.length ≠ 64 then none
      else if !isLowerHex id || !isLowerHex secret then none
      else some (id, secret)
    | _ => none

variable {sep : UInt8} {a b s : Bytes}

theorem splitN_append (n : ℕ) (h : sep ∉ a) :
    splitN sep (n + 2) (a ++ sep :: s) = a :: splitN sep (n + 1) s := by
  have hne : ∀ x ∈ a, decide (x ≠ sep) = true := fun x hx => decide_eq_true fun e => h (e ▸ hx)
  rw [splitN, List.dropWhile_append_of_pos hne, List.takeWhile_append_of_pos hne]
  simp

theorem eq_of_splitN_two (h : splitN sep 2 s = [a, b]) : s = a ++ sep :: b := by
  by_cases hmem : sep ∈ s
  · obtain ⟨l, r, rfl, hl⟩ := List.eq_append_cons_of_mem hmem
    rw [splitN_append 0 hl] at h
    cases h
    rfl
  · have hnone : s.dropWhile (· ≠ sep) = [] :=
      List.dropWhile_eq_nil_iff.mpr fun x hx => decide_eq_true fun e => hmem (e ▸ hx)
    rw [splitN, hnone] at h
    cases h

theorem isLowerHex_hexEncode (bytes : Bytes) : isLowerHex (hexEncode bytes) = true := by
  have hdigit : ∀ n, isHexDigit (hexDigit n) = true := by decide
  simp [isLowerHex, hexEncode, hdigit]

theorem length_hexEncode (bytes : Bytes) : (hexEncode bytes).length = bytes.length * 2 := by
  induction bytes with
  | nil => rfl
  | cons c bytes ih =>
    simp only [hexEncode, List.flatMap_cons, List.length_append, List.length_cons,
      List.length_nil] at ih ⊢
    omega

theorem splitN_formatCredential (h : isLowerHex a = true) :
    splitN underscore 3 (formatCredential a b) = [[0x70, 0x6b], a, b] := by
  -- a hex digit is no separator
  have ha : underscore ∉ a := fun hmem => absurd (List.all_eq_true.mp h _ hmem) (by decide)
  have hform : formatCredential a b = [0x70, 0x6b] ++ underscore :: (a ++ underscore :: b) := by
    simp [formatCredential, credentialPrefix]
  rw [hform, splitN_append 1 (by decide), splitN_append 0 ha, splitN]

theorem parseCredential_eq_some_iff : parseCredential s = some (a, b) ↔ s = formatCredential a b ∧
    (a.length = 32 ∧ isLowerHex a = true) ∧ b.length = 64 ∧ isLowerHex b = true := by
  unfold parseCredential
  constructor
  · intro h
    split_ifs at h with hpre
    rw [Bool.not_eq_true', Bool.not_eq_false, List.isPrefixOf_iff_prefix] at hpre
    obtain ⟨t, rfl⟩ := hpre
    have hsplit : splitN underscore 3 (credentialPrefix ++ t) = _ :: splitN underscore 2 t :=
      splitN_append (a := [0x70, 0x6b]) 1 (by decide)
    rw [hsplit] at h
    split at h
    · rename_i parts id secret hparts
      split_ifs at h with hlen hhex
      obtain ⟨rfl, rfl⟩ := Prod.mk.inj (Option.some.inj h)
      rw [eq_of_splitN_two (List.cons.inj hparts).2]
      simp_all [formatCredential]
    · cases h
  · rintro ⟨rfl, ⟨ha, hahex⟩, hb, hbhex⟩
    have hpre : credentialPrefix.isPrefixOf (formatCredential a b) = true := by
      rw [List.isPrefixOf_iff_prefix, formatCredential, List.append_assoc, List.append_assoc]
      exact List.prefix_append _ _
    simp [hpre, splitN_formatCredential hahex, ha, hahex, hb, hbhex]

/-- **A credential has exactly one spelling.**  A text is read as an id and a secret just when it is
what they are shown as, and both are lower-case hex of their lengths; a new credential is read as
what it was made of. -/
theorem credential_has_one_spelling :
    (∀ s a b, parseCredential s = some (a, b) ↔ s = formatCredential a b ∧
      (a.length = 32 ∧ isLowerHex a = true) ∧ b.length = 64 ∧ isLowerHex b = true) ∧
    ∀ uuid buf, parseCredential (formatCredential (generateCredential uuid buf).1
      (generateCredential uuid buf).2) = some (generateCredential uuid buf) := by
  refine ⟨fun s a b => parseCredential_eq_some_iff, fun uuid buf => ?_⟩
  refine parseCredential_eq_some_iff.mpr ⟨rfl, ⟨?_, isLowerHex_hexEncode _⟩, ?_,
    isLowerHex_hexEncode _⟩
  all_goals simp [length_hexEncode]

end Prism
