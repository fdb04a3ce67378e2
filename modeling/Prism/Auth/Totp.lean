import Prism.Foundation.Text

/-!
# One-time codes

`internal/auth/totp.go`.  A code is a function of a secret and of a step of thirty seconds; which
function does not matter here, so it is a parameter, with the other primitives a login rests on.

A code is accepted in the current step and in the one on either side of it.  `VerifyTOTPStep` says
which step the code belonged to, and where it matches more than one, it is the newest.
-/

namespace Prism

/-- What seals and opens second factors.  Sealing takes a nonce. -/
structure Pepper where
  encrypt : List UInt8 → String → List UInt8
  decrypt : List UInt8 → Option String

/-- The primitives a login rests on. -/
structure Crypto where
  /-- `VerifyPassword`: the stored hash, and the password presented -/
  verifyPassword : String → String → Bool
  hashSessionID : String → String
  /-- the code of a secret in a step, if the secret decodes -/
  codeAt : String → ℤ → Option String
  pepper : Option Pepper

def totpDigits : ℕ := 6

def unixSeconds (ns : ℤ) : ℤ := ns / 1000000000

/-- `TOTPCode`; the step is a quotient that truncates towards zero. -/
def totpCode (c : Crypto) (secret : String) (momentNs : ℤ) : Option String :=
  c.codeAt secret ((unixSeconds momentNs).tdiv 30)

/-- Where the step of an instant starts. -/
def totpStepStartNs (momentNs : ℤ) : ℤ :=
  (unixSeconds momentNs).tdiv 30 * 30 * 1000000000

/-- The steps the code matches, in the order they are looked at; nothing if a code cannot be
computed. -/
def totpMatches (c : Crypto) (secret code : String) (atNs : ℤ) : List ℤ → Option (List ℤ)
  | [] => some []
  | offset :: offsets =>
    match totpCode c secret (atNs + offset * 30000000000) with
    | none => none
    | some candidate =>
      (totpMatches c secret code atNs offsets).map fun steps =>
        if candidate = code then totpStepStartNs (atNs + offset * 30000000000) :: steps
        else steps

def totpOffsets : List ℤ := [-1, 0, 1]

/-- `VerifyTOTP`. -/
def verifyTOTP (c : Crypto) (secret code : String) (atNs : ℤ) : Bool :=
  if (trimSpace code).utf8ByteSize ≠ totpDigits then false
  else (totpMatches c secret (trimSpace code) atNs totpOffsets).any fun steps => steps ≠ []

/-- `VerifyTOTPStep`. -/
def verifyTOTPStep (c : Crypto) (secret code : String) (atNs : ℤ) : Option ℤ :=
  if (trimSpace code).utf8ByteSize ≠ totpDigits then none
  else (totpMatches c secret (trimSpace code) atNs totpOffsets).bind fun steps => steps.getLast?

end Prism
