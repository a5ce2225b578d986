import LanguageClient.Bytes

/-!
Decimal digits in ASCII: writing and reading natural numbers and integers.

A written number has no leading zero; reading accepts leading zeros and nothing but digits.
-/

namespace LanguageClient.Digits

def isDigit (b : UInt8) : Bool := Ascii.zero ≤ b && b ≤ Ascii.nine

/-- The number a digit stands for. -/
def value (b : UInt8) : Nat := (b - Ascii.zero).toNat

/-- The decimal text of a natural number. -/
def ofNat (n : Nat) : Bytes := (Nat.toDigits 10 n).map fun c => c.toNat.toUInt8

/-- The decimal text of an integer. -/
def ofInt (n : Int) : Bytes :=
  if n < 0 then Ascii.minus :: ofNat n.natAbs else ofNat n.natAbs

/-- The number that a row of digits stands for. -/
def toNat (digits : Bytes) : Nat := digits.foldl (fun n d => 10 * n + value d) 0

/-- Reads a text that is a non-empty row of digits. -/
def toNat? (s : Bytes) : Option Nat :=
  if s.isEmpty || !s.all isDigit then none else some (toNat s)

end LanguageClient.Digits
