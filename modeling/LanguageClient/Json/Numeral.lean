import LanguageClient.Binary64.Decimal

/-!
Number literals. A literal without fraction and exponent denotes an integer, any other a decimal;
`read?` accepts exactly the grammar of RFC 8259, section 6.

The grammar has no limit on the digits of an exponent, but a reader that keeps exponents in 64-bit
words has one: it may refuse an exponent of twenty digits, and take one of nineteen for another. What
becomes of such exponents is left open.
-/

namespace LanguageClient.Json

/-- What a number literal says. -/
inductive Numeral where
  /-- No fraction and no exponent. -/
  | integer (n : Int)
  /-- A fraction, an exponent, or both. The sign stands apart, because zero keeps it. -/
  | decimal (negative : Bool) (magnitude : Decimal)
  deriving DecidableEq

namespace Numeral

/-- A byte that may occur in a number literal. -/
def isPart (b : UInt8) : Bool :=
  Digits.isDigit b || b == Ascii.minus || b == Ascii.plus || b == Ascii.point ||
    b == Ascii.byte 'e' || b == Ascii.byte 'E'

/-- Splits off the digits at the front. -/
def digits (s : Bytes) : Bytes × Bytes := (s.takeWhile Digits.isDigit, s.dropWhile Digits.isDigit)

/-- The whole part: no zero in front of another digit. -/
def whole? (s : Bytes) : Option (Bytes × Bytes) :=
  match digits s with
  | ([], _) => none
  | (first :: [], rest) => some ([first], rest)
  | (first :: more, rest) => if first = Ascii.zero then none else some (first :: more, rest)

/-- The fraction, if there is one: a point and at least one digit. -/
def fraction? : Bytes → Option (Option Bytes × Bytes)
  | [] => some (none, [])
  | b :: rest =>
    if b = Ascii.point then
      match digits rest with
      | ([], _) => none
      | (ds, rest) => some (some ds, rest)
    else some (none, b :: rest)

/-- The sign of an exponent. -/
def exponentSign : Bytes → Bool × Bytes
  | [] => (false, [])
  | b :: rest =>
    if b = Ascii.minus then (true, rest)
    else if b = Ascii.plus then (false, rest)
    else (false, b :: rest)

/-- The exponent, if there is one, up to the end of the literal. It may have any number of digits here.
-/
def exponent? : Bytes → Option (Option Int)
  | [] => some none
  | b :: rest =>
    if b = Ascii.byte 'e' ∨ b = Ascii.byte 'E' then
      let (negative, rest) := exponentSign rest
      match Digits.toNat? rest with
      | none => none
      | some n => some (some (if negative then -n else n))
    else none

/-- A literal without its sign. -/
def readMagnitude? (negative : Bool) (s : Bytes) : Option Numeral := do
  let (whole, rest) ← whole? s
  let (fraction, rest) ← fraction? rest
  let exponent ← exponent? rest
  match fraction, exponent with
  | none, none =>
    let n : Int := Digits.toNat whole
    return .integer (if negative then -n else n)
  | _, _ =>
    let fraction := fraction.getD []
    return .decimal negative
      ⟨Digits.toNat (whole ++ fraction), exponent.getD 0 - fraction.length⟩

/-- Reads a whole number literal. -/
def read? : Bytes → Option Numeral
  | [] => none
  | b :: rest =>
    if b = Ascii.minus then readMagnitude? true rest else readMagnitude? false (b :: rest)

end Numeral

end LanguageClient.Json
