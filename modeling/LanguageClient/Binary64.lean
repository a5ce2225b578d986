/-!
The finite numbers of the binary64 format, both zeros included, without any use of machine floats.

A magnitude is stored as its code: the format's 63 bits after the sign, read as a number. Codes
are ordered like the magnitudes they stand for, so the code above is the next greater magnitude.
Every finite magnitude is a whole number of units of 2^-1074, the least positive one (`units`),
and `nearest?` rounds a quotient to the nearest code, ties to the even one.
-/

namespace LanguageClient

/-- How many codes share an exponent: 2^52. -/
abbrev Binary64.binade : Nat := 0x10000000000000

/-- Codes from here on are not those of finite numbers: there are 2047 exponents. -/
abbrev Binary64.codeLimit : Nat := 0x7FF0000000000000

/-- A finite binary64 number. -/
structure Binary64 where
  negative : Bool
  code : Nat
  finite : code < Binary64.codeLimit
  deriving DecidableEq

namespace Binary64

/-- Magnitudes are whole multiples of 2^-1074, that is of one over this. -/
def unitsPerOne : Nat := Nat.pow 2 1074

/-- How many times 2^-1074 the magnitude with a given code is. -/
def unitsOfCode (code : Nat) : Nat :=
  if code < binade then code else (binade + code % binade) * Nat.pow 2 (code / binade - 1)

/-- How many times 2^-1074 the magnitude is. -/
def units (d : Binary64) : Nat := unitsOfCode d.code

/-- The number in units of 2^-1074, with its sign. -/
def signedUnits (d : Binary64) : Int := if d.negative then -(d.units : Int) else d.units

/-- The zero of either sign. -/
def zero (negative : Bool) : Binary64 := ⟨negative, 0, by decide⟩

/-- The quotient to the nearest whole number, a half to the even one. -/
def roundHalfEven (num den : Nat) : Nat :=
  let q := num / den
  let r := num % den
  if 2 * r < den then q else if den < 2 * r then q + 1 else q + q % 2

/-- The code nearest to `num / den`; it may be past the limit of the finite ones. -/
def nearestCode (num den : Nat) : Nat :=
  let scaled := num * unitsPerOne
  let shift := Nat.log2 (scaled / den) - 52
  shift * binade + roundHalfEven scaled (den * Nat.pow 2 shift)

/-- The number of a given sign that is nearest to `num / den`, unless that is not finite. -/
def nearest? (negative : Bool) (num den : Nat) : Option Binary64 :=
  let code := nearestCode num den
  if h : code < codeLimit then some ⟨negative, code, h⟩ else none

/-- Equal as numbers: the two zeros are. -/
def numEq (a b : Binary64) : Bool := a.signedUnits == b.signedUnits

/-- The number nearest to an integer, unless that is not finite. -/
def ofInt? (n : Int) : Option Binary64 := nearest? (n < 0) n.natAbs 1

/-- Equal to the number nearest to an integer. -/
def numEqInt (d : Binary64) (n : Int) : Bool := (ofInt? n).any d.numEq

/-- The integer part: the number without its fraction. -/
def truncate (d : Binary64) : Int :=
  let n : Int := (d.units / unitsPerOne : Nat)
  if d.negative then -n else n

/-- The word for a number whose integer part no 32-bit word can hold. No word is specified for it,
and nothing relies on this one. -/
@[irreducible] def wordBeyond (_ : Binary64) : Int32 := Int32.minValue

/-- The integer part as a 32-bit word. -/
def toInt32 (d : Binary64) : Int32 :=
  if Int32.minValue.toInt ≤ d.truncate ∧ d.truncate ≤ Int32.maxValue.toInt then
    Int32.ofInt d.truncate
  else d.wordBeyond

end Binary64

end LanguageClient
