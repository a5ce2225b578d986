import LanguageClient.Binary64
import LanguageClient.Digits

/-!
Decimal numbers and binary64: reading rounds to nearest (`Decimal.toBinary64?`), and `shortest`
finds the fewest digits that read back as the number, the nearer of two, and the even one of two
as near. `text` writes them, positionally for moderate magnitudes and with an exponent otherwise.
Fast printers take a digit more now and then, so no digit is promised to anybody: what counts of a
text is the number that it reads back as.
-/

namespace LanguageClient

/-- The magnitude `coefficient * 10 ^ exponent`. -/
structure Decimal where
  coefficient : Nat
  exponent : Int
  deriving DecidableEq

namespace Decimal

/-- How many digits the coefficient has. -/
def width (d : Decimal) : Nat := (Nat.toDigits 10 d.coefficient).length

/-- The place of the first digit: a magnitude other than zero is below `10 ^ leading` and not
below `10 ^ (leading - 1)`. -/
def leading (d : Decimal) : Int := d.exponent + d.width

/-- The number of a given sign that is nearest, unless that is not finite. Magnitudes from
`10 ^ 310` on are not finite and those below `10 ^ -330` round to zero, so neither is ever
multiplied out. -/
def toBinary64? (negative : Bool) (d : Decimal) : Option Binary64 :=
  if d.coefficient = 0 then some (.zero negative)
  else if d.leading > 310 then none
  else if d.leading < -330 then some (.zero negative)
  else
    let power := Nat.pow 10 d.exponent.natAbs
    if d.exponent < 0 then Binary64.nearest? negative d.coefficient power
    else Binary64.nearest? negative (d.coefficient * power) 1

/-- The same magnitude with up to `n` zeros at the end of the coefficient taken off. -/
def dropZeros : Nat → Decimal → Decimal
  | 0, d => d
  | n + 1, d =>
    if d.coefficient % 10 = 0 then dropZeros n ⟨d.coefficient / 10, d.exponent + 1⟩ else d

end Decimal

namespace Binary64

/-- The place of the first digit of a number other than zero. It is found on `10 ^ 400` times the
number, which is never below one. -/
def leading (d : Binary64) : Int :=
  (Nat.toDigits 10 (d.units * Nat.pow 10 400 / unitsPerOne)).length - 400

/-- The number in units of `10 ^ place`, rounded down. -/
def floorAt (d : Binary64) (place : Int) : Nat :=
  if place < 0 then d.units * Nat.pow 10 place.natAbs / unitsPerOne
  else d.units / (unitsPerOne * Nat.pow 10 place.natAbs)

/-- Whether the decimal above the number on the grid of `10 ^ place` goes before the one below: it
does if it is nearer, or as near and even. -/
def prefersAbove (d : Binary64) (place : Int) (below : Nat) : Bool :=
  let up := if place < 0 then Nat.pow 10 place.natAbs else 1
  let down := if place < 0 then 1 else Nat.pow 10 place.natAbs
  let middle := (2 * below + 1) * down * unitsPerOne
  let doubled := 2 * d.units * up
  middle < doubled || (middle == doubled && below % 2 == 1)

/-- The decimal with `count` digits that reads back as the number, the preferred one of two. -/
def withDigits? (d : Binary64) (count : Nat) : Option Decimal :=
  let place := d.leading - count
  let below := d.floorAt place
  let readsBack (c : Decimal) : Bool := c.toBinary64? d.negative == some d
  let low : Decimal := ⟨below, place⟩
  let high : Decimal := ⟨below + 1, place⟩
  if d.prefersAbove place below then [high, low].find? readsBack else [low, high].find? readsBack

/-- The decimal that equals the number, with all its digits. -/
def exact (d : Binary64) : Decimal := ⟨d.units * Nat.pow 5 1074, -1074⟩

/-- The decimal with the fewest digits that reads back as the number. Seventeen are always enough.
Only the number is meant by it, and any other decimal that reads back as the number means the same. -/
def shortest (d : Binary64) : Decimal :=
  let found := (List.range' 1 17).findSome? d.withDigits?
  let c := found.getD d.exact
  c.dropZeros c.width

/-- An exponent: its sign and at least two digits. -/
def exponentText (e : Int) : Bytes :=
  let digits := Digits.ofNat e.natAbs
  let padded := if digits.length < 2 then Ascii.zero :: digits else digits
  (if e < 0 then Ascii.minus else Ascii.plus) :: padded

/-- Greatest place of the first digit that is written positionally. -/
def greatestPositional : Int := 15

/-- Least place of the first digit that is written positionally. -/
def leastPositional : Int := -3

/-- The text of a magnitude that is not zero: its digits and the place of the first one. -/
def magnitudeText (digits : Bytes) (leading : Int) : Bytes :=
  let count : Int := digits.length
  if count ≤ leading ∧ leading ≤ greatestPositional then
    digits ++ List.replicate (leading - count).toNat Ascii.zero ++ [Ascii.point, Ascii.zero]
  else if 0 < leading ∧ leading ≤ greatestPositional then
    digits.take leading.toNat ++ Ascii.point :: digits.drop leading.toNat
  else if leastPositional ≤ leading ∧ leading ≤ 0 then
    Ascii.zero :: Ascii.point :: List.replicate leading.natAbs Ascii.zero ++ digits
  else
    let fraction := digits.drop 1
    let point := if fraction.isEmpty then [] else Ascii.point :: fraction
    digits.take 1 ++ point ++ Ascii.byte 'e' :: exponentText (leading - 1)

/-- The text of a number: always with a point or an exponent, so that it reads back as a double.
-/
def text (d : Binary64) : Bytes :=
  let magnitude :=
    if d.code = 0 then [Ascii.zero, Ascii.point, Ascii.zero]
    else
      let c := d.shortest
      magnitudeText (Digits.ofNat c.coefficient) c.leading
  if d.negative then Ascii.minus :: magnitude else magnitude

end Binary64

end LanguageClient
