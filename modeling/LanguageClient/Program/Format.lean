import LanguageClient.Shell.Arithmetic

/-!
Texts with escapes, and the formats of `printf`.

`unescape` replaces escapes by the bytes that they stand for; a `Dialect` says which ones there
are. `format` fills the directives of a format with arguments, and begins the format again while
arguments are left.
-/

namespace LanguageClient.Program

/-! ### Escapes -/

/-- Which escapes there are besides those that all know. -/
structure Dialect where
  /-- Up to three octal digits may follow a zero. -/
  leadingZero : Bool := true
  /-- Hexadecimal digits may follow an `x`. -/
  hexadecimal : Bool := false
  /-- A `c` ends the text and all that is written after it. -/
  ending : Bool := true

/-- The number of a row of digits as a byte. -/
def digitsByte (base : Nat) (digits : Bytes) : UInt8 := (Shell.natural base digits).1.toUInt8

def isOctal (b : UInt8) : Bool := (Shell.digitValue? 8 b).isSome

def isHexadecimal (b : UInt8) : Bool := (Shell.digitValue? 16 b).isSome

/-- The byte that a letter after a backslash stands for. -/
def escaped? (c : UInt8) : Option UInt8 :=
  [(Ascii.byte 'n', Ascii.lf), (Ascii.byte 'r', Ascii.cr), (Ascii.byte 't', Ascii.tab),
    (Ascii.byte 'a', 0x07), (Ascii.byte 'b', 0x08), (Ascii.byte 'f', 0x0C),
    (Ascii.byte 'v', 0x0B), (Ascii.byte 'e', 0x1B), (Ascii.backslash, Ascii.backslash)].lookup c

/-- The byte of the escape whose backslash has been read, and how long the rest of it is. -/
def Dialect.escape? (d : Dialect) (s : Bytes) : Option (UInt8 × Nat) :=
  match s with
  | [] => none
  | c :: rest =>
    if isOctal c then
      let start := if d.leadingZero ∧ c = Ascii.zero then 1 else 0
      let digits := ((s.drop start).take 3).takeWhile isOctal
      some (digitsByte 8 digits, start + digits.length)
    else if d.hexadecimal ∧ c = Ascii.byte 'x' then
      let digits := (rest.take 2).takeWhile isHexadecimal
      if digits.isEmpty then none else some (digitsByte 16 digits, 1 + digits.length)
    else (escaped? c).map (·, 1)

/-- Replaces the escapes of a text. The answer is also whether the text was ended by one. The
number bounds the length of the text. -/
def unescape (d : Dialect) : Nat → Bytes → Bytes × Bool
  | 0, _ => ([], false)
  | _, [] => ([], false)
  | n + 1, b :: rest =>
    if b ≠ Ascii.backslash then
      let (text, ended) := unescape d n rest
      (b :: text, ended)
    else if d.ending ∧ rest.head? = some (Ascii.byte 'c') then ([], true)
    else
      match d.escape? rest with
      | some (e, length) =>
        let (text, ended) := unescape d n (rest.drop length)
        (e :: text, ended)
      | none =>
        let (text, ended) := unescape d n (rest.drop 1)
        (b :: rest.take 1 ++ text, ended)

/-! ### Numbers -/

/-- How a directive wants its value shown. -/
structure Layout where
  /-- The value stands on the left. -/
  left : Bool := false
  plus : Bool := false
  blank : Bool := false
  alternate : Bool := false
  zeros : Bool := false
  width : Nat := 0
  precision : Option Nat := none

namespace Layout

/-- Fills a text up to the width. -/
def pad (l : Layout) (s : Bytes) : Bytes :=
  let filling := List.replicate (l.width - s.length) Ascii.space
  if l.left then s ++ filling else filling ++ s

/-- Fills a number up to the width, with zeros after its sign if `zeros`. -/
def padNumber (l : Layout) (zeros : Bool) (sign digits : Bytes) : Bytes :=
  if zeros && !l.left then
    sign ++ List.replicate (l.width - sign.length - digits.length) Ascii.zero ++ digits
  else l.pad (sign ++ digits)

/-- The sign of a number. -/
def sign (l : Layout) (negative : Bool) : Bytes :=
  if negative then [Ascii.minus] else if l.plus then [Ascii.plus]
  else if l.blank then [Ascii.space] else []

/-- A whole number, after a sign or a mark of its base. -/
def whole (l : Layout) (sign digits : Bytes) : Bytes :=
  let least := l.precision.getD 1
  let digits := List.replicate (least - digits.length) Ascii.zero ++ digits
  l.padNumber (l.zeros && l.precision.isNone) sign digits

end Layout

/-- Small letters as capitals. -/
def capitals (s : Bytes) : Bytes := s.map fun b => if 0x61 ≤ b ∧ b ≤ 0x7A then b - 0x20 else b

/-! ### Arguments -/

/-- What can be wrong with an argument of a number. -/
inductive ArgumentFault where
  | noNumber (s : Bytes)
  /-- Something follows the number. -/
  | notAll (s : Bytes)
  | outOfRange (s : Bytes)
  deriving DecidableEq

/-- The code of the byte after a quotation mark. -/
def quotedCode? (s : Bytes) : Option Nat :=
  match s with
  | first :: rest =>
    if first = 0x27 ∨ first = Ascii.quote then some ((rest.headD 0).toNat) else none
  | [] => none

/-- The whole number of an argument between two bounds. -/
def wholeArgument (least greatest : Int) (s : Bytes) : Int × List ArgumentFault :=
  match quotedCode? s with
  | some code => (code, [])
  | none =>
    let (negative, digits) := Shell.sign (s.dropWhile Shell.isSpace)
    let (n, rest) := Shell.literal digits
    let n : Int := if negative then -n else n
    let value := max least (min greatest n)
    if s.isEmpty then (0, [])
    else if rest.length = digits.length then (0, [.noNumber s])
    else if value ≠ n then (value, [.outOfRange s])
    else if rest.isEmpty then (value, [])
    else (value, [.notAll s])

/-! ### Directives -/

/-- What a format has come to. -/
structure Formatted where
  output : Bytes := []
  faults : List ArgumentFault := []
  /-- A directive that is none; nothing was written after it. -/
  broken : Option Bytes := none
  /-- An escape ended the text. -/
  ended : Bool := false

/-- The dialects of a format and of its arguments that may have escapes. -/
structure Formatter where
  text : Dialect
  argument : Dialect
  /-- Letters for the size of a number may stand before the letter of a directive. -/
  sized : Bool := false

/-- The digits of a whole number in a base. -/
def digitsIn (base : Nat) (n : Nat) : Bytes := bytes (String.ofList (Nat.toDigits base n))

/-- An argument as a directive shows it. -/
def Formatter.shown? (f : Formatter) (l : Layout) (conversion : UInt8) (s : Bytes) :
    Option Formatted :=
  let unsigned (base : Nat) (mark : Bytes) : Formatted :=
    let (n, faults) := wholeArgument (-9223372036854775808) 18446744073709551615 s
    let n := (if n < 0 then n + 18446744073709551616 else n).toNat
    let digits := if n = 0 ∧ l.precision = some 0 then [] else digitsIn base n
    let mark := if l.alternate ∧ n ≠ 0 then mark else []
    let digits := if base = 8 then mark ++ digits else digits
    { output := l.whole (if base = 8 then [] else mark) digits, faults }
  let textual (s : Bytes) : Bytes := l.pad (match l.precision with | some n => s.take n | none => s)
  if conversion = Ascii.byte 's' then some { output := textual s }
  else if conversion = Ascii.byte 'b' then
    let (text, ended) := unescape f.argument (s.length + 1) s
    some { output := textual text, ended }
  else if conversion = Ascii.byte 'c' then some { output := l.pad [s.headD 0] }
  else if conversion = Ascii.byte 'd' ∨ conversion = Ascii.byte 'i' then
    let (n, faults) := wholeArgument (-9223372036854775808) 9223372036854775807 s
    let digits := if n = 0 ∧ l.precision = some 0 then [] else Digits.ofNat n.natAbs
    some { output := l.whole (l.sign (n < 0)) digits, faults }
  else if conversion = Ascii.byte 'u' then some (unsigned 10 [])
  else if conversion = Ascii.byte 'o' then some (unsigned 8 [Ascii.zero])
  else if conversion = Ascii.byte 'x' then some (unsigned 16 (bytes "0x"))
  else if conversion = Ascii.byte 'X' then
    let found := unsigned 16 (bytes "0x")
    some { found with output := capitals found.output }
  else none

/-- A number of a directive: digits, or an argument. -/
def layoutNumber (arguments : List Bytes) (s : Bytes) : Option Int × List Bytes × Bytes :=
  if s.head? = some 0x2A then
    (some (wholeArgument (-2147483648) 2147483647 (arguments.headD [])).1, arguments.tail, s.tail)
  else
    let digits := s.takeWhile Digits.isDigit
    (if digits.isEmpty then none else some (Digits.toNat digits), arguments, s.drop digits.length)

/-- The layout at the front of a directive, and the arguments and the text after it. -/
def layout (arguments : List Bytes) (s : Bytes) : Layout × List Bytes × Bytes :=
  let flags := s.takeWhile (bytes "#-+ 0").contains
  let (width, arguments, s) := layoutNumber arguments (s.drop flags.length)
  let (precision, arguments, s) : Option Int × List Bytes × Bytes :=
    if s.head? = some Ascii.point then
      let (n, arguments, s) := layoutNumber arguments s.tail
      (some (n.getD 0), arguments, s)
    else (none, arguments, s)
  let width := width.getD 0
  ({ left := flags.contains Ascii.minus || width < 0
     plus := flags.contains Ascii.plus
     blank := flags.contains Ascii.space
     alternate := flags.contains 0x23
     zeros := flags.contains Ascii.zero
     width := width.natAbs
     precision := precision.bind fun n => if n < 0 then none else some n.toNat }, arguments, s)

/-- One pass over a format, and the arguments that are left. The number bounds its length. -/
def Formatter.formatOnce (f : Formatter) : Nat → List Bytes → Bytes → Formatted × List Bytes
  | 0, arguments, _ => ({}, arguments)
  | _, arguments, [] => ({}, arguments)
  | n + 1, arguments, b :: rest =>
    let goOn (found : Formatted) (arguments : List Bytes) (rest : Bytes) :
        Formatted × List Bytes :=
      if found.ended then (found, [])
      else
        let (later, left) := f.formatOnce n arguments rest
        ({ later with
           output := found.output ++ later.output, faults := found.faults ++ later.faults }, left)
    if b = 0x25 then
      if rest.head? = some 0x25 then goOn { output := [b] } arguments rest.tail
      else
        let (l, arguments, after) := layout arguments rest
        match if f.sized then after.dropWhile (bytes "hlLjtz").contains else after with
        | [] => ({ broken := some (b :: rest) }, [])
        | conversion :: after =>
          match f.shown? l conversion (arguments.headD []) with
          | some found => goOn found arguments.tail after
          | none =>
            ({ broken := some (b :: rest.take (rest.length - after.length)) }, [])
    else
      let run := b :: rest.takeWhile (· != 0x25)
      let (text, ended) := unescape f.text (run.length + 1) run
      goOn { output := text, ended } arguments (rest.drop (run.length - 1))

/-- The text of a format, which is begun again while arguments are left. The number bounds how
often. -/
def Formatter.formatAgain (f : Formatter) (form : Bytes) : Nat → List Bytes → Formatted
  | 0, _ => {}
  | n + 1, arguments =>
    let (found, left) := f.formatOnce (form.length + 1) arguments form
    if left.isEmpty || left.length == arguments.length || found.broken.isSome then found
    else
      let later := f.formatAgain form n left
      { later with
        output := found.output ++ later.output, faults := found.faults ++ later.faults }

def Formatter.format (f : Formatter) (form : Bytes) (arguments : List Bytes) : Formatted :=
  f.formatAgain form (arguments.length + 1) arguments

end LanguageClient.Program
