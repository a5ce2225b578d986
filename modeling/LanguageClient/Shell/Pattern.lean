import LanguageClient.Digits

/-!
Patterns that texts are compared with: `*` matches every text, `?` a byte, and brackets one of some
bytes. What is quoted in a pattern matches itself.
-/

namespace LanguageClient.Shell

/-- A byte of a pattern, and whether it is quoted. -/
abbrev Marked := UInt8 × Bool

inductive Pattern.Element where
  | byte (b : UInt8)
  | anyByte
  | anyText
  /-- One of some bytes, given by a test, or none of them. -/
  | oneOf (negated : Bool) (tests : List (UInt8 → Bool))

abbrev Pattern := List Pattern.Element

namespace Pattern

def isUpper (b : UInt8) : Bool := 0x41 ≤ b && b ≤ 0x5A

def isLower (b : UInt8) : Bool := 0x61 ≤ b && b ≤ 0x7A

def isAlpha (b : UInt8) : Bool := isUpper b || isLower b

def isSpace (b : UInt8) : Bool := b == Ascii.space || (Ascii.tab ≤ b && b ≤ Ascii.cr)

def isGraph (b : UInt8) : Bool := 0x21 ≤ b && b ≤ 0x7E

/-- The classes of bytes that have names. -/
def classes : List (Bytes × (UInt8 → Bool)) :=
  [("alpha", isAlpha), ("digit", Digits.isDigit), ("alnum", fun b => isAlpha b || Digits.isDigit b),
    ("upper", isUpper), ("lower", isLower), ("space", isSpace), ("blank", Bytes.isBlank),
    ("punct", fun b => isGraph b && !isAlpha b && !Digits.isDigit b),
    ("print", fun b => isGraph b || b == Ascii.space), ("graph", isGraph),
    ("cntrl", fun b => b < 0x20 || b == 0x7F),
    ("xdigit", fun b =>
      Digits.isDigit b || (0x61 ≤ b && b ≤ 0x66) || (0x41 ≤ b && b ≤ 0x46))].map
    fun (name, test) => (bytes name, test)

/-- The bytes of a text as parts of a pattern. -/
def mark (quoted : Bool) (s : Bytes) : List Marked := s.map (·, quoted)

/-- A class that is named at the front of a text, and what follows it. -/
def class? (s : List Marked) : Option ((UInt8 → Bool) × List Marked) := do
  let start ← if (mark false (bytes "[:")).isPrefixOf s then some (s.drop 2) else none
  let name := start.takeWhile fun m => isLower m.1
  let rest := start.drop name.length
  if (mark false (bytes ":]")).isPrefixOf rest then
    (classes.lookup (name.map Prod.fst)).map (·, rest.drop 2)
  else none

/-- The tests between brackets and what follows them. A bracket that closes is no member unless it
comes first. -/
def tests? : Nat → Bool → List Marked → Option (List (UInt8 → Bool) × List Marked)
  | 0, _, _ => none
  | n + 1, isFirst, s =>
    match class? s with
    | some (test, rest) => (tests? n false rest).map fun (found, left) => (test :: found, left)
    | none =>
      match s with
      | [] => none
      | (b, quoted) :: rest =>
        if b = Ascii.closeBracket ∧ !quoted ∧ !isFirst then some ([], rest)
        else
          match rest with
          | (dash, false) :: (last, quotedLast) :: after =>
            if dash = Ascii.minus ∧ (last ≠ Ascii.closeBracket ∨ quotedLast) then
              (tests? n false after).map fun (found, left) =>
                ((fun x => b ≤ x && x ≤ last) :: found, left)
            else (tests? n false rest).map fun (found, left) => ((· == b) :: found, left)
          | _ => (tests? n false rest).map fun (found, left) => ((· == b) :: found, left)

/-- Reads a pattern. Brackets that are not closed match themselves. -/
def ofMarked : Nat → List Marked → Pattern
  | 0, _ => []
  | _, [] => []
  | n + 1, (b, true) :: rest => .byte b :: ofMarked n rest
  | n + 1, (b, false) :: rest =>
    if b = 0x2A then .anyText :: ofMarked n rest
    else if b = 0x3F then .anyByte :: ofMarked n rest
    else if b = Ascii.backslash then
      match rest with
      | (c, _) :: rest => .byte c :: ofMarked n rest
      | [] => [.byte b]
    else if b = Ascii.openBracket then
      let negated := rest.head? == some (0x21, false)
      match tests? (rest.length + 1) true (if negated then rest.tail else rest) with
      | some (found, after) => .oneOf negated found :: ofMarked n after
      | none => .byte b :: ofMarked n rest
    else .byte b :: ofMarked n rest

/-- Whether a pattern matches the whole of a text. -/
def isMatch : Pattern → Bytes → Bool
  | [], s => s.isEmpty
  | .byte b :: rest, s =>
    match s with
    | c :: s => b == c && isMatch rest s
    | [] => false
  | .anyByte :: rest, s =>
    match s with
    | _ :: s => isMatch rest s
    | [] => false
  | .oneOf negated tests :: rest, s =>
    match s with
    | c :: s => (tests.any (· c)) != negated && isMatch rest s
    | [] => false
  | .anyText :: rest, s => (List.range (s.length + 1)).any fun n => isMatch rest (s.drop n)

/-- A text without the part at one end that a pattern matches. -/
def trim (p : Pattern) (fromEnd longest : Bool) (s : Bytes) : Bytes :=
  let lengths := List.range (s.length + 1)
  let found := (if longest then lengths.reverse else lengths).find? fun n =>
    isMatch p (if fromEnd then s.drop (s.length - n) else s.take n)
  match found with
  | none => s
  | some n => if fromEnd then s.take (s.length - n) else s.drop n

end Pattern

end LanguageClient.Shell
