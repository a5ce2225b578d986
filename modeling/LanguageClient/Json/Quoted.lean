import LanguageClient.Utf8

/-!
Strings between quotation marks. `write` escapes the quotation mark, the backslash and the bytes
below 0x20, and leaves all else alone; `read?` accepts every escape, joins surrogate pairs, and
refuses half of a pair.
-/

namespace LanguageClient.Json.Quoted

/-- A hexadecimal digit in lower case. -/
def hexDigit (n : Nat) : UInt8 := if n < 10 then Ascii.zero + n.toUInt8 else 0x57 + n.toUInt8

/-- The letter of a two-byte escape. -/
def letterOf? (b : UInt8) : Option UInt8 :=
  if b = Ascii.quote ∨ b = Ascii.backslash then some b
  else if b = 0x08 then some (Ascii.byte 'b')
  else if b = 0x0C then some (Ascii.byte 'f')
  else if b = Ascii.lf then some (Ascii.byte 'n')
  else if b = Ascii.cr then some (Ascii.byte 'r')
  else if b = Ascii.tab then some (Ascii.byte 't')
  else none

/-- The written form of one byte. -/
def escape (b : UInt8) : Bytes :=
  match letterOf? b with
  | some c => [Ascii.backslash, c]
  | none =>
    if b < 0x20 then
      [Ascii.backslash, Ascii.byte 'u', Ascii.zero, Ascii.zero, hexDigit (b.toNat / 16),
        hexDigit (b.toNat % 16)]
    else [b]

/-- A string as it is written. -/
def write (s : Bytes) : Bytes := Ascii.quote :: (s.flatMap escape ++ [Ascii.quote])

/-- One item between the quotation marks. -/
inductive Piece where
  /-- A byte, written as it is or as a two-byte escape. -/
  | byte (b : UInt8)
  /-- A UTF-16 unit, written as `\u` and four hexadecimal digits. -/
  | unit (u : Nat)
  deriving DecidableEq

/-- The byte that a letter after a backslash stands for. -/
def ofLetter? (c : UInt8) : Option UInt8 :=
  if c = Ascii.quote ∨ c = Ascii.backslash ∨ c = Ascii.slash then some c
  else if c = Ascii.byte 'b' then some 0x08
  else if c = Ascii.byte 'f' then some 0x0C
  else if c = Ascii.byte 'n' then some Ascii.lf
  else if c = Ascii.byte 'r' then some Ascii.cr
  else if c = Ascii.byte 't' then some Ascii.tab
  else none

/-- A hexadecimal digit of either case. -/
def hexValue? (b : UInt8) : Option Nat :=
  if 0x30 ≤ b ∧ b ≤ 0x39 then some (b.toNat - 0x30)
  else if 0x61 ≤ b ∧ b ≤ 0x66 then some (b.toNat - 0x57)
  else if 0x41 ≤ b ∧ b ≤ 0x46 then some (b.toNat - 0x37)
  else none

/-- Four hexadecimal digits. -/
def hexUnit? (a b c d : UInt8) : Option Nat := do
  let a ← hexValue? a
  let b ← hexValue? b
  let c ← hexValue? c
  let d ← hexValue? d
  return ((a * 16 + b) * 16 + c) * 16 + d

/-- The pieces up to the closing quotation mark, after those in `before`, and what follows it. -/
def pieces? (before : List Piece) : Bytes → Option (List Piece × Bytes)
  | [] => none
  | b :: rest =>
    if b = Ascii.quote then some (before.reverse, rest)
    else if b = Ascii.backslash then
      match rest with
      | [] => none
      | c :: rest =>
        if c = Ascii.byte 'u' then
          match rest with
          | h₁ :: h₂ :: h₃ :: h₄ :: rest =>
            match hexUnit? h₁ h₂ h₃ h₄ with
            | some u => pieces? (.unit u :: before) rest
            | none => none
          | _ => none
        else
          match ofLetter? c with
          | some b => pieces? (.byte b :: before) rest
          | none => none
    else if b < 0x20 then none
    else pieces? (.byte b :: before) rest

theorem length_lt_of_pieces? {before : List Piece} {s : Bytes} {found : List Piece × Bytes}
    (h : pieces? before s = some found) : found.2.length < s.length := by
  fun_induction pieces? before s <;> grind

/-- First half of a surrogate pair. -/
def isHigh (u : Nat) : Bool := 0xD800 ≤ u && u < 0xDC00

/-- Second half of a surrogate pair. -/
def isLow (u : Nat) : Bool := 0xDC00 ≤ u && u < 0xE000

/-- The code point of a surrogate pair. -/
def joinPair (high low : Nat) : Nat := 0x10000 + (high - 0xD800) * 0x400 + (low - 0xDC00)

/-- The text of the pieces, after the reversed text `before`. -/
def join? (before : Bytes) : List Piece → Option Bytes
  | [] => some before.reverse
  | .byte b :: rest => join? (b :: before) rest
  | .unit u :: rest =>
    if isHigh u then
      match rest with
      | .unit v :: rest =>
        if isLow v then join? ((Utf8.encode (joinPair u v)).reverse ++ before) rest else none
      | _ => none
    else if isLow u then none
    else join? ((Utf8.encode u).reverse ++ before) rest

/-- Reads a string whose opening quotation mark has been taken; also returns what follows it. -/
def read? (s : Bytes) : Option (Bytes × Bytes) :=
  match pieces? [] s with
  | none => none
  | some (pieces, rest) => (join? [] pieces).map (·, rest)

theorem length_lt_of_read? {s : Bytes} {found : Bytes × Bytes} (h : read? s = some found) :
    found.2.length < s.length := by
  unfold read? at h
  split at h
  · simp at h
  · next hp =>
    obtain ⟨_, _, rfl⟩ := Option.map_eq_some_iff.mp h
    exact length_lt_of_pieces? hp

end LanguageClient.Json.Quoted
