import LanguageClient.Bytes

/-!
UTF-8: which byte texts are well formed, and the bytes of one code point.

`Utf8.valid` runs a machine that remembers what the next byte must look like. Shortest forms only,
no surrogates, nothing above U+10FFFF.
-/

namespace LanguageClient.Utf8

/-- What is still missing of a character: how many bytes, and the range of the next one. -/
structure Missing where
  count : Nat
  least : UInt8 := 0x80
  greatest : UInt8 := 0xBF
  deriving DecidableEq

/-- Between characters. -/
def Missing.none : Missing := { count := 0 }

/-- What a byte that begins a character asks for. -/
def begin? (b : UInt8) : Option Missing :=
  if b < 0x80 then some .none
  else if b < 0xC2 then Option.none
  else if b < 0xE0 then some { count := 1 }
  else if b == 0xE0 then some { count := 2, least := 0xA0 }
  else if b == 0xED then some { count := 2, greatest := 0x9F }
  else if b < 0xF0 then some { count := 2 }
  else if b == 0xF0 then some { count := 3, least := 0x90 }
  else if b < 0xF4 then some { count := 3 }
  else if b == 0xF4 then some { count := 3, greatest := 0x8F }
  else Option.none

/-- One byte of text; `none` if it cannot stand here. -/
def step? (m : Missing) (b : UInt8) : Option Missing :=
  match m.count with
  | 0 => begin? b
  | n + 1 => if m.least ≤ b && b ≤ m.greatest then some { count := n } else Option.none

/-- The text is a sequence of whole characters. -/
def valid (s : Bytes) : Bool := s.foldlM step? .none == some .none

/-- The bytes of a code point. -/
def encode (c : Nat) : Bytes :=
  if c < 0x80 then [c.toUInt8]
  else if c < 0x800 then [(0xC0 + c / 0x40).toUInt8, (0x80 + c % 0x40).toUInt8]
  else if c < 0x10000 then
    [(0xE0 + c / 0x1000).toUInt8, (0x80 + c / 0x40 % 0x40).toUInt8, (0x80 + c % 0x40).toUInt8]
  else
    [(0xF0 + c / 0x40000).toUInt8, (0x80 + c / 0x1000 % 0x40).toUInt8,
      (0x80 + c / 0x40 % 0x40).toUInt8, (0x80 + c % 0x40).toUInt8]

end LanguageClient.Utf8
