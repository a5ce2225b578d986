/-!
Text as the client sees it: a list of bytes. Nothing here assumes that the bytes are valid UTF-8
or free of NUL, because neither a server nor a host promises that.

The file holds the bytes that the formats name, texts written as literals, the removal of blanks,
and the part of a text before its first NUL.
-/

namespace LanguageClient

/-- A text or a piece of a stream. -/
abbrev Bytes := List UInt8

/-- The bytes of a literal. -/
def bytes (s : String) : Bytes := s.toByteArray.data.toList

namespace Ascii

abbrev nul : UInt8 := 0x00
abbrev tab : UInt8 := 0x09
abbrev lf : UInt8 := 0x0A
abbrev cr : UInt8 := 0x0D
abbrev space : UInt8 := 0x20
abbrev quote : UInt8 := 0x22
abbrev plus : UInt8 := 0x2B
abbrev comma : UInt8 := 0x2C
abbrev minus : UInt8 := 0x2D
abbrev point : UInt8 := 0x2E
abbrev slash : UInt8 := 0x2F
abbrev zero : UInt8 := 0x30
abbrev nine : UInt8 := 0x39
abbrev colon : UInt8 := 0x3A
abbrev openBracket : UInt8 := 0x5B
abbrev backslash : UInt8 := 0x5C
abbrev closeBracket : UInt8 := 0x5D
abbrev openBrace : UInt8 := 0x7B
abbrev closeBrace : UInt8 := 0x7D

/-- The byte of an ASCII character. -/
def byte (c : Char) : UInt8 := c.toNat.toUInt8

end Ascii

namespace Bytes

/-- Space or tab: what may surround the value of a header. -/
def isBlank (b : UInt8) : Bool := b == Ascii.space || b == Ascii.tab

/-- The text without the blanks at its two ends. -/
def trim (s : Bytes) : Bytes :=
  ((s.dropWhile isBlank).reverse.dropWhile isBlank).reverse

/-- The part before the first NUL, which is all of an error's text that its readers get. -/
def beforeNul (s : Bytes) : Bytes := s.takeWhile (· != Ascii.nul)

/-- What follows `start` in a text that begins with it. -/
def after? (start s : Bytes) : Option Bytes :=
  if start.isPrefixOf s then some (s.drop start.length) else none

theorem after?_eq_some_iff {start s rest : Bytes} :
    after? start s = some rest ↔ s = start ++ rest := by
  unfold after?
  constructor
  · intro h
    split at h
    · next hp =>
      obtain ⟨tail, rfl⟩ := List.isPrefixOf_iff_prefix.mp hp
      simp_all
    · simp at h
  · rintro rfl
    simp

/-- A text between single quotation marks. -/
def inQuotes (s : Bytes) : Bytes := bytes "'" ++ s ++ bytes "'"

end Bytes

end LanguageClient
