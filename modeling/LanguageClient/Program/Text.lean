import LanguageClient.Digits

/-!
The lines of a text, as a program shows them with their numbers and with the bytes in them that cannot
be seen. A line is taken with the end of line after it; the last one may be without.
-/

namespace LanguageClient.Program.Text

/-- The lines of a text. -/
def lines (s : Bytes) : List Bytes :=
  let (found, last) := s.foldr (fun b (found, line) =>
    if b = Ascii.lf then ((if line.isEmpty then found else line :: found), [b])
    else (found, b :: line)) (([] : List Bytes), ([] : Bytes))
  if last.isEmpty then found else last :: found

/-- A text filled with blanks from the left. -/
def padLeft (width : Nat) (s : Bytes) : Bytes :=
  List.replicate (width - s.length) Ascii.space ++ s

/-- How lines are shown. -/
structure Shown where
  number : Bool := false
  /-- Empty lines get no number. -/
  onlyFilled : Bool := false
  /-- Of some empty lines only the first is shown. -/
  squeeze : Bool := false
  ends : Bool := false
  tabs : Bool := false
  /-- Bytes that cannot be seen are spelled out. -/
  visible : Bool := false

/-- The spelling of a byte that can be seen. -/
def spelled (b : UInt8) : Bytes :=
  if 0x80 ≤ b then bytes "M-" ++ low (b - 0x80) else low b
where
  low (b : UInt8) : Bytes :=
    if b < 0x20 then [0x5E, b + 0x40] else if b = 0x7F then bytes "^?" else [b]

/-- One line as it is shown, without its number. -/
def Shown.line (o : Shown) (line : Bytes) : Bytes :=
  line.flatMap fun b =>
    if b = Ascii.lf then (if o.ends then [0x24, b] else [b])
    else if b = Ascii.tab then (if o.tabs then bytes "^I" else [b])
    else if o.visible then spelled b
    else [b]

/-- Lines as they are shown, from a number on. -/
def Shown.text (o : Shown) : Nat → Bool → List Bytes → Bytes
  | _, _, [] => []
  | n, afterEmpty, line :: rest =>
    let isEmpty := line == [Ascii.lf]
    if isEmpty && afterEmpty && o.squeeze then o.text n true rest
    else
      let numbered := if o.onlyFilled then !isEmpty else o.number
      let front := if numbered then padLeft 6 (Digits.ofNat n) ++ [Ascii.tab] else []
      front ++ o.line line ++ o.text (if numbered then n + 1 else n) isEmpty rest

end LanguageClient.Program.Text
