import LanguageClient.Digits
import LanguageClient.Shell.Syntax

/-!
The tokens of a script: operators, and words with all that can stand in them.

A `Reader` takes a script from its front. Where a script may still go on, a reader that comes to
its end fails with `incomplete`, so that it can be run again on more. Commands stand in words and
words in commands; readers of words are given the readers of commands that they need (`Nested`).
-/

namespace LanguageClient.Shell

/-- What can be wrong with the syntax of a script. -/
inductive SyntaxError where
  | unexpected (found : Bytes) (expected : Option Bytes)
  | openQuote
  | openBrace
  | openArithmetic
  | openBackquote
  | badVariable
  | badFunction
  deriving DecidableEq

def SyntaxError.message : SyntaxError → Bytes
  | .unexpected found none => found ++ bytes " unexpected"
  | .unexpected found (some expected) =>
    found ++ bytes " unexpected (expecting " ++ expected ++ bytes ")"
  | .openQuote => bytes "Unterminated quoted string"
  | .openBrace => bytes "Missing '\x7d'"
  | .openArithmetic => bytes "Missing '))'"
  | .openBackquote => bytes "EOF in backquote substitution"
  | .badVariable => bytes "Bad for loop variable"
  | .badFunction => bytes "Bad function name"

/-- Why a script cannot be read. -/
inductive Fault where
  /-- It ends too early, but may go on. -/
  | incomplete
  | wrong (line : Nat) (error : SyntaxError)
  deriving DecidableEq

inductive Token where
  | word (w : Word)
  | redirect (descriptor : Nat) (kind : Redirection)
  | newline
  | semicolon
  | ampersand
  | both
  | either
  | pipe
  | opened
  | closed
  | armEnd
  | finish

/-- A document that begins after the line that is being read. -/
structure Wanted where
  number : Nat
  /-- The line that ends it. -/
  ending : Bytes
  /-- Tabs at the front of its lines are not part of it. -/
  strips : Bool
  /-- It is taken as it stands. -/
  literal : Bool

/-- A script that is being read. -/
structure Source where
  rest : Bytes
  /-- Nothing follows. -/
  complete : Bool := true
  line : Nat := 1
  /-- A token that was looked at and not taken. -/
  held : Option Token := none
  wanted : List Wanted := []
  /-- The documents in the script by their numbers. -/
  documents : List (Nat × Word) := []
  nextDocument : Nat := 0

abbrev Reader := StateT Source (Except Fault)

namespace Reader

def wrong {α : Type} (error : SyntaxError) : Reader α := do throw (.wrong (← get).line error)

/-- The byte in a distance; `none` after the end. -/
def lookAt (distance : Nat) : Reader (Option UInt8) := do
  let s ← get
  match s.rest[distance]? with
  | some b => return some b
  | none => if s.complete then return none else throw .incomplete

def look : Reader (Option UInt8) := lookAt 0

/-- Passes over some bytes. -/
def skip (n : Nat) : Reader Unit :=
  modify fun s =>
    { s with rest := s.rest.drop n, line := s.line + (s.rest.take n).count Ascii.lf }

/-- Takes the bytes at the front for which a test holds. -/
def takeWhile (test : UInt8 → Bool) : Reader Bytes := do
  let run := (← get).rest.takeWhile test
  skip run.length
  return run

/-- Runs a reader on another text and goes on where it was. -/
def within {α : Type} (text : Bytes) (reader : Reader α) : Reader α := do
  let outer ← get
  set { outer with rest := text, complete := true, held := none, wanted := [] }
  let result ← reader
  modify fun inner =>
    { outer with documents := inner.documents, nextDocument := inner.nextDocument }
  return result

/-- Runs a reader again and again for as long as it gives something, at most as often as the text
has bytes. -/
def collect {α : Type} (reader : Reader (Option α)) : Reader (List α) := do
  go ((← get).rest.length + 2)
where
  go : Nat → Reader (List α)
    | 0 => return []
    | n + 1 => do
      match ← reader with
      | some a => return a :: (← go n)
      | none => return []

end Reader

/-- The readers of commands that words need. -/
structure Nested where
  /-- Reads commands and the parenthesis that closes them. -/
  untilClosed : Reader (List Command)
  /-- Reads commands to the end of a text. -/
  untilEnd : Reader (List Command)

/-- Where a row of pieces ends. -/
inductive Ending where
  /-- Before a blank or an operator. -/
  | blank
  | quote
  | brace
  /-- At two parentheses, after some that are opened have been closed. -/
  | parentheses (opened : Nat)
  /-- At the end of the text. -/
  | text
  deriving DecidableEq

def isBlankOrOperator (b : UInt8) : Bool := (bytes " \t\n;&|()<>").contains b

/-- Bytes that stand for themselves. -/
def Ending.isOrdinary (ending : Ending) (quoted : Bool) (b : UInt8) : Bool :=
  if b = Ascii.backslash ∨ b = 0x24 ∨ b = 0x60 then false
  else if b = Ascii.quote then ending == .text
  else if b = 0x27 then quoted
  else
    match ending with
    | .blank => !isBlankOrOperator b
    | .brace => b != Ascii.closeBrace
    | .parentheses _ => b != 0x28 && b != 0x29
    | .quote | .text => true

/-- Bytes that a backslash takes their meaning from inside quotation marks. -/
def Ending.isEscapable (ending : Ending) (b : UInt8) : Bool :=
  b == Ascii.backslash || b == 0x24 || b == 0x60 || (b == Ascii.quote && ending != .text)
    || (b == Ascii.closeBrace && ending == .brace)

namespace Reader

/-- Reads up to the next backquote and takes the escapes away. -/
def untilBackquote (quoted : Bool) : Nat → Reader Bytes
  | 0 => wrong .openBackquote
  | n + 1 => do
    let run ← takeWhile fun b => b != 0x60 && b != Ascii.backslash
    match ← look with
    | none => wrong .openBackquote
    | some b =>
      if b = 0x60 then
        skip 1
        return run
      let c := (← lookAt 1).getD b
      skip 2
      let kept := c == b || c == 0x24 || c == 0x60 || (c == Ascii.quote && quoted)
      return run ++ (if kept then [c] else [b, c]) ++ (← untilBackquote quoted n)

/-- Reads what follows the name of a parameter between braces. -/
def use (pieces : Bool → Reader Word) (quoted : Bool) : Reader (Use Word) := do
  let first ← look
  if first = some Ascii.closeBrace then
    skip 1
    return .value
  if first = some 0x25 ∨ first = some 0x23 then
    let longest := (← lookAt 1) == first
    skip (if longest then 2 else 1)
    return .trim (first == some 0x25) longest (← pieces false)
  let orNull := first == some Ascii.colon
  let operator ← if orNull then lookAt 1 else pure first
  let word : Reader Word := do
    skip (if orNull then 2 else 1)
    pieces quoted
  if operator = some 0x2D then return .default orNull (← word)
  else if operator = some 0x3D then return .assign orNull (← word)
  else if operator = some 0x3F then return .require orNull (← word)
  else if operator = some 0x2B then return .alternative orNull (← word)
  else
    let _ ← pieces quoted
    return .unknown

def isMarkOrDigit (b : UInt8) : Bool := marks.contains b || Digits.isDigit b

/-- Reads the name of a parameter between braces. -/
def parameterName : Reader Bytes := do
  match ← look with
  | none => return []
  | some b =>
    if isNameStart b then takeWhile isNamePart
    else if Digits.isDigit b then takeWhile Digits.isDigit
    else if marks.contains b then
      skip 1
      return [b]
    else return []

/-- Reads a parameter between braces, the first of which has been read. -/
def braced (pieces : Bool → Reader Word) (quoted : Bool) : Reader Piece := do
  let second ← if (← look) = some 0x23 then lookAt 1 else pure none
  match second with
  | some b =>
    if isNameStart b || (isMarkOrDigit b && (← lookAt 2) == some Ascii.closeBrace) then
      skip 1
      let name ← parameterName
      if (← look) = some Ascii.closeBrace then
        skip 1
        return .parameter name .length quoted
      let _ ← pieces quoted
      return .parameter name .unknown quoted
  | none => pure ()
  let name ← parameterName
  let found ← use pieces quoted
  return .parameter name (if name.isEmpty then .unknown else found) quoted

/-- Reads what follows a dollar. -/
def dollar (nested : Nested) (pieces : Bool → Ending → Reader Word) (quoted : Bool) :
    Reader Piece := do
  match ← look with
  | none => return .text [0x24] quoted
  | some b =>
    if b = 0x28 then
      if (← lookAt 1) = some 0x28 then
        skip 2
        return .arithmetic (← pieces true (.parentheses 0)) quoted
      skip 1
      return .output (← nested.untilClosed) quoted
    else if b = Ascii.openBrace then
      skip 1
      braced (pieces · .brace) quoted
    else if isNameStart b then return .parameter (← takeWhile isNamePart) .value quoted
    else if isMarkOrDigit b then
      skip 1
      return .parameter [b] .value quoted
    else return .text [0x24] quoted

/-- Reads a backslash and what follows it. -/
def escape (quoted : Bool) (ending : Ending) : Reader Word := do
  match ← lookAt 1 with
  | none =>
    skip 1
    return [.text [Ascii.backslash] true]
  | some c =>
    skip 2
    if c = Ascii.lf then return []
    else if quoted && !ending.isEscapable c then return [.text [Ascii.backslash, c] true]
    else return [.text [c] true]

/-- Reads pieces up to an ending. A blank or an operator at the end is left where it is. -/
def pieces (nested : Nested) : Nat → Bool → Ending → Reader Word
  | 0, _, _ => throw .incomplete
  | n + 1, quoted, ending => do
    let run ← takeWhile (ending.isOrdinary quoted)
    let front : Word := if run.isEmpty then [] else [.text run quoted]
    let goOn (found : Word) (ending : Ending) : Reader Word := do
      return front ++ found ++ (← pieces nested n quoted ending)
    match ← look with
    | none =>
      match ending with
      | .blank | .text => return front
      | .quote => wrong .openQuote
      | .brace => wrong .openBrace
      | .parentheses _ => wrong .openArithmetic
    | some b =>
      if b = Ascii.backslash then goOn (← escape quoted ending) ending
      else if b = 0x24 then
        skip 1
        goOn [← dollar nested (pieces nested n) quoted] ending
      else if b = 0x60 then
        skip 1
        let text ← untilBackquote quoted ((← get).rest.length + 1)
        goOn [.output (← within text nested.untilEnd) quoted] ending
      else if b = Ascii.quote then
        skip 1
        match ending with
        | .quote => return front
        | .parentheses _ => goOn [.text [b] quoted] ending
        | _ =>
          let inner ← pieces nested n true .quote
          goOn (if inner.isEmpty then [.text [] true] else inner) ending
      else if b = 0x27 then
        skip 1
        let text ← takeWhile (· != 0x27)
        if (← look).isNone then wrong .openQuote
        skip 1
        goOn [.text text true] ending
      else
        match ending with
        | .brace =>
          skip 1
          return front
        | .parentheses opened =>
          if b = 0x28 then
            skip 1
            goOn [.text [b] quoted] (.parentheses (opened + 1))
          else if 0 < opened then
            skip 1
            goOn [.text [b] quoted] (.parentheses (opened - 1))
          else if (← lookAt 1) = some 0x29 then
            skip 2
            return front
          else wrong .openArithmetic
        | _ => return front

/-- Reads the lines of a document. -/
def documentLines (w : Wanted) : Nat → Reader Bytes
  | 0 => return []
  | n + 1 => do
    let line ← takeWhile (· != Ascii.lf)
    let line := if w.strips then line.dropWhile (· == Ascii.tab) else line
    match ← look with
    | none => return if line = w.ending then [] else line
    | some _ =>
      skip 1
      if line = w.ending then return [] else return line ++ Ascii.lf :: (← documentLines w n)

/-- Reads the documents that begin here. -/
def documents (nested : Nested) : Reader Unit := do
  let wanted := (← get).wanted
  modify fun s => { s with wanted := [] }
  for w in wanted do
    let text ← documentLines w ((← get).rest.length + 1)
    let word ← if w.literal then pure [.text text true]
      else within text (pieces nested (text.length + 1) true .text)
    modify fun s => { s with documents := (w.number, word) :: s.documents }

/-- Passes over blanks, comments and ends of lines that do not count. -/
def skipBlanks : Nat → Reader Unit
  | 0 => return
  | n + 1 => do
    let _ ← takeWhile Bytes.isBlank
    match ← look with
    | none => return
    | some b =>
      if b = 0x23 then
        let _ ← takeWhile (· != Ascii.lf)
        skipBlanks n
      else if b = Ascii.backslash then
        if (← lookAt 1) = some Ascii.lf then
          skip 2
          skipBlanks n

/-- Reads a redirection from its first mark on. -/
def redirection (descriptor : Option Nat) (mark : UInt8) : Reader Token := do
  let second ← lookAt 1
  let found (length : Nat) (kind : Redirection) : Reader Token := do
    skip length
    return .redirect (descriptor.getD (if mark = 0x3C then 0 else 1)) kind
  if mark = 0x3C then
    if second = some 0x3C then
      let number := (← get).nextDocument
      modify fun s => { s with nextDocument := number + 1 }
      found 2 (.document number)
    else if second = some 0x26 then found 2 .copy
    else if second = some 0x3E then found 2 .update
    else found 1 .input
  else if second = some 0x3E then found 2 .append
  else if second = some 0x7C then found 2 .replace
  else if second = some 0x26 then found 2 .copy
  else found 1 .output

/-- Reads an operator that may be doubled. -/
def doubled (mark : UInt8) (single double : Token) : Reader Token := do
  if (← lookAt 1) = some mark then
    skip 2
    return double
  skip 1
  return single

/-- Reads a token. -/
def token (nested : Nested) : Reader Token := do
  skipBlanks ((← get).rest.length + 1)
  match ← look with
  | none =>
    documents nested
    return .finish
  | some b =>
    if b = Ascii.lf then
      skip 1
      documents nested
      return .newline
    else if b = 0x26 then doubled b .ampersand .both
    else if b = 0x7C then doubled b .pipe .either
    else if b = 0x3B then doubled b .semicolon .armEnd
    else if b = 0x28 then
      skip 1
      return .opened
    else if b = 0x29 then
      skip 1
      return .closed
    else if b = 0x3C ∨ b = 0x3E then redirection none b
    else
      let word ← pieces nested ((← get).rest.length + 1) false .blank
      match word, ← look with
      | [.text [digit] false], some mark =>
        if Digits.isDigit digit ∧ (mark = 0x3C ∨ mark = 0x3E) then
          redirection (some (Digits.value digit)) mark
        else return .word word
      | _, _ => return .word word

end Reader

end LanguageClient.Shell
