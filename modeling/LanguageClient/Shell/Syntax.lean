import LanguageClient.Bytes

/-!
The syntax of shell scripts: words, which are made of pieces that are replaced by their values when
the word is used, and commands, which are made of words and other commands.
-/

namespace LanguageClient.Shell

/-- What a redirection does with a descriptor. -/
inductive Redirection where
  /-- Reads the file that the target names. -/
  | input
  /-- Writes a new file. There is an option not to write over another. -/
  | output
  /-- Writes a new file in the place of any other. -/
  | replace
  /-- Writes at the end of a file. -/
  | append
  /-- Reads and writes a file. -/
  | update
  /-- Does what another descriptor does. -/
  | copy
  /-- Reads the document of a number that stands in the script. -/
  | document (number : Nat)
  deriving DecidableEq

/-- What takes the place of a parameter. `orNull` says that a parameter whose value is empty counts
as one without a value. -/
inductive Use (α : Type) where
  | value
  /-- The length of its value. -/
  | length
  /-- Its value, or a word if it has none. -/
  | default (orNull : Bool) (word : α)
  /-- Its value, or a word that becomes its value if it has none. -/
  | assign (orNull : Bool) (word : α)
  /-- Its value; it is an error if it has none. -/
  | require (orNull : Bool) (word : α)
  /-- A word if it has a value, and nothing if it has none. -/
  | alternative (orNull : Bool) (word : α)
  /-- Its value without the shortest or the longest part at one end that a pattern matches. -/
  | trim (fromEnd : Bool) (longest : Bool) (pattern : α)
  /-- Something that cannot be done. -/
  | unknown

mutual

/-- A piece of a word. What is quoted makes no fields and no patterns. -/
inductive Piece where
  | text (s : Bytes) (quoted : Bool)
  | parameter (name : Bytes) (use : Use (List Piece)) (quoted : Bool)
  /-- What commands write. -/
  | output (commands : List Command) (quoted : Bool)
  /-- The value of an arithmetic expression. -/
  | arithmetic (expression : List Piece) (quoted : Bool)

inductive Redirect where
  | mk (descriptor : Nat) (kind : Redirection) (target : List Piece)

inductive Command where
  | simple (line : Nat) (assignments : List (Bytes × List Piece)) (words : List (List Piece))
      (redirects : List Redirect)
  /-- Commands that run side by side, each reading what the one before writes. -/
  | pipeline (stages : List Command)
  | negation (command : Command)
  /-- The second command only if the first succeeds. -/
  | both (first second : Command)
  /-- The second command only if the first fails. -/
  | either (first second : Command)
  /-- A command that is not waited for. -/
  | background (command : Command)
  | group (body : List Command)
  | subshell (body : List Command)
  | branch (condition body otherwise : List Command)
  /-- Repeats the body while the condition succeeds, or until it does. -/
  | loop (untilTrue : Bool) (condition body : List Command)
  /-- Runs the body for each field of some words, or for each parameter. -/
  | each (name : Bytes) (words : Option (List (List Piece))) (body : List Command)
  /-- Runs the body of the first case that has a pattern for a word. -/
  | choice (word : List Piece) (cases : List (List (List Piece) × List Command))
  | redirected (line : Nat) (command : Command) (redirects : List Redirect)
  /-- Gives a function its body. -/
  | define (name : Bytes) (body : Command)

end

abbrev Word := List Piece

/-! ### Names -/

def isNameStart (b : UInt8) : Bool :=
  b == 0x5F || (0x41 ≤ b && b ≤ 0x5A) || (0x61 ≤ b && b ≤ 0x7A)

def isNamePart (b : UInt8) : Bool := isNameStart b || (Ascii.zero ≤ b && b ≤ Ascii.nine)

/-- A name that variables and functions can have. -/
def isName : Bytes → Bool
  | [] => false
  | first :: rest => isNameStart first && rest.all isNamePart

/-- The parameters that have a mark for a name. -/
def marks : Bytes := bytes "@*#?-$!"

/-- The name and the value of a word that is an assignment. -/
def Word.assignment? : Word → Option (Bytes × Word)
  | .text s false :: rest =>
    let name := s.takeWhile (· != 0x3D)
    match s.drop name.length with
    | _ :: value =>
      if isName name then
        some (name, if value.isEmpty then rest else .text value false :: rest)
      else none
    | [] => none
  | _ => none

/-- The text of a word that is plain text. -/
def Word.plain? : Word → Option Bytes
  | [] => some []
  | .text s false :: rest => (Word.plain? rest).map (s ++ ·)
  | _ => none

end LanguageClient.Shell
