import LanguageClient.Program.Text
import LanguageClient.Shell.Machine

/-!
What programs have in common: how they take their arguments, read their operands and say what is
wrong.
-/

namespace LanguageClient.Shell.Utility

/-! ### Arguments -/

/-- The options among some arguments, by their letters, and the other arguments. Options may stand
anywhere before `--`. The error is the letter of an option that there is not. -/
def options (plain valued : Bytes) :
    Nat → List Bytes → Except UInt8 (List (UInt8 × Bytes) × List Bytes)
  | 0, arguments => .ok ([], arguments)
  | _, [] => .ok ([], [])
  | n + 1, argument :: rest => do
    match argument with
    | dash :: letter :: more =>
      if dash ≠ Ascii.minus then
        let (found, operands) ← options plain valued n rest
        return (found, argument :: operands)
      else if letter = Ascii.minus then
        if more.isEmpty then return ([], rest) else throw letter
      else if plain.contains letter then
        let rest := if more.isEmpty then rest else (dash :: more) :: rest
        let (found, operands) ← options plain valued n rest
        return ((letter, []) :: found, operands)
      else if valued.contains letter then
        match more, rest with
        | [], value :: rest =>
          let (found, operands) ← options plain valued n rest
          return ((letter, value) :: found, operands)
        | [], [] => throw letter
        | value, rest =>
          let (found, operands) ← options plain valued n rest
          return ((letter, value) :: found, operands)
      else throw letter
    | _ =>
      let (found, operands) ← options plain valued n rest
      return (found, argument :: operands)

/-- The options of a program and its operands, or a line about what is wrong with them. -/
def withOptions (name : String) (plain valued : String) (arguments : List Bytes)
    (go : List (UInt8 × Bytes) → List Bytes → Run Nat) : Run Nat := do
  let fuel := arguments.foldl (fun n s => n + s.length + 1) 1
  match options (bytes plain) (bytes valued) fuel arguments with
  | .ok (found, operands) => go found operands
  | .error letter =>
    complain (bytes name ++ bytes ": invalid option -- '" ++ [letter] ++ bytes "'")
    complain (bytes "Try '" ++ bytes name ++ bytes " --help' for more information.")
    return 1

def has (found : List (UInt8 × Bytes)) (letter : Char) : Bool :=
  (found.lookup (Ascii.byte letter)).isSome

def value? (found : List (UInt8 × Bytes)) (letter : Char) : Option Bytes :=
  found.reverse.lookup (Ascii.byte letter)

/-- Says what is wrong and fails. -/
def refuse (name : String) (s : Bytes) (status : Nat) : Run Nat := do
  complain (bytes name ++ bytes ": " ++ s)
  return status

/-! ### Input and output -/

/-- Writes the result of a program. -/
def emit (s : Bytes) : Run Nat := do return if ← write 1 s then 0 else 1

def cause : FileError → Bytes
  | .absent | .noFolder => bytes "No such file or directory"
  | .isFolder => bytes "Is a directory"
  | .notFolder => bytes "Not a directory"
  | .tooLong => bytes "File name too long"

/-- Why something that was opened cannot be read. -/
def readingFault (source : Option Target) : Bytes :=
  bytes (if source == some .folder then ": Is a directory" else ": Bad file descriptor")

/-- What an operand stands for. A dash is the input. -/
def source (operand : Bytes) : Run (Except FileError (Option Target)) := do
  if operand = bytes "-" then return .ok ((← getProcess).descriptors.lookup 0)
  else return (← openInput operand).map some

/-- How many bytes a program reads at once. -/
def blockSize : Nat := 131072

/-- How often a source has to be read until its end, at most. -/
def readings (source : Option Target) : Run Nat := do
  match source with
  | some (.reader n) =>
    let stream := (← getSystem).readers.getD n {}
    return 2 * stream.chunks.length + stream.unread.length / blockSize + 2
  | _ => return 2

end LanguageClient.Shell.Utility
