import LanguageClient.Program.Format
import LanguageClient.Shell.Utility.Basic

/-!
Programs that make a text of their arguments: `echo` and `printf`.
-/

namespace LanguageClient.Shell.Utility

def echoed (arguments : List Bytes) : Bytes := List.intercalate [Ascii.space] arguments

/-- The options of `echo` at the front of its arguments, and the others. -/
def echoOptions : List Bytes → Bytes × List Bytes
  | [] => ([], [])
  | argument :: rest =>
    match argument with
    | dash :: letters =>
      if dash = Ascii.minus ∧ !letters.isEmpty ∧ letters.all (bytes "neE").contains then
        let (found, others) := echoOptions rest
        (letters ++ found, others)
      else ([], argument :: rest)
    | [] => ([], argument :: rest)

/-- The program `echo`, which leaves escapes alone unless it is told to replace them. -/
def echo (arguments : List Bytes) : Run Nat :=
  let (letters, rest) := echoOptions arguments
  let replaces := (letters.reverse.find? (bytes "eE").contains) == some (Ascii.byte 'e')
  let text := echoed rest
  let (text, ended) :=
    if replaces then Program.unescape { hexadecimal := true } (text.length + 1) text
    else (text, false)
  emit (text ++ if ended || letters.contains (Ascii.byte 'n') then [] else [Ascii.lf])

/-- What `printf` says about an argument. -/
def faultText (f : Program.ArgumentFault) (quote : Bytes → Bytes) (other : Bool) : Bytes :=
  match f with
  | .noNumber s =>
    quote s ++ bytes (if other then ": expected a numeric value" else ": expected numeric value")
  | .notAll s =>
    quote s ++ bytes (if other then ": value not completely converted"
      else ": not completely converted")
  | .outOfRange s => quote s ++ bytes ": Numerical result out of range"

def printf (arguments : List Bytes) : Run Nat := do
  let arguments := if arguments.head? = some (bytes "--") then arguments.tail else arguments
  match arguments with
  | [] => refuse "printf" (bytes "missing operand") 1
  | form :: rest =>
    let formatter : Program.Formatter :=
      { text := { leadingZero := false, hexadecimal := true }, argument := { hexadecimal := true }
        sized := true }
    let found := formatter.format form rest
    for fault in found.faults do
      complain (bytes "printf: " ++ faultText fault Bytes.inQuotes true)
    let _ ← write 1 found.output
    match found.broken with
    | some directive =>
      refuse "printf" (directive ++ bytes ": invalid conversion specification") 1
    | none => return if found.faults.isEmpty then 0 else 1

end LanguageClient.Shell.Utility
