import LanguageClient.Shell.Builtin.Basic
import LanguageClient.Shell.Utility.Words

/-!
The commands `echo` and `printf` of the shell itself. They know fewer options than the programs of
these names, and `echo` replaces escapes.
-/

namespace LanguageClient.Shell.Builtin

def echo (arguments : List Bytes) : Run Nat := do
  if !(← getProcess).echoesEscapes then Utility.echo arguments
  else
    let noLine := arguments.head? == some (bytes "-n")
    let text := Utility.echoed (if noLine then arguments.tail else arguments)
    let (text, ended) := Program.unescape {} (text.length + 1) text
    if ← write 1 (text ++ if noLine || ended then [] else [Ascii.lf]) then return 0
    else
      report (bytes "echo: echo: I/O error")
      return 1

def printf (arguments : List Bytes) : Run Nat := do
  let isMarked := arguments.head? == some (bytes "--")
  match if isMarked then arguments.tail else arguments with
  | [] => failWith (bytes "printf: usage: printf format [arg ...]")
  | form :: rest =>
    if !isMarked && form.head? == some Ascii.minus && (form.drop 1).head?.any isNamePart then
      failWith (bytes "printf: Illegal option " ++ form.take 2)
    let formatter : Program.Formatter :=
      { text := { leadingZero := false, ending := false }, argument := {} }
    let found := formatter.format form rest
    for fault in found.faults do
      report (bytes "printf: " ++ Utility.faultText fault id false)
    let ok ← write 1 found.output
    match found.broken with
    | some directive =>
      failWith (bytes "printf: " ++
        if directive.length = 1 then bytes "missing format character"
        else directive ++ bytes ": invalid directive")
    | none => return if found.faults.isEmpty && ok then 0 else 1

end LanguageClient.Shell.Builtin
