import LanguageClient.Shell.Builtin
import LanguageClient.Shell.Script

/-!
Running scripts line by line by means of a function that runs one command (`Eval`). That function
runs a command by means of itself with a smaller bound on how deep commands stand in each other;
all others take it as an argument.
-/

namespace LanguageClient.Shell

/-- Runs a command and gives its status. `tested` says that the status is looked at, so that a
failure is not what the option to end on failures means. -/
abbrev Eval := Command → (tested : Bool) → Run Nat

/-- Runs something and gives back what interrupts it. -/
def attempt {α : Type} (r : Run α) : Run (Except Interrupt α) :=
  ExceptT.mk do return .ok (← r.run)

/-- Runs commands one after another. -/
def runAll (eval : Eval) (tested : Bool) : List Command → Run Nat
  | [] => return 0
  | [c] => eval c tested
  | c :: rest => do
    let _ ← eval c tested
    runAll eval tested rest

/-- Runs the next line of a script. The answer is the status and what follows, or nothing at the
end. -/
def runLine (eval : Eval) (tested : Bool) (s : Source) :
    Run (Except Fault (Option (Nat × Source))) := do
  match s.next with
  | .error .incomplete => return .error .incomplete
  | .error (.wrong line e) =>
    modifyProcess fun p => { p with line }
    failWith (bytes "Syntax error: " ++ e.message)
  | .ok (none, _) => return .ok none
  | .ok (some commands, s) =>
    modifyProcess fun p =>
      { p with documents := s.documents ++ p.documents, nextDocument := s.nextDocument }
    let status ← runAll eval tested commands
    let nextDocument := (← getProcess).nextDocument
    return .ok (some (status, { s with documents := [], nextDocument }))

/-- Runs the lines of a script that is there as a whole. -/
def runLines (eval : Eval) (tested : Bool) : Nat → Source → Nat → Run Nat
  | 0, _, status => return status
  | n + 1, s, status => do
    match ← runLine eval tested s with
    | .ok (some (status, s)) => runLines eval tested n s status
    | .ok none | .error _ => return status

/-- Runs a text as a script. -/
def runText (eval : Eval) (tested : Bool) (text : Bytes) : Run Nat := do
  let nextDocument := (← getProcess).nextDocument
  runLines eval tested (text.length + 2) { rest := text, nextDocument } 0

/-- How many bytes a shell reads of its script at once. -/
def scriptBlock : Nat := 8192

/-- Runs a script that comes through the input, reading on only when it has to. -/
def runInput (eval : Eval) : Nat → Source → Nat → Run Nat
  | 0, _, _ => waitForever
  | n + 1, s, status => do
    match ← runLine eval false s with
    | .ok (some (status, s)) => runInput eval n s status
    | .ok none => return status
    | .error _ =>
      let piece := (← readWith 0 fun stream clock => stream.readSome clock scriptBlock).getD []
      let piece := piece.filter (· != Ascii.nul)
      let nextDocument := (← getProcess).nextDocument
      runInput eval n
        { s with rest := s.rest ++ piece, complete := piece.isEmpty, nextDocument } status

/-- How many lines and blocks of a script are read at most. -/
def greatestReadings : Nat := 1000000

end LanguageClient.Shell
