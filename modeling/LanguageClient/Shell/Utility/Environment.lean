import LanguageClient.Shell.Condition
import LanguageClient.Shell.Utility.Basic

/-!
What programs and shells look up: whether a condition holds, and the variables of a process.
-/

namespace LanguageClient.Shell.Utility

/-! ### Conditions -/

/-- Decides a condition: zero if it holds. -/
def test (name : Bytes) (words : List Bytes) (say : Bytes → Run Unit) : Run Nat := do
  match Condition.ofWords words with
  | .error e =>
    say (name ++ bytes ": " ++ e.message)
    return 2
  | .ok c =>
    match ← c.holds with
    | .ok b => return if b then 0 else 1
    | .error e =>
      say (name ++ bytes ": " ++ e.message)
      return 2

/-- Decides a condition before a closing bracket. -/
def bracket (words : List Bytes) (say : Bytes → Run Unit) : Run Nat := do
  if words.getLast? = some (bytes "]") then test (bytes "[") words.dropLast say
  else
    say (bytes "[: missing ]")
    return 2

/-! ### The environment -/

/-- The variables that other programs get. -/
def environment (p : Process) : List (Bytes × Bytes) :=
  p.bindings.reverse.filterMap fun (name, v) =>
    if v.exported then v.value.map (name, ·) else none

def environmentText (p : Process) : Bytes :=
  (environment p).flatMap fun (name, value) => name ++ 0x3D :: value ++ [Ascii.lf]

end LanguageClient.Shell.Utility
