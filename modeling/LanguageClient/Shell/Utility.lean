import LanguageClient.Shell.Utility.Environment
import LanguageClient.Shell.Utility.Show
import LanguageClient.Shell.Utility.Signal
import LanguageClient.Shell.Utility.Words

/-!
The programs that do one thing with their arguments and their input, by their names.
-/

namespace LanguageClient.Shell

/-- The programs that need nothing but their arguments. -/
def utilities : List (Bytes × (List Bytes → Run Nat)) :=
  [("true", fun _ => return 0), ("false", fun _ => return 1), ("cat", Utility.cat),
    ("echo", Utility.echo), ("printf", Utility.printf), ("sleep", Utility.sleep),
    ("kill", Utility.kill), ("head", Utility.head),
    ("test", fun words => Utility.test (bytes "test") words complain),
    ("[", fun words => Utility.bracket words complain)].map fun (name, run) => (bytes name, run)

end LanguageClient.Shell
