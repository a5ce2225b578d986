import LanguageClient.Shell.Builtin.Job
import LanguageClient.Shell.Builtin.Option
import LanguageClient.Shell.Builtin.Read
import LanguageClient.Shell.Builtin.Variable
import LanguageClient.Shell.Builtin.Words
import LanguageClient.Shell.Utility

/-!
The commands that a shell carries out itself because they look at the shell or change it, by their
names. Those that run other commands are not among them.
-/

namespace LanguageClient.Shell

/-- The commands that are given their arguments alone. -/
def builtins : List (Bytes × (List Bytes → Run Nat)) :=
  [("echo", Builtin.echo), ("printf", Builtin.printf), ("read", Builtin.read),
    ("true", fun _ => return 0), ("false", fun _ => return 1), (":", fun _ => return 0),
    ("export", Builtin.exporting), ("readonly", Builtin.readonly), ("unset", Builtin.unset),
    ("local", Builtin.keepLocal), ("shift", Builtin.shift), ("set", Builtin.set),
    ("wait", Builtin.wait), ("kill", Builtin.kill), ("trap", Builtin.trap),
    ("test", fun words => Utility.test (bytes "test") words report),
    ("[", fun words => Utility.bracket words report)].map fun (name, run) => (bytes name, run)

end LanguageClient.Shell
