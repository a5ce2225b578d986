import LanguageClient.Shell.Builtin.Basic

/-!
Commands that declare variables, mark them and take them away, and `shift`.
-/

namespace LanguageClient.Shell.Builtin

/-- Marks variables, and gives values to those that have one after their names. -/
def declare (name : String) (change : Variable → Variable) (arguments : List Bytes) :
    Run Nat := do
  for argument in arguments do
    let (target, value) := binding argument
    if !isName target then
      failWith (bytes name ++ bytes ": " ++ target ++ bytes ": bad variable name")
    if let some value := value then assign target value
    modifyProcess fun p =>
      p.setVariable target (change ((p.bindings.lookup target).getD { value := none }))
  return 0

/-- Shows variables as commands that make them. -/
def declarations (name : String) (chosen : Variable → Bool) : Run Nat := do
  let p ← getProcess
  Utility.emit ((sorted p.bindings).flatMap fun (target, v) =>
    if chosen v then
      bytes name ++ Ascii.space :: target
        ++ (match v.value with
          | some value => 0x3D :: quoted value
          | none => []) ++ [Ascii.lf]
    else [])

def exporting (arguments : List Bytes) : Run Nat :=
  if arguments.isEmpty || arguments == [bytes "-p"] then declarations "export" (·.exported)
  else declare "export" (fun v => { v with exported := true }) arguments

def readonly (arguments : List Bytes) : Run Nat :=
  if arguments.isEmpty || arguments == [bytes "-p"] then declarations "readonly" (·.fixed)
  else declare "readonly" (fun v => { v with fixed := true }) arguments

def unset (arguments : List Bytes) : Run Nat := do
  let functions := arguments.head? == some (bytes "-f")
  let names := if functions || arguments.head? == some (bytes "-v") then arguments.tail
    else arguments
  for name in names do
    if functions then
      modifyProcess fun p => { p with functions := p.functions.filter (·.1 != name) }
    else
      if ((← getProcess).bindings.lookup name).any Variable.fixed then
        failWith (bytes "unset: " ++ name ++ bytes ": is read only")
      modifyProcess (·.unsetVariable name)
  return 0

/-- Keeps the values of variables until the function that is being run ends. -/
def keepLocal (arguments : List Bytes) : Run Nat := do
  if (← getProcess).calls = 0 then failWith (bytes "local: not in a function")
  for argument in arguments do
    let (name, value) := binding argument
    if !isName name then failWith (bytes "local: " ++ name ++ bytes ": bad variable name")
    modifyProcess fun p =>
      match p.saved with
      | scope :: outer =>
        if (scope.lookup name).isSome then p
        else { p with saved := ((name, p.bindings.lookup name) :: scope) :: outer }
      | [] => p
    if let some value := value then assign name value
  return 0

def shift (arguments : List Bytes) : Run Nat := do
  let n ← match arguments with
    | [] => pure 1
    | s :: _ => numberArgument "shift" s
  if (← getProcess).parameters.length < n then failWith (bytes "shift: can't shift that many")
  modifyProcess fun p => { p with parameters := p.parameters.drop n }
  return 0

end LanguageClient.Shell.Builtin
