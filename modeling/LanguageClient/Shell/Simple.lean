import LanguageClient.Shell.Launch

/-!
Simple commands: assignments, redirections, and words that name a function, a command of the shell
itself, or a program.
-/

namespace LanguageClient.Shell

/-- How many functions can be run inside each other. -/
def greatestCalls : Nat := 1000

/-- Runs a function with its arguments. -/
def callFunction (eval : Eval) (tested : Bool) (body : Command) (arguments : List Bytes) :
    Run Nat := do
  let before ← getProcess
  if greatestCalls ≤ before.calls then
    failWith (bytes "Maximum function recursion depth (1000) reached")
  modifyProcess fun p =>
    { p with
      parameters := arguments, loops := 0, calls := p.calls + 1, saved := [] :: p.saved }
  let result ← attempt (eval body tested)
  modifyProcess fun p =>
    let scope := p.saved.headD []
    let restored := scope.foldl (fun (p : Process) (name, old) =>
      match old with
      | some v => p.setVariable name v
      | none => p.unsetVariable name) p
    { restored with
      parameters := before.parameters, loops := before.loops, calls := before.calls
      saved := before.saved }
  match result with
  | .ok n | .error (.returns n) => return n
  | .error e => throw e

/-- The status that `exit` and `return` are given, or another. -/
def statusArgument (name : String) (arguments : List Bytes) (other : Nat) : Run Nat := do
  match arguments with
  | [] => return other
  | s :: _ => Builtin.numberArgument name s

/-- Leaves loops. -/
def leaveLoops (name : String) (goesOn : Bool) (arguments : List Bytes) : Run Nat := do
  let n ← match arguments with
    | [] => pure 1
    | s :: _ => Builtin.numberArgument name s
  if n = 0 then failWith (bytes name ++ bytes ": Illegal number: 0")
  let loops := (← getProcess).loops
  if loops = 0 then return 0
  throw (.leaves (min n loops) goesOn)

/-- Runs the commands in a file. -/
def runFile (eval : Eval) (tested : Bool) (arguments : List Bytes) : Run Nat := do
  match arguments with
  | [] => return 0
  | path :: _ =>
    match ← openInput path with
    | .error e => failWith (bytes ".: " ++ cannotOpen path e)
    | .ok target =>
      let text := (← readFrom (some target) Program.Stream.readAll).getD []
      match ← attempt (runText eval tested text) with
      | .ok n | .error (.returns n) => return n
      | .error e => throw e

/-- The number of the first process. -/
def firstId : Nat := 1000

/-- Notes that the first process gave away its input or its output. -/
def noteHeld : Run Unit := do
  let p ← getProcess
  if p.id = firstId then
    modifySystem fun y =>
      { y with
        inputLeft := if p.holds (.reader 0) then none else y.inputLeft.or (some p.clock)
        outputLeft := if p.holds (.writer 0) then none else y.outputLeft.or (some p.clock) }

/-- Runs a program in place of the shell. -/
def runInstead (eval : Eval) (words : List Bytes) : Run Nat := do
  match words with
  | [] =>
    noteHeld
    return 0
  | name :: arguments =>
    noteHeld
    modifyProcess fun p => { p with traps := p.traps.filter (·.2.isEmpty) }
    match Files.search (searchedFolders (← getProcess)) name with
    | .ok program =>
      if program = bytes "sh" ∨ program = bytes "dash" ∨ program = bytes "bash" then
        match ← runShell eval name arguments (program != bytes "bash") with
        | .ended _ status => throw (.ends status)
        | .waits => throw .waits
        | .chokes => throw .chokes
      else
        let n ← runProgram eval (launch eval launchDepth) program name arguments
        throw (.ends (.exited n))
    | .error fault =>
      let denied := fault == .notExecutable
      report (bytes "exec: " ++ name ++ bytes (if denied then ": Permission denied"
        else ": not found"))
      throw (.ends (.exited (if denied then 126 else 127)))

/-- Runs a command of the shell itself that is not special. An error in it only makes it fail. -/
def runGuarded (body : Run Nat) : Run Nat := do
  match ← attempt body with
  | .ok n => return n
  | .error .fails => return 2
  | .error e => throw e

/-- Runs a command of the shell itself that may run other commands. -/
def runBuiltin (eval : Eval) (tested : Bool) (name : Bytes) (arguments : List Bytes) :
    Option (Run Nat) :=
  if name = bytes "eval" then
    some (runText eval tested (List.intercalate [Ascii.space] arguments))
  else if name = bytes "exit" then
    some do
      let p ← getProcess
      throw (.ends (.exited (← statusArgument "exit" arguments (p.beforeTrap.getD p.status))))
  else if name = bytes "return" then
    some do throw (.returns (← statusArgument "return" arguments (← getProcess).status))
  else if name = bytes "break" then some (leaveLoops "break" false arguments)
  else if name = bytes "continue" then some (leaveLoops "continue" true arguments)
  else if name = bytes "exec" then some (runInstead eval arguments)
  else if name = bytes "." then some (runFile eval tested arguments)
  else (builtins.lookup name).map (· arguments)

/-- Runs the words of a command. -/
def runWords (eval : Eval) (tested : Bool) : Nat → Bool → List Bytes → Run Nat
  | 0, _, _ => return 127
  | _, _, [] => return 0
  | n + 1, functionsToo, name :: arguments => do
    let p ← getProcess
    let guarded (body : Run Nat) : Run Nat :=
      if specialCommands.contains name && functionsToo then body else runGuarded body
    let function := if functionsToo && !specialCommands.contains name then p.functions.lookup name
      else none
    match function with
    | some body => callFunction eval tested body arguments
    | none =>
      if name = bytes "command" then
        match arguments with
        | option :: rest =>
          if option = bytes "-p" ∨ option = bytes "--" then runWords eval tested n false rest
          else runWords eval tested n false arguments
        | [] => return 0
      else
        match runBuiltin eval tested name arguments with
        | some body => guarded body
        | none => runExternal eval [] (name :: arguments)

/-- Gives variables values one after another. The answer is what they were given. -/
def assignAll (eval : Eval) (exports : Bool) (assignments : List (Bytes × Word)) :
    Run (List (Bytes × Bytes)) :=
  assignments.mapM fun (name, word) => do
    let value ← expandText (substitute eval) word
    assign name value
    if exports then
      modifyProcess fun p =>
        match p.bindings.lookup name with
        | some v => p.setVariable name { v with exported := true }
        | none => p
    return (name, value)

/-- Gives variables values while something is run. Programs get these variables too. -/
def withAssignments (eval : Eval) (assignments : List (Bytes × Word)) (keeps : Bool)
    (body : List (Bytes × Bytes) → Run Nat) : Run Nat := do
  let before ← getProcess
  let assigned ← assignAll eval (!keeps) assignments
  let result ← attempt (body assigned)
  unless keeps do
    modifyProcess fun p =>
      assignments.foldl (fun p (name, _) =>
        match before.bindings.lookup name with
        | some v => p.setVariable name v
        | none => p.unsetVariable name) p
  match result with
  | .ok n => return n
  | .error e => throw e

/-- Shows a command before it is run if that is wanted. -/
def trace (target : Option Target) (assigned : List (Bytes × Bytes)) (words : List Bytes) :
    Run Unit := do
  let p ← getProcess
  if p.flag 'x' then
    let texts := assigned.map (fun (name, value) => name ++ 0x3D :: value) ++ words
    let mark := (p.valueOf? (bytes "PS4")).getD []
    let _ ← writeTo target (mark ++ List.intercalate [Ascii.space] texts ++ [Ascii.lf])

/-- Commands whose arguments are assignments, which make no fields. -/
def assigningCommands : List Bytes := ["export", "readonly", "local"].map bytes

/-- The fields of the words of a command. -/
def commandFields (eval : Eval) (words : List Word) : Run (List Bytes) := do
  match words with
  | [] => return []
  | first :: rest =>
    let front ← expandFields (substitute eval) first
    let assigns := front.head?.any assigningCommands.contains
    let later ← rest.mapM fun word => do
      if assigns && word.assignment?.isSome then
        return [← expandText (substitute eval) word]
      else expandFields (substitute eval) word
    return front ++ later.flatten

/-- Runs a simple command. -/
def runSimple (eval : Eval) (tested : Bool) (line : Nat) (assignments : List (Bytes × Word))
    (words : List Word) (redirects : List Redirect) : Run Nat := do
  modifyProcess fun p => { p with line, substituted := none }
  tick
  let found ← commandFields eval words
  let name := found.headD []
  let special := specialCommands.contains name
  let errors := (← getProcess).descriptors.lookup 2
  let body : Run Nat := do
    if ← redirectAll eval redirects then
      if found.isEmpty then
        let assigned ← assignAll eval false assignments
        unless assigned.isEmpty do trace errors assigned []
        return (← getProcess).substituted.getD 0
      else
        withAssignments eval assignments special fun assigned => do
          trace errors assigned found
          runWords eval tested launchDepth true found
    else if special then throw .fails
    else return 2
  if name = bytes "exec" ∨ redirects.isEmpty then body else keepingDescriptors body

end LanguageClient.Shell
