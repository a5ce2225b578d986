import LanguageClient.Shell.Redirection

/-!
Programs that are looked up by name: shells, `env`, and all that do one thing with their arguments and
their input.
-/

namespace LanguageClient.Shell

/-- The options of a shell, and the arguments after them. -/
structure Invocation where
  /-- The script is the first argument. -/
  isGiven : Bool := false
  /-- The script is the input. -/
  isInput : Bool := false
  arguments : List Bytes := []

/-- Reads the options of a shell. -/
def invocation : List Bytes → Invocation → Run Invocation
  | [], i => return i
  | argument :: rest, i => do
    match argument with
    | mark :: letters =>
      let on := mark == Ascii.minus
      if mark ≠ Ascii.minus ∧ mark ≠ Ascii.plus then
        return { i with arguments := argument :: rest }
      else if letters.isEmpty ∨ letters = [Ascii.minus] then return { i with arguments := rest }
      else
        let others := letters.filter fun b =>
          b != Ascii.byte 'c' && b != Ascii.byte 's' && b != Ascii.byte 'o' && b != Ascii.byte 'l'
        Builtin.setLetters [] on others
        let i :=
          { i with
            isGiven := i.isGiven || letters.contains (Ascii.byte 'c')
            isInput := i.isInput || letters.contains (Ascii.byte 's') }
        if letters.contains (Ascii.byte 'o') then
          match rest with
          | option :: rest =>
            Builtin.setNamed [] on option
            invocation rest i
          | [] =>
            let _ ← Utility.emit (Builtin.optionTable (fun _ => true) true)
            return i
        else invocation rest i
    | [] => return { i with arguments := argument :: rest }

/-- The variables that a shell begins with, whatever it is given. -/
def ownVariables : List (Bytes × Variable) :=
  [(bytes "IFS", { value := some defaultCuts }), (bytes "OPTIND", { value := some (bytes "1") })]

/-- The variables that a shell begins with if it is not given others. -/
def otherVariables : List (Bytes × Variable) :=
  (bytes "PATH", { value := some (List.intercalate [Ascii.colon] Files.searched) })
    :: [("PS1", "# "), ("PS2", "> "), ("PS4", "+ ")].map
      fun (name, value) => (bytes name, { value := some (bytes value) })

/-- The variables of a shell that is given some. -/
def variablesFrom (ancestors : List Nat) (given : List (Bytes × Variable)) :
    List (Bytes × Variable) :=
  let kept := given.filter fun v => v.2.exported && (ownVariables.lookup v.1).isNone
  let parent := Digits.ofNat (ancestors.headD 1)
  kept ++ ownVariables ++ (bytes "PPID", { value := some parent })
    :: otherVariables.filter fun v => (kept.lookup v.1).isNone

/-- Runs a shell with its arguments, in place of what the process did before. -/
def runShell (eval : Eval) (name : Bytes) (arguments : List Bytes) (echoesEscapes : Bool) :
    Run Outcome := do
  modifyProcess fun p =>
    { id := p.id, ancestors := p.ancestors, clock := p.clock, descriptors := p.descriptors
      shellId := p.id, name
      bindings := variablesFrom p.ancestors p.bindings
      echoesEscapes
      deaf := p.deaf ++ (p.traps.filter (·.2.isEmpty)).map Prod.fst, line := 0 }
  settle eval do
    let i ← invocation arguments {}
    let i := if i.arguments.isEmpty && !i.isGiven then { i with isInput := true } else i
    if i.isInput then Builtin.setOption (Ascii.byte 's') true
    modifyProcess fun p => { p with line := 1 }
    let input : Run Nat := runInput eval greatestReadings { rest := [], complete := false } 0
    match i.arguments with
    | text :: rest =>
      if i.isGiven then
        modifyProcess fun p => { p with name := rest.headD name, parameters := rest.tail }
        let status ← runText eval false text
        if i.isInput then input else return status
      else if i.isInput then
        modifyProcess fun p => { p with parameters := i.arguments }
        input
      else
        match ← openInput text with
        | .error e =>
          modifyProcess fun p => { p with line := 0 }
          failWith (cannotOpen text e)
        | .ok target =>
          modifyProcess fun p => { p with name := text, parameters := rest }
          runText eval false ((← readFrom (some target) Program.Stream.readAll).getD [])
    | [] =>
      if i.isGiven then
        modifyProcess fun p => { p with line := 0 }
        failWith (bytes "-c requires an argument")
      else input

/-- The folders in which commands are looked for. -/
def searchedFolders (p : Process) : List Bytes :=
  match p.valueOf? (bytes "PATH") with
  | some path => (path.splitOnP (· == Ascii.colon)).map fun s => if s.isEmpty then bytes "." else s
  | none => Files.searched

/-- The options of `env` at the front of its arguments, and the rest. -/
def environmentOptions : List Bytes → Bool → List Bytes → Bool × List Bytes × List Bytes
  | argument :: rest, clears, removed =>
    if argument = bytes "-i" ∨ argument = bytes "-" then environmentOptions rest true removed
    else if argument = bytes "-u" then
      match rest with
      | name :: rest => environmentOptions rest clears (name :: removed)
      | [] => (clears, removed, [])
    else if argument = bytes "--" then (clears, removed, rest)
    else (clears, removed, argument :: rest)
  | [], clears, removed => (clears, removed, [])

/-- What launching a program by its name has come to: it ran, or it could not be found. -/
abbrev Launch := Bytes → List Bytes → Run (Except Files.Fault Nat)

/-- Launches a program and says so if it cannot be launched. -/
def launchFor (launch : Launch) (caller : String) (quote : Bytes → Bytes) (words : List Bytes) :
    Run Nat := do
  match words with
  | [] => return 0
  | name :: arguments =>
    match ← launch name arguments with
    | .ok status => return status
    | .error fault =>
      let cause := match fault with
        | .notExecutable => bytes "Permission denied"
        | .notFolder => bytes "Not a directory"
        | .tooLong => bytes "File name too long"
        | .absent => bytes "No such file or directory"
      complain (bytes caller ++ bytes ": " ++ quote name ++ bytes ": " ++ cause)
      return if fault = .absent then 127 else 126

/-- Runs a program with other variables, or shows them. -/
def runEnvironment (launch : Launch) (arguments : List Bytes) : Run Nat := do
  let (clears, removed, rest) := environmentOptions arguments false []
  let afterEnd := arguments.take (arguments.length - rest.length) |>.contains (bytes "--")
  if !afterEnd && rest.head?.any (·.head? == some Ascii.minus) then
    return ← Utility.refuse "env" (bytes "invalid option " ++ (rest.headD [])) 125
  let settings := rest.takeWhile (·.contains 0x3D)
  let words := rest.drop settings.length
  let before ← getProcess
  if clears then modifyProcess fun p => { p with bindings := [] }
  for name in removed do
    modifyProcess (·.unsetVariable name)
  for setting in settings do
    let (name, value) := Builtin.binding setting
    modifyProcess (·.setVariable name { value, exported := true })
  let text := Utility.environmentText (← getProcess)
  let status ← attempt (if words.isEmpty then Utility.emit text
    else launchFor launch "env" Bytes.inQuotes words)
  modifyProcess fun p => { p with bindings := before.bindings }
  match status with
  | .ok n => return n
  | .error e => throw e

/-- Runs a program that has been found. `isOwn` says that it takes the place of the shell. -/
def runProgram (eval : Eval) (launch : Launch) (program name : Bytes) (arguments : List Bytes) :
    Run Nat := do
  if program = bytes "sh" ∨ program = bytes "dash" ∨ program = bytes "bash" then
    let (_, outcome) ← fork (runShell eval name arguments (program != bytes "bash"))
    match outcome with
    | .ended time status =>
      waitUntil time
      match status with
      | .exited n => return n
      | .signaled n => return 128 + n
    | .waits => waitForever
    | .chokes => throw .chokes
  else if program = bytes "env" then runEnvironment launch arguments
  else
    match utilities.lookup program with
    | some run => run arguments
    | none => return 0

/-- How often programs may launch each other. -/
def launchDepth : Nat := 100

/-- Looks a program up by its name and runs it. -/
def launch (eval : Eval) : Nat → Launch
  | 0, _, _ => return .error .absent
  | n + 1, name, arguments => do
    match Files.search (searchedFolders (← getProcess)) name with
    | .error fault => return .error fault
    | .ok program => return .ok (← runProgram eval (launch eval n) program name arguments)

/-- Runs a program for a shell, which says so if it cannot be launched. -/
def runExternal (eval : Eval) (before : Bytes) (words : List Bytes) : Run Nat := do
  match words with
  | [] => return 0
  | name :: arguments =>
    match ← launch eval launchDepth name arguments with
    | .ok status => return status
    | .error .notExecutable =>
      report (before ++ name ++ bytes ": Permission denied")
      return 126
    | .error _ =>
      report (before ++ name ++ bytes ": not found")
      return 127

end LanguageClient.Shell
