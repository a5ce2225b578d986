import LanguageClient.Shell.Run

/-!
The programs that a client can launch here, as functions of what they are given: their input with
the times at which it comes, and how much time has passed.

`find` says what the system answers to a command, and `run` how far a program has come. Output only
grows with input and with time, so a reader who has taken some of it takes what `run` has added
since.
-/

namespace LanguageClient

open Shell (Run Machine Outcome)

/-- A program with its arguments. -/
structure Program where
  /-- The name of what is run. -/
  kind : Bytes
  /-- The name that it is given. -/
  name : Bytes
  arguments : List Bytes

namespace Program

/-- How far a program has come. -/
structure Progress where
  output : Bytes := []
  /-- Nobody can write to its output any more. -/
  outputEnded : Bool := false
  /-- Input that it has not read. -/
  unread : Bytes := []
  /-- Nobody can read its input any more. -/
  inputLeft : Bool := false
  /-- Its status if it has ended. -/
  status : Option ExitStatus := none

/-- What a program is given: pieces and when each comes, in milliseconds, and when no more come. -/
structure Input where
  pieces : List (Nat × Bytes) := []
  closed : Option Nat := none

/-- The input as a stream. -/
def Input.stream (i : Input) : Stream :=
  { chunks := (i.pieces.filter (!·.2.isEmpty)).map fun (ms, s) => (ms * millisecond, s)
    ended := i.closed.map (· * millisecond) }

/-- How many commands a program can run. -/
def greatestSteps : Nat := 200000

/-- How deep commands can stand in each other. -/
def greatestDepth : Nat := 20000

/-- Signals that a client ignores, and so the programs that it launches. -/
def ignoredSignals : List Nat := [13]

/-- The variables that programs are given. -/
def environment : List (Bytes × Shell.Variable) :=
  [(bytes "PATH", { value := List.intercalate [Ascii.colon] Files.searched, exported := true })]

/-- A machine on which one process has begun, at a time up to which it may run. -/
def machine (input : Input) (time : Nat) : Machine :=
  { system :=
      { readers := #[input.stream], writers := #[[]], nextId := Shell.firstId + 1
        steps := greatestSteps, limit := (time + 1) * millisecond - 1 }
    process :=
      { id := Shell.firstId, shellId := Shell.firstId, bindings := environment
        deaf := ignoredSignals
        descriptors := [(0, .reader 0), (1, .writer 0), (2, .nothing)] } }

/-- What the program has done by a time. -/
def run (p : Program) (input : Input) (time : Nat) : Progress :=
  let eval := Shell.run greatestDepth
  let isShell := p.kind == bytes "sh" || p.kind == bytes "dash" || p.kind == bytes "bash"
  let body : Run Outcome :=
    if isShell then Shell.runShell eval p.name p.arguments (p.kind != bytes "bash")
    else Shell.settle eval do
      let launch := Shell.launch eval Shell.launchDepth
      let n ← Shell.runProgram eval launch p.kind p.name p.arguments
      throw (.ends (.exited n))
  let (result, m) := body.run.run (machine input time)
  let y := m.system
  let ended := match result with
    | .ok (.ended time status) => some (time, status)
    | _ => none
  let now := y.limit
  let left (since : Option Time) : Bool :=
    since.any (· ≤ now) || ended.any (·.1 ≤ now)
  { output := (y.writers.getD 0 []).upTo now
    outputEnded := left y.outputLeft && y.holders.all fun t => t.any (· ≤ now)
    unread := (y.readers.getD 0 {}).unread
    inputLeft := left y.inputLeft
    status := ended.map Prod.snd }

/-! ### What the system answers to a command -/

/-- How long an argument can be. -/
def greatestArgument : Nat := 131071

/-- What the system answers to a command. Names and arguments end at their first NUL. -/
def find (command : Bytes) (arguments : List Bytes) : Except LaunchError Program :=
  let name := command.beforeNul
  let arguments := arguments.map Bytes.beforeNul
  match Files.search Files.searched name with
  | .ok kind =>
    if (name :: arguments).any fun s => greatestArgument < s.length then
      .error (.argumentTooLong command)
    else .ok { kind, name, arguments }
  | .error .absent => .error (.noSuchFile command)
  | .error .notFolder => .error (.notDirectory command)
  | .error .tooLong => .error (.nameTooLong command)
  | .error .notExecutable => .error (.notExecutable command)

end Program

end LanguageClient
