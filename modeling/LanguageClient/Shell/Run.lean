import LanguageClient.Shell.Simple

/-!
Running commands. The function `run` ties the others together: it runs a command by means of itself
with a smaller bound.
-/

namespace LanguageClient.Shell

open Program (Time)

/-- Does what is to be done on signals that have come. -/
def runTraps (eval : Eval) : Run Unit := do
  let p ← getProcess
  let isDue (s : Time × Nat × Nat) : Bool := s.2.1 == p.id && s.1 ≤ p.clock
  let due := (← getSystem).signals.filter isDue
  unless due.isEmpty do
    modifySystem fun y => { y with signals := y.signals.filter (!isDue ·) }
    for (_, _, number) in due do
      match p.traps.lookup number with
      | some action =>
        if !p.deaf.contains number && !action.isEmpty then
          modifyProcess fun q => { q with beforeTrap := some p.status }
          let _ ← runText eval true action
          modifyProcess fun q => { q with status := p.status, beforeTrap := p.beforeTrap }
      | none => pure ()

/-- What one round of a loop has come to: the loop ends, or goes on. -/
def runRound (body : Run Nat) : Run (Bool × Nat) := do
  match ← attempt body with
  | .ok n => return (true, n)
  | .error (.leaves levels goesOn) =>
    if 1 < levels then throw (.leaves (levels - 1) goesOn) else return (goesOn, 0)
  | .error e => throw e

/-- Repeats a body while a condition holds. -/
def runLoop (condition : Run Bool) (body : Run Nat) : Nat → Nat → Run Nat
  | 0, _ => waitForever
  | n + 1, status => do
    match ← runRound do return if ← condition then 1 else 2 with
    | (false, _) | (_, 2) => return status
    | (_, 0) => runLoop condition body n status
    | _ =>
      let (goesOn, status) ← runRound body
      if goesOn then runLoop condition body n status else return status

/-- Runs a body for one value of a variable after another. -/
def runEach (name : Bytes) (body : Run Nat) : List Bytes → Nat → Run Nat
  | [], status => return status
  | value :: rest, _ => do
    assign name value
    let (goesOn, status) ← runRound body
    if goesOn then runEach name body rest status else return status

/-- Runs something as a loop. -/
def inLoop (body : Run Nat) : Run Nat := do
  let before := (← getProcess).loops
  modifyProcess fun p => { p with loops := p.loops + 1 }
  let result ← attempt body
  modifyProcess fun p => { p with loops := before }
  match result with
  | .ok n => return n
  | .error e => throw e

/-- Runs the body of the first case that has a pattern for a text. -/
def runChoice (eval : Eval) (tested : Bool) (text : Bytes) :
    List (List Word × List Command) → Run Nat
  | [] => return 0
  | (words, body) :: rest => do
    let isMatch ← words.anyM fun word => do
      return (← expandPattern (substitute eval) word).isMatch text
    if isMatch then runAll eval tested body else runChoice eval tested text rest

/-- Ends a shell that is to end on failures. -/
def checkFailure (tested : Bool) (status : Nat) : Run Nat := do
  if status ≠ 0 && !tested && (← getProcess).flag 'e' then throw (.ends (.exited status))
  return status

/-- Notes the status of a command. -/
def note (status : Nat) : Run Nat := do
  modifyProcess fun p => { p with status }
  return status

/-- Runs one command by means of a function that runs the commands in it. -/
def runCommand (eval : Eval) (command : Command) (tested : Bool) : Run Nat := do
  match command with
  | .simple line assignments words redirects =>
    let status ← note (← runSimple eval tested line assignments words redirects)
    runTraps eval
    checkFailure tested status
  | .pipeline stages => checkFailure tested (← note (← runPipeline eval stages))
  | .negation c => note (if (← eval c true) = 0 then 1 else 0)
  | .both a b =>
    let status ← eval a true
    if status = 0 then eval b tested else return status
  | .either a b =>
    let status ← eval a true
    if status = 0 then return status else eval b tested
  | .background c => note (← runBackground eval c)
  | .group body => runAll eval tested body
  | .subshell body =>
    let (_, outcome) ← fork (settle eval (runAll eval tested body))
    let status ← note (← await outcome)
    runTraps eval
    checkFailure tested status
  | .branch condition body otherwise =>
    if (← runAll eval true condition) = 0 then runAll eval tested body
    else if otherwise.isEmpty then note 0
    else runAll eval tested otherwise
  | .loop untilTrue condition body =>
    let holds : Run Bool := do
      tick
      return ((← runAll eval true condition) == 0) != untilTrue
    note (← inLoop (runLoop holds (runAll eval tested body) greatestReadings 0))
  | .each name words body =>
    let values ← match words with
      | some words => pure (← words.mapM (expandFields (substitute eval))).flatten
      | none => pure (← getProcess).parameters
    note (← inLoop (runEach name (runAll eval tested body) values 0))
  | .choice word cases =>
    let text ← expandText (substitute eval) word
    let status ← runChoice eval tested text cases
    note status
  | .redirected line c redirects =>
    modifyProcess fun p => { p with line }
    keepingDescriptors do
      if ← redirectAll eval redirects then eval c tested else note 2
  | .define name body =>
    modifyProcess fun p =>
      { p with functions := (name, body) :: p.functions.filter (·.1 != name) }
    note 0

/-- Runs a command. The number bounds how deep commands, functions and scripts stand in each other;
beyond it there is no room on the stack of a process. -/
def run : Nat → Eval
  | 0, _, _ => throw (.ends (.signaled 11))
  | n + 1, command, tested => do
    if (← getProcess).flag 'n' then return 0
    runCommand (run n) command tested

end LanguageClient.Shell
