import LanguageClient.Shell.Eval

/-!
Processes that begin as copies of another: subshells, pipelines, jobs, and commands whose output
takes the place of a word.

They run side by side with the process that begins them, but are run one after the other, each from
the time at which it began. `Outcome` is what became of a process: it ended, or the run was left
while it was waiting.
-/

namespace LanguageClient.Shell

open Program (Time)

/-- What became of a process. -/
inductive Outcome where
  | ended (time : Time) (status : ExitStatus)
  | waits
  | chokes
  deriving DecidableEq

/-- The end of a shell: what its own end or an interruption of it means. An action for the end is
done first, and its own end counts if it has one. -/
def settle (eval : Eval) (body : Run Nat) : Run Outcome := do
  let finish (status : ExitStatus) : Run Outcome := do
    return .ended (← getProcess).clock status
  let close (status : Nat) : Run Outcome := do
    match (← getProcess).traps.lookup 0 with
    | none => finish (.exited (status % 256))
    | some action =>
      modifyProcess fun p =>
        { p with traps := p.traps.filter (·.1 != 0), status, beforeTrap := some status }
      match ← attempt (runText eval false action) with
      | .error (.ends (.exited n)) => finish (.exited (n % 256))
      | .error (.ends status) => finish status
      | .error .waits => return .waits
      | .error .chokes => return .chokes
      | .error .fails => finish (.exited 2)
      | .ok _ | .error _ => finish (.exited (status % 256))
  match ← attempt body with
  | .ok n | .error (.returns n) => close n
  | .error (.ends (.exited n)) => close n
  | .error (.ends status) => finish status
  | .error .fails => close 2
  | .error (.leaves _ _) => close 0
  | .error .waits => return .waits
  | .error .chokes => return .chokes

/-- How long it takes until a new process runs. -/
def startTime : Time := 10000

/-- Runs a new process that begins as a copy of this one. It keeps ignoring signals, but has no
actions for them. -/
def fork (body : Run Outcome) : Run (Nat × Outcome) := do
  let parent ← getProcess
  let id := (← getSystem).nextId
  modifySystem fun y => { y with nextId := y.nextId + 1 }
  modifyProcess fun p =>
    { p with
      id, ancestors := p.id :: p.ancestors, clock := p.clock + startTime, jobs := []
      traps := p.traps.filter (·.2.isEmpty) }
  let outcome ← attempt body
  modifyProcess fun _ => parent
  match outcome with
  | .ok outcome => return (id, outcome)
  | .error _ => return (id, .waits)

/-- Waits for a process and gives its status. -/
def await (outcome : Outcome) : Run Nat := do
  match outcome with
  | .ended time status =>
    waitUntil time
    return Builtin.code status
  | .waits => waitForever
  | .chokes => throw .chokes

/-- Gives a descriptor another meaning. -/
def redirectTo (descriptor : Nat) (target : Target) : Run Unit :=
  modifyProcess fun p =>
    { p with descriptors := (descriptor, target) :: p.descriptors.filter (·.1 != descriptor) }

/-- What commands write, without the ends of lines at its end. -/
def substitute (eval : Eval) (commands : List Command) : Run Bytes := do
  let n ← addWriter
  let (_, outcome) ← fork do
    redirectTo 1 (.writer n)
    settle eval (runAll eval false commands)
  let status ← await outcome
  modifyProcess fun p => { p with substituted := some status, status }
  let text := ((← getSystem).writers.getD n []).upTo (← getProcess).clock
  let text := text.filter (· != Ascii.nul)
  return (text.reverse.dropWhile (· == Ascii.lf)).reverse

/-- Runs the stages of a pipeline, each reading what the one before it has written. -/
def runStages (eval : Eval) : List Command → Run (List Outcome)
  | [] => return []
  | [last] => do
    let (_, outcome) ← fork (settle eval (eval last false))
    return [outcome]
  | stage :: rest => do
    let before := (← getProcess).descriptors
    let n ← addWriter
    let (_, outcome) ← fork do
      redirectTo 1 (.writer n)
      settle eval (eval stage false)
    let ended := match outcome with
      | .ended time _ => some time
      | _ => none
    redirectTo 0 (← addReader (((← getSystem).writers.getD n []).stream ended))
    let later ← runStages eval rest
    modifyProcess fun p => { p with descriptors := before }
    let outcome := match outcome, later.head? with
      | .chokes, some (.ended time _) => .ended time (.exited 1)
      | _, _ => outcome
    return outcome :: later

/-- Waits for all stages of a pipeline; the status is that of the last. -/
def runPipeline (eval : Eval) (stages : List Command) : Run Nat := do
  let outcomes ← runStages eval stages
  if outcomes.contains .chokes then throw .chokes
  let mut status := 0
  for outcome in outcomes do
    status ← await outcome
  return status

/-- A command has a redirection of its own for its output. -/
def redirectsOutput : Command → Bool
  | .simple _ _ _ redirects | .redirected _ _ redirects =>
    redirects.any fun | .mk descriptor _ _ => descriptor == 1
  | _ => false

/-- Runs a command without waiting for it. It has no input. -/
def runBackground (eval : Eval) (command : Command) : Run Nat := do
  let body : Run Nat := match command with
    | .subshell commands => runAll eval false commands
    | other => eval other false
  let holdsOutput := (← getProcess).holds (.writer 0) && !redirectsOutput command
  let (id, outcome) ← fork do
    redirectTo 0 .nothing
    settle eval body
  let ended := match outcome with
    | .ended time status => some (time, status)
    | _ => none
  let clock := (← getProcess).clock
  modifyProcess fun p =>
    let kept := p.jobs.filter fun job => !(job.waited && job.isOver clock)
    let number := ((List.range' 1 (p.jobs.length + 1)).find? fun n =>
      kept.all (·.number != n)).getD 1
    let others := p.jobs.filter (·.number != number)
    { p with jobs := { number, id, outcome := ended } :: others, lastJob := some id }
  if holdsOutput then
    modifySystem fun y => { y with holders := y.holders ++ [ended.map Prod.fst] }
  return 0

end LanguageClient.Shell
