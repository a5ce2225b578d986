import LanguageClient.Shell.Builtin.Basic
import LanguageClient.Shell.Utility.Signal

/-!
Jobs and signals: `wait`, `kill` and `trap`.
-/

namespace LanguageClient.Shell.Builtin

open Program (Time)

/-- A job by the word that stands for it after a percent sign: its number, or a mark for the latest
job or the one before. -/
def jobOf? (p : Process) (s : Bytes) : Option Job :=
  if s.isEmpty ∨ s = bytes "%" ∨ s = bytes "+" then p.jobs.head?
  else if s = bytes "-" then p.jobs[1]?
  else (Digits.toNat? s).bind fun n => p.jobs.find? (·.number == n)

/-- A job that an argument names, or the number of a process. -/
def jobOrId (name : String) (argument : Bytes) : Run (Job ⊕ Nat) := do
  match Bytes.after? (bytes "%") argument with
  | some s =>
    match jobOf? (← getProcess) s with
    | some job => return .inl job
    | none => failWith (bytes name ++ bytes ": No such job: " ++ argument)
  | none =>
    match decimal? argument with
    | some n => return .inr n.toNat
    | none => failWith (bytes name ++ bytes ": Illegal number: " ++ argument)

def code : ExitStatus → Nat
  | .exited n => n
  | .signaled n => 128 + n

/-- Waits for a job to end. -/
def waitFor (job : Job) : Run Nat := do
  match job.outcome with
  | some (time, status) =>
    waitUntil time
    modifyProcess fun p =>
      { p with jobs := p.jobs.map fun j => if j.id = job.id then { j with waited := true } else j }
    return code status
  | none => waitForever

def wait (arguments : List Bytes) : Run Nat := do
  if arguments.isEmpty then
    for job in (← getProcess).jobs do
      let _ ← waitFor job
    return 0
  let mut status := 0
  for argument in arguments do
    match ← jobOrId "wait" argument with
    | .inl job => status ← waitFor job
    | .inr id =>
      match (← getProcess).jobs.find? (·.id == id) with
      | some job => status ← waitFor job
      | none => status := 127
  return status

def kill (arguments : List Bytes) : Run Nat := do
  match arguments with
  | [] =>
    report (bytes ("kill: Usage: kill [-s sigspec | -signum | -sigspec] [pid | job]... or\n"
      ++ "kill -l [exitstatus]"))
    throw .fails
  | first :: rest =>
    if first = bytes "-l" then
      match rest with
      | [] =>
        Utility.emit ((List.range' 1 31).flatMap fun n => Utility.signalName n ++ [Ascii.lf])
      | s :: _ =>
        match Digits.toNat? s with
        | some n => Utility.emit (Utility.signalName n ++ [Ascii.lf])
        | none => failWith (bytes "kill: Illegal number: " ++ s)
    else
      match Utility.killArguments arguments with
      | .error name =>
        failWith (bytes "kill: invalid signal number or name: " ++ name)
      | .ok (number, targets) =>
        if targets.isEmpty then failWith (bytes "kill: Usage: kill [-s sigspec]")
        let mut status := 0
        for target in targets do
          match ← jobOrId "kill" target with
          | .inl _ =>
            -- A job is signaled as a group, and has none of its own.
            report (bytes "kill: No such process")
            status := 1
          | .inr id =>
            if !(← sendSignal id number) then
              report (bytes "kill: No such process")
              status := 1
        return status

/-- Shows the actions for signals as commands that set them. -/
def trapTable (p : Process) : Bytes :=
  let ordered := p.traps.mergeSort fun a b => decide (a.1 ≤ b.1)
  ordered.flatMap fun (number, action) =>
    let name := if number = 0 then bytes "EXIT" else Utility.signalName number
    bytes "trap -- " ++ quoted action ++ Ascii.space :: name ++ [Ascii.lf]

/-- Says what is done on signals, and at the end. -/
def trap (arguments : List Bytes) : Run Nat := do
  let arguments := if arguments.head? = some (bytes "--") then arguments.tail else arguments
  match arguments with
  | [] => Utility.emit (trapTable (← getProcess))
  | first :: rest =>
    let resets := rest.isEmpty || first == bytes "-"
      || (Digits.toNat? first).any (· ≤ greatestSignal)
    let names := if rest.isEmpty then [first]
      else if first = bytes "-" then rest else if resets then arguments else rest
    let mut status := 0
    for name in names do
      match Utility.signal? name with
      | none =>
        complain (bytes "trap: " ++ name ++ bytes ": bad trap")
        status := 1
      | some number =>
        modifyProcess fun p =>
          let others := p.traps.filter (·.1 != number)
          { p with traps := if resets then others else (number, first) :: others }
    return status

end LanguageClient.Shell.Builtin
