import LanguageClient.Failure

/-!
A child process and what is asked of the operating system about it.

Every operation returns the requests it makes, so that it can be said when a child is signalled or
waited for. What the system answers is an argument: whether a launch succeeds, and with which
status the child has ended by the time it is asked for.
-/

namespace LanguageClient

/-- How a process ended. -/
inductive ExitStatus where
  | exited (code : Nat)
  | signaled (number : Nat)
  deriving DecidableEq, Repr

/-- A request to the operating system about the child. -/
inductive Child.Request where
  | launch
  /-- Ends the child by force. -/
  | kill
  /-- Waits for the child, or looks whether it has ended, and takes its status. -/
  | wait
  deriving DecidableEq

structure Child where
  /-- A child was launched. -/
  spawned : Bool := false
  /-- Its status, once that has been taken. -/
  status : Option ExitStatus := none
  deriving DecidableEq

namespace Child

/-- The signal that cannot be ignored. -/
def killSignal : Nat := 9

/-- The child has been launched and its status has not been taken. -/
def isUnreaped (c : Child) : Bool := c.spawned && c.status.isNone

/-- Launches the child. `launched` is what the system says to the command. A child for which there
is no program to run ends at once, and is waited for. -/
def spawn (c : Child) (command : Bytes) (launched : Except LaunchError Unit) :
    Child × Except LaunchError Unit × List Request :=
  if c.spawned then (c, .error .alreadySpawned, [])
  else if command.isEmpty then (c, .error .emptyCommand, [])
  else
    match launched with
    | .error e => (c, .error e, [.launch, .wait])
    | .ok () => ({ spawned := true }, .ok (), [.launch])

/-- Whether the child runs. `ended` is its status if it has ended by itself. -/
def isRunning (c : Child) (ended : Option ExitStatus) : Child × Bool × List Request :=
  if !c.isUnreaped then (c, false, [])
  else
    match ended with
    | none => (c, true, [.wait])
    | some status => ({ c with status := some status }, false, [.wait])

/-- Ends the child and takes its status. `ended` is its status if it has ended by itself before.
-/
def terminate (c : Child) (ended : Option ExitStatus) : Child × List Request :=
  if !c.isUnreaped then (c, [])
  else ({ c with status := some (ended.getD (.signaled killSignal)) }, [.kill, .wait])

end Child

end LanguageClient
