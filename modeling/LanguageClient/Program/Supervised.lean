import LanguageClient.Program

/-!
A launched program with its pipes: what was written to it, how much of its output was taken, and
how much time it was given.

Somebody who waits gives the program the least time after which the wait is over (`waitUntil`);
nobody else lets time pass. A program that was ended by force goes no further.
-/

namespace LanguageClient

structure Supervised where
  child : Child := {}
  program : Option Program := none
  input : Program.Input := {}
  /-- The time that has passed, in milliseconds. -/
  time : Nat := 0
  /-- How many bytes of the output were taken. -/
  taken : Nat := 0
  /-- The program was ended by force. -/
  killed : Bool := false

namespace Supervised

/-- How many binary digits the longest wait has, in milliseconds. -/
def patienceBits : Nat := 22

/-- How long somebody waits who has no deadline, in milliseconds: more than an hour. -/
def patience : Nat := Nat.pow 2 patienceBits

/-- The greatest number below `start + 2 ^ bits` of which `isOver` does not hold, provided that it
does not hold of `start` and holds of whatever is above a number of which it holds. -/
def greatestBefore (isOver : Nat → Bool) : Nat → Nat → Nat
  | 0, start => start
  | bits + 1, start =>
    let later := start + Nat.pow 2 bits
    greatestBefore isOver bits (if isOver later then start else later)

/-- How long a wait lasts that ends when `isOver` holds, and at `limit` if it does not by then. -/
def waitingTime (limit : Nat) (isOver : Nat → Bool) : Nat :=
  if isOver 0 then 0
  else if !isOver limit then limit
  else min limit (greatestBefore isOver patienceBits 0 + 1)

/-- What the program has done by now. -/
def progress (s : Supervised) : Program.Progress :=
  match s.program with
  | none => {}
  | some p => p.run s.input s.time

/-- The status of a program that has ended by itself. -/
def ended (s : Supervised) : Option ExitStatus := s.progress.status

/-- Nobody can read what is written to the program any more. -/
def inputLeft (s : Supervised) : Bool := s.progress.inputLeft

/-- Lets time pass. -/
def pass (s : Supervised) (ms : Nat) : Supervised :=
  if s.killed then s else { s with time := s.time + ms }

/-- Waits until `isOver` holds of what the program has done. -/
def waitUntil (s : Supervised) (isOver : Program.Progress → Bool) : Supervised :=
  s.pass (waitingTime patience fun ms => isOver (s.pass ms).progress)

/-- The input with some bytes more, which come now. -/
def given (s : Supervised) (bytes : Bytes) : Supervised :=
  { s with input := { s.input with pieces := s.input.pieces ++ [(s.time, bytes)] } }

/-- All input would be read by now if `bytes` were written too. -/
def readsAll (s : Supervised) (bytes : Bytes) : Bool := (s.given bytes).progress.unread.isEmpty

/-- Launches a program. -/
def spawn (s : Supervised) (command : Bytes) (arguments : List Bytes) :
    Supervised × Except LaunchError Unit :=
  let found := Program.find command arguments
  match s.child.spawn command (found.map fun _ => ()) with
  | (child, .error e, _) => ({ s with child }, .error e)
  | (child, .ok (), _) => ({ s with child, program := found.toOption }, .ok ())

/-- Writes to the program. Nobody reads that after its end. -/
def write (s : Supervised) (bytes : Bytes) : Supervised :=
  if s.killed || s.input.closed.isSome then s else s.given bytes

def closeInput (s : Supervised) : Supervised :=
  if s.killed || s.input.closed.isSome then s
  else { s with input := { s.input with closed := some s.time } }

/-- Takes all output that is there. The last part of the answer says that no more can come. -/
def takeAvailable (s : Supervised) : Supervised × Bytes × Bool :=
  let p := s.progress
  ({ s with taken := p.output.length }, p.output.drop s.taken, p.outputEnded)

/-- Reads until there are `n` bytes or the output ends. -/
def read (s : Supervised) (n : Nat) : Supervised × Bytes :=
  let s := s.waitUntil fun p => decide (s.taken + n ≤ p.output.length) || p.outputEnded
  let bytes := (s.progress.output.drop s.taken).take n
  ({ s with taken := s.taken + bytes.length }, bytes)

def isRunning (s : Supervised) : Supervised × Bool :=
  let (child, running, _) := s.child.isRunning s.ended
  ({ s with child }, running)

/-- Waits for the end of the program. The answer is false if it does not end. -/
def waitExit (s : Supervised) : Supervised × Bool :=
  let waited := if s.child.isUnreaped then s.waitUntil (·.status.isSome) else s
  let (s, running) := waited.isRunning
  (s, !running)

def terminate (s : Supervised) : Supervised :=
  let (child, requests) := s.child.terminate s.ended
  { s with child, killed := s.killed || requests.contains .kill }

end Supervised

end LanguageClient
