import LanguageClient.Child
import LanguageClient.Digits
import LanguageClient.Program.Files
import LanguageClient.Program.Stream
import LanguageClient.Shell.Syntax

/-!
The machine on which programs run: what processes share (`System`), what each has for itself
(`Process`), and the ways in which a run can be interrupted.

Processes run one after another although they run side by side: each has a clock of its own, and
all that is written carries its time. A process that waits for something goes on at the time at
which it comes. A run goes up to a limit; a process that would have to wait longer is left there.
-/

namespace LanguageClient.Shell

open Program (Time Stream Written millisecond)

/-- What a descriptor stands for. -/
inductive Target where
  /-- Reads nothing and forgets what is written. -/
  | nothing
  /-- Refuses what is written. -/
  | full
  /-- A folder, which can be opened but not read. -/
  | folder
  | reader (number : Nat)
  | writer (number : Nat)
  /-- A file that is written at its end. -/
  | file (path : Files.Path)
  deriving DecidableEq

/-- A command that is not waited for. -/
structure Job where
  /-- The number that the shell gives it. -/
  number : Nat
  id : Nat
  /-- When and how it ended. -/
  outcome : Option (Time × ExitStatus)
  /-- It was waited for later. -/
  waited : Bool := false

/-- A job has ended by a time. -/
def Job.isOver (job : Job) (time : Time) : Bool := job.outcome.any (·.1 ≤ time)

structure Variable where
  value : Option Bytes
  exported : Bool := false
  fixed : Bool := false

/-- What all processes share. -/
structure System where
  readers : Array Stream := #[]
  writers : Array Written := #[]
  /-- The files that processes have written. -/
  files : List (Files.Path × Bytes) := []
  /-- The number of the next process. -/
  nextId : Nat
  /-- Signals on their way: when, to which process, and which. -/
  signals : List (Time × Nat × Nat) := []
  /-- How many commands may still be run. -/
  steps : Nat
  /-- When the run is left. -/
  limit : Time
  /-- When the first process gave its input and its output away. -/
  inputLeft : Option Time := none
  outputLeft : Option Time := none
  /-- The ends of the jobs that had its output. -/
  holders : List (Option Time) := []

/-- A process that runs a shell or another program. -/
structure Process where
  id : Nat
  /-- The process that has begun this one, the one that has begun that, and so on. -/
  ancestors : List Nat := []
  clock : Time := 0
  /-- The name that the shell was given. -/
  name : Bytes := []
  parameters : List Bytes := []
  bindings : List (Bytes × Variable) := []
  functions : List (Bytes × Command) := []
  documents : List (Nat × Word) := []
  nextDocument : Nat := 0
  descriptors : List (Nat × Target)
  /-- The options that are set, by their letters. -/
  options : Bytes := []
  /-- What is done on a signal, or at the end for the number zero. -/
  traps : List (Nat × Bytes) := []
  /-- Signals that were ignored before the shell began, and stay so. -/
  deaf : List Nat := []
  status : Nat := 0
  /-- The status before the action for a signal or for the end that is being done. -/
  beforeTrap : Option Nat := none
  /-- The process of the shell that this is a part of. -/
  shellId : Nat
  /-- The jobs, the latest first. -/
  jobs : List Job := []
  lastJob : Option Nat := none
  /-- How many loops and functions are being run. -/
  loops : Nat := 0
  calls : Nat := 0
  /-- The values that variables had outside the functions that are being run. -/
  saved : List (List (Bytes × Option Variable)) := []
  line : Nat := 1
  /-- The status of the commands that a word was last replaced by. -/
  substituted : Option Nat := none
  /-- `echo` replaces escapes. -/
  echoesEscapes : Bool := true

structure Machine where
  system : System
  process : Process

/-- Why a run does not go on with the next command. -/
inductive Interrupt where
  /-- It would have to wait beyond the limit. -/
  | waits
  /-- It waits until somebody reads what it writes. -/
  | chokes
  | ends (status : ExitStatus)
  /-- There was an error that ends a shell. -/
  | fails
  /-- Some loops are left, or the next round of the last of them begins. -/
  | leaves (levels : Nat) (goesOn : Bool)
  | returns (status : Nat)
  deriving DecidableEq

abbrev Run := ExceptT Interrupt (StateM Machine)

/-! ### Signals -/

def signals : List (Bytes × Nat) :=
  [("HUP", 1), ("INT", 2), ("QUIT", 3), ("ILL", 4), ("TRAP", 5), ("ABRT", 6), ("IOT", 6),
    ("BUS", 7), ("FPE", 8), ("KILL", 9), ("USR1", 10), ("SEGV", 11), ("USR2", 12), ("PIPE", 13),
    ("ALRM", 14), ("TERM", 15), ("STKFLT", 16), ("CHLD", 17), ("CONT", 18), ("STOP", 19),
    ("TSTP", 20), ("TTIN", 21), ("TTOU", 22), ("URG", 23), ("XCPU", 24), ("XFSZ", 25),
    ("VTALRM", 26), ("PROF", 27), ("WINCH", 28), ("IO", 29), ("POLL", 29), ("PWR", 30),
    ("SYS", 31)].map
    fun (name, number) => (bytes name, number)

def greatestSignal : Nat := 64

/-- What a signal does to a process that does not care for it. -/
inductive Effect where
  | ends
  | stops
  | nothing
  deriving DecidableEq

def effect (number : Nat) : Effect :=
  if [0, 17, 18, 23, 28].contains number then .nothing
  else if [19, 20, 21, 22].contains number then .stops
  else .ends

/-- Signals that cannot be ignored. -/
def forcing : List Nat := [9, 19]

namespace Process

/-- What a signal does to this process. -/
def effectOf (p : Process) (number : Nat) : Effect :=
  if !forcing.contains number
    && (p.deaf.contains number || (number != 0 && (p.traps.lookup number).isSome)) then .nothing
  else effect number

def flag (p : Process) (letter : Char) : Bool := p.options.contains (Ascii.byte letter)

def holds (p : Process) (t : Target) : Bool := p.descriptors.any (·.2 == t)

def valueOf? (p : Process) (name : Bytes) : Option Bytes :=
  (p.bindings.lookup name).bind Variable.value

/-- Puts a variable in the place of the one of its name. -/
def setVariable (p : Process) (name : Bytes) (v : Variable) : Process :=
  { p with bindings := (name, v) :: p.bindings.filter (·.1 != name) }

def unsetVariable (p : Process) (name : Bytes) : Process :=
  { p with bindings := p.bindings.filter (·.1 != name) }

end Process

/-! ### Time -/

def modifyProcess (f : Process → Process) : Run Unit :=
  modify fun m => { m with process := f m.process }

def modifySystem (f : System → System) : Run Unit :=
  modify fun m => { m with system := f m.system }

def getProcess : Run Process := do return (← get).process

def getSystem : Run System := do return (← get).system

/-- Looks whether a signal that ends or stops the process comes by a time. -/
def meetSignals (time : Time) : Run Unit := do
  let p ← getProcess
  let due := (← getSystem).signals.filter fun (t, id, number) =>
    id == p.id && t ≤ time && p.effectOf number != .nothing
  match due with
  | (t, _, number) :: _ =>
    modifyProcess fun p => { p with clock := max p.clock t }
    throw (if p.effectOf number = .ends then .ends (.signaled number) else .waits)
  | [] => return

/-- Waits until a time. -/
def waitUntil (time : Time) : Run Unit := do
  let limit := (← getSystem).limit
  meetSignals (min time limit)
  if limit < time then
    modifyProcess fun p => { p with clock := limit }
    throw .waits
  modifyProcess fun p => { p with clock := max p.clock time }

/-- Waits for something that does not come. -/
def waitForever {α : Type} : Run α := do
  waitUntil ((← getSystem).limit + 1)
  throw .waits

/-- A command takes its time. -/
def tick : Run Unit := do
  let s ← getSystem
  if s.steps = 0 then waitForever
  modifySystem fun s => { s with steps := s.steps - 1 }
  waitUntil ((← getProcess).clock + 1)

/-! ### Reading and writing -/

/-- Writes to what a descriptor stands for. The answer is false if that cannot be done. -/
def writeTo (target : Option Target) (s : Bytes) : Run Bool := do
  let p ← getProcess
  match target with
  | none | some (.reader _) | some .full | some .folder => return s.isEmpty
  | some .nothing => return true
  | some (.writer n) =>
    unless s.isEmpty do
      modifySystem fun y =>
        { y with writers := y.writers.modify n fun w => w.push p.clock p.id s }
    return true
  | some (.file path) =>
    modifySystem fun y =>
      let old := (y.files.lookup path).getD []
      { y with files := (path, old ++ s) :: y.files.filter (·.1 != path) }
    return true

/-- Writes through a descriptor. -/
def write (descriptor : Nat) (s : Bytes) : Run Bool := do
  writeTo ((← getProcess).descriptors.lookup descriptor) s

/-- Reads from what a descriptor stands for. The answer is `none` if that cannot be done. -/
def readFrom (source : Option Target)
    (read : Stream → Time → Option (Time × Bytes × Stream)) : Run (Option Bytes) := do
  let p ← getProcess
  match source with
  | some .nothing => return some []
  | some (.reader n) =>
    let stream := (← getSystem).readers.getD n {}
    match read stream p.clock with
    | some (time, found, left) =>
      modifySystem fun y => { y with readers := y.readers.set! n left }
      waitUntil time
      return some found
    | none =>
      modifySystem fun y => { y with readers := y.readers.set! n { stream with chunks := [] } }
      waitForever
  | _ => return none

/-- Reads through a descriptor. -/
def readWith (descriptor : Nat) (read : Stream → Time → Option (Time × Bytes × Stream)) :
    Run (Option Bytes) := do
  readFrom ((← getProcess).descriptors.lookup descriptor) read

/-- Adds a stream that can be read. -/
def addReader (s : Stream) : Run Target := do
  let number := (← getSystem).readers.size
  modifySystem fun y => { y with readers := y.readers.push s }
  return .reader number

/-- Adds a place that can be written to. -/
def addWriter : Run Nat := do
  let number := (← getSystem).writers.size
  modifySystem fun y => { y with writers := y.writers.push [] }
  return number

/-- Writes a line about an error. -/
def complain (s : Bytes) : Run Unit := do
  let _ ← write 2 (s ++ [Ascii.lf])

/-- Writes the line of a shell about an error, after its name and the number of the line. -/
def report (s : Bytes) : Run Unit := do
  let p ← getProcess
  complain (p.name ++ bytes ": " ++ Digits.ofNat p.line ++ bytes ": " ++ s)

/-! ### Signals that processes send -/

/-- Takes back what a process has written after now. -/
def retractFrom (id : Nat) : Run Unit := do
  let clock := (← getProcess).clock
  modifySystem fun y => { y with writers := y.writers.map (·.retract clock id) }

/-- Ends a job by a signal, if it has not ended before. -/
def endJob (job : Job) (number : Nat) : Run Unit := do
  let clock := (← getProcess).clock
  unless job.isOver clock || effect number != .ends do
    let ended : Job := { job with outcome := some (clock, .signaled number) }
    modifyProcess fun p =>
      { p with jobs := p.jobs.map fun j => if j.id = job.id then ended else j }
    retractFrom job.id

/-- Sends a signal to a process. The answer is false if there is no such process. -/
def sendSignal (id number : Nat) : Run Bool := do
  let p ← getProcess
  if id = p.id ∧ p.effectOf number ≠ .nothing then
    if p.effectOf number = .ends then throw (.ends (.signaled number))
    waitForever
  else if id = p.id ∨ p.ancestors.contains id then
    unless number = 0 do
      modifySystem fun y => { y with signals := y.signals ++ [(p.clock, id, number)] }
    return true
  else
    match p.jobs.find? (·.id == id) with
    | some job =>
      endJob job number
      return true
    | none => return false

/-! ### Files -/

/-- Why a file cannot be opened. -/
inductive FileError where
  | absent
  | noFolder
  | isFolder
  | notFolder
  | tooLong
  deriving DecidableEq

/-- A process's own descriptors as files. -/
def descriptorFile? (path : Bytes) : Option Nat :=
  if path = bytes "/dev/stdin" then some 0
  else if path = bytes "/dev/stdout" then some 1
  else if path = bytes "/dev/stderr" then some 2
  else (Bytes.after? (bytes "/dev/fd/") path).bind Digits.toNat?

/-- The place of a file that is there or could be made, and what is wrong with it. -/
def locate (path : Bytes) : Run (Except FileError Files.Path) := do
  let names := Files.names path
  let outer := (List.intercalate [Ascii.slash] names.dropLast)
  let outer := if names.length = 1 then bytes "."
    else if outer.isEmpty then [Ascii.slash] else outer
  match Files.walk outer, names.getLast? with
  | .ok folder, some name =>
    if Files.entryOf? folder ≠ some .folder then return .error .notFolder
    else if name.isEmpty || name == bytes "." || name == bytes ".." then return .error .isFolder
    else
      match Files.enter folder name with
      | .error .tooLong => return .error .tooLong
      | .ok place => return .ok place
      | .error _ => return .ok (folder ++ [name])
  | .error .notFolder, _ => return .error .notFolder
  | .error .tooLong, _ => return .error .tooLong
  | _, _ => return .error .noFolder

/-- What stands at a path, files that processes have written among it. -/
def entryAt? (path : Bytes) : Run (Option Files.Entry) := do
  if path.isEmpty then return none
  if (descriptorFile? path).isSome then return some .device
  match ← locate path with
  | .ok place =>
    if ((← getSystem).files.lookup place).isSome then return some .plain
    return Files.entryOf? place
  | .error .isFolder => return some .folder
  | .error _ => return none

/-- Opens a file to be read. -/
def openInput (path : Bytes) : Run (Except FileError Target) := do
  if path.isEmpty then return .error .absent
  if path = bytes "/dev/null" then return .ok .nothing
  if path = bytes "/dev/zero" then return .ok (← addReader { endless := some 0 })
  if let some n := descriptorFile? path then
    return ((← getProcess).descriptors.lookup n).elim (.error .absent) .ok
  match ← locate path with
  | .error .isFolder => return .ok .folder
  | .error e => return .error (if e = .noFolder then .absent else e)
  | .ok place =>
    match (← getSystem).files.lookup place, Files.entryOf? place with
    | some content, _ => return .ok (← addReader (.ofBytes content))
    | none, some .folder => return .ok .folder
    | none, some _ => return .ok (← addReader (.ofBytes []))
    | none, none => return .error .absent

/-- Opens a file to be written, at its end or anew. -/
def openOutput (path : Bytes) (atEnd : Bool) : Run (Except FileError Target) := do
  if path.isEmpty then return .error .noFolder
  if path = bytes "/dev/null" ∨ path = bytes "/dev/zero" then return .ok .nothing
  if path = bytes "/dev/full" then return .ok .full
  if let some n := descriptorFile? path then
    return ((← getProcess).descriptors.lookup n).elim (.error .noFolder) .ok
  match ← locate path with
  | .error e => return .error e
  | .ok place =>
    if Files.entryOf? place = some .folder then return .error .isFolder
    let files := (← getSystem).files
    let old := if atEnd then (files.lookup place).getD [] else []
    modifySystem fun y =>
      { y with files := (place, old) :: files.filter (·.1 != place) }
    return .ok (.file place)

end LanguageClient.Shell
