import LanguageClient.Message

/-!
The requests that wait for a response, and what became of those that do not wait any more.

A client is unstarted, then running, then stopped. While it is running, `register` issues the ids
1, 2, 3, … and each is pending until one of three things takes it out of the table: its response
(`complete`), its caller (`remove`), or the end of the client (`close`).

Taking ids out of the table (`take?`, `takeAll?`) and settling their outcomes (`settle`) are steps
of their own, because a response and a close do the first under the table's lock and the second
after it.
-/

namespace LanguageClient

/-- Where a client is in its life. -/
inductive Phase where
  | unstarted
  | running
  | stopped
  deriving DecidableEq, Repr

def Phase.name : Phase → Bytes
  | .unstarted => bytes "unstarted"
  | .running => bytes "running"
  | .stopped => bytes "stopped"

/-- How a call ended. -/
inductive Calls.Outcome where
  | reply (r : Response)
  /-- The client ended, for this reason. -/
  | closed (reason : Bytes)
  /-- The call was taken back. -/
  | removed

structure Calls where
  phase : Phase := .unstarted
  nextId : Int64 := 1
  /-- The ids that wait for a response, oldest first. -/
  pending : List Int64 := []
  /-- The outcomes of the ids that do not, latest first. -/
  settled : List (Int64 × Calls.Outcome) := []
  /-- The ids whose callers have fetched their outcome. -/
  fetched : List Int64 := []

namespace Calls

/-- Starts to run, unless that has happened before. -/
def begin (c : Calls) : Calls × Bool :=
  if c.phase = .unstarted then ({ c with phase := .running }, true) else (c, false)

/-- Issues the next id; outside of running the phase is the reason why not. -/
def register (c : Calls) : Except Phase (Int64 × Calls) :=
  if c.phase = .running then
    .ok (c.nextId, { c with nextId := c.nextId + 1, pending := c.pending ++ [c.nextId] })
  else .error c.phase

/-- Takes one id out of the table. -/
def take? (c : Calls) (id : Int64) : Option Calls :=
  if id ∈ c.pending then some { c with pending := c.pending.erase id } else none

/-- Stops and takes every id out of the table, unless that has happened before. -/
def takeAll? (c : Calls) : Option (List Int64 × Calls) :=
  if c.phase = .stopped then none
  else some (c.pending, { c with phase := .stopped, pending := [] })

/-- Settles the outcome of an id that was taken out. -/
def settle (c : Calls) (outcome : Outcome) (id : Int64) : Calls :=
  { c with settled := (id, outcome) :: c.settled }

/-- A response arrives. The answer is false if no call waits for it; only integer ids are issued.
-/
def complete (c : Calls) (r : Response) : Calls × Bool :=
  match r.id with
  | .string _ => (c, false)
  | .int id =>
    match c.take? id with
    | none => (c, false)
    | some taken => (taken.settle (.reply r) id, true)

/-- The caller gives up. The answer is false if the call does not wait any more. -/
def remove (c : Calls) (id : Id) : Calls × Bool :=
  match id with
  | .string _ => (c, false)
  | .int id =>
    match c.take? id with
    | none => (c, false)
    | some taken => (taken.settle .removed id, true)

/-- Stops; every pending call ends with the reason. The answer is false if it was stopped before.
-/
def close (c : Calls) (reason : Bytes) : Calls × Bool :=
  match c.takeAll? with
  | none => (c, false)
  | some (ids, taken) => (ids.foldl (fun c id => c.settle (.closed reason) id) taken, true)

/-- Whether a call waits for a response with this id. -/
def waitsFor (c : Calls) (id : Id) : Bool :=
  match id with
  | .string _ => false
  | .int id => c.pending.contains id

/-- The outcome of an id, if it has one. -/
def outcome? (c : Calls) (id : Int64) : Option Outcome := c.settled.lookup id

/-- What a caller finds who asks for the outcome of a call. -/
inductive Finding where
  | waiting
  | outcome (o : Outcome)
  /-- It was fetched before; it is given out once. -/
  | taken

/-- Asks for the outcome of a call. -/
def fetch (c : Calls) (id : Int64) : Calls × Finding :=
  if id ∈ c.fetched then (c, .taken)
  else
    match c.outcome? id with
    | none => (c, .waiting)
    | some o => ({ c with fetched := id :: c.fetched }, .outcome o)

end Calls

end LanguageClient
