import LanguageClient.Child
import LanguageClient.Inbox
import LanguageClient.Log

/-!
A client of a language server: its life, and what it does with the things that reach it.

Responses complete calls and everything else goes to the inbox; faults in the input are noted and
change nothing else. The end of the server's output and `stop` both end the client for good,
whichever comes first.
-/

namespace LanguageClient

/-- How a client is set up. -/
structure Options where
  command : Bytes := []
  arguments : List Bytes := []
  /-- How long a call may take, in milliseconds. -/
  timeoutMs : Nat := 10000
  /-- The capacity of the inbox. -/
  capacity : Nat := Inbox.defaultCapacity

/-- The set-up for the SQL language server, which reads its connections from a file. -/
def Options.sqls (configuration : Bytes) : Options :=
  { command := bytes "sqls", arguments := [bytes "-config", configuration] }

structure Client where
  options : Options
  calls : Calls := {}
  inbox : Inbox
  child : Child := {}
  /-- The transport is shut down and the child ended. -/
  tornDown : Bool := false
  log : List Log.Entry := []

namespace Client

def ofOptions (options : Options) : Client := { options, inbox := .ofCapacity options.capacity }

def phase (c : Client) : Phase := c.calls.phase

def isRunning (c : Client) : Bool := c.phase == .running

/-- How many calls wait for a response. -/
def pendingCount (c : Client) : Nat := c.calls.pending.length

/-- Adds a line to the log. -/
def note (c : Client) (e : Log.Entry) : Client := { c with log := c.log ++ [e] }

/-- Why calls fail that are pending when the host stops the client. -/
def stoppedReason : Bytes := bytes "Client stopped"

/-- Why calls fail that are pending when the server's output ends. -/
def outputEndedReason : Bytes := bytes "Server closed its output"

/-- The reason given when the server could not be launched. -/
def launchFailedReason : Bytes := bytes "Server failed to launch"

/-- A response arrives. -/
def receiveResponse (c : Client) (r : Response) : Client :=
  match c.calls.complete r with
  | (calls, true) => { c with calls }.note (.responseReceived r.id)
  | (_, false) => c.note (.responseDiscarded r.id)

/-- A request or notification of the server arrives. -/
def queue (c : Client) (m : Message) : Client :=
  let c := c.note (.messageReceived m.method)
  match c.inbox.push m with
  | (inbox, true) => { c with inbox }
  | (inbox, false) => { c with inbox }.note (.inboxFull inbox.capacity)

/-- A message arrives. -/
def receive (c : Client) (m : Message) : Client :=
  match m with
  | .response r => c.receiveResponse r
  | .request _ | .notification _ => c.queue m

/-- Something unusable arrives. -/
def receiveFault (c : Client) : ReadFault → Client
  | .frame f => c.note (.frameDiscarded f)
  | .transport e => c.note (.transportFailed e)

/-- The server's output has ended. -/
def endOutput (c : Client) : Client :=
  match c.calls.close outputEndedReason with
  | (calls, true) => { c with calls }.note .outputEnded
  | (_, false) => c

/-- Stops the client and ends its child. `ended` is the child's status if it has ended by itself.
-/
def stop (c : Client) (ended : Option ExitStatus) : Client :=
  let c := { c with calls := (c.calls.close stoppedReason).1 }
  if c.tornDown then c
  else { c with tornDown := true, child := (c.child.terminate ended).1 }.note .stopped

/-- The client may be started or connected. -/
def checkUnstarted (c : Client) : Except LaunchError Unit :=
  if c.phase = .unstarted then .ok () else .error (.alreadyStarted c.phase)

/-- Runs the client over a transport that the host has set up; `given` is false if it gives none.
-/
def connect (c : Client) (given : Bool) : Client × Except LaunchError Unit :=
  if !given then (c, .error .noTransport)
  else
    match c.checkUnstarted with
    | .error e => (c, .error e)
    | .ok () => ({ c with calls := c.calls.begin.1 }, .ok ())

/-- Launches the server and runs the client over its pipes. `launched` is what the system says to
the command, and `piped` what it says to the pipes, which have to be made ready for the channel.
After a failure the client is stopped, and a child that was launched is ended. -/
def start (c : Client) (launched : Except LaunchError Unit) (piped : Except TransportError Unit) :
    Client × Except LaunchError Unit :=
  match c.checkUnstarted with
  | .error e => (c, .error e)
  | .ok () =>
    let c := c.note (.starting c.options.command c.options.arguments.length)
    match c.child.spawn c.options.command launched with
    | (child, .error e, _) =>
      let calls := (c.calls.close launchFailedReason).1
      ({ c.note (.launchFailed e) with calls, child }, .error e)
    | (child, .ok (), _) =>
      match piped with
      | .error e =>
        let calls := (c.calls.close launchFailedReason).1
        ({ c with calls, child := (child.terminate none).1 }, .error (.notPiped e))
      | .ok () => ({ c with calls := c.calls.begin.1, child }.note .started, .ok ())

/-- What may happen to a client while its host does something else. -/
inductive Happening where
  | message (m : Message)
  | fault (f : ReadFault)
  | outputEnded
  /-- Another thread of the host stops the client. -/
  | stop

def react (c : Client) : Happening → Client
  | .message m => c.receive m
  | .fault f => c.receiveFault f
  | .outputEnded => c.endOutput
  | .stop => c.stop none

end Client

end LanguageClient
