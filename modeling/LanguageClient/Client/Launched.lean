import LanguageClient.Channel.Pipe
import LanguageClient.Client.Piped
import LanguageClient.Program.Supervised

/-!
A client with a program that it launches as its server.

The program runs as far as its input and the time allow; its output reaches the client, and the
end of its output once it has ended. What the program does not read stays in the pipe to it, so a
message that is longer than the room there has to wait for a reader.
-/

namespace LanguageClient.Client

/-- Launches the server that the options name. -/
def launch (c : Client) : Client × Except LaunchError Unit :=
  c.start ((Program.find c.options.command c.options.arguments).map fun _ => ()) (.ok ())

structure Launched where
  client : Client
  server : Supervised := {}
  channel : Channel := {}
  /-- The pipe to the server. -/
  pipe : Pipe := {}
  decoder : Frame.Decoder := {}
  /-- The client has found the end of the output. -/
  outputEnded : Bool := false

namespace Launched

/-- The server's output that is there now, as what happens to the client. -/
def listen (l : Launched) : Launched × List Happening :=
  if l.client.tornDown || l.server.program.isNone then (l, [])
  else
    let (server, bytes, ended) := l.server.takeAvailable
    let (decoder, happenings) := arrive l.decoder bytes
    let ends := ended && !l.outputEnded
    ({ l with server, decoder, outputEnded := l.outputEnded || ends },
      happenings ++ if ends then [.outputEnded] else [])

/-- Lets the client take the output that is there. -/
def settle (l : Launched) : Launched :=
  let (l, happenings) := l.listen
  { l with client := happenings.foldl react l.client }

/-- Lets time pass, and the client take what the server has written by then. -/
def pass (l : Launched) (ms : Nat) : Launched := { l with server := l.server.pass ms }.settle

/-- Waits until `isOver` holds, up to `limit` milliseconds. -/
def waitUntil (l : Launched) (limit : Nat) (isOver : Launched → Bool) : Launched :=
  l.pass (Supervised.waitingTime limit fun ms => isOver (l.pass ms))

def start (l : Launched) : Launched × Except LaunchError Unit :=
  match l.client.launch with
  | (client, .error e) => ({ l with client }, .error e)
  | (client, .ok ()) =>
    let program := (Program.find client.options.command client.options.arguments).toOption
    ({ l with client, server := { l.server with program } }.settle, .ok ())

def stop (l : Launched) : Launched :=
  { l with
    client := l.client.stop l.server.ended
    channel := l.channel.shutdown.closeInput
    server := { l.server with killed := true } }

/-- The pipe to the server as it is before the next write. -/
def pipeNow (l : Launched) : Pipe := if l.server.readsAll [] then {} else l.pipe

/-- Writing `n` bytes would end before all of them are taken. -/
def isBlocked (l : Launched) (n : Nat) : Bool :=
  (Channel.write [] (List.replicate n 0) (l.pipeNow.answers n [])).cut.isSome

/-- Writing a frame does not have to wait any more: the server cannot read it, or reads all of it.
-/
def isReceptive (l : Launched) (frame : Bytes) : Bool :=
  l.server.inputLeft || l.server.readsAll frame

/-- How writing a frame goes. -/
def answers (l : Launched) (frame : Bytes) (hasDeadline : Bool) : List Channel.Answer :=
  if l.server.inputLeft then [.broken]
  else if l.server.readsAll frame then [.took frame.length]
  else l.pipeNow.answers frame.length (if hasDeadline then [.expired] else [])

/-- Sends a message to the server; a deadline is given in milliseconds from now. -/
def send (l : Launched) (m : Message) (deadline : Option Nat) : Launched × Exchange :=
  let frame := (l.channel.frame? m).toOption.getD []
  let mustWait := l.channel.inputOpen && l.isBlocked frame.length && !l.isReceptive frame
  let limit := deadline.getD Supervised.patience
  let l := if mustWait then l.waitUntil limit (·.isReceptive frame) else l
  let answers := l.answers frame deadline.isSome
  let sending := l.channel.send m .obtained answers
  let pipe := if sending.accepted.isEmpty then l.pipeNow
    else l.pipeNow.fill answers sending.accepted
  let written := l.server.write sending.accepted
  let server := if sending.channel.inputOpen then written else written.closeInput
  ({ l with channel := sending.channel, pipe, server },
    { failure := Piped.failure? sending.result })

/-- Sends a request and waits for its response, up to the deadline. -/
def call (l : Launched) (m : Message) (method : Bytes) (params : Json) :
    Launched × Except Failure Json :=
  let timeout := l.client.options.timeoutMs
  let deadline := l.server.time + timeout
  let (l, exchange) := l.send m (some timeout)
  match l.client.issue method params fun _ => exchange with
  | (client, .error e) => ({ l with client }.settle, .error e)
  | (client, .ok id) =>
    let l := { l with client }.settle.waitUntil (deadline - l.server.time) fun l =>
      (l.client.calls.outcome? id).isSome
    let (client, result) := l.client.conclude method id
    ({ l with client }, result)

def notify (l : Launched) (m : Message) (method : Bytes) (params : Json) :
    Launched × Except Failure Unit :=
  let (l, exchange) := l.send m none
  let (client, result) := l.client.notify method params fun _ => exchange
  ({ l with client }.settle, result)

/-- Carries an operation out. -/
def perform (l : Launched) (op : Operation) : Launched × Except Failure (Option Json) :=
  match l.client.outgoing? op with
  | none =>
    let (client, result) := l.client.perform op (fun _ => {}) []
    ({ l with client }, result)
  | some m =>
    match op with
    | .request method params =>
      let (l, result) := l.call m method params
      (l, result.map some)
    | .notification method params =>
      let (l, result) := l.notify m method params
      (l, result.map fun _ => none)

/-- Takes the oldest message, waiting for one if there is none. -/
def popFor (l : Launched) (ms : Nat) : Launched × Option Message :=
  let l := l.waitUntil ms fun l => !l.client.inbox.items.isEmpty
  let (inbox, m) := l.client.inbox.pop
  ({ l with client := { l.client with inbox } }, m)

/-- The client has noted that the server's output ended. -/
def hasNotedEnd (l : Launched) : Bool := l.client.log.contains .outputEnded

/-- Waits until the client notes that the server's output ended. The answer is false if it does
not. -/
def waitEnd (l : Launched) : Launched × Bool :=
  let l := l.waitUntil Supervised.patience hasNotedEnd
  (l, l.hasNotedEnd)

end Launched

end LanguageClient.Client
