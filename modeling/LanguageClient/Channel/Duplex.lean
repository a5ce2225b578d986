import LanguageClient.Channel.Pipe
import LanguageClient.Channel.Reading

/-!
A channel between two pipes, seen from the side of the server too: the server writes the pipe that
the channel reads, and reads the pipe that the channel writes.
-/

namespace LanguageClient.Channel

structure Duplex where
  channel : Channel := {}
  /-- What the server has written and the channel has not yet read. -/
  incoming : Bytes := []
  /-- The server's end of that pipe is open. -/
  serverOpen : Bool := true
  /-- The channel reads a directory in place of a pipe, which fails. -/
  readsDirectory : Bool := false
  outgoing : Pipe := {}

/-- How many bytes one read takes at most. -/
def readSize : Nat := 4096

/-- Cuts a text into pieces of `n + 1` bytes, the last one shorter. -/
def pieces (n : Nat) (s : Bytes) : List Bytes :=
  match s with
  | [] => []
  | b :: rest => (b :: rest.take n) :: pieces n (rest.drop n)
termination_by s.length
decreasing_by
  simp only [List.length_drop, List.length_cons]
  omega

namespace Duplex

/-- What reading gives once the server has closed its end. -/
def arrivals (d : Duplex) : List Arrival :=
  if d.readsDirectory then [.failure .isDirectory]
  else (pieces (readSize - 1) d.incoming).map .chunk

def serverWrite (d : Duplex) (bytes : Bytes) : Duplex :=
  if d.serverOpen then { d with incoming := d.incoming ++ bytes } else d

/-- The server closes its end and the read loop runs until it returns. -/
def run (d : Duplex) (host : Host) : Duplex × List Event :=
  let (channel, events) := d.channel.start host d.arrivals
  ({ d with channel, incoming := [], serverOpen := false }, events)

/-- Sends while nobody else does. `whenFull` is what comes after the pipe is full. -/
def sendWith (d : Duplex) (m : Message) (lock : Lock) (whenFull : List Answer) : Duplex × Sent :=
  let size := ((d.channel.frame? m).toOption.getD []).length
  let answers := d.outgoing.answers size whenFull
  let sending := d.channel.send m lock answers
  let outgoing := if sending.accepted.isEmpty then d.outgoing
    else d.outgoing.fill answers sending.accepted
  ({ d with channel := sending.channel, outgoing }, sending.result)

/-- Sends a message. With a deadline, a full pipe makes it pass; without one, sending waits. -/
def send (d : Duplex) (m : Message) (hasDeadline : Bool) : Duplex × Sent :=
  d.sendWith m .obtained (if hasDeadline then [.expired] else [])

/-- The server takes what waits in its input. -/
def peerRead (d : Duplex) : Duplex × Bytes :=
  ({ d with outgoing := { d.outgoing with pages := [], content := [] } }, d.outgoing.content)

/-- The server closes its input. -/
def peerClose (d : Duplex) : Duplex :=
  { d with outgoing := { d.outgoing with pages := [], content := [], readerOpen := false } }

/-- A message is sent without a deadline; while it waits for room, if it does, a second one is
sent with a deadline; then the channel is shut down. -/
def contend (d : Duplex) (first second : Message) : Duplex × Sent × Sent :=
  match d.send first false with
  | (waiting, .waiting) =>
    let (_, held) := waiting.sendWith second .expired []
    let (ended, released) := d.sendWith first .obtained [.shutDown]
    ({ ended with channel := ended.channel.shutdown }, released, held)
  | (next, result) =>
    let (next, other) := next.send second true
    ({ next with channel := next.channel.shutdown }, result, other)

end Duplex

end LanguageClient.Channel
