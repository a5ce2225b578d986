import LanguageClient.Channel
import LanguageClient.Frame.Decoder

/-!
The read loop: bytes arrive in chunks, the frames in them are decoded, and the host's callbacks
get one message or one fault for each.

A chunk is worked off to its end even if a callback shuts the channel down on the way; the loop
looks at the shutdown only before it takes the next chunk.
-/

namespace LanguageClient.Channel

/-- What a frame, or a header block without one, amounts to. -/
inductive Delivery where
  | message (m : Message)
  | fault (f : FrameFault)

/-- Reads the body of a frame. -/
def Delivery.ofOutcome : Frame.Outcome → Delivery
  | .error e => .fault (.header e)
  | .body raw =>
    match Message.parse raw with
    | .ok m => .message m
    | .error e => .fault (.body e)

/-- What a stream delivers before more has to arrive. -/
def deliveries (drained : Frame.Decoder.Drained) : List Delivery :=
  drained.outcomes.map Delivery.ofOutcome

/-- What reading the pipe gives; its end is the end of the list of arrivals. -/
inductive Arrival where
  | chunk (bytes : Bytes)
  | failure (e : TransportError)

/-- What a host may do to the channel inside a callback. -/
inductive Reaction where
  | shutdown
  /-- Starts reading, which is already going on. -/
  | start
  deriving DecidableEq

/-- The host's side of the read loop. -/
structure Host where
  /-- What it does in the callback for its n-th message, counted from one. -/
  onMessage : Nat → List Reaction := fun _ => []
  /-- Whether it wants to be told of faults. -/
  wantsFaults : Bool := true

/-- A callback, as the host sees it. -/
inductive Event where
  /-- A message, and whether the channel is connected when it is handed over. -/
  | message (m : Message) (connected : Bool)
  | fault (f : ReadFault)

/-- One reaction of the host. A nested start is refused or enters the loop that is running anyway.
-/
def react (c : Channel) : Reaction → Channel
  | .shutdown => c.shutdown
  | .start => c.enter?.getD c

/-- The fault callback, if the host has one. -/
def Host.told (host : Host) (f : ReadFault) : List Event :=
  if host.wantsFaults then [.fault f] else []

/-- A read loop in progress. -/
structure Loop where
  channel : Channel
  decoder : Frame.Decoder := {}
  /-- How many messages the host has got. -/
  count : Nat := 0

/-- Hands one delivery to the host. -/
def Loop.deliver (host : Host) (loop : Loop) : Delivery → Loop × List Event
  | .fault f => (loop, host.told (.frame f))
  | .message m =>
    let count := loop.count + 1
    let channel := (host.onMessage count).foldl react loop.channel
    ({ loop with channel, count }, [.message m loop.channel.connected])

/-- Hands all deliveries to the host, in order. -/
def Loop.deliverAll (host : Host) (loop : Loop) : List Delivery → Loop × List Event
  | [] => (loop, [])
  | d :: rest =>
    let (loop, events) := loop.deliver host d
    let (loop, more) := loop.deliverAll host rest
    (loop, events ++ more)

/-- Works off one chunk. -/
def Loop.chunk (host : Host) (loop : Loop) (bytes : Bytes) : Loop × List Event :=
  let drained := (loop.decoder.feed bytes).drain
  { loop with decoder := drained.last.decoder }.deliverAll host (deliveries drained)

/-- Reads until the end of the input, a failure, or a shutdown. -/
def Loop.run (host : Host) (loop : Loop) : List Arrival → Loop × List Event
  | [] => (loop, [])
  | arrival :: rest =>
    if loop.channel.shutDown then (loop, [])
    else
      match arrival with
      | .failure e => (loop, host.told (.transport e))
      | .chunk bytes =>
        let (loop, events) := loop.chunk host bytes
        let (loop, more) := loop.run host rest
        (loop, events ++ more)

/-- Reads the input with a decoder of its own; returns when reading is over. -/
def start (c : Channel) (host : Host) (input : List Arrival) : Channel × List Event :=
  match c.enter? with
  | none => (c, [])
  | some entered =>
    let (loop, events) := Loop.run host { channel := entered } input
    (loop.channel.leave, events)

end LanguageClient.Channel
