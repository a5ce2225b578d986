import LanguageClient.Channel.Duplex

/-!
The read loop on the stack of its thread. A body that needs more room than the stack has ends the
process: the loop does not return, and there are no callbacks any more. As long as no such body
arrives, the loop does what `Channel.start` does.
-/

namespace LanguageClient

namespace Channel

variable (r : Json.Reader)

/-- What a frame, or a header block without one, amounts to; none if the stack overflows. -/
def Delivery.ofOutcomeOn? : Frame.Outcome → Option Delivery
  | .error e => some (.fault (.header e))
  | .body raw =>
    (Message.parseOn? r raw).map fun
      | .ok m => .message m
      | .error e => .fault (.body e)

/-- Hands what was decoded to the host, in order, up to a body that overflows the stack. -/
def Loop.handOn (host : Host) (loop : Loop) : List Frame.Outcome → Option Loop × List Event
  | [] => (some loop, [])
  | outcome :: rest =>
    match Delivery.ofOutcomeOn? r outcome with
    | none => (none, [])
    | some d =>
      let (loop, events) := loop.deliver host d
      let (last, more) := loop.handOn host rest
      (last, events ++ more)

/-- Works off one chunk. -/
def Loop.chunkOn (host : Host) (loop : Loop) (bytes : Bytes) : Option Loop × List Event :=
  let drained := (loop.decoder.feed bytes).drain
  { loop with decoder := drained.last.decoder }.handOn r host drained.outcomes

/-- Reads until the end of the input, a failure, a shutdown, or the end of the process. -/
def Loop.runOn (host : Host) (loop : Loop) : List Arrival → Option Loop × List Event
  | [] => (some loop, [])
  | arrival :: rest =>
    if loop.channel.shutDown then (some loop, [])
    else
      match arrival with
      | .failure e => (some loop, host.told (.transport e))
      | .chunk bytes =>
        match loop.chunkOn r host bytes with
        | (none, events) => (none, events)
        | (some loop, events) =>
          let (last, more) := loop.runOn host rest
          (last, events ++ more)

/-- `start` on a stack: the channel when reading is over, or none if the process has ended. -/
def startOn (c : Channel) (host : Host) (input : List Arrival) : Option Channel × List Event :=
  match c.enter? with
  | none => (some c, [])
  | some entered =>
    let (loop, events) := Loop.runOn r host { channel := entered } input
    (loop.map (·.channel.leave), events)

/-- The server closes its end and the read loop runs on a stack until it returns, if it does. -/
def Duplex.runOn (d : Duplex) (host : Host) : Option Duplex × List Event :=
  let (channel, events) := d.channel.startOn r host d.arrivals
  (channel.map fun channel => { d with channel, incoming := [], serverOpen := false }, events)

end Channel

end LanguageClient
