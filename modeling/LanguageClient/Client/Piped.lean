import LanguageClient.Client.Scripted

/-!
A client at one end of two pipes, with a server at the other that reads everything at once.
-/

namespace LanguageClient.Client

/-- What a piece of the server's output amounts to, and the decoder after it. -/
def arrive (decoder : Frame.Decoder) (bytes : Bytes) : Frame.Decoder × List Happening :=
  let drained := (decoder.feed bytes).drain
  (drained.last.decoder, (Channel.deliveries drained).map .ofDelivery)

structure Piped where
  client : Client
  channel : Channel := {}
  decoder : Frame.Decoder := {}
  attached : Bool := false
  /-- What the server wrote before the client was connected. -/
  unread : Bytes := []
  /-- The server has closed its output. -/
  outputClosed : Bool := false
  /-- The bodies that the server has received. -/
  received : List Bytes := []

namespace Piped

/-- Somebody reads the server's output. -/
def isListening (p : Piped) : Bool := p.attached && !p.client.tornDown

/-- The server writes. -/
def serverWrite (p : Piped) (bytes : Bytes) : Piped :=
  if p.outputClosed then p
  else if !p.attached then { p with unread := p.unread ++ bytes }
  else if p.isListening then
    let (decoder, happenings) := arrive p.decoder bytes
    { p with decoder, client := happenings.foldl react p.client }
  else p

/-- The client finds the end of the server's output, if it is there. -/
def noticeEnd (p : Piped) : Piped :=
  if p.outputClosed && p.isListening then { p with client := p.client.endOutput } else p

/-- The server closes its output. -/
def serverClose (p : Piped) : Piped := { p with outputClosed := true }.noticeEnd

def connect (p : Piped) (given : Bool) : Piped × Except LaunchError Unit :=
  match p.client.connect given with
  | (client, .error e) => ({ p with client }, .error e)
  | (client, .ok ()) =>
    let (decoder, happenings) := arrive p.decoder p.unread
    let client := happenings.foldl react client
    ({ p with client, attached := true, decoder, unread := [] }.noticeEnd, .ok ())

/-- The host stops the client, which shuts the channel down. -/
def stop (p : Piped) : Piped :=
  { p with client := p.client.stop none, channel := p.channel.shutdown.closeInput }

/-- Sends a message to a server that takes it whole. -/
def sendWhole (channel : Channel) (m : Message) : Channel.Sending :=
  let size := ((channel.frame? m).toOption.getD []).length
  channel.send m .obtained [.took size]

/-- The failure of sending, if there is one. -/
def failure? : Channel.Sent → Option SendError
  | .failed e => some e
  | .done | .waiting => none

/-- Carries an operation out. When its message arrives, the server writes the reply and, if asked
to, closes its output. -/
def perform (p : Piped) (op : Operation) (reply : Bytes) (thenClose : Bool) :
    Piped × Except Failure (Option Json) :=
  match p.client.outgoing? op with
  | none =>
    let (client, result) := p.client.perform op (fun _ => {}) []
    ({ p with client }, result)
  | some m =>
    let sending := sendWhole p.channel m
    match failure? sending.result with
    | some e =>
      let (client, result) := p.client.perform op (fun _ => { failure := some e }) []
      ({ p with client, channel := sending.channel }, result)
    | none =>
      let (decoder, arrived) :=
        if p.outputClosed then (p.decoder, []) else arrive p.decoder reply
      let later := arrived ++ if thenClose && !p.outputClosed then [.outputEnded] else []
      let (client, result) := p.client.perform op (fun _ => {}) later
      ({ p with
          client, channel := sending.channel, decoder,
          outputClosed := p.outputClosed || thenClose,
          received := p.received ++ m.body?.toList }, result)

/-- The client has noted that the server's output ended. -/
def hasNotedEnd (p : Piped) : Bool := p.client.log.contains .outputEnded

end Piped

end LanguageClient.Client
