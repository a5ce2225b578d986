import LanguageClient.Channel.Reading
import LanguageClient.Client.Protocol

/-!
A client over a transport whose every act is written down beforehand: what arrives while a message
is being sent, and how sending ends.
-/

namespace LanguageClient.Client

/-- The happening that a delivery is. -/
def Happening.ofDelivery : Channel.Delivery → Happening
  | .message m => .message m
  | .fault f => .fault (.frame f)

/-- One act of the transport. -/
inductive Action where
  /-- A body arrives. -/
  | deliver (body : Bytes)
  /-- Reading fails. -/
  | deliverFault (e : TransportError)
  | endOutput
  /-- The host stops the client. -/
  | stop
  /-- Sending fails. -/
  | fail (e : SendError)

namespace Action

def happening? : Action → Option Happening
  | .deliver body => some (.ofDelivery (.ofOutcome (.body body)))
  | .deliverFault e => some (.fault (.transport e))
  | .endOutput => some .outputEnded
  | .stop => some .stop
  | .fail _ => none

def failure? : Action → Option SendError
  | .fail e => some e
  | _ => none

end Action

/-- The acts up to the one that ends sending. -/
def Exchange.ofActions (actions : List Action) : Exchange :=
  { during := (actions.takeWhile (·.failure?.isNone)).filterMap Action.happening?
    failure := actions.findSome? Action.failure? }

structure Scripted where
  client : Client
  /-- The client has been connected to the transport. -/
  attached : Bool := false
  /-- The bodies that were sent. -/
  sent : List Bytes := []

namespace Scripted

/-- The transport with the acts for one message. -/
def transport (s : Scripted) (actions : List Action) : Transport := fun m =>
  if s.client.tornDown then { failure := some (.transport .shutDown) }
  else
    match m.body? with
    | none => { failure := some .unwritable }
    | some _ => .ofActions actions

def connect (s : Scripted) (given : Bool) : Scripted × Except LaunchError Unit :=
  match s.client.connect given with
  | (client, .ok ()) => ({ s with client, attached := true }, .ok ())
  | (client, .error e) => ({ s with client }, .error e)

/-- Carries an operation out while the transport acts. -/
def perform (s : Scripted) (op : Operation) (actions : List Action) :
    Scripted × Except Failure (Option Json) :=
  let bodies :=
    if s.client.tornDown then [] else ((s.client.outgoing? op).bind Message.body?).toList
  let (client, result) := s.client.perform op (s.transport actions) []
  ({ s with client, sent := s.sent ++ bodies }, result)

/-- An act of the transport outside of sending. Before it is connected nothing reaches the client.
-/
def act (s : Scripted) (a : Action) : Scripted :=
  match a with
  | .stop => { s with client := s.client.stop none }
  | _ =>
    if s.attached then { s with client := a.happening?.toList.foldl react s.client } else s

end Scripted

end LanguageClient.Client
