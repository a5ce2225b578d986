import LanguageClient.Failure

/-!
What a client and its decoder note down, one entry per line, and the text of each line.
-/

namespace LanguageClient.Log

inductive Level where
  | debug
  | warn
  deriving DecidableEq

def Level.name : Level → Bytes
  | .debug => bytes "debug"
  | .warn => bytes "warn"

inductive Entry where
  /-- The value of a length line was not usable. -/
  | lengthIgnored (value : Bytes)
  | starting (command : Bytes) (argumentCount : Nat)
  | launchFailed (e : LaunchError)
  | started
  | sendingRequest (method : Bytes) (id : Id)
  | sendingNotification (method : Bytes)
  | sendFailed (method : Bytes) (e : TransportError)
  | timedOutUnwritten (method : Bytes) (id : Id)
  | timedOut (method : Bytes) (id : Id)
  | responseReceived (id : Id)
  /-- A response that no call waits for. -/
  | responseDiscarded (id : Id)
  | messageReceived (method : Bytes)
  | inboxFull (capacity : Nat)
  | frameDiscarded (f : FrameFault)
  | transportFailed (e : TransportError)
  | outputEnded
  | stopped
  deriving DecidableEq

namespace Entry

def level : Entry → Level
  | .launchFailed _ | .sendFailed .. | .inboxFull _ | .frameDiscarded _ | .transportFailed _
  | .outputEnded => .warn
  | _ => .debug

/-- The text of an entry. -/
def text : Entry → Bytes
  | .lengthIgnored value => bytes "Ignoring invalid Content-Length value " ++ value.inQuotes
  | .starting command count =>
    bytes "Starting language server " ++ command.inQuotes ++ bytes " with " ++ Digits.ofNat count
      ++ bytes " argument(s)"
  | .launchFailed e => e.message
  | .started => bytes "Language server started (pid #)"
  | .sendingRequest method id =>
    bytes "Sending request " ++ method.inQuotes ++ bytes " id " ++ id.text
  | .sendingNotification method => bytes "Sending notification " ++ method.inQuotes
  | .sendFailed method e =>
    bytes "Failed to send " ++ method.inQuotes ++ bytes ": " ++ e.message
  | .timedOutUnwritten method id =>
    bytes "Request " ++ method.inQuotes ++ bytes " id " ++ id.text
      ++ bytes " timed out before it was written"
  | .timedOut method id =>
    bytes "Request " ++ method.inQuotes ++ bytes " id " ++ id.text ++ bytes " timed out"
  | .responseReceived id => bytes "Received response for id " ++ id.text
  | .responseDiscarded id =>
    bytes "No waiting request for response id " ++ id.text ++ bytes ", discarding"
  | .messageReceived method => bytes "Received server message " ++ method.inQuotes
  | .inboxFull capacity =>
    bytes "Notification queue full (" ++ Digits.ofNat capacity
      ++ bytes "), dropped oldest message"
  | .frameDiscarded f => bytes "Discarding malformed frame: " ++ f.message
  | .transportFailed e => bytes "Transport error: " ++ e.message
  | .outputEnded => bytes "Server closed its output, client stopped"
  | .stopped => bytes "Client stopped"

/-- An entry as it is shown: its level, then its text. -/
def line (e : Entry) : Bytes := e.level.name ++ bytes ": " ++ e.text

end Entry

end LanguageClient.Log
