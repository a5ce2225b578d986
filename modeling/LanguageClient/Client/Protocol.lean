import LanguageClient.Client.Call
import LanguageClient.Document

/-!
What a host asks a client to send: any request or notification, and those of the protocol that a
client knows by name, with their methods and typed parameters.
-/

namespace LanguageClient

/-- A message that a host wants sent. -/
inductive Operation where
  | request (method : Bytes) (params : Json)
  | notification (method : Bytes) (params : Json)

namespace Operation

/-- The version of a document when it is opened. -/
def firstVersion : Int32 := 1

/-- The first request of a session: what the client can do and where its files are. -/
def handshake (rootUri : Bytes) (capabilities : Json) : Operation :=
  .request (bytes "initialize")
    { rootUri := some rootUri, capabilities : InitializeParams }.toJson

/-- Tells the server that its answer to the handshake has come. -/
def handshakeDone : Operation := .notification (bytes "initialized") .emptyObject

def didOpen (uri languageId text : Bytes) : Operation :=
  .notification (bytes "textDocument/didOpen")
    { document := { uri, languageId, version := firstVersion, text } : OpenParams }.toJson

/-- Replaces the whole text of a document. -/
def didChange (uri text : Bytes) (version : Int32) : Operation :=
  .notification (bytes "textDocument/didChange")
    { document := { uri, version }, changes := [{ text }] : ChangeParams }.toJson

def completion (uri : Bytes) (line character : Int32) : Operation :=
  .request (bytes "textDocument/completion")
    { document := { uri }, position := { line, character } : PositionParams }.toJson

def hover (uri : Bytes) (line character : Int32) : Operation :=
  .request (bytes "textDocument/hover")
    { document := { uri }, position := { line, character } : PositionParams }.toJson

end Operation

namespace Client

/-- The message that an operation hands to the transport; a client that does not run hands over
nothing. -/
def outgoing? (c : Client) (op : Operation) : Option Message :=
  if c.isRunning then
    match op with
    | .request method params =>
      some (.request { id := .int c.calls.nextId, method, params := some params })
    | .notification method params => some (.notification { method, params := some params })
  else none

/-- Carries an operation out. A request gives its result. `later` is what happens after the
message is sent. -/
def perform (c : Client) (op : Operation) (transport : Transport) (later : List Happening) :
    Client × Except Failure (Option Json) :=
  match op with
  | .request method params =>
    let (c, result) := c.call method params transport later
    (c, result.map some)
  | .notification method params =>
    let (c, result) := c.notify method params transport
    (later.foldl react c, result.map fun _ => none)

end Client

end LanguageClient
