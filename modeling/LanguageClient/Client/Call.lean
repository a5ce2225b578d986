import LanguageClient.Channel.Writing
import LanguageClient.Client

/-!
Calls and notifications.

A call is issued (`issue`): its id is registered and its request handed to the transport. Later
its caller asks what came of it (`conclude`), at the latest when the deadline passes. Between the
two, and while the transport is busy sending, anything may happen to the client.
-/

namespace LanguageClient.Client

/-- What a transport does with one message. -/
structure Exchange where
  /-- What happens while the message is being sent. -/
  during : List Happening := []
  /-- Why sending fails, if it does. -/
  failure : Option SendError := none

/-- A transport, as a client sees it: what it does with each message. -/
abbrev Transport := Message → Exchange

/-- Hands a message to the transport. -/
def handOver (c : Client) (m : Message) (transport : Transport) : Client × Option Failure :=
  let exchange := transport m
  let c := exchange.during.foldl react c
  match exchange.failure with
  | none => (c, none)
  | some .unwritable => (c, some .unwritable)
  | some (.timeout e) => (c, some (.timeout e))
  | some (.transport e) =>
    if c.isRunning then (c.note (.sendFailed m.method e), some (.transport e))
    else (c, some (.notRunning (.stoppedWhileSending m.method)))

/-- Takes a call back whose request could not be sent. A request that cannot be written at all
stays pending. -/
def withdraw (c : Client) (method : Bytes) (id : Id) : Failure → Client
  | .unwritable => c
  | .timeout _ =>
    { c with calls := (c.calls.remove id).1 }.note (.timedOutUnwritten method id)
  | _ => { c with calls := (c.calls.remove id).1 }

/-- Registers a call and sends its request. -/
def issue (c : Client) (method : Bytes) (params : Json) (transport : Transport) :
    Client × Except Failure Int64 :=
  match c.calls.register with
  | .error phase => (c, .error (.notRunning (.cannotSend phase method)))
  | .ok (id, calls) =>
    let c := { c with calls }.note (.sendingRequest method (.int id))
    let request := Message.request { id := .int id, method, params := some params }
    match c.handOver request transport with
    | (c, none) => (c, .ok id)
    | (c, some failure) => (c.withdraw method (.int id) failure, .error failure)

/-- What a caller gets from the outcome of a call. -/
def answer : Calls.Outcome → Except Failure Json
  | .removed => .error .abandoned
  | .closed reason => .error (.notRunning (.closed reason))
  | .reply r =>
    match r.error with
    | some e => .error (.protocol e)
    | none => .ok (r.result.getD .null)

/-- The end of a call at its deadline: its outcome if it has one, and a timeout otherwise. -/
def conclude (c : Client) (method : Bytes) (id : Int64) : Client × Except Failure Json :=
  match c.calls.fetch id with
  | (calls, .outcome o) => ({ c with calls }, answer o)
  | (_, .taken) => (c, .error .abandoned)
  | (_, .waiting) =>
    ({ c with calls := (c.calls.remove (.int id)).1 }.note (.timedOut method (.int id)),
      .error (.timeout (.noReply method)))

/-- A call from its beginning to its end. `later` is what happens between its sending and the
moment at which it has an outcome or its deadline passes. -/
def call (c : Client) (method : Bytes) (params : Json) (transport : Transport)
    (later : List Happening) : Client × Except Failure Json :=
  match c.issue method params transport with
  | (c, .error failure) => (c, .error failure)
  | (c, .ok id) => (later.foldl react c).conclude method id

/-- Sends a notification. -/
def notify (c : Client) (method : Bytes) (params : Json) (transport : Transport) :
    Client × Except Failure Unit :=
  if c.isRunning then
    let c := c.note (.sendingNotification method)
    match c.handOver (.notification { method, params := some params }) transport with
    | (c, none) => (c, .ok ())
    | (c, some failure) => (c, .error failure)
  else (c, .error (.notRunning (.cannotSend c.phase method)))

end LanguageClient.Client
