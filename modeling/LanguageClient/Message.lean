import LanguageClient.Digits
import LanguageClient.Json

/-!
JSON-RPC 2.0 messages: requests, responses and notifications, and the JSON value of each.

`toJson` writes a message and the `ofJson` functions read the parts of one. A response with an
error is written without its result, and one with neither carries the result null.
-/

namespace LanguageClient

/-- The id of a request. -/
inductive Id where
  | int (n : Int64)
  | string (s : Bytes)
  deriving DecidableEq

/-- The error that a response reports. -/
structure ErrorObject where
  code : Int32
  message : Bytes
  data : Option Json

structure Request where
  id : Id
  method : Bytes
  params : Option Json

structure Response where
  id : Id
  result : Option Json
  error : Option ErrorObject

structure Notification where
  method : Bytes
  params : Option Json

inductive Message where
  | request (r : Request)
  | response (r : Response)
  | notification (n : Notification)

/-- Why a JSON value is not the message it was taken for. -/
inductive Malformed where
  /-- A member is missing or of the wrong kind. -/
  | member (e : Json.AccessError)
  /-- An id is neither an integer nor a string. -/
  | id
  deriving DecidableEq, Repr

/-- The protocol version that every message names. -/
def protocolVersion : Bytes := bytes "2.0"

/-! ### Keys of a message's members -/

namespace Key

def version : Bytes := bytes "jsonrpc"
def id : Bytes := bytes "id"
def method : Bytes := bytes "method"
def params : Bytes := bytes "params"
def result : Bytes := bytes "result"
def error : Bytes := bytes "error"
def code : Bytes := bytes "code"
def message : Bytes := bytes "message"
def data : Bytes := bytes "data"

end Key

/-- A member that is present if there is a value for it. -/
def optionalMember (key : Bytes) (value : Option Json) : List (Bytes × Json) :=
  value.toList.map (key, ·)

/-- Reads a member that has to be there and of the right kind. -/
def readMember {α : Type} (key : Bytes) (read : Json → Except Json.AccessError α) (j : Json) :
    Except Malformed α :=
  (j.field key read).mapError .member

namespace Id

/-- The form of an id in log lines: a string id is set between quotation marks. -/
def text : Id → Bytes
  | .int n => Digits.ofInt n.toInt
  | .string s => Ascii.quote :: (s ++ [Ascii.quote])

def toJson : Id → Json
  | .int n => .integer (.ofInt64 n)
  | .string s => .string s

/-- Reads an id. Integers above the range of a signed 64-bit word wrap around. -/
def ofJson : Json → Except Malformed Id
  | .integer n => .ok (.int (Int64.ofInt n.toInt))
  | .string s => .ok (.string s)
  | _ => .error .id

end Id

namespace ErrorObject

def toJson (e : ErrorObject) : Json :=
  .ofMembers ([(Key.code, .ofInt32 e.code), (Key.message, .string e.message)]
    ++ optionalMember Key.data e.data)

def ofJson (j : Json) : Except Malformed ErrorObject := do
  let code ← readMember Key.code Json.asInt32 j
  let message ← readMember Key.message Json.asString j
  return { code, message, data := j.member? Key.data }

def eqv (a b : ErrorObject) : Bool := a.code == b.code && a.message == b.message && a.data == b.data

instance : BEq ErrorObject := ⟨eqv⟩

end ErrorObject

namespace Request

def toJson (r : Request) : Json :=
  .ofMembers ([(Key.version, .string protocolVersion), (Key.id, r.id.toJson),
    (Key.method, .string r.method)] ++ optionalMember Key.params r.params)

def ofJson (j : Json) : Except Malformed Request := do
  let id ← ((j.member Key.id).mapError .member).bind Id.ofJson
  let method ← readMember Key.method Json.asString j
  return { id, method, params := j.member? Key.params }

def eqv (a b : Request) : Bool := a.id == b.id && a.method == b.method && a.params == b.params

end Request

namespace Response

/-- What a response is written with: its error if it has one, otherwise its result. -/
def outcomeMember (r : Response) : Bytes × Json :=
  match r.error with
  | some e => (Key.error, e.toJson)
  | none => (Key.result, r.result.getD .null)

def toJson (r : Response) : Json :=
  .ofMembers [(Key.version, .string protocolVersion), (Key.id, r.id.toJson), r.outcomeMember]

def ofJson (j : Json) : Except Malformed Response := do
  let id ← ((j.member Key.id).mapError .member).bind Id.ofJson
  let error ← (j.member? Key.error).mapM ErrorObject.ofJson
  return { id, result := j.member? Key.result, error }

def eqv (a b : Response) : Bool := a.id == b.id && a.result == b.result && a.error == b.error

end Response

namespace Notification

def toJson (n : Notification) : Json :=
  .ofMembers ([(Key.version, .string protocolVersion), (Key.method, .string n.method)]
    ++ optionalMember Key.params n.params)

def ofJson (j : Json) : Except Malformed Notification := do
  let method ← readMember Key.method Json.asString j
  return { method, params := j.member? Key.params }

def eqv (a b : Notification) : Bool := a.method == b.method && a.params == b.params

end Notification

namespace Message

def toJson : Message → Json
  | .request r => r.toJson
  | .response r => r.toJson
  | .notification n => n.toJson

/-- The method of a request or notification; a response has none, which is the empty text. -/
def method : Message → Bytes
  | .request r => r.method
  | .notification n => n.method
  | .response _ => []

/-- Same kind and equal parts. -/
def eqv : Message → Message → Bool
  | .request a, .request b => a.eqv b
  | .response a, .response b => a.eqv b
  | .notification a, .notification b => a.eqv b
  | _, _ => false

end Message

end LanguageClient
