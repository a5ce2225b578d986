import LanguageClient.Json.Reader
import LanguageClient.Json.Text
import LanguageClient.Message

/-!
Messages as the bodies that travel: `Message.parse` reads a body and `Message.body?` writes one.

A body is refused for one of the causes of `Rejection`. Which cause is reported when there are
several is fixed by the order of the tests in `ofJson`: the version first, then the id, then the
other members.
-/

namespace LanguageClient

/-- Why a body is not a message. -/
inductive Rejection where
  | empty
  /-- Not one JSON object or array with blanks around it. -/
  | notJson
  /-- An array. -/
  | notObject
  | noVersion
  | otherVersion
  | nullRequestId
  | nullResponseId
  /-- Both of result and error, or neither. -/
  | notOneOutcome
  /-- Neither an id nor a method. -/
  | unclassified
  | malformed (cause : Malformed)
  deriving DecidableEq, Repr

namespace Malformed

/-- The text of a cause. -/
def message : Malformed → Bytes
  | .member .wrongKind => bytes "[json.exception.type_error.302]"
  | .member .notObject => bytes "[json.exception.type_error.304]"
  | .member .missingMember => bytes "[json.exception.out_of_range.403]"
  | .id => bytes "RequestId must be integer or string"

end Malformed

namespace Rejection

/-- The text of a cause. -/
def message : Rejection → Bytes
  | .empty => bytes "Empty input"
  | .notJson => bytes "invalid JSON"
  | .notObject => bytes "Message must be a JSON object"
  | .noVersion => bytes "Missing 'jsonrpc' field"
  | .otherVersion => bytes "Invalid jsonrpc version, expected '2.0'"
  | .nullRequestId => bytes "Request ID must not be null"
  | .nullResponseId => bytes "Response ID must not be null"
  | .notOneOutcome => bytes "Response must carry exactly one of 'result' or 'error'"
  | .unclassified => bytes "Cannot determine message type: missing both 'id' and 'method'"
  | .malformed cause => bytes "Malformed message: " ++ cause.message

end Rejection

namespace Message

/-- The version member is there and names the version of this protocol. -/
def checkVersion (j : Json) : Except Rejection Unit :=
  match j.member? Key.version with
  | none => .error .noVersion
  | some (.string s) => if s = protocolVersion then .ok () else .error .otherVersion
  | some _ => .error .otherVersion

/-- Reads an object as a message. What it is depends on which of id and method it has. -/
def ofJson (j : Json) : Except Rejection Message := do
  checkVersion j
  match j.member? Key.id, j.member? Key.method with
  | some id, some _ =>
    if id.isNull then .error .nullRequestId
    else (Request.ofJson j).mapError .malformed |>.map .request
  | none, some _ => (Notification.ofJson j).mapError .malformed |>.map .notification
  | some id, none =>
    if id.isNull then .error .nullResponseId
    else if (j.member? Key.result).isSome = (j.member? Key.error).isSome then .error .notOneOutcome
    else (Response.ofJson j).mapError .malformed |>.map .response
  | none, none => .error .unclassified

/-- The value of a body that is one object or one array. -/
def readContainer? (raw : Bytes) : Option Json :=
  match Json.Tree.read? raw with
  | some tree => if tree.isContainer then tree.value? else none
  | none => none

/-- Reads a body. -/
def parse (raw : Bytes) : Except Rejection Message :=
  if raw.isEmpty then .error .empty
  else
    match readContainer? raw with
    | none => .error .notJson
    | some j => if j.isObject then ofJson j else .error .notObject

/-- Reads a body on a stack; nothing comes back if the stack overflows. -/
def parseOn? (r : Json.Reader) (raw : Bytes) : Option (Except Rejection Message) :=
  if r.overflows raw then none else some (parse raw)

/-- The body of a message; `none` if a string in it is not valid UTF-8. -/
def body? (m : Message) : Option Bytes := m.toJson.text?

end Message

end LanguageClient
