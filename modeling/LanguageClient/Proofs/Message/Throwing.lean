import LanguageClient.Failure

/-!
# What is thrown while a body is read

The JSON reader and every access to a JSON value may throw an error of its own. Here a body is read
with each access at its own risk: the tests that guard some of them, the block in which others are
caught, and what its handlers throw instead. What leaves is a rejection and nothing else, whatever the
reader makes of the body (`body_eq`).
-/

namespace LanguageClient

/-- What may be thrown while the output of a server is read. -/
inductive Thrown where
  /-- The failure that a read loop expects. -/
  | frame (f : FrameFault)
  /-- The JSON reader has given up. -/
  | reader
  /-- A JSON value is not what it was taken for. -/
  | access (e : Json.AccessError)
  | invalidArgument
  /-- A position lies behind the end of a text. -/
  | outOfRange
  deriving DecidableEq

namespace Thrown

/-- A body is no message. -/
def rejected (e : Rejection) : Thrown := .frame (.body e)

/-- What is thrown for a malformed member. -/
def malformed : Malformed → Thrown
  | .member e => .access e
  | .id => .invalidArgument

end Thrown

namespace Reading

variable {α : Type} {j : Json} {key : Bytes}

/-! ### Accesses -/

def contains (key : Bytes) (j : Json) : Bool := (j.member? key).isSome

def member (key : Bytes) (j : Json) : Except Thrown Json := (j.member key).mapError .access

def string (j : Json) : Except Thrown Bytes := j.asString.mapError .access

def int32 (j : Json) : Except Thrown Int32 := j.asInt32.mapError .access

def isString : Json → Bool
  | .string _ => true
  | _ => false

/-- A member that is read if it is there. -/
def optional (key : Bytes) (j : Json) : Except Thrown (Option Json) := do
  if contains key j then
    let value ← member key j
    return some value
  else return none

theorem member_of_member? {value : Json} (h : j.member? key = some value) :
    member key j = .ok value := by
  cases j with
  | object members =>
    have hlookup : members.lookup key = some value := h
    rw [member, Json.member, hlookup]
    rfl
  | null | bool | integer | double | string | array => cases h

theorem optional_eq (key : Bytes) (j : Json) : optional key j = .ok (j.member? key) := by
  unfold optional contains
  cases h : j.member? key with
  | none => rfl
  | some value =>
    rw [member_of_member? h]
    rfl

theorem member_bind (read : Json → Except Json.AccessError α) (key : Bytes) (j : Json) :
    (member key j >>= fun v => (read v).mapError .access) =
      (readMember key read j).mapError .malformed := by
  unfold member readMember Json.field
  cases j.member key with
  | error e => rfl
  | ok v =>
    change (read v).mapError Thrown.access =
      ((read v).mapError Malformed.member).mapError Thrown.malformed
    cases read v <;> rfl

/-! ### The parts of a message -/

def id : Json → Except Thrown Id
  | .integer n => .ok (.int (Int64.ofInt n.toInt))
  | .string s => .ok (.string s)
  | _ => .error .invalidArgument

def errorObject (j : Json) : Except Thrown ErrorObject := do
  let code ← member Key.code j >>= int32
  let message ← member Key.message j >>= string
  let data ← optional Key.data j
  return { code, message, data }

def request (j : Json) : Except Thrown Request := do
  let id ← member Key.id j >>= id
  let method ← member Key.method j >>= string
  let params ← optional Key.params j
  return { id, method, params }

def response (j : Json) : Except Thrown Response := do
  let id ← member Key.id j >>= id
  let result ← optional Key.result j
  if contains Key.error j then
    let error ← member Key.error j >>= errorObject
    return { id, result, error := some error }
  else return { id, result, error := none }

def notification (j : Json) : Except Thrown Notification := do
  let method ← member Key.method j >>= string
  let params ← optional Key.params j
  return { method, params }

theorem id_eq (j : Json) : id j = (Id.ofJson j).mapError .malformed := by cases j <;> rfl

theorem member_id (j : Json) :
    (member Key.id j >>= id) =
      (((j.member Key.id).mapError Malformed.member).bind Id.ofJson).mapError .malformed := by
  unfold member
  cases j.member Key.id with
  | error e => rfl
  | ok v => exact id_eq v

theorem errorObject_eq (j : Json) :
    errorObject j = (ErrorObject.ofJson j).mapError .malformed := by
  unfold errorObject ErrorObject.ofJson
  rw [show (member Key.code j >>= int32) = _ from member_bind Json.asInt32 Key.code j,
    show (member Key.message j >>= string) = _ from member_bind Json.asString Key.message j,
    optional_eq]
  cases readMember Key.code Json.asInt32 j with
  | error e => rfl
  | ok code => cases readMember Key.message Json.asString j <;> rfl

theorem request_eq (j : Json) : request j = (Request.ofJson j).mapError .malformed := by
  unfold request Request.ofJson
  rw [member_id, show (member Key.method j >>= string) = _ from
    member_bind Json.asString Key.method j, optional_eq]
  cases ((j.member Key.id).mapError Malformed.member).bind Id.ofJson with
  | error e => rfl
  | ok id => cases readMember Key.method Json.asString j <;> rfl

theorem notification_eq (j : Json) :
    notification j = (Notification.ofJson j).mapError .malformed := by
  unfold notification Notification.ofJson
  rw [show (member Key.method j >>= string) = _ from member_bind Json.asString Key.method j,
    optional_eq]
  cases readMember Key.method Json.asString j <;> rfl

theorem response_eq (j : Json) : response j = (Response.ofJson j).mapError .malformed := by
  unfold response Response.ofJson contains
  rw [member_id, optional_eq]
  cases ((j.member Key.id).mapError Malformed.member).bind Id.ofJson with
  | error e => rfl
  | ok id =>
    cases h : j.member? Key.error with
    | none => rfl
    | some error =>
      have herror : (member Key.error j >>= errorObject) =
          (ErrorObject.ofJson error).mapError .malformed := by
        rw [member_of_member? h]
        exact errorObject_eq error
      simp only [Option.isSome_some, if_true, herror, Option.mapM_some]
      cases ErrorObject.ofJson error <;> rfl

/-! ### A message -/

def version (j : Json) : Except Thrown Unit := do
  if !contains Key.version j then throw (.rejected .noVersion)
  let named ← member Key.version j
  if !isString named then throw (.rejected .otherVersion)
  let text ← string named
  if text ≠ protocolVersion then throw (.rejected .otherVersion)

/-- The block whose errors are caught. It finds nothing if there is neither an id nor a method. -/
def classified (j : Json) : Except Thrown (Option Message) := do
  if contains Key.method j && contains Key.id j then
    let id ← member Key.id j
    if id.isNull then throw (.rejected .nullRequestId)
    let r ← request j
    return some (.request r)
  else if contains Key.method j then
    let n ← notification j
    return some (.notification n)
  else if contains Key.id j then
    let id ← member Key.id j
    if id.isNull then throw (.rejected .nullResponseId)
    if contains Key.result j = contains Key.error j then throw (.rejected .notOneOutcome)
    let r ← response j
    return some (.response r)
  else return none

/-- The handlers of that block. -/
def caught : Thrown → Except Thrown α
  | .access e => throw (.rejected (.malformed (.member e)))
  | .invalidArgument => throw (.rejected (.malformed .id))
  | e => throw e

def object (j : Json) : Except Thrown Message := do
  version j
  let found ← tryCatch (classified j) caught
  match found with
  | some m => return m
  | none => throw (.rejected .unclassified)

/-- The value of a body, if the reader finds one. -/
def read (reader : Bytes → Option Json) (raw : Bytes) : Except Thrown Json :=
  match reader raw with
  | some j => return j
  | none => throw .reader

/-- A whole body. -/
def body (reader : Bytes → Option Json) (raw : Bytes) : Except Thrown Message := do
  if raw.isEmpty then throw (.rejected .empty)
  let j ← tryCatch (read reader raw) fun
    | .reader => throw (.rejected .notJson)
    | e => throw e
  if !j.isObject then throw (.rejected .notObject)
  object j

theorem version_eq (j : Json) : version j = (Message.checkVersion j).mapError .rejected := by
  unfold version Message.checkVersion contains
  cases h : j.member? Key.version with
  | none => rfl
  | some named =>
    rw [member_of_member? h]
    cases named with
    | string s =>
      by_cases hs : s = protocolVersion
      · simp only [hs, if_true]
        rfl
      · simp only [if_neg hs]
        exact (if_pos hs : (if s ≠ protocolVersion then _ else _) = _)
    | null | bool | integer | double | array | object => rfl

/-- What is thrown for a malformed member is caught, and thrown again as a rejection. -/
theorem caught_malformed {β : Type} (x : Except Malformed β) (f : β → Message) :
    (do
      let found ← tryCatch (x.mapError Thrown.malformed >>= fun v => pure (some (f v))) caught
      match found with
      | some m => pure m
      | none => throw (.rejected .unclassified)) =
      ((x.mapError Rejection.malformed).map f).mapError Thrown.rejected := by
  cases x with
  | error e => cases e <;> rfl
  | ok v => rfl

theorem ok_bind {β ε : Type} (x : β) (f : β → Except ε α) : (Except.ok x >>= f) = f x := rfl

theorem object_eq (j : Json) : object j = (Message.ofJson j).mapError .rejected := by
  unfold object Message.ofJson classified contains
  rw [version_eq, notification_eq, request_eq, response_eq]
  cases Message.checkVersion j with
  | error e => rfl
  | ok =>
    cases hmethod : j.member? Key.method with
    | none =>
      cases hid : j.member? Key.id with
      | none => rfl
      | some id =>
        rw [member_of_member? hid]
        cases hnull : id.isNull with
        | true =>
          simp only [ok_bind, hnull, if_true]
          rfl
        | false =>
          by_cases hone : (j.member? Key.result).isSome = (j.member? Key.error).isSome
          · simp only [ok_bind, hnull, hone, if_true]
            rfl
          · simp only [ok_bind, hnull, hone, if_false]
            exact caught_malformed (Response.ofJson j) .response
    | some method =>
      cases hid : j.member? Key.id with
      | none => exact caught_malformed (Notification.ofJson j) .notification
      | some id =>
        rw [member_of_member? hid]
        cases hnull : id.isNull with
        | true =>
          simp only [ok_bind, hnull, if_true]
          rfl
        | false =>
          simp only [ok_bind, hnull]
          exact caught_malformed (Request.ofJson j) .request

/-- `Message.parse` with any reader in the place of `Message.readContainer?`. -/
def parse (reader : Bytes → Option Json) (raw : Bytes) : Except Rejection Message :=
  if raw.isEmpty then .error .empty
  else
    match reader raw with
    | none => .error .notJson
    | some j => if j.isObject then Message.ofJson j else .error .notObject

theorem parse_readContainer? : parse Message.readContainer? = Message.parse := rfl

/-- What leaves is a rejection, the one that `Message.parse` gives. -/
theorem body_eq (reader : Bytes → Option Json) (raw : Bytes) :
    body reader raw = (parse reader raw).mapError .rejected := by
  unfold body read parse
  by_cases hempty : raw.isEmpty = true
  · rw [if_pos hempty, if_pos hempty]
    rfl
  · rw [if_neg hempty, if_neg hempty]
    cases reader raw with
    | none => rfl
    | some j =>
      change (if (!j.isObject) = true then .error (.rejected .notObject) else object j) =
        (if j.isObject = true then Message.ofJson j else .error .notObject).mapError Thrown.rejected
      rw [object_eq]
      cases j.isObject <;> rfl

end Reading

end LanguageClient
