import LanguageClient.Json

/-!
The typed parameters of the requests and notifications about documents, and the JSON value of
each.

Every type has `toJson` and `ofJson`. `ofJson` reads the members in the order of the fields,
ignores members it does not know, and takes numbers as `Json.asInt32` does.
-/

namespace LanguageClient

/-! ### Keys of the members -/

namespace Key

def line : Bytes := bytes "line"
def character : Bytes := bytes "character"
def uri : Bytes := bytes "uri"
def documentVersion : Bytes := bytes "version"
def languageId : Bytes := bytes "languageId"
def text : Bytes := bytes "text"
def processId : Bytes := bytes "processId"
def rootUri : Bytes := bytes "rootUri"
def capabilities : Bytes := bytes "capabilities"
def textDocument : Bytes := bytes "textDocument"
def contentChanges : Bytes := bytes "contentChanges"
def position : Bytes := bytes "position"

end Key

/-- A place in a document: line and character, both from zero. -/
structure Position where
  line : Int32
  character : Int32
  deriving DecidableEq

/-- A document by its address. -/
structure DocumentId where
  uri : Bytes
  deriving DecidableEq

/-- One version of a document. -/
structure VersionedDocumentId where
  uri : Bytes
  version : Int32
  deriving DecidableEq

/-- A document with its text. -/
structure DocumentItem where
  uri : Bytes
  languageId : Bytes
  version : Int32
  text : Bytes
  deriving DecidableEq

/-- A change that replaces the whole text. -/
structure ContentChange where
  text : Bytes
  deriving DecidableEq

/-- What a client says about itself at the start. The id of its process is always written as null.
-/
structure InitializeParams where
  rootUri : Option Bytes := none
  capabilities : Json := .emptyObject

structure OpenParams where
  document : DocumentItem
  deriving DecidableEq

structure ChangeParams where
  document : VersionedDocumentId
  changes : List ContentChange
  deriving DecidableEq

/-- A place in a document that is asked about. -/
structure PositionParams where
  document : DocumentId
  position : Position
  deriving DecidableEq

namespace Position

def toJson (p : Position) : Json :=
  .ofMembers [(Key.line, .ofInt32 p.line), (Key.character, .ofInt32 p.character)]

def ofJson (j : Json) : Except Json.AccessError Position := do
  let line ← j.field Key.line Json.asInt32
  let character ← j.field Key.character Json.asInt32
  return { line, character }

end Position

namespace DocumentId

def toJson (d : DocumentId) : Json := .ofMembers [(Key.uri, .string d.uri)]

def ofJson (j : Json) : Except Json.AccessError DocumentId := do
  let uri ← j.field Key.uri Json.asString
  return { uri }

end DocumentId

namespace VersionedDocumentId

def toJson (d : VersionedDocumentId) : Json :=
  .ofMembers [(Key.uri, .string d.uri), (Key.documentVersion, .ofInt32 d.version)]

def ofJson (j : Json) : Except Json.AccessError VersionedDocumentId := do
  let uri ← j.field Key.uri Json.asString
  let version ← j.field Key.documentVersion Json.asInt32
  return { uri, version }

end VersionedDocumentId

namespace DocumentItem

def toJson (d : DocumentItem) : Json :=
  .ofMembers [(Key.uri, .string d.uri), (Key.languageId, .string d.languageId),
    (Key.documentVersion, .ofInt32 d.version), (Key.text, .string d.text)]

def ofJson (j : Json) : Except Json.AccessError DocumentItem := do
  let uri ← j.field Key.uri Json.asString
  let languageId ← j.field Key.languageId Json.asString
  let version ← j.field Key.documentVersion Json.asInt32
  let text ← j.field Key.text Json.asString
  return { uri, languageId, version, text }

end DocumentItem

namespace ContentChange

def toJson (c : ContentChange) : Json := .ofMembers [(Key.text, .string c.text)]

def ofJson (j : Json) : Except Json.AccessError ContentChange := do
  let text ← j.field Key.text Json.asString
  return { text }

end ContentChange

namespace InitializeParams

def toJson (p : InitializeParams) : Json :=
  .ofMembers [(Key.processId, .null), (Key.rootUri, (p.rootUri.map Json.string).getD .null),
    (Key.capabilities, p.capabilities)]

/-- A root that is absent or null is none, and absent capabilities are the empty object. -/
def ofJson (j : Json) : Except Json.AccessError InitializeParams := do
  let rootUri ←
    match j.member? Key.rootUri with
    | none | some .null => pure none
    | some root => root.asString.map some
  return { rootUri, capabilities := (j.member? Key.capabilities).getD .emptyObject }

def eqv (a b : InitializeParams) : Bool :=
  a.rootUri == b.rootUri && a.capabilities == b.capabilities

end InitializeParams

namespace OpenParams

def toJson (p : OpenParams) : Json := .ofMembers [(Key.textDocument, p.document.toJson)]

def ofJson (j : Json) : Except Json.AccessError OpenParams := do
  let document ← j.field Key.textDocument DocumentItem.ofJson
  return { document }

end OpenParams

namespace ChangeParams

def toJson (p : ChangeParams) : Json :=
  .ofMembers [(Key.textDocument, p.document.toJson),
    (Key.contentChanges, .array (p.changes.map ContentChange.toJson))]

def ofJson (j : Json) : Except Json.AccessError ChangeParams := do
  let document ← j.field Key.textDocument VersionedDocumentId.ofJson
  let items ← j.field Key.contentChanges Json.asArray
  let changes ← items.mapM ContentChange.ofJson
  return { document, changes }

end ChangeParams

namespace PositionParams

def toJson (p : PositionParams) : Json :=
  .ofMembers [(Key.textDocument, p.document.toJson), (Key.position, p.position.toJson)]

def ofJson (j : Json) : Except Json.AccessError PositionParams := do
  let document ← j.field Key.textDocument DocumentId.ofJson
  let position ← j.field Key.position Position.ofJson
  return { document, position }

end PositionParams

end LanguageClient
