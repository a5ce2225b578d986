import LanguageClient.Json
import LanguageClient.Json.Token

/-!
The syntax tree of a JSON text. Objects keep their members as they were written, repeated keys
included, and numbers keep their literals.

`ofTokens?` builds the tree of a whole text with a stack of the containers that are still open,
one token at a time, and `value?` gives the value that a tree denotes.
-/

namespace LanguageClient.Json

inductive Tree where
  | null
  | bool (b : Bool)
  | number (n : Numeral)
  | string (s : Bytes)
  | array (items : List Tree)
  | object (members : List (Bytes × Tree))
  deriving Inhabited

namespace Tree

/-- A container that is still open, with its finished contents in reverse. -/
inductive Level where
  | array (items : List Tree)
  /-- An object whose value for `key` is being read. -/
  | object (members : List (Bytes × Tree)) (key : Bytes)

/-- What has been read, by what may follow. -/
inductive Partial where
  /-- A value has to follow. -/
  | expectValue (stack : List Level)
  /-- An array has just been opened. -/
  | firstItem (stack : List Level)
  /-- An object has just been opened. -/
  | firstKey (stack : List Level)
  /-- A key has to follow. -/
  | expectKey (members : List (Bytes × Tree)) (stack : List Level)
  /-- A colon has to follow. -/
  | expectColon (members : List (Bytes × Tree)) (key : Bytes) (stack : List Level)
  /-- A value is complete. -/
  | complete (tree : Tree) (stack : List Level)

namespace Partial

/-- The first token of a value. -/
def begin? (stack : List Level) : Token → Option Partial
  | .openArray => some (.firstItem stack)
  | .openObject => some (.firstKey stack)
  | .null => some (.complete .null stack)
  | .bool b => some (.complete (.bool b) stack)
  | .number n => some (.complete (.number n) stack)
  | .string s => some (.complete (.string s) stack)
  | .closeArray | .closeObject | .comma | .colon => none

/-- What follows a complete value. -/
def follow? (tree : Tree) : List Level → Token → Option Partial
  | .array items :: stack, .comma => some (.expectValue (.array (tree :: items) :: stack))
  | .array items :: stack, .closeArray =>
    some (.complete (.array (tree :: items).reverse) stack)
  | .object members key :: stack, .comma => some (.expectKey ((key, tree) :: members) stack)
  | .object members key :: stack, .closeObject =>
    some (.complete (.object ((key, tree) :: members).reverse) stack)
  | _, _ => none

/-- One token more; `none` if it cannot stand here. -/
def step? : Partial → Token → Option Partial
  | .expectValue stack, token => begin? stack token
  | .firstItem stack, .closeArray => some (.complete (.array []) stack)
  | .firstItem stack, token => begin? (.array [] :: stack) token
  | .firstKey stack, .closeObject => some (.complete (.object []) stack)
  | .firstKey stack, .string key => some (.expectColon [] key stack)
  | .expectKey members stack, .string key => some (.expectColon members key stack)
  | .expectColon members key stack, .colon => some (.expectValue (.object members key :: stack))
  | .complete tree stack, token => follow? tree stack token
  | .firstKey _, _ | .expectKey _ _, _ | .expectColon _ _ _, _ => none

/-- The tree, if nothing is missing. -/
def tree? : Partial → Option Tree
  | .complete tree [] => some tree
  | _ => none

end Partial

/-- The tree of a whole text. -/
def ofTokens? (tokens : List Token) : Option Tree :=
  (tokens.foldlM Partial.step? (.expectValue [])).bind Partial.tree?

/-- An array or an object. -/
def isContainer : Tree → Bool
  | .array _ | .object _ => true
  | _ => false

/-- The number that a literal denotes: an integer while a 64-bit word can hold it, otherwise the
nearest double, if that is finite. -/
def number? : Numeral → Option Json
  | .integer n =>
    match Integer.ofInt? n with
    | some n => some (.integer n)
    | none => (Decimal.toBinary64? (n < 0) ⟨n.natAbs, 0⟩).map .double
  | .decimal negative magnitude => (magnitude.toBinary64? negative).map .double

mutual

/-- The value of a tree; `none` if a number in it is too large. Of a repeated key the last value
counts. -/
def value? : Tree → Option Json
  | .null => some .null
  | .bool b => some (.bool b)
  | .number n => number? n
  | .string s => some (.string s)
  | .array items => (values? items).map .array
  | .object members => (memberValues? members).map Json.ofMembers

def values? : List Tree → Option (List Json)
  | [] => some []
  | tree :: rest =>
    match value? tree, values? rest with
    | some value, some values => some (value :: values)
    | _, _ => none

def memberValues? : List (Bytes × Tree) → Option (List (Bytes × Json))
  | [] => some []
  | (key, tree) :: rest =>
    match value? tree, memberValues? rest with
    | some value, some members => some ((key, value) :: members)
    | _, _ => none

end

/-- Reads the tree of a text that is valid UTF-8. -/
def read? (s : Bytes) : Option Tree :=
  if Utf8.valid s then (Token.lex? s).bind ofTokens? else none

end Tree

/-- Reads the value of a whole text. -/
def read? (s : Bytes) : Option Json := (Tree.read? s).bind Tree.value?

end LanguageClient.Json
