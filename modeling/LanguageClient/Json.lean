import LanguageClient.Binary64
import LanguageClient.Bytes

/-!
JSON values. Numbers without fraction and exponent stay exact over the range of the signed and the
unsigned 64-bit words, all others are binary64. The members of an object are kept in the order of
their keys' bytes, each key once; `insertMember` keeps them so and the last value of a key wins.

`eqv` is equality of values. Two integers are equal if they have the same 64-bit word, an integer
equals a double if the nearest double to it does, and two doubles if they are the same number.
-/

namespace LanguageClient

/-- An integer that a signed or an unsigned 64-bit word can hold: from -2^63 to 2^64 - 1. -/
structure Json.Integer where
  toInt : Int
  least : -9223372036854775808 ≤ toInt
  below : toInt < 18446744073709551616
  deriving DecidableEq

inductive Json where
  | null
  | bool (b : Bool)
  | integer (n : Json.Integer)
  | double (d : Binary64)
  | string (s : Bytes)
  | array (items : List Json)
  | object (members : List (Bytes × Json))
  deriving Inhabited

namespace Json

namespace Integer

/-- The integer itself, if it is in range. -/
def ofInt? (n : Int) : Option Integer :=
  if h : -9223372036854775808 ≤ n ∧ n < 18446744073709551616 then some ⟨n, h.1, h.2⟩
  else none

def ofInt32 (n : Int32) : Integer :=
  ⟨n.toInt, by have := n.le_toInt; omega, by have := n.toInt_lt; omega⟩

def ofInt64 (n : Int64) : Integer :=
  ⟨n.toInt, n.le_toInt, by have := n.toInt_lt; omega⟩

/-- The 64-bit word of the integer, read as a signed one. -/
def word (n : Integer) : Int64 := Int64.ofInt n.toInt

end Integer

/-- Sets the value of a key. -/
def insertMember {α : Type} (key : Bytes) (value : α) : List (Bytes × α) → List (Bytes × α)
  | [] => [(key, value)]
  | (k, v) :: rest =>
    if key < k then (key, value) :: (k, v) :: rest
    else if key = k then (key, value) :: rest
    else (k, v) :: insertMember key value rest

/-- The members of a list, in order of their keys, the last of each key. -/
def sortMembers {α : Type} (members : List (Bytes × α)) : List (Bytes × α) :=
  members.foldl (fun sorted m => insertMember m.1 m.2 sorted) []

/-- The object with the given members. -/
def ofMembers (members : List (Bytes × Json)) : Json := .object (sortMembers members)

/-- The object without members. -/
def emptyObject : Json := .object []

mutual

/-- Equality of values. It compares numbers across their kinds. -/
def eqv : Json → Json → Bool
  | .null, .null => true
  | .bool a, .bool b => a == b
  | .integer a, .integer b => a.word == b.word
  | .integer a, .double b => b.numEqInt a.toInt
  | .double a, .integer b => a.numEqInt b.toInt
  | .double a, .double b => a.numEq b
  | .string a, .string b => a == b
  | .array a, .array b => eqvItems a b
  | .object a, .object b => eqvMembers a b
  | _, _ => false

def eqvItems : List Json → List Json → Bool
  | [], [] => true
  | a :: as, b :: bs => eqv a b && eqvItems as bs
  | _, _ => false

def eqvMembers : List (Bytes × Json) → List (Bytes × Json) → Bool
  | [], [] => true
  | (k, a) :: as, (l, b) :: bs => k == l && eqv a b && eqvMembers as bs
  | _, _ => false

end

instance : BEq Json := ⟨eqv⟩

/-- Why a value cannot be read as what was asked for. -/
inductive AccessError where
  /-- It is of another kind. -/
  | wrongKind
  /-- A member was asked of a value that is not an object. -/
  | notObject
  /-- The object has no such member. -/
  | missingMember
  deriving DecidableEq, Repr

/-- The value of a member, if there is one; a value other than an object has none. -/
def member? (key : Bytes) : Json → Option Json
  | .object members => members.lookup key
  | _ => none

/-- The value of a member that has to be there. -/
def member (key : Bytes) : Json → Except AccessError Json
  | .object members =>
    match members.lookup key with
    | some value => .ok value
    | none => .error .missingMember
  | _ => .error .notObject

/-- Reads the value of a member that has to be there. -/
def field {α : Type} (key : Bytes) (read : Json → Except AccessError α) (j : Json) :
    Except AccessError α :=
  (j.member key).bind read

def isNull : Json → Bool
  | .null => true
  | _ => false

def isObject : Json → Bool
  | .object _ => true
  | _ => false

def asString : Json → Except AccessError Bytes
  | .string s => .ok s
  | _ => .error .wrongKind

def asArray : Json → Except AccessError (List Json)
  | .array items => .ok items
  | _ => .error .wrongKind

/-- A number or a boolean as a 32-bit word: integers are taken modulo 2^32, doubles lose their
fraction, and true is one. A double that is too large for a word may become any. -/
def asInt32 : Json → Except AccessError Int32
  | .integer n => .ok (Int32.ofInt n.toInt)
  | .double d => .ok d.toInt32
  | .bool b => .ok (if b then 1 else 0)
  | _ => .error .wrongKind

def ofInt32 (n : Int32) : Json := .integer (.ofInt32 n)

end Json

end LanguageClient
