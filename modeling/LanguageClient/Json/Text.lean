import LanguageClient.Json
import LanguageClient.Json.Quoted
import LanguageClient.Binary64.Decimal

/-!
The text of a JSON value: no blanks, members in the order of their keys. A text can only be
written if every string in the value, keys included, is valid UTF-8 (`isWritable`).
-/

namespace LanguageClient.Json

/-- Texts with commas between them. -/
def withCommas : List Bytes → Bytes
  | [] => []
  | first :: rest => first ++ rest.flatMap (Ascii.comma :: ·)

mutual

/-- The text of a value. -/
def text : Json → Bytes
  | .null => bytes "null"
  | .bool true => bytes "true"
  | .bool false => bytes "false"
  | .integer n => Digits.ofInt n.toInt
  | .double d => d.text
  | .string s => Quoted.write s
  | .array items => Ascii.openBracket :: (withCommas (itemTexts items) ++ [Ascii.closeBracket])
  | .object members => Ascii.openBrace :: (withCommas (memberTexts members) ++ [Ascii.closeBrace])

def itemTexts : List Json → List Bytes
  | [] => []
  | item :: rest => text item :: itemTexts rest

def memberTexts : List (Bytes × Json) → List Bytes
  | [] => []
  | (key, value) :: rest => (Quoted.write key ++ Ascii.colon :: text value) :: memberTexts rest

end

mutual

/-- Every string in the value is valid UTF-8. -/
def isWritable : Json → Bool
  | .string s => Utf8.valid s
  | .array items => areWritable items
  | .object members => areWritableMembers members
  | .null | .bool _ | .integer _ | .double _ => true

def areWritable : List Json → Bool
  | [] => true
  | item :: rest => isWritable item && areWritable rest

def areWritableMembers : List (Bytes × Json) → Bool
  | [] => true
  | (key, value) :: rest => Utf8.valid key && isWritable value && areWritableMembers rest

end

/-- The text of a value whose strings are valid UTF-8. -/
def text? (j : Json) : Option Bytes := if j.isWritable then some j.text else none

end LanguageClient.Json
