import LanguageClient.Json.Numeral
import LanguageClient.Json.Quoted

/-!
The tokens of a JSON text. Blanks between tokens leave no trace, and a string token carries its
text without escapes, so the tokens hold what two spellings of the same text have in common.
-/

namespace LanguageClient.Json

inductive Token where
  | openObject
  | closeObject
  | openArray
  | closeArray
  | comma
  | colon
  | null
  | bool (b : Bool)
  | number (n : Numeral)
  | string (s : Bytes)
  deriving DecidableEq

namespace Token

/-- White space between tokens. -/
def isBlank (b : UInt8) : Bool :=
  b == Ascii.space || b == Ascii.tab || b == Ascii.lf || b == Ascii.cr

/-- The mark that a byte is by itself. -/
def mark? (b : UInt8) : Option Token :=
  if b = Ascii.openBrace then some .openObject
  else if b = Ascii.closeBrace then some .closeObject
  else if b = Ascii.openBracket then some .openArray
  else if b = Ascii.closeBracket then some .closeArray
  else if b = Ascii.comma then some .comma
  else if b = Ascii.colon then some .colon
  else none

/-- A byte that goes on with a word. -/
def isWordPart (b : UInt8) : Bool := !isBlank b && (mark? b).isNone && b != Ascii.quote

/-- The words that are read to their end. -/
def words : List (Bytes × Token) := [(bytes "true", .bool true), (bytes "false", .bool false)]

/-- The word at the front of a text that begins with `b`, and what follows it. A word that begins
with `n` is taken for null, whatever else is in it. -/
def word? (b : UInt8) (rest : Bytes) : Option (Token × Bytes) :=
  if b = Ascii.byte 'n' then some (.null, rest.dropWhile isWordPart)
  else words.findSome? fun (word, token) => (Bytes.after? word (b :: rest)).map (token, ·)

/-- The token at the front of a text that begins with `b`, and what follows it. -/
def first? (b : UInt8) (rest : Bytes) : Option (Token × Bytes) :=
  match mark? b with
  | some token => some (token, rest)
  | none =>
    if b = Ascii.quote then (Quoted.read? rest).map fun (s, rest) => (.string s, rest)
    else if Numeral.isPart b then
      (Numeral.read? (b :: rest.takeWhile Numeral.isPart)).map fun n =>
        (.number n, rest.dropWhile Numeral.isPart)
    else word? b rest

theorem words_ne_nil : ∀ w ∈ words, w.1 ≠ [] := by decide

theorem length_lt_of_word? {b : UInt8} {rest : Bytes} {found : Token × Bytes}
    (h : word? b rest = some found) : found.2.length < (b :: rest).length := by
  unfold word? at h
  split at h
  · simp only [Option.some.injEq] at h
    have := (List.dropWhile_sublist (l := rest) isWordPart).length_le
    simp only [← h, List.length_cons]
    omega
  · obtain ⟨w, hw, h⟩ := List.exists_of_findSome?_eq_some h
    obtain ⟨rest', hr, rfl⟩ := Option.map_eq_some_iff.mp h
    have hne := List.length_pos_iff.mpr (words_ne_nil w hw)
    rw [Bytes.after?_eq_some_iff.mp hr, List.length_append]
    exact Nat.lt_add_of_pos_left hne

theorem length_lt_of_first? {b : UInt8} {rest : Bytes} {found : Token × Bytes}
    (h : first? b rest = some found) : found.2.length < (b :: rest).length := by
  unfold first? at h
  split at h
  · simp only [Option.some.injEq] at h
    simp [← h]
  split at h
  · obtain ⟨_, hr, rfl⟩ := Option.map_eq_some_iff.mp h
    have := Quoted.length_lt_of_read? hr
    simp only [List.length_cons]
    omega
  split at h
  · obtain ⟨_, _, rfl⟩ := Option.map_eq_some_iff.mp h
    have := (List.dropWhile_sublist (l := rest) Numeral.isPart).length_le
    simp only [List.length_cons]
    omega
  · exact length_lt_of_word? h

/-- The tokens of a text, after those in `before`. -/
def lexAfter? (before : List Token) (s : Bytes) : Option (List Token) :=
  match _h : s.dropWhile isBlank with
  | [] => some before.reverse
  | b :: rest =>
    match _hf : first? b rest with
    | none => none
    | some (token, rest') => lexAfter? (token :: before) rest'
termination_by s.length
decreasing_by
  have := length_lt_of_first? _hf
  have := (List.dropWhile_sublist (l := s) isBlank).length_le
  simp_all only [List.length_cons]
  omega

/-- The tokens of a text; `none` if something in it is no token. -/
def lex? (s : Bytes) : Option (List Token) := lexAfter? [] s

end Token

end LanguageClient.Json
