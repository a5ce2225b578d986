import LanguageClient.Digits

/-!
Frames: a header block that announces a length, then a body of that many bytes.

A header block is a row of lines up to the first empty one. Of its length lines the last usable
one counts; a value that is unusable is remembered for the error of a block that has no usable
one.
-/

namespace LanguageClient.Frame

/-- How the line that announces the length begins. -/
def lengthField : Bytes := bytes "Content-Length:"

/-- A body with its header block. -/
def encode (body : Bytes) : Bytes :=
  lengthField ++ Ascii.space :: Digits.ofNat body.length ++ bytes "\r\n\r\n" ++ body

/-- A length that can be announced: at least one, and a 64-bit word can hold it. -/
structure Length where
  size : Nat
  pos : 0 < size
  below : size < UInt64.size
  deriving DecidableEq

/-- Reads the value of a length line: digits only, leading zeros allowed. -/
def Length.read? (value : Bytes) : Option Length :=
  match Digits.toNat? value with
  | none => none
  | some n => if h : 0 < n ∧ n < UInt64.size then some ⟨n, h.1, h.2⟩ else none

/-- Why a header block announces no body. -/
inductive HeaderError where
  | noLength
  /-- No value was usable; the last one was this. -/
  | invalidLength (value : Bytes)
  deriving DecidableEq, Repr

def HeaderError.message : HeaderError → Bytes
  | .noLength => bytes "Header block without Content-Length"
  | .invalidLength value => bytes "Invalid Content-Length value " ++ value.inQuotes

/-- What the lines of a header block have said so far. -/
structure Header where
  /-- The last usable length. -/
  length : Option Length := none
  /-- The last unusable value; empty also if there was none. -/
  invalid : Bytes := []
  deriving DecidableEq

namespace Header

/-- One line more, without its end. Also returns the value that was ignored, if one was. -/
def line (h : Header) (line : Bytes) : Header × Option Bytes :=
  match Bytes.after? lengthField line with
  | none => (h, none)
  | some value =>
    let value := Bytes.trim value
    match Length.read? value with
    | some length => ({ h with length := some length }, none)
    | none => ({ h with invalid := value }, some value)

/-- The empty line: what the block has announced. -/
def close (h : Header) : Except HeaderError Length :=
  match h.length with
  | some length => .ok length
  | none => .error (if h.invalid.isEmpty then .noLength else .invalidLength h.invalid)

end Header

/-- Splits off the line at the front, without its line feed. -/
def splitLine? (s : Bytes) : Option (Bytes × Bytes) :=
  match s.dropWhile (· != Ascii.lf) with
  | [] => none
  | _ :: rest => some (s.takeWhile (· != Ascii.lf), rest)

theorem splitLine?_append {line rest : Bytes} (h : Ascii.lf ∉ line) :
    splitLine? (line ++ Ascii.lf :: rest) = some (line, rest) := by
  have hall : ∀ b ∈ line, (b != Ascii.lf) = true := by
    intro b hb
    simpa using ne_of_mem_of_not_mem hb h
  unfold splitLine?
  rw [List.dropWhile_append_of_pos hall, List.takeWhile_append_of_pos hall]
  simp

theorem splitLine?_eq_none_iff {s : Bytes} : splitLine? s = none ↔ Ascii.lf ∉ s := by
  constructor
  · intro h hm
    obtain ⟨line, rest, rfl, hl⟩ := List.eq_append_cons_of_mem hm
    simp [splitLine?_append hl] at h
  · intro h
    have hall : ∀ b ∈ s, (b != Ascii.lf) = true := by
      intro b hb
      simpa using ne_of_mem_of_not_mem hb h
    have hd : (s ++ []).dropWhile (· != Ascii.lf) = [] := List.dropWhile_append_of_pos hall
    rw [List.append_nil] at hd
    simp [splitLine?, hd]

theorem splitLine?_eq_some_iff {s line rest : Bytes} :
    splitLine? s = some (line, rest) ↔ s = line ++ Ascii.lf :: rest ∧ Ascii.lf ∉ line := by
  constructor
  · intro h
    have hm : Ascii.lf ∈ s := by
      have := mt (splitLine?_eq_none_iff (s := s)).mpr
      simpa [h] using this
    obtain ⟨l, r, rfl, hl⟩ := List.eq_append_cons_of_mem hm
    rw [splitLine?_append hl] at h
    cases h
    exact ⟨rfl, hl⟩
  · rintro ⟨rfl, hl⟩
    exact splitLine?_append hl

theorem length_of_splitLine? {s : Bytes} {found : Bytes × Bytes} (h : splitLine? s = some found) :
    s.length = found.1.length + 1 + found.2.length := by
  obtain ⟨rfl, -⟩ := splitLine?_eq_some_iff.mp h
  simp only [List.length_append, List.length_cons]
  omega

/-- A line without the carriage return before its line feed. -/
def withoutCr (line : Bytes) : Bytes :=
  if line.getLast? = some Ascii.cr then line.dropLast else line

end LanguageClient.Frame
