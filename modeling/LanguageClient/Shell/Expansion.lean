import LanguageClient.Shell.Arithmetic
import LanguageClient.Shell.Machine
import LanguageClient.Shell.Pattern

/-!
What words stand for. The pieces of a word become segments, in which parameters, outputs of
commands and expressions have been replaced; segments then become fields, one text, or a pattern.

Only what took the place of an unquoted piece is cut into fields. Which bytes cut is said by the
variable `IFS`: blanks among them count once however many there are, all others each for itself.
-/

namespace LanguageClient.Shell

/-- A part of a word whose pieces have been replaced. -/
inductive Segment where
  /-- A text. One that is `cuttable` is cut into fields. -/
  | text (s : Bytes) (quoted cuttable : Bool)
  /-- The end of a field. -/
  | cut
  deriving DecidableEq

/-! ### Fields -/

/-- The bytes that cut fields if nothing else is said. -/
def defaultCuts : Bytes := bytes " \t\n"

/-- What has come of a row of segments: the finished fields in reverse, the one that is open, and
whether blanks have just ended one. -/
structure Cutting where
  finished : List Bytes := []
  /-- The open field in reverse. -/
  opened : Option Bytes := none
  afterBlank : Bool := false

namespace Cutting

def append (c : Cutting) (s : Bytes) : Cutting :=
  { c with opened := some (s.reverse ++ c.opened.getD []), afterBlank := false }

def close (c : Cutting) : Cutting :=
  match c.opened with
  | some field => { finished := field.reverse :: c.finished }
  | none => { c with afterBlank := false }

/-- One byte of a text that is cut. -/
def step (cuts : Bytes) (c : Cutting) (b : UInt8) : Cutting :=
  if !cuts.contains b then
    { c with opened := some (b :: c.opened.getD []), afterBlank := false }
  else if defaultCuts.contains b then
    match c.opened with
    | some _ => { c.close with afterBlank := true }
    | none => c
  else
    match c.opened with
    | some _ => c.close
    | none =>
      if c.afterBlank then { c with afterBlank := false }
      else { c with finished := [] :: c.finished }

def segment (cuts : Bytes) (c : Cutting) : Segment → Cutting
  | .text s quoted cuttable =>
    if cuttable then s.foldl (step cuts) c
    else if s.isEmpty && !quoted then c
    else c.append s
  | .cut => c.close

end Cutting

/-- The fields of some segments. -/
def fields (cuts : Bytes) (segments : List Segment) : List Bytes :=
  (segments.foldl (Cutting.segment cuts) {}).close.finished.reverse

/-- The text of some segments. -/
def joinedText (segments : List Segment) : Bytes :=
  segments.flatMap fun
    | .text s _ _ => s
    | .cut => [Ascii.space]

/-- The pattern that some segments make. -/
def patternOf (segments : List Segment) : Pattern :=
  let marked := segments.flatMap fun
    | .text s quoted _ => Pattern.mark quoted s
    | .cut => Pattern.mark true [Ascii.space]
  Pattern.ofMarked (marked.length + 1) marked

/-! ### Parameters -/

/-- The bytes that cut fields now. -/
def cutsOf (p : Process) : Bytes := (p.valueOf? (bytes "IFS")).getD defaultCuts

/-- The parameters as one text. -/
def joinedParameters (p : Process) : Bytes :=
  List.intercalate ((cutsOf p).take 1) p.parameters

/-- The value of a parameter. -/
def parameter? (p : Process) (name : Bytes) : Option Bytes :=
  match Digits.toNat? name with
  | some 0 => some p.name
  | some n => p.parameters[n - 1]?
  | none =>
    if name = bytes "@" ∨ name = bytes "*" then some (joinedParameters p)
    else if name = bytes "#" then some (Digits.ofNat p.parameters.length)
    else if name = bytes "?" then some (Digits.ofNat p.status)
    else if name = bytes "$" then some (Digits.ofNat p.shellId)
    else if name = bytes "!" then some ((p.lastJob.map Digits.ofNat).getD [])
    else if name = bytes "-" then some p.options
    else if name = bytes "LINENO" then some (Digits.ofNat p.line)
    else p.valueOf? name

/-- Ends the shell with a line about an error. -/
def failWith {α : Type} (s : Bytes) : Run α := do
  report s
  throw .fails

/-- Gives a variable a value. -/
def assign (name value : Bytes) : Run Unit := do
  let p ← getProcess
  let old := (p.bindings.lookup name).getD { value := none }
  if old.fixed then failWith (name ++ bytes ": is read only")
  let exported := old.exported || p.flag 'a'
  modifyProcess fun p => p.setVariable name { old with value := some value, exported }

/-- The value of an arithmetic expression. -/
def evaluate (s : Bytes) : Run Int64 := do
  let p ← getProcess
  match arithmetic p.valueOf? s with
  | .ok (value, assigned) =>
    for (name, value) in assigned do
      assign name value
    return value
  | .error (.illegalNumber s) => failWith (bytes "Illegal number: " ++ s)
  | .error .divisionByZero =>
    failWith (bytes "arithmetic expression: division by zero: \"" ++ s ++ bytes "\"")
  | .error .malformed =>
    failWith (bytes "arithmetic expression: expecting primary: \"" ++ s ++ bytes "\"")

/-- All parameters as segments. -/
def allParameters (p : Process) (name : Bytes) (quoted : Bool) : List Segment :=
  if quoted && name == bytes "*" then [.text (joinedParameters p) true false]
  else (p.parameters.map fun s => Segment.text s quoted (!quoted)).intersperse .cut

/-! ### Words -/

/-- How deep words may stand in each other. -/
def wordDepth : Nat := 1000

/-- The segments of a word. `substitute` runs commands and gives what they write. Text that is not
quoted is cut only inside braces. -/
def segments (substitute : List Command → Run Bytes) :
    Nat → Bool → Word → Run (List Segment)
  | 0, _, _ => failWith (bytes "Bad substitution")
  | n + 1, cuttable, word => do
    let found ← word.mapM fun piece => do
      match piece with
      | .text s quoted => return [Segment.text s quoted (cuttable && !quoted)]
      | .output commands quoted =>
        return [.text (← substitute commands) quoted (!quoted)]
      | .arithmetic expression quoted =>
        let text := joinedText (← segments substitute n false expression)
        return [.text (Digits.ofInt (← evaluate text).toInt) quoted (!quoted)]
      | .parameter name use quoted =>
        let p ← getProcess
        let isAll := name == bytes "@" || name == bytes "*"
        let value := parameter? p name
        let plain (s : Bytes) : List Segment := [.text s quoted (!quoted)]
        let own : List Segment := if isAll then allParameters p name quoted
          else plain (value.getD [])
        let ownField : List Segment := if own.isEmpty then plain [] else own
        let inner (word : Word) : Run (List Segment) := do
          let found ← segments substitute n (!quoted) word
          return if quoted then .text [] true false :: found else found
        let isMissing (orNull : Bool) : Bool := value.isNone || (orNull && value == some [])
        let refuseUnset : Run Unit := do
          if value.isNone && !isAll && p.flag 'u' then
            failWith (name ++ bytes ": parameter not set")
        match use with
        | .value =>
          refuseUnset
          return own
        | .length =>
          refuseUnset
          return plain (Digits.ofNat (value.getD []).length)
        | .default orNull word =>
          if isMissing orNull then inner word else return ownField
        | .assign orNull word =>
          if isMissing orNull then
            let text := joinedText (← segments substitute n false word)
            if !isName name then failWith (name ++ bytes ": bad variable name")
            assign name text
            return plain text
          else return ownField
        | .require orNull word =>
          if isMissing orNull then
            let text := joinedText (← segments substitute n false word)
            let cause := if !text.isEmpty then text
              else bytes "parameter not set" ++ if orNull then bytes " or null" else []
            failWith (name ++ bytes ": " ++ cause)
          else return ownField
        | .alternative orNull word =>
          if isMissing orNull then return if quoted then [.text [] true false] else []
          else inner word
        | .trim fromEnd longest pattern =>
          refuseUnset
          let pattern := patternOf (← segments substitute n false pattern)
          let trimmed := pattern.trim fromEnd longest
          if isAll && !(quoted && name == bytes "*") then
            -- Patterns meet the parameters as one text in which each ends at a NUL.
            let whole := trimmed (List.intercalate [Ascii.nul] p.parameters)
            let texts := whole.splitOnP (· == Ascii.nul)
            return (texts.map fun s => Segment.text s quoted (!quoted)).intersperse .cut
          else return plain (trimmed (value.getD []))
        | .unknown => failWith (bytes "Bad substitution")
    return found.flatten

/-- The folders of users. A tilde without a name stands for the value of `HOME`. -/
def home? (p : Process) (name : Bytes) : Option Bytes :=
  if name.isEmpty then p.valueOf? (bytes "HOME")
  else if name = bytes "root" then some (bytes "/root")
  else none

/-- A word in which a tilde at the front has been replaced. -/
def withHome (p : Process) (word : Word) : Word :=
  match word with
  | .text s false :: rest =>
    match Bytes.after? (bytes "~") s with
    | some after =>
      let name := after.takeWhile (· != Ascii.slash)
      let isWhole := name.length < after.length || rest.isEmpty
      match if isWhole then home? p name else none with
      | some home => .text home true :: .text (after.drop name.length) false :: rest
      | none => word
    | none => word
  | _ => word

/-- The fields that a word expands to. -/
def expandFields (substitute : List Command → Run Bytes) (word : Word) : Run (List Bytes) := do
  let word := withHome (← getProcess) word
  let found ← segments substitute wordDepth false word
  return fields (cutsOf (← getProcess)) found

/-- The text that a word expands to where no fields are made. -/
def expandText (substitute : List Command → Run Bytes) (word : Word) : Run Bytes := do
  let word := withHome (← getProcess) word
  return joinedText (← segments substitute wordDepth false word)

/-- The pattern that a word expands to. -/
def expandPattern (substitute : List Command → Run Bytes) (word : Word) : Run Pattern := do
  return patternOf (← segments substitute wordDepth false word)

end LanguageClient.Shell
