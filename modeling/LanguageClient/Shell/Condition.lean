import LanguageClient.Shell.Arithmetic
import LanguageClient.Shell.Machine

/-!
Conditions as `test` takes them: words that are compared with each other or looked at alone, joined
by `!`, `-a`, `-o` and parentheses.
-/

namespace LanguageClient.Shell

/-- How two words are compared. -/
inductive Comparison where
  | same
  | different
  | before
  | after
  | equal
  | unequal
  | less
  | lessEq
  | greater
  | greaterEq
  /-- Both are the same file. -/
  | sameFile
  /-- The first file is newer or older; none is known to be. -/
  | age
  deriving DecidableEq

inductive Condition where
  | constant (b : Bool)
  | filled (s : Bytes)
  | empty (s : Bytes)
  /-- A file is of the kind that a letter stands for. -/
  | file (letter : UInt8) (path : Bytes)
  /-- A descriptor is a terminal. -/
  | terminal (descriptor : Bytes)
  | compare (c : Comparison) (a b : Bytes)
  | negation (c : Condition)
  | both (a b : Condition)
  | either (a b : Condition)

/-- Why a condition cannot be decided. -/
inductive ConditionError where
  | argumentExpected (operator : Bytes)
  | unexpectedOperator (s : Bytes)
  | closingExpected
  | illegalNumber (s : Bytes)
  deriving DecidableEq

def ConditionError.message : ConditionError → Bytes
  | .argumentExpected operator => operator ++ bytes ": argument expected"
  | .unexpectedOperator s => s ++ bytes ": unexpected operator"
  | .closingExpected => bytes "closing paren expected"
  | .illegalNumber s => bytes "Illegal number: " ++ s

namespace Condition

def comparisons : List (Bytes × Comparison) :=
  [("=", .same), ("!=", .different), ("<", .before), (">", .after), ("-eq", .equal),
    ("-ne", .unequal), ("-lt", .less), ("-le", .lessEq), ("-gt", .greater), ("-ge", .greaterEq),
    ("-nt", .age), ("-ot", .age), ("-ef", .sameFile)].map fun (s, c) => (bytes s, c)

/-- The letters of the operators for one word. -/
def letters : Bytes := bytes "rwxefdcbpugkhLSOGstzn"

/-- The letter of an operator for one word. -/
def letter? : Bytes → Option UInt8
  | [dash, b] => if dash = Ascii.minus ∧ letters.contains b then some b else none
  | _ => none

/-- What a word is in a condition. -/
inductive Role where
  | finish
  | operand
  | single (letter : UInt8)
  | comparison (c : Comparison)
  | both
  | either
  | negation
  | opened
  | closed
  deriving DecidableEq

/-- What the first of some words is. An operator that stands where only an operand can is one. -/
def role : List Bytes → Role
  | [] => .finish
  | s :: rest =>
    match letter? s with
    | some letter =>
      let isOperand := match rest with
        | [] => true
        | [_] => false
        | c :: last :: _ => (comparisons.lookup c).isSome && last != bytes ")"
      if isOperand then .operand else .single letter
    | none =>
      match comparisons.lookup s with
      | some c => .comparison c
      | none =>
        if s = bytes "-a" then .both
        else if s = bytes "-o" then .either
        else if s = bytes "!" then .negation
        else if s = bytes "(" then (if rest.isEmpty then .operand else .opened)
        else if s = bytes ")" then .closed
        else .operand

abbrev Parse := StateT (List Bytes) (Except ConditionError)

def single (letter : UInt8) (s : Bytes) : Condition :=
  if letter = Ascii.byte 'z' then .empty s
  else if letter = Ascii.byte 'n' then .filled s
  else if letter = Ascii.byte 't' then .terminal s
  else .file letter s

/-- What is to be read: a row of alternatives, a row of parts, or one part. -/
inductive Goal where
  | alternatives
  | parts
  | part
  deriving DecidableEq

/-- Reads what a goal asks for. `first` says that the first word is an operand, whatever it is. -/
def parse : Nat → Goal → Bool → Parse Condition
  | 0, _, _ => return .constant false
  | n + 1, .alternatives, first => do
    let a ← parse n .parts first
    if role (← get) = .either then
      modify List.tail
      return .either a (← parse n .alternatives false)
    return a
  | n + 1, .parts, first => do
    let a ← parse n .part first
    if role (← get) = .both then
      modify List.tail
      return .both a (← parse n .parts false)
    return a
  | n + 1, .part, first => do
    let words ← get
    match if first then .operand else role words, words with
    | .negation, _ :: rest =>
      set rest
      return .negation (← parse n .part false)
    | .opened, _ :: rest =>
      set rest
      if role rest = .closed then
        set rest.tail
        return .constant false
      let c ← parse n .alternatives false
      if role (← get) ≠ .closed then throw .closingExpected
      modify List.tail
      return c
    | .single letter, operator :: rest =>
      match rest with
      | [] => throw (.argumentExpected operator)
      | s :: rest =>
        set rest
        return single letter s
    | .finish, _ => return .constant false
    | _, s :: rest =>
      match role rest, rest with
      | .comparison c, operator :: right =>
        match right with
        | [] => throw (.argumentExpected operator)
        | b :: rest =>
          set rest
          return .compare c s b
      | _, _ =>
        set rest
        return .filled s
    | _, [] => return .constant false

/-- Reads a condition to its end. If there are words left, the last one before them is at fault. -/
def whole (first : Bool) (words : List Bytes) : Except ConditionError Condition := do
  let (c, rest) ← (parse (2 * words.length + 4) .alternatives first).run words
  if rest.isEmpty then return c
  throw (.unexpectedOperator (words[words.length - rest.length - 1]?.getD []))

/-- The condition that some words are. With few words their number decides what they are. -/
def ofWords : List Bytes → Except ConditionError Condition
  | [] => .ok (.constant false)
  | words =>
    let isComparison := match words with
      | [_, operator, _] => (comparisons.lookup operator).isSome
      | _ => false
    if isComparison then whole true words
    else if words.length = 3 ∨ words.length = 4 then
      if words.head? = some (bytes "(") ∧ words.getLast? = some (bytes ")") then
        whole false words.tail.dropLast
      else if words.head? = some (bytes "!") then (whole false words.tail).map .negation
      else whole false words
    else whole false words

/-- A word as a number. -/
def number (s : Bytes) : Except ConditionError Int :=
  match decimal? s with
  | some n => .ok n
  | none => .error (.illegalNumber s)

/-- The letters of the tests that what stands at a place passes. -/
def passed : Files.Entry → Bytes
  | .folder => bytes "erwxdsOG"
  | .plain => bytes "erwfsOG"
  | .device => bytes "erwcOG"
  | .program _ => bytes "erwxfsOG"

/-- The letters of the test whether a path is a link. -/
def linkLetters : Bytes := bytes "hL"

def holds : Condition → Run (Except ConditionError Bool)
  | .constant b => return .ok b
  | .filled s => return .ok (!s.isEmpty)
  | .empty s => return .ok s.isEmpty
  | .terminal _ => return .ok false
  | .file letter path => do
    if linkLetters.contains letter then
      return .ok (Files.isLink path)
    return .ok ((← entryAt? path).any fun entry => (passed entry).contains letter)
  | .compare c a b => do
    let numbers (test : Int → Int → Bool) : Except ConditionError Bool := do
      return test (← number a) (← number b)
    match c with
    | .same => return .ok (a == b)
    | .different => return .ok (a != b)
    | .before => return .ok (decide (a < b))
    | .after => return .ok (decide (b < a))
    | .equal => return numbers (· == ·)
    | .unequal => return numbers (· != ·)
    | .less => return numbers (· < ·)
    | .lessEq => return numbers (· ≤ ·)
    | .greater => return numbers (· > ·)
    | .greaterEq => return numbers (· ≥ ·)
    | .sameFile =>
      let same := (← locate a).toOption == (← locate b).toOption
      return .ok (same && (← entryAt? a).isSome)
    | .age => return .ok false
  | .negation c => do return (← holds c).map (!·)
  | .both a b => do
    match ← holds a with
    | .ok true => holds b
    | other => return other
  | .either a b => do
    match ← holds a with
    | .ok false => holds b
    | other => return other

end Condition

end LanguageClient.Shell
