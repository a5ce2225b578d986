import LanguageClient.Digits
import LanguageClient.Shell.Syntax

/-!
Arithmetic on 64-bit words: the numbers that words can be read as, and expressions with variables.

An expression is read as a whole before it is evaluated, so that only the parts that count are
evaluated: one side of a condition, and the right side of `&&` and `||` only if it decides.
-/

namespace LanguageClient.Shell

/-! ### Numbers -/

/-- Blanks, ends of lines and pages. -/
def isSpace (b : UInt8) : Bool := b == Ascii.space || (Ascii.tab ≤ b && b ≤ Ascii.cr)

/-- The number that a digit of some base stands for. -/
def digitValue? (base : Nat) (b : UInt8) : Option Nat :=
  let value :=
    if Digits.isDigit b then Digits.value b
    else if 0x61 ≤ b ∧ b ≤ 0x7A then (b - 0x61).toNat + 10
    else if 0x41 ≤ b ∧ b ≤ 0x5A then (b - 0x41).toNat + 10
    else base
  if value < base then some value else none

/-- The digits of some base at the front of a text, as a number, and what follows them. -/
def natural (base : Nat) (s : Bytes) : Nat × Bytes :=
  let digits := s.takeWhile fun b => (digitValue? base b).isSome
  (digits.foldl (fun n d => base * n + (digitValue? base d).getD 0) 0, s.drop digits.length)

/-- The number at the front of a text and what follows it. Hexadecimal ones begin with `0x` and
octal ones with `0`. -/
def literal (s : Bytes) : Nat × Bytes :=
  match s with
  | first :: mark :: digit :: _ =>
    if first = Ascii.zero ∧ (mark = 0x78 ∨ mark = 0x58) ∧ (digitValue? 16 digit).isSome then
      natural 16 (s.drop 2)
    else if first = Ascii.zero then natural 8 s
    else natural 10 s
  | first :: _ => natural (if first = Ascii.zero then 8 else 10) s
  | [] => (0, [])

/-- The sign at the front of a text, and what follows it. -/
def sign (s : Bytes) : Bool × Bytes :=
  match s with
  | first :: rest =>
    if first = Ascii.minus then (true, rest) else if first = Ascii.plus then (false, rest)
    else (false, s)
  | [] => (false, [])

/-- The number that a word is, between blanks. -/
def integer? (read : Bytes → Nat × Bytes) (s : Bytes) : Option Int :=
  let (negative, digits) := sign (s.dropWhile isSpace)
  let (n, rest) := read digits
  let n : Int := if negative then -n else n
  if rest.length == digits.length || !rest.all isSpace || n < -9223372036854775808
    || 9223372036854775807 < n then none
  else some n

/-- The decimal number that a word is. -/
def decimal? (s : Bytes) : Option Int := integer? (natural 10) s

/-! ### Expressions -/

inductive ArithmeticError where
  /-- The expression ends or goes on where it should not. -/
  | malformed
  | divisionByZero
  /-- The value of a variable is no number. -/
  | illegalNumber (s : Bytes)
  deriving DecidableEq

inductive Operator where
  | times
  | divide
  | remainder
  | plus
  | minus
  | shiftLeft
  | shiftRight
  | less
  | lessEq
  | greater
  | greaterEq
  | equal
  | unequal
  | bitAnd
  | bitXor
  | bitOr
  deriving DecidableEq

inductive Expression where
  | number (n : Int64)
  | variable (name : Bytes)
  | negative (e : Expression)
  | complement (e : Expression)
  | negation (e : Expression)
  | binary (operator : Operator) (a b : Expression)
  | both (a b : Expression)
  | either (a b : Expression)
  | conditional (condition a b : Expression)
  /-- Gives a variable the value of an expression, or of its own value and an expression. -/
  | assign (name : Bytes) (operator : Option Operator) (e : Expression)

namespace Expression

inductive Lexeme where
  | number (n : Nat)
  | name (s : Bytes)
  | mark (s : Bytes)
  deriving DecidableEq

/-- The operators and parentheses, longer ones before those that they begin with. -/
def spellings : List Bytes :=
  ["<<=", ">>=", "<<", ">>", "<=", ">=", "==", "!=", "&&", "||", "+=", "-=", "*=", "/=", "%=",
    "&=", "^=", "|=", "+", "-", "*", "/", "%", "&", "|", "^", "!", "~", "<", ">", "=", "?", ":",
    "(", ")"].map bytes

/-- The lexemes of a text; `none` if something in it is none. -/
def lex? : Nat → Bytes → Option (List Lexeme)
  | 0, _ => none
  | n + 1, s =>
    match s.dropWhile isSpace with
    | [] => some []
    | b :: rest =>
      let s := b :: rest
      if Digits.isDigit b then
        let (value, left) := literal s
        (lex? n left).map (.number value :: ·)
      else if isNameStart b then
        let name := s.takeWhile isNamePart
        (lex? n (s.drop name.length)).map (.name name :: ·)
      else
        match spellings.find? (·.isPrefixOf s) with
        | some mark => (lex? n (s.drop mark.length)).map (.mark mark :: ·)
        | none => none

/-- The binary operators, those that bind tightest first. -/
def levels : List (List (Bytes × Operator)) :=
  [[("*", .times), ("/", .divide), ("%", .remainder)], [("+", .plus), ("-", .minus)],
    [("<<", .shiftLeft), (">>", .shiftRight)],
    [("<", .less), ("<=", .lessEq), (">", .greater), (">=", .greaterEq)],
    [("==", .equal), ("!=", .unequal)], [("&", .bitAnd)], [("^", .bitXor)],
    [("|", .bitOr)]].map fun level => level.map fun (s, o) => (bytes s, o)

/-- The operator of an assignment: none for a plain one. -/
def assignment? (mark : Bytes) : Option (Option Operator) :=
  if mark = bytes "=" then some none
  else
    match mark.reverse with
    | last :: operator =>
      if last = 0x3D then (levels.flatten.lookup operator.reverse).bind fun o =>
        if [.less, .greater].contains o then none else some (some o)
      else none
    | [] => none

abbrev Parse := StateT (List Lexeme) Option

def next? : Parse (Option Lexeme) := do return (← get).head?

def skip : Parse Unit := modify List.tail

/-- Takes a mark that has to come next. -/
def expect (mark : String) : Parse Unit := do
  if (← next?) = some (.mark (bytes mark)) then skip else failure

/-- Reads operators of one level and their right sides. -/
def goOn (level : List (Bytes × Operator)) (side : Parse Expression) :
    Nat → Expression → Parse Expression
  | 0, e => return e
  | n + 1, e => do
    match ← next? with
    | some (.mark mark) =>
      match level.lookup mark with
      | some operator =>
        skip
        goOn level side n (.binary operator e (← side))
      | none => return e
    | _ => return e

/-- Reads an expression of the levels up to one. -/
def upTo (fuel : Nat) (unary : Parse Expression) :
    List (List (Bytes × Operator)) → Parse Expression
  | [] => unary
  | level :: tighter => do
    goOn level (upTo fuel unary tighter) fuel (← upTo fuel unary tighter)

/-- Reads sides that one mark joins. -/
def chain (mark : String) (join : Expression → Expression → Expression)
    (side : Parse Expression) : Nat → Parse Expression
  | 0 => failure
  | n + 1 => do
    let first ← side
    if (← next?) = some (.mark (bytes mark)) then
      skip
      return join first (← chain mark join side n)
    return first

/-- Reads an operand with the operators before it. -/
def unary (whole : Parse Expression) : Nat → Parse Expression
  | 0 => failure
  | n + 1 => do
    match ← next? with
    | some (.number value) =>
      skip
      return .number (Int64.ofInt (min value 9223372036854775807 : Nat))
    | some (.name name) =>
      skip
      return .variable name
    | some (.mark mark) =>
      skip
      if mark = bytes "(" then
        let e ← whole
        expect ")"
        return e
      else if mark = bytes "-" then return .negative (← unary whole n)
      else if mark = bytes "+" then unary whole n
      else if mark = bytes "~" then return .complement (← unary whole n)
      else if mark = bytes "!" then return .negation (← unary whole n)
      else failure
    | none => failure

/-- Reads an expression: an assignment, a condition, or operands with operators. -/
def parse : Nat → Parse Expression
  | 0 => failure
  | n + 1 => do
    match ← get with
    | .name name :: .mark mark :: _ =>
      if let some operator := assignment? mark then
        skip
        skip
        return .assign name operator (← parse n)
    | _ => pure ()
    let operand := upTo n (unary (parse n) n) levels.reverse
    let condition ← chain "||" .either (chain "&&" .both operand n) n
    if (← next?) = some (.mark (bytes "?")) then
      skip
      let a ← parse n
      expect ":"
      return .conditional condition a (← parse n)
    return condition

/-- The expression that a text is. -/
def ofText? (s : Bytes) : Option Expression := do
  let lexemes ← lex? (s.length + 1) s
  match ← (parse (lexemes.length + 1)).run lexemes with
  | (e, []) => return e
  | _ => none

/-- Variables that were given values, the latest first, and how the others are looked up. -/
abbrev Evaluate := StateT (List (Bytes × Bytes)) (Except ArithmeticError)

def ofBool (b : Bool) : Int64 := if b then 1 else 0

def Operator.apply (operator : Operator) (a b : Int64) : Except ArithmeticError Int64 :=
  match operator with
  | .times => .ok (a * b)
  | .divide => if b = 0 then .error .divisionByZero else .ok (a / b)
  | .remainder => if b = 0 then .error .divisionByZero else .ok (a % b)
  | .plus => .ok (a + b)
  | .minus => .ok (a - b)
  | .shiftLeft => .ok (a <<< b)
  | .shiftRight => .ok (a >>> b)
  | .less => .ok (ofBool (a < b))
  | .lessEq => .ok (ofBool (a ≤ b))
  | .greater => .ok (ofBool (b < a))
  | .greaterEq => .ok (ofBool (b ≤ a))
  | .equal => .ok (ofBool (a == b))
  | .unequal => .ok (ofBool (a != b))
  | .bitAnd => .ok (a &&& b)
  | .bitXor => .ok (a ^^^ b)
  | .bitOr => .ok (a ||| b)

/-- The number that a variable has. -/
def valueOf (look : Bytes → Option Bytes) (name : Bytes) : Evaluate Int64 := do
  let value := (((← get).lookup name).or (look name)).getD []
  if value.all isSpace then return 0
  match integer? literal value with
  | some n => return Int64.ofInt n
  | none => throw (.illegalNumber value)

def eval (look : Bytes → Option Bytes) : Expression → Evaluate Int64
  | .number n => return n
  | .variable name => valueOf look name
  | .negative e => return -(← eval look e)
  | .complement e => return ~~~(← eval look e)
  | .negation e => return ofBool ((← eval look e) == 0)
  | .binary operator a b => do
    let x ← eval look a
    let y ← eval look b
    Operator.apply operator x y
  | .both a b => do
    if (← eval look a) == 0 then return 0 else return ofBool ((← eval look b) != 0)
  | .either a b => do
    if (← eval look a) != 0 then return 1 else return ofBool ((← eval look b) != 0)
  | .conditional c a b => do
    if (← eval look c) != 0 then eval look a else eval look b
  | .assign name operator e => do
    let right ← eval look e
    let value ← match operator with
      | none => pure right
      | some o => do
        let old ← valueOf look name
        Operator.apply o old right
    modify ((name, Digits.ofInt value.toInt) :: ·)
    return value

end Expression

/-- The value of an arithmetic expression, and the variables that it gives values, in order. -/
def arithmetic (look : Bytes → Option Bytes) (s : Bytes) :
    Except ArithmeticError (Int64 × List (Bytes × Bytes)) := do
  match Expression.ofText? s with
  | none => throw .malformed
  | some e =>
    let (value, assigned) ← (e.eval look).run []
    return (value, assigned.reverse)

end LanguageClient.Shell
