import LanguageClient.Shell.Token

/-!
Commands from tokens. A script is read one complete line at a time (`Source.next`): the commands of
a line with all lines that they go on in. So the commands of one line are known before any of them
is run, and an error in a later line does not keep the earlier ones from being run.
-/

namespace LanguageClient.Shell

/-- Words with a meaning of their own where a command can begin. -/
def keywords : List Bytes :=
  ["!", "case", "do", "done", "elif", "else", "esac", "fi", "for", "if", "in", "then", "until",
    "while", "\x7b", "\x7d"].map bytes

/-- Keywords that end a row of commands. -/
def endingKeywords : List Bytes :=
  ["do", "done", "elif", "else", "esac", "fi", "then", "\x7d"].map bytes

/-- Commands whose names functions cannot have. -/
def specialCommands : List Bytes :=
  [".", ":", "break", "continue", "eval", "exec", "exit", "export", "readonly", "return", "set",
    "shift", "times", "trap", "unset"].map bytes

namespace Token

/-- The keyword that a token is. -/
def keyword? : Token → Option Bytes
  | .word w => w.plain?.filter keywords.contains
  | _ => none

/-- How a token is called in an error. -/
def shown (t : Token) : Bytes :=
  match t with
  | .word _ => (t.keyword?.map fun k => bytes "\"" ++ k ++ bytes "\"").getD (bytes "word")
  | .redirect _ _ => bytes "redirection"
  | .newline => bytes "newline"
  | .semicolon => bytes "\";\""
  | .ampersand => bytes "\"&\""
  | .both => bytes "\"&&\""
  | .either => bytes "\"||\""
  | .pipe => bytes "\"|\""
  | .opened => bytes "\"(\""
  | .closed => bytes "\")\""
  | .armEnd => bytes "\";;\""
  | .finish => bytes "end of file"

/-- A row of commands ends before this token. -/
def endsBody : Token → Bool
  | .closed | .armEnd | .finish => true
  | t => t.keyword?.any endingKeywords.contains

end Token

/-- What is to be read. `started` says that a command of the row has been read. -/
inductive Goal where
  /-- The commands up to the end of the line. -/
  | line
  /-- The commands up to a word or operator that ends them; there has to be one. -/
  | body (started : Bool)
  | command
  deriving DecidableEq

namespace Reader

/-- The next token, which is not taken. -/
def peek (nested : Nested) : Reader Token := do
  match (← get).held with
  | some t => return t
  | none =>
    let t ← token nested
    modify fun s => { s with held := some t }
    return t

/-- Takes the next token. -/
def take (nested : Nested) : Reader Token := do
  let t ← peek nested
  modify fun s => { s with held := none }
  return t

def unexpected {α : Type} (t : Token) : Reader α := wrong (.unexpected t.shown none)

def unexpectedFor {α : Type} (t : Token) (expected : Bytes) : Reader α :=
  wrong (.unexpected t.shown (some expected))

/-- Takes a token that has to have a certain look. -/
def expect (nested : Nested) (shown : Bytes) : Reader Unit := do
  let t ← take nested
  if t.shown ≠ shown then unexpectedFor t shown

/-- Takes a keyword if it comes next. -/
def takes (nested : Nested) (keyword : String) : Reader Bool := do
  if (← peek nested).keyword? = some (bytes keyword) then
    let _ ← take nested
    return true
  else return false

def expectKeyword (nested : Nested) (keyword : String) : Reader Unit :=
  expect nested (bytes "\"" ++ bytes keyword ++ bytes "\"")

/-- Passes over the ends of lines. -/
def skipLines (nested : Nested) : Reader Unit := do
  let _ ← collect do
    match ← peek nested with
    | .newline =>
      let _ ← take nested
      return some ()
    | _ => return none

/-- Takes the target of a redirection. -/
def target (nested : Nested) (descriptor : Nat) (kind : Redirection) : Reader Redirect := do
  let tabs ← match kind with
    | .document _ => do
      if (← look) = some Ascii.minus then
        skip 1
        pure true
      else pure false
    | _ => pure false
  match ← take nested with
  | .word w =>
    if let .document number := kind then
      let isQuoted := w.any fun
        | .text _ quoted => quoted
        | _ => false
      let ending := w.flatMap fun
        | .text s _ => s
        | .parameter name _ _ => 0x24 :: name
        | _ => []
      modify fun s =>
        { s with wanted := s.wanted ++ [⟨number, ending, tabs, isQuoted⟩] }
    return .mk descriptor kind w
  | t => unexpected t

/-- Takes a redirection if one comes next. -/
def redirect? (nested : Nested) : Reader (Option Redirect) := do
  match ← peek nested with
  | .redirect descriptor kind =>
    modify fun s => { s with held := none }
    return some (← target nested descriptor kind)
  | _ => return none

/-- Takes a word, which is no keyword here. -/
def word? (nested : Nested) : Reader (Option Word) := do
  match ← peek nested with
  | .word w =>
    let _ ← take nested
    return some w
  | _ => return none

/-- What has been read of a simple command. -/
structure Simple where
  assignments : List (Bytes × Word) := []
  words : List Word := []
  redirects : List Redirect := []

/-- The name of the function that a simple command begins to define when a parenthesis follows. -/
def Simple.functionName? (c : Simple) : Option (Option Bytes) :=
  match c.words, c.assignments, c.redirects with
  | [w], [], [] => some w.plain?
  | _, _, _ => none

/-- Reads the parts of a simple command. -/
def simpleParts (nested : Nested) : Nat → Simple → Reader Simple
  | 0, c => return c
  | n + 1, c => do
    match ← redirect? nested with
    | some r => simpleParts nested n { c with redirects := c.redirects ++ [r] }
    | none =>
      match ← word? nested with
      | none => return c
      | some w =>
        match w.assignment? with
        | some a =>
          if c.words.isEmpty then
            simpleParts nested n { c with assignments := c.assignments ++ [a] }
          else simpleParts nested n { c with words := c.words ++ [w] }
        | none => simpleParts nested n { c with words := c.words ++ [w] }

/-- Reads a simple command or the definition of a function. -/
def simple (nested : Nested) (parse : Goal → Reader (List Command)) : Reader Command := do
  let line := (← get).line
  let c ← simpleParts nested ((← get).rest.length + 2) {}
  match c.functionName?, ← peek nested with
  | some name, .opened =>
    let _ ← take nested
    expect nested Token.closed.shown
    match name with
    | some name =>
      if !isName name || specialCommands.contains name then wrong .badFunction
      skipLines nested
      match ← parse .command with
      | [body] => return .define name body
      | body => return .define name (.group body)
    | none => wrong .badFunction
  | _, _ => return .simple line c.assignments c.words c.redirects

/-- Reads a branch after its first keyword, up to the keyword that ends it. -/
def branch (nested : Nested) (parse : Goal → Reader (List Command)) : Nat → Reader Command
  | 0 => throw .incomplete
  | n + 1 => do
    let condition ← parse (.body false)
    expectKeyword nested "then"
    let body ← parse (.body false)
    if ← takes nested "elif" then return .branch condition body [← branch nested parse n]
    let otherwise ← if ← takes nested "else" then parse (.body false) else pure []
    expectKeyword nested "fi"
    return .branch condition body otherwise

/-- Reads a loop after its first keyword. -/
def loop (nested : Nested) (parse : Goal → Reader (List Command)) (untilTrue : Bool) :
    Reader Command := do
  let condition ← parse (.body false)
  expectKeyword nested "do"
  let body ← parse (.body false)
  expectKeyword nested "done"
  return .loop untilTrue condition body

/-- Reads a loop over words after its first keyword. -/
def each (nested : Nested) (parse : Goal → Reader (List Command)) : Reader Command := do
  let name := match ← take nested with
    | .word w => w.plain?.filter isName
    | _ => none
  match name with
  | none => wrong .badVariable
  | some name =>
    skipLines nested
    let words ← if ← takes nested "in" then do
        let words ← collect (word? nested)
        match ← take nested with
        | .newline | .semicolon => pure (some words)
        | t => unexpected t
      else
        match ← peek nested with
        | .semicolon => do
          let _ ← take nested
          pure none
        | _ => pure none
    skipLines nested
    expectKeyword nested "do"
    let body ← parse (.body false)
    expectKeyword nested "done"
    return .each name words body

/-- Reads the patterns of a case. -/
def patterns (nested : Nested) : Nat → Reader (List Word)
  | 0 => return []
  | n + 1 => do
    match ← take nested with
    | .word w =>
      match ← take nested with
      | .pipe => return w :: (← patterns nested n)
      | .closed => return [w]
      | t => unexpectedFor t Token.closed.shown
    | t => unexpected t

/-- Reads the cases of a choice and the keyword that ends it. -/
def cases (nested : Nested) (parse : Goal → Reader (List Command)) :
    Nat → Reader (List (List Word × List Command))
  | 0 => return []
  | n + 1 => do
    skipLines nested
    if ← takes nested "esac" then return []
    if let .opened ← peek nested then
      let _ ← take nested
    let found ← patterns nested ((← get).rest.length + 2)
    let body ← parse (.body true)
    skipLines nested
    if ← takes nested "esac" then return [(found, body)]
    expect nested Token.armEnd.shown
    return (found, body) :: (← cases nested parse n)

/-- Reads a choice after its first keyword. -/
def choice (nested : Nested) (parse : Goal → Reader (List Command)) : Reader Command := do
  match ← take nested with
  | .word w =>
    skipLines nested
    expectKeyword nested "in"
    return .choice w (← cases nested parse ((← get).rest.length + 2))
  | t => unexpectedFor t (bytes "word")

/-- Reads the redirections that may follow a command made of commands. -/
def redirected (nested : Nested) (command : Command) : Reader Command := do
  let line := (← get).line
  let redirects ← collect (redirect? nested)
  return if redirects.isEmpty then command else .redirected line command redirects

/-- Reads one command. -/
def command (nested : Nested) (parse : Goal → Reader (List Command)) : Reader Command := do
  let fuel := (← get).rest.length + 2
  match ← peek nested with
  | .redirect _ _ => simple nested parse
  | .opened =>
    let _ ← take nested
    let body ← parse (.body false)
    expect nested Token.closed.shown
    redirected nested (.subshell body)
  | .word w =>
    match (Token.word w).keyword? with
    | none => simple nested parse
    | some keyword =>
      let t ← take nested
      if keyword = bytes "if" then redirected nested (← branch nested parse fuel)
      else if keyword = bytes "while" then redirected nested (← loop nested parse false)
      else if keyword = bytes "until" then redirected nested (← loop nested parse true)
      else if keyword = bytes "for" then redirected nested (← each nested parse)
      else if keyword = bytes "case" then redirected nested (← choice nested parse)
      else if keyword = bytes "\x7b" then
        let body ← parse (.body false)
        expectKeyword nested "\x7d"
        redirected nested (.group body)
      else unexpected t
  | t => unexpected t

/-- Reads a command with those that it is piped to. -/
def pipeline (nested : Nested) (parse : Goal → Reader (List Command)) : Reader Command := do
  let negated ← takes nested "!"
  let first ← command nested parse
  let later ← collect do
    match ← peek nested with
    | .pipe =>
      let _ ← take nested
      skipLines nested
      return some (← command nested parse)
    | _ => return none
  let found := if later.isEmpty then first else .pipeline (first :: later)
  return if negated then .negation found else found

/-- Reads the pipelines that are joined to one. -/
def joined (nested : Nested) (parse : Goal → Reader (List Command)) :
    Nat → Command → Reader Command
  | 0, first => return first
  | n + 1, first => do
    match ← peek nested with
    | .both =>
      let _ ← take nested
      skipLines nested
      joined nested parse n (.both first (← pipeline nested parse))
    | .either =>
      let _ ← take nested
      skipLines nested
      joined nested parse n (.either first (← pipeline nested parse))
    | _ => return first

/-- Reads a row of commands. -/
def row (nested : Nested) (parse : Goal → Reader (List Command)) (goal : Goal) :
    Reader (List Command) := do
  if goal ≠ .line then skipLines nested
  match ← peek nested with
  | .newline =>
    let _ ← take nested
    return []
  | .finish => return []
  | t =>
    if goal = .body true ∧ t.endsBody then return []
    let fuel := (← get).rest.length + 2
    let first ← joined nested parse fuel (← pipeline nested parse)
    let next := if goal = .line then Goal.line else .body true
    match ← peek nested with
    | .ampersand =>
      let _ ← take nested
      return .background first :: (← parse next)
    | .semicolon =>
      let _ ← take nested
      return first :: (← parse next)
    | .newline => return first :: (← parse next)
    | .finish => return [first]
    | t => if goal = .line then unexpected t else return [first]

/-- Reads what a goal asks for. The number bounds how deep commands stand in each other. -/
def parse : Nat → Goal → Reader (List Command)
  | 0, _ => throw .incomplete
  | n + 1, goal => do
    let plain : Nested := ⟨throw .incomplete, throw .incomplete⟩
    let inner (goal : Goal) : Reader (List Command) := parse n goal
    let nested : Nested :=
      { untilClosed := do
          let body ← inner (.body true)
          expect plain Token.closed.shown
          return body
        untilEnd := do
          let body ← inner (.body true)
          let t ← take plain
          match t with
          | .finish => return body
          | t => unexpected t }
    match goal with
    | .command => return [← command nested inner]
    | goal => row nested inner goal

end Reader

/-- Reads the commands of the next line; `none` at the end of the script. -/
def Source.next (s : Source) : Except Fault (Option (List Command) × Source) :=
  let reader : Reader (Option (List Command)) := do
    let depth := s.rest.length + 2
    let commands ← Reader.parse depth .line
    match commands, (← get).held with
    | [], some .finish => return none
    | _, _ => return some commands
  reader.run s

end LanguageClient.Shell
