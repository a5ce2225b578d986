import LanguageClient.Shell.Builtin.Basic

/-!
The command `read`: a line of the input, cut into the values of some variables.
-/

namespace LanguageClient.Shell.Builtin

/-- Reads a line with its escapes: each byte, and whether it was escaped. The second part of the
answer says whether the line had an end. -/
def readLine (raw : Bool) : Nat → Run (List Marked × Bool)
  | 0 => return ([], false)
  | n + 1 => do
    let line ← readWith 0 fun s clock => s.readTo clock Ascii.lf
    match line with
    | none => return ([], false)
    | some line =>
      let ended := line.getLast? == some Ascii.lf
      let text := (if ended then line.dropLast else line).filter (· != Ascii.nul)
      if raw then return (Pattern.mark false text, ended)
      let (marked, goesOn) := unescaped text
      if goesOn && ended then
        let (more, ended) ← readLine raw n
        return (marked ++ more, ended)
      return (marked, ended)
where
  /-- Takes escapes away; a backslash at the end joins the next line. -/
  unescaped : Bytes → List Marked × Bool
    | [] => ([], false)
    | b :: rest =>
      if b = Ascii.backslash then
        match rest with
        | [] => ([], true)
        | c :: rest =>
          let (marked, goesOn) := unescaped rest
          ((c, true) :: marked, goesOn)
      else
        let (marked, goesOn) := unescaped rest
        ((b, false) :: marked, goesOn)

/-- Whether a byte cuts fields and is a blank. -/
def isCuttingBlank (cuts : Bytes) (m : Marked) : Bool :=
  !m.2 && cuts.contains m.1 && defaultCuts.contains m.1

def isCutting (cuts : Bytes) (m : Marked) : Bool := !m.2 && cuts.contains m.1

/-- The first field of a line and what follows it and what ends it. -/
def firstField (cuts : Bytes) (line : List Marked) : List Marked × List Marked :=
  let field := line.takeWhile (!isCutting cuts ·)
  let rest := (line.drop field.length).dropWhile (isCuttingBlank cuts)
  let rest := match rest with
    | m :: after => if isCutting cuts m then after.dropWhile (isCuttingBlank cuts) else rest
    | [] => []
  (field, rest)

/-- The values that the fields of a line give to some names; the last one gets what is left. -/
def fieldValues (cuts : Bytes) : List Bytes → List Marked → List (Bytes × Bytes)
  | [], _ => []
  | [name], line =>
    let (field, rest) := firstField cuts line
    let whole := ((line.reverse.dropWhile (isCuttingBlank cuts)).reverse)
    [(name, (if rest.isEmpty then field else whole).map Prod.fst)]
  | name :: names, line =>
    let (field, rest) := firstField cuts line
    (name, field.map Prod.fst) :: fieldValues cuts names rest

/-- How many lines one may go on in. -/
def greatestLines : Nat := 100000

def read (arguments : List Bytes) : Run Nat := do
  let fuel := arguments.foldl (fun n s => n + s.length + 1) 1
  match Utility.options (bytes "r") (bytes "p") fuel arguments with
  | .error letter => failWith (bytes "read: Illegal option -" ++ [letter])
  | .ok (found, names) =>
    if names.isEmpty then failWith (bytes "read: arg count")
    let (line, ended) ← readLine (Utility.has found 'r') greatestLines
    let cuts := cutsOf (← getProcess)
    for (name, value) in fieldValues cuts names (line.dropWhile (isCuttingBlank cuts)) do
      if !isName name then failWith (bytes "read: " ++ name ++ bytes ": bad variable name")
      assign name value
    return if ended then 0 else 1

end LanguageClient.Shell.Builtin
