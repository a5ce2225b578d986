import LanguageClient.Shell.Builtin.Basic

/-!
The options of a shell, and the command `set`.
-/

namespace LanguageClient.Shell.Builtin

/-- The options by their names. -/
def optionNames : List (Bytes × Char) :=
  [("errexit", 'e'), ("noglob", 'f'), ("ignoreeof", 'I'), ("interactive", 'i'), ("monitor", 'm'),
    ("noexec", 'n'), ("stdin", 's'), ("xtrace", 'x'), ("verbose", 'v'), ("vi", 'V'),
    ("emacs", 'E'), ("noclobber", 'C'), ("allexport", 'a'), ("notify", 'b'), ("nounset", 'u'),
    ("privileged", 'p')].map
    fun (name, letter) => (bytes name, letter)

/-- The options that have names alone. Nothing depends on them. -/
def otherOptions : List Bytes := ["nolog", "debug"].map bytes

def isOption (b : UInt8) : Bool := optionNames.any fun o => Ascii.byte o.2 == b

def setOption (letter : UInt8) (on : Bool) : Run Unit :=
  modifyProcess fun p =>
    let letters := (optionNames.map fun o => Ascii.byte o.2).reverse
    { p with options := letters.filter fun b => if b = letter then on else p.options.contains b }

/-- Sets or clears the options of some letters. -/
def setLetters (name : Bytes) (on : Bool) (letters : Bytes) : Run Unit := do
  for b in letters do
    if isOption b then setOption b on
    else failWith (name ++ bytes "Illegal option -" ++ [b])

/-- Sets or clears the option of a name. -/
def setNamed (name : Bytes) (on : Bool) (option : Bytes) : Run Unit := do
  match optionNames.lookup option with
  | some letter => setOption (Ascii.byte letter) on
  | none =>
    unless otherOptions.contains option do
      failWith (name ++ bytes "Illegal option -o " ++ option)

/-- The options and whether they are set, as a table. -/
def optionTable (isSet : Char → Bool) (others : Bool) : Bytes :=
  let row (name : Bytes) (on : Bool) : Bytes :=
    name ++ List.replicate (16 - name.length) Ascii.space
      ++ bytes (if on then "on" else "off") ++ [Ascii.lf]
  bytes "Current option settings\n" ++ (optionNames.flatMap fun (name, letter) =>
    row name (isSet letter)) ++ otherOptions.flatMap (row · others)

/-- Sets options and the parameters. -/
def setting : List Bytes → Run Nat
  | [] => return 0
  | argument :: rest => do
    let parameters (values : List Bytes) : Run Nat := do
      modifyProcess fun p => { p with parameters := values }
      return 0
    match argument with
    | mark :: letters =>
      let on := mark == Ascii.minus
      if mark ≠ Ascii.minus ∧ mark ≠ Ascii.plus then parameters (argument :: rest)
      else if letters = [Ascii.minus] then parameters rest
      else if letters.isEmpty then
        if rest.isEmpty then return 0 else parameters rest
      else if letters.getLast? = some (Ascii.byte 'o') then
        setLetters (bytes "set: ") on letters.dropLast
        match rest with
        | [] =>
          let p ← getProcess
          Utility.emit (optionTable p.flag false)
        | option :: rest =>
          setNamed (bytes "set: ") on option
          setting rest
      else
        setLetters (bytes "set: ") on letters
        setting rest
    | [] => parameters (argument :: rest)

def set (arguments : List Bytes) : Run Nat := do
  if arguments.isEmpty then
    Utility.emit ((sorted (← getProcess).bindings).flatMap fun (name, v) =>
      match v.value with
      | some value => name ++ 0x3D :: quoted value ++ [Ascii.lf]
      | none => [])
  else setting arguments

end LanguageClient.Shell.Builtin
