import LanguageClient.Shell.Fork

/-!
Redirections: what descriptors stand for while a command is run.
-/

namespace LanguageClient.Shell

/-- What is said about a file that cannot be opened to be read. -/
def cannotOpen (path : Bytes) : FileError → Bytes
  | .absent | .noFolder => bytes "cannot open " ++ path ++ bytes ": No such file"
  | .isFolder => bytes "cannot open " ++ path ++ bytes ": Is a directory"
  | .notFolder => bytes "cannot open " ++ path ++ bytes ": Not a directory"
  | .tooLong => bytes "cannot open " ++ path ++ bytes ": File name too long"

/-- What is said about a file that cannot be opened to be written. -/
def cannotCreate (path : Bytes) : FileError → Bytes
  | .absent | .noFolder => bytes "cannot create " ++ path ++ bytes ": Directory nonexistent"
  | .isFolder => bytes "cannot create " ++ path ++ bytes ": Is a directory"
  | .notFolder => bytes "cannot create " ++ path ++ bytes ": Not a directory"
  | .tooLong => bytes "cannot create " ++ path ++ bytes ": File name too long"

/-- Gives a descriptor what opening a file has given. -/
def redirectOpened (descriptor : Nat) (opened : Except FileError Target)
    (say : FileError → Bytes) : Run Bool := do
  match opened with
  | .ok target =>
    redirectTo descriptor target
    return true
  | .error e =>
    report (say e)
    return false

/-- Carries out one redirection. The answer is false if it fails. -/
def redirect (eval : Eval) (r : Redirect) : Run Bool := do
  let .mk descriptor kind word := r
  match kind with
  | .document number =>
    let word := ((← getProcess).documents.lookup number).getD []
    let text := joinedText (← segments (substitute eval) wordDepth false word)
    redirectTo descriptor (← addReader (.ofBytes text))
    return true
  | .copy =>
    let text ← expandText (substitute eval) word
    if text = [Ascii.minus] then
      modifyProcess fun p => { p with descriptors := p.descriptors.filter (·.1 != descriptor) }
      return true
    else
      match text.length, Digits.toNat? text with
      | 1, some n =>
        match (← getProcess).descriptors.lookup n with
        | some target =>
          redirectTo descriptor target
          return true
        | none =>
          report (text ++ bytes ": Bad file descriptor")
          return false
      | _, _ => failWith (bytes "Syntax error: Bad fd number")
  | .input =>
    let path ← expandText (substitute eval) word
    redirectOpened descriptor (← openInput path) (cannotOpen path)
  | .update =>
    let path ← expandText (substitute eval) word
    redirectOpened descriptor (← openInput path) (cannotOpen path)
  | .output =>
    let path ← expandText (substitute eval) word
    if (← getProcess).flag 'C' && (← entryAt? path) == some .plain then
      report (bytes "cannot create " ++ path ++ bytes ": File exists")
      return false
    redirectOpened descriptor (← openOutput path false) (cannotCreate path)
  | .replace =>
    let path ← expandText (substitute eval) word
    redirectOpened descriptor (← openOutput path false) (cannotCreate path)
  | .append =>
    let path ← expandText (substitute eval) word
    redirectOpened descriptor (← openOutput path true) (cannotCreate path)

/-- Carries out redirections up to the first that fails. -/
def redirectAll (eval : Eval) : List Redirect → Run Bool
  | [] => return true
  | r :: rest => do if ← redirect eval r then redirectAll eval rest else return false

/-- Runs something and undoes what has become of the descriptors. -/
def keepingDescriptors (body : Run Nat) : Run Nat := do
  let before := (← getProcess).descriptors
  let result ← attempt body
  modifyProcess fun p => { p with descriptors := before }
  match result with
  | .ok n => return n
  | .error e => throw e

end LanguageClient.Shell
