import LanguageClient.Shell.Expansion
import LanguageClient.Shell.Utility.Basic

/-!
What the commands of the shell itself have in common: how they take numbers and assignments, and
how they show texts and variables.
-/

namespace LanguageClient.Shell.Builtin

/-- The number of an argument, which has to be a natural one. -/
def numberArgument (name : String) (s : Bytes) : Run Nat := do
  match Digits.toNat? s with
  | some n =>
    if n < 2147483648 then return n
    else failWith (bytes name ++ bytes ": Illegal number: " ++ s)
  | none => failWith (bytes name ++ bytes ": Illegal number: " ++ s)

/-- A text between quotation marks as it can be read again. -/
def quoted (s : Bytes) : Bytes :=
  bytes "'" ++ s.flatMap (fun b => if b = 0x27 then bytes "'\"'\"'" else [b]) ++ bytes "'"

/-- The name and the value of an argument such as `a=b`. -/
def binding (s : Bytes) : Bytes × Option Bytes :=
  let name := s.takeWhile (· != 0x3D)
  (name, if name.length < s.length then some (s.drop (name.length + 1)) else none)

/-- Names in order. -/
def sorted (bindings : List (Bytes × Variable)) : List (Bytes × Variable) :=
  bindings.mergeSort fun a b => decide (a.1 ≤ b.1)

end LanguageClient.Shell.Builtin
