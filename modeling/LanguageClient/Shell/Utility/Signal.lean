import LanguageClient.Program.Format
import LanguageClient.Shell.Utility.Basic

/-!
Programs that let time pass and that send signals: `sleep` and `kill`.
-/

namespace LanguageClient.Shell.Utility

open Program (Time millisecond)

/-- A span of time: a number with a fraction and a unit. -/
def span? (s : Bytes) : Option Time :=
  let whole := s.takeWhile Digits.isDigit
  let after := s.drop whole.length
  let isPointed := after.head? == some Ascii.point
  let fraction := if isPointed then after.tail.takeWhile Digits.isDigit else []
  let unit := if isPointed then after.drop (fraction.length + 1) else after
  let seconds :=
    [(bytes "", 1), (bytes "s", 1), (bytes "m", 60), (bytes "h", 3600), (bytes "d", 86400)].lookup
      unit
  if whole.isEmpty && fraction.isEmpty then none
  else
    seconds.map fun n =>
      let billionths := (fraction ++ bytes "000000000").take 9
      n * (1000 * millisecond * Digits.toNat whole + Digits.toNat billionths)

def sleep (arguments : List Bytes) : Run Nat := do
  match arguments with
  | [] => refuse "sleep" (bytes "missing operand") 1
  | _ =>
    if arguments.any fun s => s == bytes "inf" || s == bytes "infinity" then waitForever
    match arguments.mapM span? with
    | some spans =>
      waitUntil ((← getProcess).clock + spans.foldl (· + ·) 0)
      return 0
    | none =>
      let bad := (arguments.find? fun s => (span? s).isNone).getD []
      refuse "sleep" (bytes "invalid time interval '" ++ bad ++ bytes "'") 1

/-- The number of a signal that is given by its number or its name. -/
def signal? (s : Bytes) : Option Nat :=
  match Digits.toNat? s with
  | some n => if n ≤ greatestSignal then some n else none
  | none =>
    let name := Program.capitals s
    if name = bytes "EXIT" then some 0
    else signals.lookup ((Bytes.after? (bytes "SIG") name).getD name)

/-- The signal that the arguments of `kill` name, and its targets. The error is a name that no
signal has. -/
def killArguments : List Bytes → Except Bytes (Nat × List Bytes)
  | [] => .ok (15, [])
  | first :: rest =>
    let named (name : Bytes) (targets : List Bytes) : Except Bytes (Nat × List Bytes) :=
      let targets := if targets.head? = some (bytes "--") then targets.tail else targets
      match signal? name with
      | some n => .ok (n, targets)
      | none => .error name
    match Bytes.after? (bytes "-") first with
    | none => .ok (15, first :: rest)
    | some name =>
      if name = bytes "-" then .ok (15, rest)
      else if name = bytes "s" ∨ name = bytes "n" then
        match rest with
        | [] => .error []
        | name :: targets => named name targets
      else named name rest

/-- The name of a signal, which may be given as the status of a process that it has ended. -/
def signalName (n : Nat) : Bytes :=
  let n := if 128 < n then n - 128 else n
  ((signals.find? (·.2 == n)).map Prod.fst).getD (Digits.ofNat n)

/-- Sends a signal to targets one after another; `0` if all were found. -/
def killAll (name : String) (number : Nat) (targets : List Bytes) : Run Nat := do
  let results ← targets.mapM fun target => do
    match decimal? target with
    | none => refuse name (bytes "cannot find process " ++ target) 1
    | some id =>
      if ← sendSignal id.toNat number then return 0
      else refuse name (bytes "No such process") 1
  return results.foldl max 0

def kill (arguments : List Bytes) : Run Nat := do
  match arguments with
  | first :: rest =>
    if first = bytes "-l" then
      emit (rest.flatMap fun s =>
        (match signal? s with
          | some n => if (Digits.toNat? s).isSome then signalName n else Digits.ofNat n
          | none => s) ++ [Ascii.lf])
    else
      match killArguments arguments with
      | .error name => refuse "kill" (bytes "unknown signal " ++ name) 1
      | .ok (_, []) => refuse "kill" (bytes "not enough arguments") 1
      | .ok (number, targets) => killAll "kill" number targets
  | [] => refuse "kill" (bytes "not enough arguments") 1

end LanguageClient.Shell.Utility
