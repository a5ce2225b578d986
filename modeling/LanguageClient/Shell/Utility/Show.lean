import LanguageClient.Shell.Utility.Basic

/-!
Programs that show their input or a part of it: `cat` and `head`. They read it piece by piece where it
may come slowly.
-/

namespace LanguageClient.Shell.Utility

open Program (Stream)
open Program.Text (lines)

/-- Shows a source piece by piece. `before` is what was read before it, and `make` what is shown of
all that has been read; it only grows. The answer is what has been read, and whether it could be
written. -/
def showFrom (source : Option Target) (make : Bytes → Bytes) :
    Nat → Bytes → Run (Option (Bytes × Bool))
  | 0, before => return some (before, true)
  | n + 1, before => do
    match ← readFrom source fun s clock => s.readSome clock blockSize with
    | none => return none
    | some [] => return some (before, true)
    | some piece =>
      let after := before ++ piece
      if ← write 1 ((make after).drop (make before).length) then showFrom source make n after
      else return some (after, false)

/-- Shows operands one after another. -/
def showAll (make : Bytes → Bytes) : List Bytes → Bytes → Run Nat
  | [], _ => return 0
  | operand :: rest, before => do
    match ← source operand with
    | .error e =>
      complain (bytes "cat: " ++ operand ++ bytes ": " ++ cause e)
      let _ ← showAll make rest before
      return 1
    | .ok target =>
      match ← showFrom target make (← readings target) before with
      | none =>
        complain (bytes "cat: " ++ operand ++ readingFault target)
        let _ ← showAll make rest before
        return 1
      | some (_, false) => return 1
      | some (after, true) => showAll make rest after

def cat (arguments : List Bytes) : Run Nat :=
  withOptions "cat" "nbsETAvetu" "" arguments fun found operands => do
    let all := has found 'A'
    let shown : Program.Text.Shown :=
      { number := has found 'n', onlyFilled := has found 'b', squeeze := has found 's'
        ends := has found 'E' || has found 'e' || all
        tabs := has found 'T' || has found 't' || all
        visible := has found 'v' || has found 'e' || has found 't' || all }
    let isPlain := found.all (·.1 == Ascii.byte 'u')
    let make (s : Bytes) : Bytes := if isPlain then s else shown.text 1 false (lines s)
    showAll make (if operands.isEmpty then [bytes "-"] else operands) []

/-! ### Parts of the input -/

/-- Old options such as `-5` as `-n 5`. -/
def withCount (arguments : List Bytes) : List Bytes :=
  match arguments with
  | (mark :: digits) :: rest =>
    if (Digits.toNat? digits).isNone then arguments
    else if mark = Ascii.minus then (bytes "-n" ++ digits) :: rest
    else if mark = Ascii.plus then (bytes "-n+" ++ digits) :: rest
    else arguments
  | _ => arguments

/-- The number that a count begins with, and the factor after it. -/
def count? (s : Bytes) : Option Nat :=
  let digits := s.takeWhile Digits.isDigit
  let factor :=
    [(bytes "", 1), (bytes "b", 512), (bytes "c", 1), (bytes "k", 1024), (bytes "K", 1024),
      (bytes "kB", 1000), (bytes "M", 1048576), (bytes "MB", 1000000)].lookup
      (s.drop digits.length)
  (Digits.toNat? digits).bind fun n => factor.map (n * ·)

/-- How many bytes `head` reads at once when it looks for lines. -/
def headBlock : Nat := 8192

/-- Reads blocks until they hold some lines. What follows these is lost. -/
def readLines (source : Option Target) : Nat → Nat → Run Bytes
  | 0, _ => return []
  | _, 0 => return []
  | fuel + 1, n => do
    match (← readFrom source fun s clock => s.readSome clock headBlock).getD [] with
    | [] => return []
    | piece =>
      let found := (lines piece).take n
      let ended := found.countP fun line => line.getLast? == some Ascii.lf
      return found.flatten ++ (← readLines source fuel (n - ended))

/-- The first lines or bytes of a source. -/
def headOf (source : Option Target) (ofLines : Bool) (n : Nat) (fromEnd : Bool) : Run Bytes := do
  if fromEnd then
    let s := (← readFrom source Stream.readAll).getD []
    if ofLines then
      let all := lines s
      return (all.take (all.length - n)).flatten
    else return s.take (s.length - n)
  else if ofLines then readLines source ((← readings source) * 16 + n + 2) n
  else return (← readFrom source fun s clock => s.readExactly clock n).getD []

/-- Shows a part of each operand, after its name if that is wanted or there are several. -/
def parts (name : String) (found : List (UInt8 × Bytes)) (operands : List Bytes)
    (part : Option Target → Run Bytes) : Run Nat := do
  let named := has found 'v' || (1 < operands.length && !has found 'q')
  let operands := if operands.isEmpty then [bytes "-"] else operands
  let results ← operands.zipIdx.mapM fun (operand, i) => do
    match ← source operand with
    | .error e =>
      complain (bytes name ++ bytes ": cannot open " ++ operand.inQuotes ++ bytes " for reading: "
        ++ cause e)
      return 1
    | .ok target =>
      let title := if operand = bytes "-" then bytes "standard input" else operand
      let front :=
        if named then
          (if i = 0 then [] else [Ascii.lf]) ++ bytes "==> " ++ title ++ bytes " <==\n"
        else []
      let text ← part target
      emit (front ++ text)
  return if results.all (· == 0) then 0 else 1

def head (arguments : List Bytes) : Run Nat :=
  withOptions "head" "qv" "nc" (withCount arguments) fun found operands => do
    let ofLines := (value? found 'c').isNone
    let text := ((value? found 'c').or (value? found 'n')).getD (bytes "10")
    let fromEnd := text.head? == some Ascii.minus
    match count? (if fromEnd then text.tail else text) with
    | none =>
      refuse "head" (bytes "invalid number of " ++ bytes (if ofLines then "lines" else "bytes")
        ++ bytes ": '" ++ text ++ bytes "'") 1
    | some n => parts "head" found operands fun target => headOf target ofLines n fromEnd

end LanguageClient.Shell.Utility
