import LanguageClient.Channel.Writing

/-!
A pipe that holds a fixed number of pages, written by one side and emptied by the other.

A write first puts its odd bytes, those beyond a whole number of pages, behind what the newest
page holds, if they fit there; the rest takes fresh pages. So a write of at most one page is taken
whole or not at all, and a longer one as far as the pages go.
-/

namespace LanguageClient

structure Pipe where
  /-- How many pages it can hold. -/
  slots : Nat := 16
  /-- How full the pages in use are, the newest first. -/
  pages : List Nat := []
  content : Bytes := []
  /-- Somebody reads it. -/
  readerOpen : Bool := true

namespace Pipe

def pageSize : Nat := 4096

/-- A pipe that holds at least `capacity` bytes: the pages are as many as a power of two. -/
def ofCapacity (capacity : Nat) : Pipe :=
  { slots := (max pageSize capacity).nextPowerOfTwo / pageSize }

/-- How full fresh pages are that hold `n` bytes, the newest first. -/
def freshPages (n : Nat) : List Nat :=
  let full := List.replicate (n / pageSize) pageSize
  if n % pageSize = 0 then full else n % pageSize :: full

/-- How many of `n` bytes fresh pages take. -/
def freshRoom (p : Pipe) (n : Nat) : Nat := min n ((p.slots - p.pages.length) * pageSize)

/-- One write of `n` bytes: how many are taken, and how full the pages are then. -/
def accept (p : Pipe) (n : Nat) : Nat × Pipe :=
  let odd := n % pageSize
  let (merged, p) :=
    match p.pages with
    | newest :: older =>
      if 0 < odd ∧ newest + odd ≤ pageSize then
        (odd, { p with pages := (newest + odd) :: older })
      else (0, p)
    | [] => (0, p)
  let fresh := p.freshRoom (n - merged)
  (merged + fresh, { p with pages := freshPages fresh ++ p.pages })

/-- How writing `n` bytes goes while nobody reads them. `whenFull` is what comes after the pipe is
full. -/
def answers (p : Pipe) (n : Nat) (whenFull : List Channel.Answer) : List Channel.Answer :=
  if !p.readerOpen then [.broken]
  else if _hn : n = 0 then []
  else
    let (taken, p) := p.accept n
    if _ht : taken = 0 then whenFull else .took taken :: p.answers (n - taken) whenFull
termination_by n

/-- Adds bytes that were taken in pieces, as `answers` describes. -/
def fill (p : Pipe) (taken : List Channel.Answer) (bytes : Bytes) : Pipe :=
  let pages := taken.foldl (fun (p : Pipe) a =>
    match a with
    | .took n => (p.accept n).2
    | _ => p) p
  { pages with content := p.content ++ bytes }

end Pipe

end LanguageClient
