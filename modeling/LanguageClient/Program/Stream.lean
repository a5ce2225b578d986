import LanguageClient.Bytes

/-!
Bytes that come over time. A `Stream` is what has come to a reader and was not read yet, and a
`Written` what processes have written to one place. What one process has written is the stream that
the next one reads (`Written.stream`).
-/

namespace LanguageClient.Program

/-- Points in time and spans, in nanoseconds. -/
abbrev Time := Nat

def millisecond : Time := 1000000

/-- What a reader has before it. -/
structure Stream where
  /-- Pieces and when each comes, in order. -/
  chunks : List (Time × Bytes) := []
  /-- When it ends; `none` if it may go on. -/
  ended : Option Time := none
  /-- A byte that comes again and again after the pieces. -/
  endless : Option UInt8 := none

namespace Stream

/-- A text that is there as a whole. -/
def ofBytes (s : Bytes) : Stream :=
  { chunks := if s.isEmpty then [] else [(0, s)], ended := some 0 }

/-- All that has not been read. -/
def unread (s : Stream) : Bytes := s.chunks.flatMap Prod.snd

/-- Takes up to `n` bytes of what has come by a time. -/
def takeArrived (time : Time) : Nat → List (Time × Bytes) → Bytes × List (Time × Bytes)
  | _, [] => ([], [])
  | n, (t, piece) :: rest =>
    if n = 0 ∨ time < t then ([], (t, piece) :: rest)
    else if n < piece.length then (piece.take n, (t, piece.drop n) :: rest)
    else
      let (more, left) := takeArrived time (n - piece.length) rest
      (piece ++ more, left)

/-- Waits until there is something, and takes it, up to `n` bytes. Takes nothing at the end. The
answer is `none` if nothing comes and the stream does not end. -/
def readSome (s : Stream) (clock : Time) (n : Nat) : Option (Time × Bytes × Stream) :=
  match s.chunks, s.endless, s.ended with
  | (t, piece) :: rest, _, _ =>
    let time := max clock t
    let (found, left) := takeArrived time n ((t, piece) :: rest)
    some (time, found, { s with chunks := left })
  | [], some b, _ => some (clock, List.replicate n b, s)
  | [], none, some t => some (max clock t, [], s)
  | [], none, none => none

/-- The bytes up to the first one of a kind, itself included, and what comes later; `none` if there
is none. -/
def split? (stop : UInt8) : List (Time × Bytes) → Option (Time × Bytes × List (Time × Bytes))
  | [] => none
  | (t, piece) :: rest =>
    let front := piece.takeWhile (· != stop)
    match piece.drop front.length with
    | b :: after =>
      some (t, front ++ [b], if after.isEmpty then rest else (t, after) :: rest)
    | [] => (split? stop rest).map fun (last, more, left) => (last, piece ++ more, left)

/-- Takes the bytes up to the first one of a kind, itself included, or all to the end. The answer
is `none` if neither comes. -/
def readTo (s : Stream) (clock : Time) (stop : UInt8) : Option (Time × Bytes × Stream) :=
  match split? stop s.chunks, s.ended with
  | some (t, found, left), _ => some (max clock t, found, { s with chunks := left })
  | none, some t =>
    some (s.chunks.foldl (fun time c => max time c.1) (max clock t), s.unread,
      { s with chunks := [] })
  | none, none => none

/-- Takes all to the end, if it ends. -/
def readAll (s : Stream) (clock : Time) : Option (Time × Bytes × Stream) :=
  match s.endless, s.ended with
  | none, some t => some (max clock t, s.unread, { s with chunks := [] })
  | _, _ => none

/-- The first `n` bytes of some pieces, when the last of them came, and what is left. -/
def takeFirst : Nat → List (Time × Bytes) → Time × Bytes × List (Time × Bytes)
  | _, [] => (0, [], [])
  | n, (t, piece) :: rest =>
    if n = 0 then (0, [], (t, piece) :: rest)
    else if n < piece.length then (t, piece.take n, (t, piece.drop n) :: rest)
    else
      let (last, more, left) := takeFirst (n - piece.length) rest
      (max t last, piece ++ more, left)

/-- Takes `n` bytes, or all to the end if there are fewer. -/
def readExactly (s : Stream) (clock : Time) (n : Nat) : Option (Time × Bytes × Stream) :=
  let (last, found, chunks) := takeFirst n s.chunks
  let missing := n - found.length
  let time := max clock last
  match s.endless, s.ended with
  | some b, _ => some (time, found ++ List.replicate missing b, { s with chunks })
  | none, some t => some (if missing = 0 then time else max time t, found, { s with chunks })
  | none, none => if missing = 0 then some (time, found, { s with chunks }) else none

end Stream

/-- What was written to one place: pieces, when and by which process, the latest first. -/
abbrev Written := List (Time × Nat × Bytes)

namespace Written

/-- Adds a piece. It comes after all that was written up to its time. -/
def push (w : Written) (time : Time) (writer : Nat) (s : Bytes) : Written :=
  match w with
  | [] => [(time, writer, s)]
  | (t, other, piece) :: rest =>
    if time < t then (t, other, piece) :: push rest time writer s
    else (time, writer, s) :: (t, other, piece) :: rest

/-- Takes back what a process has written after a time. -/
def retract (w : Written) (time : Time) (writer : Nat) : Written :=
  w.filter fun (t, other, _) => t ≤ time || other != writer

/-- The stream of a reader of this. -/
def stream (w : Written) (ended : Option Time) : Stream :=
  { chunks := (w.reverse.map fun (t, _, piece) => (t, piece)).filter (!·.2.isEmpty), ended }

/-- All that was written up to a time. -/
def upTo (w : Written) (time : Time) : Bytes :=
  (w.reverse.filter fun piece => piece.1 ≤ time).flatMap fun piece => piece.2.2

end Written

end LanguageClient.Program
