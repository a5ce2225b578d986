import LanguageClient.Frame

/-!
Taking frames out of a stream that arrives in pieces.

`feed` appends what has arrived and `next` takes the next body out, or the error of a header block
that announces none, or finds that more has to arrive. `drain` repeats `next` until it finds
nothing; it ends because every body and every error uses up at least one byte
(`buffered_next_lt`).
-/

namespace LanguageClient.Frame

/-- A stream that has been read up to a position. -/
structure Decoder where
  /-- Bytes received; those before `position` are used up. -/
  buffer : Bytes := []
  position : Nat := 0
  /-- The open header block. -/
  header : Header := {}
  /-- The length of the body that has to arrive, once its header block is closed. -/
  awaited : Option Length := none
  deriving DecidableEq

/-- What a stream yields. -/
inductive Outcome where
  | body (body : Bytes)
  | error (e : HeaderError)
  deriving DecidableEq

namespace Decoder

/-- The bytes that are not used up. -/
def rest (d : Decoder) : Bytes := d.buffer.drop d.position

/-- How many bytes are not used up. -/
def buffered (d : Decoder) : Nat := d.buffer.length - d.position

/-- The same stream without the bytes that are used up. -/
def compact (d : Decoder) : Decoder := { d with buffer := d.rest, position := 0 }

/-- Appends bytes that have arrived. -/
def feed (d : Decoder) (bytes : Bytes) : Decoder := { d with buffer := d.buffer ++ bytes }

/-- The result of one attempt to take something out. -/
@[ext] structure Step where
  decoder : Decoder
  /-- Nothing if more has to arrive. -/
  outcome : Option Outcome
  /-- The values of length lines that were ignored on the way. -/
  ignored : List Bytes

/-- Takes a body out if all of it has arrived. -/
def takeBody (d : Decoder) (length : Length) (ignored : List Bytes) : Step :=
  if d.buffered < length.size then ⟨d.compact, none, ignored⟩
  else
    ⟨{ d with position := d.position + length.size, awaited := none },
      some (.body (d.rest.take length.size)), ignored⟩

/-- The empty line of a header block that ends at `position`. -/
def closeHeader (d : Decoder) (position : Nat) (ignored : List Bytes) : Step :=
  let closed := { d with position, header := {} }
  match d.header.close with
  | .error e => ⟨closed.compact, some (.error e), ignored⟩
  | .ok length => { closed with awaited := some length }.takeBody length ignored

/-- Reads lines up to the end of the header block, then the body. `ignored` holds the values
ignored so far, the last one first. -/
def readHeader (d : Decoder) (ignored : List Bytes) : Step :=
  match _h : splitLine? d.rest with
  | none => ⟨d.compact, none, ignored.reverse⟩
  | some (line, _) =>
    let position := d.position + line.length + 1
    let content := withoutCr line
    if content.isEmpty then d.closeHeader position ignored.reverse
    else
      let (header, bad) := d.header.line content
      { d with position, header }.readHeader (bad.toList ++ ignored)
termination_by d.buffered
decreasing_by
  have := length_of_splitLine? _h
  simp only [rest, buffered, List.length_drop] at *
  omega

/-- Takes the next body or error out, if all of it has arrived. -/
def next (d : Decoder) : Step :=
  match d.awaited with
  | some length => d.takeBody length []
  | none => d.readHeader []

@[simp] theorem buffered_compact (d : Decoder) : d.compact.buffered = d.buffered := by
  simp [compact, buffered, rest]

theorem buffered_takeBody_lt {d : Decoder} {length : Length} {ignored : List Bytes}
    (h : (d.takeBody length ignored).outcome.isSome) :
    (d.takeBody length ignored).decoder.buffered < d.buffered := by
  have := length.pos
  unfold takeBody at h ⊢
  split
  · simp_all
  · simp_all only [buffered]
    omega

theorem buffered_closeHeader_lt {d : Decoder} {position : Nat} {ignored : List Bytes}
    (hp : d.position < position) (hb : position ≤ d.buffer.length)
    (h : (d.closeHeader position ignored).outcome.isSome) :
    (d.closeHeader position ignored).decoder.buffered < d.buffered := by
  have hlt : { d with position, header := {} }.buffered < d.buffered := by
    simp only [buffered]
    omega
  unfold closeHeader at h ⊢
  split at h <;> simp_all only
  · simpa using hlt
  · exact Nat.lt_trans (buffered_takeBody_lt h) hlt

theorem buffered_readHeader_lt {d : Decoder} {ignored : List Bytes}
    (h : (d.readHeader ignored).outcome.isSome) :
    (d.readHeader ignored).decoder.buffered < d.buffered := by
  fun_induction readHeader d ignored with
  | case1 => simp at h
  | case2 d ignored line rest hs =>
    have := length_of_splitLine? hs
    simp only [Decoder.rest, List.length_drop] at this
    exact buffered_closeHeader_lt (by omega) (by omega) h
  | case3 d ignored line rest hs position content _ header bad hl ih =>
    have := length_of_splitLine? hs
    simp only [Decoder.rest, List.length_drop] at this
    have := ih h
    simp only [buffered] at *
    omega

/-- Every body and every error uses up at least one byte. -/
theorem buffered_next_lt {d : Decoder} (h : d.next.outcome.isSome) :
    d.next.decoder.buffered < d.buffered := by
  unfold next at h ⊢
  cases hw : d.awaited with
  | some length =>
    simp only [hw] at h ⊢
    exact buffered_takeBody_lt h
  | none =>
    simp only [hw] at h ⊢
    exact buffered_readHeader_lt h

/-- Everything that a stream yields before more has to arrive. -/
structure Drained where
  /-- The attempts that gave a body or an error, in order. -/
  found : List Step
  /-- The attempt that gave nothing. -/
  last : Step

/-- Takes everything out that has arrived. -/
def drain (d : Decoder) : Drained :=
  let step := d.next
  if _h : step.outcome.isSome then
    let more := step.decoder.drain
    ⟨step :: more.found, more.last⟩
  else ⟨[], step⟩
termination_by d.buffered
decreasing_by exact buffered_next_lt _h

/-- The bodies and errors of a drained stream, in order. -/
def Drained.outcomes (drained : Drained) : List Outcome := drained.found.filterMap Step.outcome

end Decoder

end LanguageClient.Frame
