import LanguageClient.Proofs.Frame.Resumption
import LanguageClient.Proofs.Message.Throwing

/-!
# What is thrown while frames are taken out

A decoder cuts parts out of texts, and a cut behind the end of a text is an error of its own. An
`attempt` is `next` with each cut at its own risk. A decoder whose position lies within its buffer
throws nothing but the errors of header blocks (`attempt_eq`), and only those and bodies let a read
loop go on (`buffered_attempt_lt`).
-/

namespace LanguageClient.Frame

/-- A part of a text. -/
def cut (s : Bytes) (position count : Nat) : Except Thrown Bytes :=
  if position ≤ s.length then .ok ((s.drop position).take count) else .error .outOfRange

theorem cut_of_le {s : Bytes} {position : Nat} (h : position ≤ s.length) (count : Nat) :
    cut s position count = .ok ((s.drop position).take count) := if_pos h

/-- One line of a header block more. -/
def Header.lineAtRisk (h : Header) (line : Bytes) : Except Thrown Header := do
  let field ← cut line 0 lengthField.length
  if field ≠ lengthField then return h
  let value ← cut line lengthField.length line.length
  match Length.read? (Bytes.trim value) with
  | some length => return { h with length := some length }
  | none => return { h with invalid := Bytes.trim value }

/-- The value is cut out behind its field only. -/
theorem Header.lineAtRisk_eq (h : Header) (line : Bytes) :
    h.lineAtRisk line = .ok (h.line line).1 := by
  unfold lineAtRisk Header.line Bytes.after?
  rw [cut_of_le (Nat.zero_le _), Reading.ok_bind, List.drop_zero]
  by_cases hfield : lengthField.isPrefixOf line = true
  · have hprefix := List.isPrefixOf_iff_prefix.mp hfield
    have hle : lengthField.length ≤ line.length := hprefix.length_le
    have htake : line.take lengthField.length = lengthField :=
      (List.prefix_iff_eq_take.mp hprefix).symm
    have hvalue : (line.drop lengthField.length).take line.length = line.drop lengthField.length :=
      List.take_of_length_le (by simp)
    rw [if_pos hfield, htake, cut_of_le hle, hvalue]
    simp only [ne_eq, not_true_eq_false, if_false, Reading.ok_bind]
    cases Length.read? (Bytes.trim (line.drop lengthField.length)) <;> rfl
  · have htake : line.take lengthField.length ≠ lengthField := by
      intro heq
      exact hfield (List.isPrefixOf_iff_prefix.mpr (List.prefix_iff_eq_take.mpr heq.symm))
    rw [if_neg hfield]
    exact if_pos htake

namespace Decoder

variable {d : Decoder} {length : Length} {line rest : Bytes}

/-- The decoder after an attempt, and the body, the finding that more has to arrive, or what is
thrown. -/
abbrev Attempt := Decoder × Except Thrown (Option Bytes)

def Step.attempt (s : Step) : Attempt :=
  (s.decoder,
    match s.outcome with
    | none => .ok none
    | some (.body raw) => .ok (some raw)
    | some (.error e) => .error (.frame (.header e)))

def bodyAtRisk (d : Decoder) (length : Length) : Attempt :=
  -- How many bytes are left is a word that wraps around behind the end of the buffer.
  if d.position ≤ d.buffer.length ∧ d.buffered < length.size then (d.compact, .ok none)
  else
    match cut d.buffer d.position length.size with
    | .error t => (d, .error t)
    | .ok raw =>
      ({ d with position := d.position + length.size, awaited := none }, .ok (some raw))

def headerAtRisk (d : Decoder) : Attempt :=
  match _h : splitLine? d.rest with
  | none => (d.compact, .ok none)
  | some (line, _) =>
    let position := d.position + line.length + 1
    let content := withoutCr line
    if content.isEmpty then
      let closed := { d with position, header := {} }
      match d.header.close with
      | .error e => (closed.compact, .error (.frame (.header e)))
      | .ok length => { closed with awaited := some length }.bodyAtRisk length
    else
      match d.header.lineAtRisk content with
      | .error t => ({ d with position }, .error t)
      | .ok header => { d with position, header }.headerAtRisk
termination_by d.buffered
decreasing_by
  have := length_of_splitLine? _h
  simp only [Decoder.rest, buffered, List.length_drop] at *
  omega

/-- `next` with each cut at its own risk. -/
def attempt (d : Decoder) : Attempt :=
  match d.awaited with
  | some length => d.bodyAtRisk length
  | none => d.headerAtRisk

theorem bodyAtRisk_of_placed (h : d.Placed) (length : Length) (ignored : List Bytes) :
    d.bodyAtRisk length = (d.takeBody length ignored).attempt := by
  unfold bodyAtRisk takeBody
  rw [cut_of_le h]
  by_cases hlt : d.buffered < length.size
  · rw [if_pos ⟨h, hlt⟩, if_pos hlt]
    rfl
  · rw [if_neg fun hboth => hlt hboth.2, if_neg hlt]
    rfl

theorem bodyAtRisk_of_not_placed (h : ¬ d.Placed) (length : Length) :
    d.bodyAtRisk length = (d, .error .outOfRange) := by
  have h' : ¬ d.position ≤ d.buffer.length := h
  unfold bodyAtRisk cut
  rw [if_neg fun hboth => h' hboth.1, if_neg h']

theorem headerAtRisk_of_eq_none (h : splitLine? d.rest = none) :
    d.headerAtRisk = (d.compact, .ok none) := by
  rw [headerAtRisk]
  split <;> simp_all

theorem headerAtRisk_of_isEmpty (h : splitLine? d.rest = some (line, rest))
    (he : (withoutCr line).isEmpty) (ignored : List Bytes) :
    d.headerAtRisk = (d.closeHeader (d.position + line.length + 1) ignored).attempt := by
  have hplaced : Placed { d with position := d.position + line.length + 1, header := {} } :=
    position_pastLine_le h
  rw [headerAtRisk]
  split
  · simp_all
  · rename_i line' rest' heq
    cases h.symm.trans heq
    rw [if_pos he]
    unfold closeHeader
    cases d.header.close with
    | error e => rfl
    | ok length =>
      exact bodyAtRisk_of_placed (d := { d with position := _, header := {}, awaited := some length })
        hplaced length ignored

theorem headerAtRisk_of_not_isEmpty (h : splitLine? d.rest = some (line, rest))
    (he : (withoutCr line).isEmpty = false) : d.headerAtRisk = (d.pastLine line).headerAtRisk := by
  rw [headerAtRisk]
  split
  · simp_all
  · rename_i line' rest' heq
    cases h.symm.trans heq
    simp only [he, Header.lineAtRisk_eq]
    rfl

theorem headerAtRisk_eq (d : Decoder) (ignored : List Bytes) :
    d.headerAtRisk = (d.readHeader ignored).attempt := by
  induction d, ignored using readHeader_lines with
  | part d ignored hs =>
    rw [readHeader_of_eq_none hs, headerAtRisk_of_eq_none hs]
    rfl
  | blank d ignored line rest hs he =>
    rw [readHeader_of_isEmpty hs he, headerAtRisk_of_isEmpty hs he]
  | more d ignored line rest hs he ih =>
    rw [readHeader_of_not_isEmpty hs he, headerAtRisk_of_not_isEmpty hs he, ih]

/-- An attempt is `next`, unless the position lies behind the end. -/
theorem attempt_cases (d : Decoder) :
    d.attempt = d.next.attempt ∨ (¬ d.Placed ∧ d.attempt = (d, .error .outOfRange)) := by
  unfold attempt
  cases hw : d.awaited with
  | none => exact .inl (next_of_awaited_eq_none hw ▸ headerAtRisk_eq d [])
  | some length =>
    by_cases hp : d.Placed
    · exact .inl (next_of_awaited_eq_some hw ▸ bodyAtRisk_of_placed hp length [])
    · exact .inr ⟨hp, bodyAtRisk_of_not_placed hp length⟩

theorem attempt_eq (h : d.Placed) : d.attempt = d.next.attempt :=
  d.attempt_cases.resolve_right fun hcut => hcut.1 h

theorem isSome_outcome_of_attempt {s : Step} (h : s.attempt.2 ≠ .ok none) : s.outcome.isSome := by
  cases hs : s.outcome with
  | none => simp [Step.attempt, hs] at h
  | some o => rfl

/-- A body, and an error that is caught, use up at least one byte. -/
theorem buffered_attempt_lt (h : d.attempt.2 ≠ .ok none) (h' : d.attempt.2 ≠ .error .outOfRange) :
    d.attempt.1.buffered < d.buffered := by
  rcases d.attempt_cases with heq | ⟨-, heq⟩
  · rw [heq] at h ⊢
    exact buffered_next_lt (isSome_outcome_of_attempt h)
  · exact absurd (congrArg Prod.snd heq) h'

end Decoder

end LanguageClient.Frame
