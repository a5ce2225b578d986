import LanguageClient.Frame.Decoder

/-!
# A stream that is cut

What `Decoder.next` makes of a stream that has been cut at an arbitrary place.

* `Decoder.next_congr`: decoders with the same unused bytes, the same open header block and the
  same awaited length, that is with one `compact` form, answer alike.
* `Decoder.next_feed_of_isSome`: what has been found stays found when more bytes arrive.
* `Decoder.next_feed_of_eq_none`: an attempt that found nothing is resumed where it stopped; the
  values that it ignored are not ignored a second time.

All three hold of decoders whose position lies within their buffer (`Decoder.Placed`), as that of
every decoder does that is only fed and asked (`Placed.empty`, `Placed.feed`, `Placed.next`).
-/

namespace LanguageClient.Frame.Decoder

variable {d e : Decoder} {length : Length} {ignored : List Bytes} {line rest : Bytes}

/-! ### Unused bytes -/

/-- The position lies within the buffer. -/
def Placed (d : Decoder) : Prop := d.position ≤ d.buffer.length

theorem Placed.empty : Placed {} := Nat.le_refl 0

theorem Placed.feed (h : d.Placed) (bytes : Bytes) : (d.feed bytes).Placed := by
  simp only [Placed, Decoder.feed, List.length_append] at *
  omega

theorem Placed.compact (d : Decoder) : d.compact.Placed := Nat.zero_le _

@[simp] theorem length_rest (d : Decoder) : d.rest.length = d.buffered := List.length_drop

@[simp] theorem compact_compact (d : Decoder) : d.compact.compact = d.compact := rfl

theorem compact_eq_self (h : d.position = 0) : d.compact = d := by
  cases d
  simp_all [compact, Decoder.rest]

theorem rest_feed (h : d.Placed) (bytes : Bytes) : (d.feed bytes).rest = d.rest ++ bytes :=
  List.drop_append_of_le_length h

theorem compact_feed (h : d.Placed) (bytes : Bytes) :
    (d.feed bytes).compact = d.compact.feed bytes := by
  simp only [compact, rest_feed h]
  rfl

theorem feed_nil (d : Decoder) : d.feed [] = d := by simp [feed]

theorem feed_feed (d : Decoder) (s t : Bytes) : (d.feed s).feed t = d.feed (s ++ t) := by
  simp [feed]

theorem compact_eq_compact_iff :
    d.compact = e.compact ↔ d.rest = e.rest ∧ d.header = e.header ∧ d.awaited = e.awaited := by
  simp [compact]

/-! ### The steps of `next` -/

/-- The step with a decoder that holds unused bytes only. -/
def Step.compact (s : Step) : Step := { s with decoder := s.decoder.compact }

theorem Step.compact_eq_compact_iff {s t : Step} :
    s.compact = t.compact ↔
      s.outcome = t.outcome ∧ s.ignored = t.ignored ∧ s.decoder.compact = t.decoder.compact := by
  simp only [Step.compact, Step.mk.injEq]
  exact ⟨fun ⟨hd, ho, hi⟩ => ⟨ho, hi, hd⟩, fun ⟨ho, hi, hd⟩ => ⟨hd, ho, hi⟩⟩

/-- The step with more bytes behind it. -/
def Step.feed (s : Step) (bytes : Bytes) : Step := { s with decoder := s.decoder.feed bytes }

/-- The step after others that have ignored some values. -/
def Step.after (s : Step) (before : List Bytes) : Step := { s with ignored := before ++ s.ignored }

/-- The decoder behind a line that is not empty. -/
def pastLine (d : Decoder) (line : Bytes) : Decoder :=
  { d with
    position := d.position + line.length + 1
    header := (d.header.line (withoutCr line)).1 }

theorem readHeader_of_eq_none (h : splitLine? d.rest = none) :
    d.readHeader ignored = ⟨d.compact, none, ignored.reverse⟩ := by
  rw [readHeader]
  split <;> simp_all

theorem readHeader_of_isEmpty (h : splitLine? d.rest = some (line, rest))
    (he : (withoutCr line).isEmpty) :
    d.readHeader ignored = d.closeHeader (d.position + line.length + 1) ignored.reverse := by
  rw [readHeader]
  split <;> simp_all

theorem readHeader_of_not_isEmpty (h : splitLine? d.rest = some (line, rest))
    (he : (withoutCr line).isEmpty = false) :
    d.readHeader ignored = (d.pastLine line).readHeader
      ((d.header.line (withoutCr line)).2.toList ++ ignored) := by
  rw [readHeader]
  split <;> simp_all [pastLine]

theorem next_of_awaited_eq_some (h : d.awaited = some length) :
    d.next = d.takeBody length [] := by
  simp only [next, h]

theorem next_of_awaited_eq_none (h : d.awaited = none) : d.next = d.readHeader [] := by
  simp only [next, h]

/-- A new decoder finds nothing. -/
theorem next_empty : next {} = ⟨{}, none, []⟩ := by
  rw [next_of_awaited_eq_none rfl, readHeader_of_eq_none rfl]
  rfl

/-- Induction along the lines of a header block. -/
theorem readHeader_lines {motive : Decoder → List Bytes → Prop}
    (part : ∀ d ignored, splitLine? d.rest = none → motive d ignored)
    (blank : ∀ d ignored line rest, splitLine? d.rest = some (line, rest) →
      (withoutCr line).isEmpty → motive d ignored)
    (more : ∀ d ignored line rest, splitLine? d.rest = some (line, rest) →
      (withoutCr line).isEmpty = false →
      motive (d.pastLine line) ((d.header.line (withoutCr line)).2.toList ++ ignored) →
      motive d ignored)
    (d : Decoder) (ignored : List Bytes) : motive d ignored := by
  fun_induction readHeader d ignored with
  | case1 d ignored hs => exact part d ignored hs
  | case2 d ignored line rest hs position content he =>
    exact blank d ignored line rest hs he
  | case3 d ignored line rest hs position content he header bad hl ih =>
    have hl : d.header.line (withoutCr line) = (header, bad) := hl
    refine more d ignored line rest hs (by simpa using he) ?_
    rw [pastLine, hl]
    exact ih

/-! ### The position stays within the buffer -/

theorem position_pastLine_le (h : splitLine? d.rest = some (line, rest)) :
    d.position + line.length + 1 ≤ d.buffer.length := by
  have := length_of_splitLine? h
  simp only [length_rest, buffered] at this
  omega

theorem Placed.pastLine (h : splitLine? d.rest = some (line, rest)) : (d.pastLine line).Placed :=
  position_pastLine_le h

theorem Placed.takeBody (h : d.Placed) (length : Length) (ignored : List Bytes) :
    (d.takeBody length ignored).decoder.Placed := by
  unfold Decoder.takeBody
  split
  · exact Placed.compact d
  · simp only [Placed, buffered] at *
    omega

theorem Placed.closeHeader {position : Nat} (h : position ≤ d.buffer.length)
    (ignored : List Bytes) : (d.closeHeader position ignored).decoder.Placed := by
  unfold Decoder.closeHeader
  split
  · exact Placed.compact _
  · exact Placed.takeBody (d := { d with position, header := {}, awaited := _ }) h _ _

theorem Placed.readHeader (h : d.Placed) (ignored : List Bytes) :
    (d.readHeader ignored).decoder.Placed := by
  induction d, ignored using readHeader_lines with
  | part d ignored hs =>
    rw [readHeader_of_eq_none hs]
    exact Placed.compact d
  | blank d ignored line rest hs he =>
    rw [readHeader_of_isEmpty hs he]
    exact Placed.closeHeader (position_pastLine_le hs) _
  | more d ignored line rest hs he ih =>
    rw [readHeader_of_not_isEmpty hs he]
    exact ih (Placed.pastLine hs)

theorem Placed.next (h : d.Placed) : d.next.decoder.Placed := by
  unfold Decoder.next
  split
  · exact h.takeBody _ _
  · exact h.readHeader _

/-! ### Only the unused bytes count -/

theorem compact_moved (d : Decoder) (n : Nat) (header : Header) (awaited : Option Length) :
    compact { d with position := d.position + n, header, awaited }
      = { buffer := d.rest.drop n, header, awaited } := by
  simp only [compact, rest, List.drop_drop]

theorem takeBody_congr (h : d.compact = e.compact) :
    (d.takeBody length ignored).compact = (e.takeBody length ignored).compact := by
  obtain ⟨hr, hh, ha⟩ := compact_eq_compact_iff.mp h
  have hb : d.buffered = e.buffered := by rw [← length_rest, ← length_rest, hr]
  unfold takeBody
  rw [hb, hr]
  split
  · simp only [Step.compact, compact_compact, h]
  · rw [Step.compact, Step.compact, compact_moved, compact_moved, hr, hh]

theorem closeHeader_congr (h : d.compact = e.compact) (n : Nat) :
    (d.closeHeader (d.position + n) ignored).compact
      = (e.closeHeader (e.position + n) ignored).compact := by
  obtain ⟨hr, hh, ha⟩ := compact_eq_compact_iff.mp h
  have hclosed (awaited : Option Length) :
      { d with position := d.position + n, header := {}, awaited }.compact
        = { e with position := e.position + n, header := {}, awaited }.compact := by
    rw [compact_moved, compact_moved, hr]
  unfold closeHeader
  rw [hh, ha]
  split
  · simp only [Step.compact, compact_compact, hclosed]
  · exact takeBody_congr (hclosed _)

theorem compact_pastLine_congr (h : d.compact = e.compact) (line : Bytes) :
    (d.pastLine line).compact = (e.pastLine line).compact := by
  obtain ⟨hr, hh, ha⟩ := compact_eq_compact_iff.mp h
  simp only [pastLine, Nat.add_assoc]
  rw [compact_moved, compact_moved, hr, hh, ha]

theorem readHeader_congr (h : d.compact = e.compact) :
    (d.readHeader ignored).compact = (e.readHeader ignored).compact := by
  induction d, ignored using readHeader_lines generalizing e with
  | part d ignored hs =>
    have hr := (compact_eq_compact_iff.mp h).1
    rw [readHeader_of_eq_none hs, readHeader_of_eq_none (d := e) (hr ▸ hs)]
    simp only [Step.compact, compact_compact, h]
  | blank d ignored line rest hs he =>
    have hr := (compact_eq_compact_iff.mp h).1
    rw [readHeader_of_isEmpty hs he, readHeader_of_isEmpty (d := e) (hr ▸ hs) he]
    exact closeHeader_congr h (line.length + 1)
  | more d ignored line rest hs he ih =>
    obtain ⟨hr, hh, -⟩ := compact_eq_compact_iff.mp h
    rw [readHeader_of_not_isEmpty hs he, readHeader_of_not_isEmpty (d := e) (hr ▸ hs) he, ← hh]
    exact ih (compact_pastLine_congr h line)

/-- Decoders that differ in bytes they have used up only answer alike. -/
theorem next_congr (h : d.compact = e.compact) : d.next.compact = e.next.compact := by
  have ha := (compact_eq_compact_iff.mp h).2.2
  unfold next
  rw [ha]
  split
  · exact takeBody_congr h
  · exact readHeader_congr h

/-! ### Values ignored before -/

theorem takeBody_after (d : Decoder) (length : Length) (ignored : List Bytes) :
    d.takeBody length ignored = (d.takeBody length []).after ignored := by
  unfold takeBody
  split <;> simp [Step.after]

theorem closeHeader_after (d : Decoder) (position : Nat) (ignored : List Bytes) :
    d.closeHeader position ignored = (d.closeHeader position []).after ignored := by
  unfold closeHeader
  split
  · simp [Step.after]
  · exact takeBody_after _ _ _

theorem readHeader_append (d : Decoder) (ignored before : List Bytes) :
    d.readHeader (ignored ++ before) = (d.readHeader ignored).after before.reverse := by
  induction d, ignored using readHeader_lines with
  | part d ignored hs =>
    rw [readHeader_of_eq_none hs, readHeader_of_eq_none hs, List.reverse_append]
    rfl
  | blank d ignored line rest hs he =>
    rw [readHeader_of_isEmpty hs he, readHeader_of_isEmpty hs he, List.reverse_append,
      closeHeader_after, closeHeader_after _ _ ignored.reverse]
    simp [Step.after]
  | more d ignored line rest hs he ih =>
    rw [readHeader_of_not_isEmpty hs he, readHeader_of_not_isEmpty hs he, ← ih, List.append_assoc]

theorem readHeader_after (d : Decoder) (ignored : List Bytes) :
    d.readHeader ignored = (d.readHeader []).after ignored.reverse :=
  readHeader_append d [] ignored

theorem Step.compact_after (s : Step) (before : List Bytes) :
    (s.after before).compact = s.compact.after before := rfl

/-! ### More bytes behind what was found -/

theorem splitLine?_rest_feed (hp : d.Placed) (hs : splitLine? d.rest = some (line, rest))
    (bytes : Bytes) : splitLine? (d.feed bytes).rest = some (line, rest ++ bytes) := by
  obtain ⟨hr, hl⟩ := splitLine?_eq_some_iff.mp hs
  rw [rest_feed hp, hr, List.append_assoc, List.cons_append]
  exact splitLine?_append hl

theorem takeBody_feed_of_isSome (hp : d.Placed) (h : (d.takeBody length ignored).outcome.isSome)
    (bytes : Bytes) :
    (d.feed bytes).takeBody length ignored = (d.takeBody length ignored).feed bytes := by
  have hfit : ¬ d.buffered < length.size := by
    intro hlt
    simp [takeBody, hlt] at h
  have hfit' : ¬ (d.feed bytes).buffered < length.size := by
    rw [← length_rest, rest_feed hp, List.length_append, length_rest]
    omega
  have htake : (d.feed bytes).rest.take length.size = d.rest.take length.size := by
    rw [rest_feed hp]
    exact List.take_append_of_le_length (by rw [length_rest]; omega)
  simp only [takeBody, if_neg hfit, if_neg hfit', htake]
  rfl

theorem closeHeader_feed_of_isSome {position : Nat} (hp : position ≤ d.buffer.length)
    (h : (d.closeHeader position ignored).outcome.isSome) (bytes : Bytes) :
    (d.feed bytes).closeHeader position ignored
      = (d.closeHeader position ignored).feed bytes := by
  unfold closeHeader at h ⊢
  cases hc : d.header.close with
  | error e =>
    have hp' : Placed { d with position, header := {} } := hp
    simp only [Decoder.feed, hc, Step.feed]
    congr 1
    exact compact_feed hp' bytes
  | ok length =>
    simp only [hc] at h
    have hp' : Placed { d with position, header := {}, awaited := some length } := hp
    simp only [Decoder.feed, hc]
    exact takeBody_feed_of_isSome hp' h bytes

theorem readHeader_feed_of_isSome (hp : d.Placed) (h : (d.readHeader ignored).outcome.isSome)
    (bytes : Bytes) :
    (d.feed bytes).readHeader ignored = (d.readHeader ignored).feed bytes := by
  induction d, ignored using readHeader_lines with
  | part d ignored hs =>
    rw [readHeader_of_eq_none hs] at h
    simp at h
  | blank d ignored line rest hs he =>
    rw [readHeader_of_isEmpty hs he] at h
    rw [readHeader_of_isEmpty hs he, readHeader_of_isEmpty (splitLine?_rest_feed hp hs bytes) he]
    exact closeHeader_feed_of_isSome (position_pastLine_le hs) h bytes
  | more d ignored line rest hs he ih =>
    rw [readHeader_of_not_isEmpty hs he] at h
    rw [readHeader_of_not_isEmpty hs he,
      readHeader_of_not_isEmpty (splitLine?_rest_feed hp hs bytes) he]
    exact ih (Placed.pastLine hs) h

/-- What has been found stays found when more bytes arrive. -/
theorem next_feed_of_isSome (hp : d.Placed) (h : d.next.outcome.isSome) (bytes : Bytes) :
    (d.feed bytes).next = d.next.feed bytes := by
  cases ha : d.awaited with
  | some length =>
    rw [next_of_awaited_eq_some ha] at h ⊢
    rw [next_of_awaited_eq_some (d := d.feed bytes) ha]
    exact takeBody_feed_of_isSome hp h bytes
  | none =>
    rw [next_of_awaited_eq_none ha] at h ⊢
    rw [next_of_awaited_eq_none (d := d.feed bytes) ha]
    exact readHeader_feed_of_isSome hp h bytes

/-! ### More bytes behind what is not there yet -/

theorem takeBody_of_outcome_eq_none (h : (d.takeBody length ignored).outcome = none) :
    d.takeBody length ignored = ⟨d.compact, none, ignored⟩ := by
  unfold takeBody at h ⊢
  split <;> simp_all

/-- Waiting for a body and then looking again is looking once when more has arrived. -/
theorem takeBody_feed_of_eq_none (hp : d.Placed) (ha : d.awaited = some length)
    (h : (d.takeBody length ignored).outcome = none) (bytes : Bytes) :
    ((d.feed bytes).takeBody length ignored).compact
      = ((((d.takeBody length ignored).decoder.feed bytes).next).after
          (d.takeBody length ignored).ignored).compact := by
  rw [takeBody_of_outcome_eq_none h, takeBody_after, Step.compact_after, Step.compact_after]
  rw [next_of_awaited_eq_some (d := d.compact.feed bytes) ha]
  congr 1
  exact takeBody_congr (compact_feed hp bytes)

theorem readHeader_feed_of_eq_none (hp : d.Placed) (ha : d.awaited = none)
    (h : (d.readHeader ignored).outcome = none) (bytes : Bytes) :
    ((d.feed bytes).readHeader ignored).compact
      = ((((d.readHeader ignored).decoder.feed bytes).next).after
          (d.readHeader ignored).ignored).compact := by
  induction d, ignored using readHeader_lines with
  | part d ignored hs =>
    rw [readHeader_of_eq_none hs, readHeader_after, Step.compact_after, Step.compact_after]
    rw [next_of_awaited_eq_none (d := d.compact.feed bytes) ha]
    congr 1
    exact readHeader_congr (compact_feed hp bytes)
  | blank d ignored line rest hs he =>
    rw [readHeader_of_isEmpty hs he] at h ⊢
    rw [readHeader_of_isEmpty (splitLine?_rest_feed hp hs bytes) he]
    have hp' := position_pastLine_le hs
    unfold closeHeader at h ⊢
    cases hc : d.header.close with
    | error e => simp [hc] at h
    | ok length =>
      simp only [hc] at h
      simp only [Decoder.feed, hc]
      exact takeBody_feed_of_eq_none
        (d := { d with
          position := d.position + line.length + 1, header := {}, awaited := some length })
        hp' rfl h bytes
  | more d ignored line rest hs he ih =>
    rw [readHeader_of_not_isEmpty hs he] at h ⊢
    rw [readHeader_of_not_isEmpty (splitLine?_rest_feed hp hs bytes) he]
    exact ih (Placed.pastLine hs) ha h

/-- An attempt that found nothing is resumed where it stopped. -/
theorem next_feed_of_eq_none (hp : d.Placed) (h : d.next.outcome = none) (bytes : Bytes) :
    (d.feed bytes).next.compact
      = ((d.next.decoder.feed bytes).next.after d.next.ignored).compact := by
  cases ha : d.awaited with
  | some length =>
    rw [next_of_awaited_eq_some (d := d.feed bytes) ha]
    rw [next_of_awaited_eq_some ha] at h ⊢
    exact takeBody_feed_of_eq_none hp ha h bytes
  | none =>
    rw [next_of_awaited_eq_none (d := d.feed bytes) ha]
    rw [next_of_awaited_eq_none ha] at h ⊢
    exact readHeader_feed_of_eq_none hp ha h bytes

/-! ### An attempt that found nothing -/

theorem position_takeBody_of_eq_none (h : (d.takeBody length ignored).outcome = none) :
    (d.takeBody length ignored).decoder.position = 0 := by
  rw [takeBody_of_outcome_eq_none h]
  rfl

theorem position_readHeader_of_eq_none (h : (d.readHeader ignored).outcome = none) :
    (d.readHeader ignored).decoder.position = 0 := by
  induction d, ignored using readHeader_lines with
  | part d ignored hs =>
    rw [readHeader_of_eq_none hs]
    rfl
  | blank d ignored line rest hs he =>
    rw [readHeader_of_isEmpty hs he] at h ⊢
    unfold closeHeader at h ⊢
    cases hc : d.header.close with
    | error e => simp [hc] at h
    | ok length =>
      simp only [hc] at h
      exact position_takeBody_of_eq_none h
  | more d ignored line rest hs he ih =>
    rw [readHeader_of_not_isEmpty hs he] at h ⊢
    exact ih h

theorem position_next_of_eq_none (h : d.next.outcome = none) : d.next.decoder.position = 0 := by
  cases ha : d.awaited with
  | some length =>
    rw [next_of_awaited_eq_some ha] at h ⊢
    exact position_takeBody_of_eq_none h
  | none =>
    rw [next_of_awaited_eq_none ha] at h ⊢
    exact position_readHeader_of_eq_none h

/-- Asking again without more bytes finds nothing, ignores nothing and changes nothing. -/
theorem next_next_of_eq_none (hp : d.Placed) (h : d.next.outcome = none) :
    d.next.decoder.next = ⟨d.next.decoder, none, []⟩ := by
  have hs := next_feed_of_eq_none hp h []
  rw [feed_nil, feed_nil] at hs
  obtain ⟨ho, hi, hd⟩ := Step.compact_eq_compact_iff.mp hs
  have ho : d.next.decoder.next.outcome = none := ho.symm.trans h
  have hi : d.next.decoder.next.ignored = [] := by simpa [Step.after] using hi
  have hd : d.next.decoder.next.decoder = d.next.decoder :=
    calc d.next.decoder.next.decoder
      _ = d.next.decoder.next.decoder.compact :=
        (compact_eq_self (position_next_of_eq_none ho)).symm
      _ = d.next.decoder.compact := hd.symm
      _ = d.next.decoder := compact_eq_self (position_next_of_eq_none h)
  exact Step.ext hd ho hi

end LanguageClient.Frame.Decoder
