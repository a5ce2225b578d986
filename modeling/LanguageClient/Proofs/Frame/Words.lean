import LanguageClient.Proofs.Frame.Consumption
import LanguageClient.Proofs.Frame.Throwing

/-!
# Sizes in machine words

A machine keeps the position of a decoder and the lengths that it was told in 64-bit words, the
differences and sums of which wrap around. A `WordDecoder` does the work of a `Decoder` with such
words and stops at the first operation whose result is not the one that was meant (`SizeFault`). It
never stops so and does what the decoder does, whatever is fed to it and whatever lengths are
announced (`safe_run`).
-/

namespace LanguageClient.Frame

/-- What must not happen to a size. -/
inductive SizeFault where
  /-- A difference below zero, or a sum that no word can hold. -/
  | wraps
  /-- A cut that is not all within its text. -/
  | outOfRange
  deriving DecidableEq

namespace Word

def minus (a b : UInt64) : Except SizeFault UInt64 := if b ≤ a then .ok (a - b) else .error .wraps

def plus (a b : UInt64) : Except SizeFault UInt64 :=
  if a.toNat + b.toNat < UInt64.size then .ok (a + b) else .error .wraps

def slice (s : Bytes) (position count : UInt64) : Except SizeFault Bytes :=
  if position.toNat + count.toNat ≤ s.length then
    .ok ((s.drop position.toNat).take count.toNat)
  else .error .outOfRange

/-- The number that a row of digits stands for, if a word can hold it. -/
def ofDigits? (value : Bytes) : Option UInt64 :=
  match Digits.toNat? value with
  | none => none
  | some n => if n < UInt64.size then some (UInt64.ofNat n) else none

theorem minus_of_le {a b : UInt64} (h : b.toNat ≤ a.toNat) :
    ∃ c, minus a b = .ok c ∧ c.toNat = a.toNat - b.toNat :=
  have hle : b ≤ a := UInt64.le_iff_toNat_le.mpr h
  ⟨a - b, if_pos hle, UInt64.toNat_sub_of_le a b hle⟩

theorem plus_of_lt {a b : UInt64} (h : a.toNat + b.toNat < UInt64.size) :
    ∃ c, plus a b = .ok c ∧ c.toNat = a.toNat + b.toNat :=
  ⟨a + b, if_pos h, (UInt64.toNat_add a b).trans (Nat.mod_eq_of_lt h)⟩

theorem slice_of_le {s : Bytes} {position count : UInt64}
    (h : position.toNat + count.toNat ≤ s.length) :
    slice s position count = .ok ((s.drop position.toNat).take count.toNat) := if_pos h

end Word

/-! ### A decoder of words -/

/-- What the lines of a header block have said so far, with the length as a word. -/
structure WordHeader where
  length : Option UInt64 := none
  invalid : Bytes := []

/-- One line more, without its end. Zero is no length. -/
def WordHeader.line (h : WordHeader) (line : Bytes) : WordHeader × Option Bytes :=
  match Bytes.after? lengthField line with
  | none => (h, none)
  | some value =>
    match (Word.ofDigits? (Bytes.trim value)).filter (· ≠ 0) with
    | some length => ({ h with length := some length }, none)
    | none => ({ h with invalid := Bytes.trim value }, some (Bytes.trim value))

structure WordDecoder where
  buffer : Bytes := []
  /-- No text is longer than a word can tell. -/
  fits : buffer.length < UInt64.size := by decide
  position : UInt64 := 0
  header : WordHeader := {}
  awaited : Option UInt64 := none

namespace WordDecoder

structure Step where
  decoder : WordDecoder
  outcome : Option Outcome
  ignored : List Bytes

def size (w : WordDecoder) : UInt64 := UInt64.ofNat w.buffer.length

def buffered (w : WordDecoder) : Except SizeFault UInt64 := Word.minus w.size w.position

def compact (w : WordDecoder) : WordDecoder :=
  { w with
    buffer := w.buffer.drop w.position.toNat
    fits := Nat.lt_of_le_of_lt (List.length_drop ▸ Nat.sub_le _ _) w.fits
    position := 0 }

def takeBody (w : WordDecoder) (length : UInt64) (ignored : List Bytes) :
    Except SizeFault Step := do
  let left ← w.buffered
  if left < length then return ⟨w.compact, none, ignored⟩
  let body ← Word.slice w.buffer w.position length
  let position ← Word.plus w.position length
  return ⟨{ w with position, awaited := none }, some (.body body), ignored⟩

/-- The empty line of a header block, behind which the position is. -/
def closeHeader (w : WordDecoder) (ignored : List Bytes) : Except SizeFault Step :=
  let closed := { w with header := {} }
  match w.header.length with
  | some length => { closed with awaited := some length }.takeBody length ignored
  | none =>
    let e := if w.header.invalid.isEmpty then .noLength else .invalidLength w.header.invalid
    .ok ⟨closed.compact, some (.error e), ignored⟩

/-- Where the next line feed is. -/
def lineFeed? (w : WordDecoder) : Option UInt64 :=
  ((w.buffer.drop w.position.toNat).findIdx? (· == Ascii.lf)).map fun i =>
    UInt64.ofNat (w.position.toNat + i)

/-- The line up to a line feed, and the position behind it. -/
def lineTo (w : WordDecoder) (mark : UInt64) : Except SizeFault (Bytes × UInt64) := do
  let length ← Word.minus mark w.position
  let line ← Word.slice w.buffer w.position length
  let position ← Word.plus mark 1
  return (line, position)

theorem toNat_lineFeed {w : WordDecoder} {i : Nat}
    (h : (w.buffer.drop w.position.toNat).findIdx? (· == Ascii.lf) = some i) :
    (UInt64.ofNat (w.position.toNat + i)).toNat = w.position.toNat + i ∧
      w.position.toNat + i < w.buffer.length := by
  obtain ⟨hlt, -⟩ := List.findIdx?_eq_some_iff_getElem.mp h
  rw [List.length_drop] at hlt
  have hfits := w.fits
  exact ⟨UInt64.toNat_ofNat_of_lt' (by omega), by omega⟩

/-- A line feed that was found is within the buffer, so that the line up to it can be cut out. -/
theorem exists_lineTo_eq {w : WordDecoder} {i : Nat}
    (h : (w.buffer.drop w.position.toNat).findIdx? (· == Ascii.lf) = some i) :
    ∃ position, w.lineTo (UInt64.ofNat (w.position.toNat + i)) =
        .ok ((w.buffer.drop w.position.toNat).take i, position) ∧
      position.toNat = w.position.toNat + i + 1 ∧ position.toNat ≤ w.buffer.length := by
  have hfits := w.fits
  obtain ⟨hmark, hlt⟩ := toNat_lineFeed h
  obtain ⟨length, hlength, hi⟩ := Word.minus_of_le (a := UInt64.ofNat (w.position.toNat + i))
    (b := w.position) (by omega)
  obtain ⟨position, hposition, hsum⟩ := Word.plus_of_lt (a := UInt64.ofNat (w.position.toNat + i))
    (b := 1) (by rw [hmark, UInt64.toNat_one]; omega)
  rw [hmark, Nat.add_sub_cancel_left] at hi
  rw [hmark, UInt64.toNat_one] at hsum
  refine ⟨position, ?_, hsum, by omega⟩
  rw [lineTo, hlength, Reading.ok_bind, Word.slice_of_le (by omega), Reading.ok_bind, hposition, hi]
  rfl

theorem lineTo_position {w : WordDecoder} {mark position : UInt64} {line : Bytes}
    (hf : w.lineFeed? = some mark) (hl : w.lineTo mark = .ok (line, position)) :
    w.position.toNat < position.toNat ∧ position.toNat ≤ w.buffer.length := by
  obtain ⟨i, hi, rfl⟩ := Option.map_eq_some_iff.mp hf
  obtain ⟨position', hl', hsum, hle⟩ := exists_lineTo_eq hi
  cases hl'.symm.trans hl
  omega

def readHeader (w : WordDecoder) (ignored : List Bytes) : Except SizeFault Step :=
  match _hf : w.lineFeed? with
  | none => .ok ⟨w.compact, none, ignored.reverse⟩
  | some mark =>
    match _hl : w.lineTo mark with
    | .error fault => .error fault
    | .ok (line, position) =>
      let content := withoutCr line
      if content.isEmpty then { w with position }.closeHeader ignored.reverse
      else
        let (header, bad) := w.header.line content
        { w with position, header }.readHeader (bad.toList ++ ignored)
termination_by w.buffer.length - w.position.toNat
decreasing_by
  have := lineTo_position _hf _hl
  omega

def next (w : WordDecoder) : Except SizeFault Step :=
  match w.awaited with
  | some length => w.takeBody length []
  | none => w.readHeader []

/-- Appends bytes that have arrived, if there is room for them. -/
def feed (limit : UInt64) (w : WordDecoder) (bytes : Bytes) : WordDecoder :=
  if h : (w.buffer ++ bytes).length ≤ limit.toNat then
    { w with
      buffer := w.buffer ++ bytes
      fits := Nat.lt_of_le_of_lt h limit.toNat_lt_size }
  else w

/-- What has come out of a decoder of words, and the decoder after it. -/
structure Yield where
  outcomes : List Outcome
  ignored : List Bytes
  decoder : WordDecoder

/-- The calls in order, where a text has room for `limit` bytes. -/
def run (limit : UInt64) (w : WordDecoder) : List Call → Except SizeFault Yield
  | [] => .ok ⟨[], [], w⟩
  | .feed bytes :: rest => (w.feed limit bytes).run limit rest
  | .next :: rest => do
    let step ← w.next
    let more ← step.decoder.run limit rest
    return ⟨step.outcome.toList ++ more.outcomes, step.ignored ++ more.ignored, more.decoder⟩

end WordDecoder

/-! ### What the words stand for -/

def Length.word (l : Length) : UInt64 := UInt64.ofNat l.size

theorem Length.toNat_word (l : Length) : l.word.toNat = l.size :=
  UInt64.toNat_ofNat_of_lt' l.below

/-- Words and numbers agree on what a usable length is. -/
theorem Word.filter_ofDigits? (value : Bytes) :
    (ofDigits? value).filter (· ≠ 0) = (Length.read? value).map Length.word := by
  unfold ofDigits? Length.read?
  cases Digits.toNat? value with
  | none => rfl
  | some n =>
    by_cases hlt : n < UInt64.size
    · have hzero : UInt64.ofNat n = 0 ↔ n = 0 := by
        rw [← UInt64.toNat_inj, UInt64.toNat_ofNat_of_lt' hlt, UInt64.toNat_zero]
      by_cases hpos : 0 < n
      · have hne : UInt64.ofNat n ≠ 0 := fun h => Nat.ne_of_gt hpos (hzero.mp h)
        simp [hlt, hpos, hne, Length.word]
      · simp [hlt, hpos, hzero.mpr (Nat.eq_zero_of_not_pos hpos)]
    · simp [hlt]

theorem findIdx?_of_splitLine? {s line rest : Bytes} (h : splitLine? s = some (line, rest)) :
    s.findIdx? (· == Ascii.lf) = some line.length := by
  obtain ⟨rfl, hline⟩ := splitLine?_eq_some_iff.mp h
  have hnone : line.findIdx? (· == Ascii.lf) = none := by
    rw [List.findIdx?_eq_none_iff]
    intro b hb
    simpa using ne_of_mem_of_not_mem hb hline
  rw [List.findIdx?_append, hnone]
  simp [List.findIdx?_cons]

def Header.words (h : Header) : WordHeader := ⟨h.length.map Length.word, h.invalid⟩

theorem Header.line_words (h : Header) (line : Bytes) :
    h.words.line line = ((h.line line).1.words, (h.line line).2) := by
  unfold WordHeader.line Header.line
  cases Bytes.after? lengthField line with
  | none => rfl
  | some value =>
    dsimp only
    rw [Word.filter_ofDigits?]
    cases Length.read? (Bytes.trim value) <;> rfl

namespace WordDecoder

/-- The words hold what the decoder holds. -/
structure Keeps (w : WordDecoder) (d : Decoder) : Prop where
  buffer : w.buffer = d.buffer
  position : w.position.toNat = d.position
  header : w.header = d.header.words
  awaited : w.awaited = d.awaited.map Length.word

/-- The step was not stopped, and it is the decoder's. -/
def Matches (x : Except SizeFault Step) (s : Decoder.Step) : Prop :=
  ∃ t, x = .ok t ∧ t.decoder.Keeps s.decoder ∧ t.outcome = s.outcome ∧ t.ignored = s.ignored

variable {w : WordDecoder} {d : Decoder}

theorem Keeps.empty : Keeps {} {} := ⟨rfl, rfl, rfl, rfl⟩

theorem Keeps.rest (h : w.Keeps d) : w.buffer.drop w.position.toNat = d.rest := by
  rw [h.buffer, h.position, Decoder.rest]

theorem Keeps.compact (h : w.Keeps d) : w.compact.Keeps d.compact :=
  ⟨h.rest, rfl, h.header, h.awaited⟩

theorem Keeps.exists_buffered_eq (h : w.Keeps d) (hp : d.Placed) :
    ∃ left, w.buffered = .ok left ∧ left.toNat = d.buffered := by
  have hsize : w.size.toNat = d.buffer.length := by
    rw [size, UInt64.toNat_ofNat_of_lt' w.fits, h.buffer]
  have hle : w.position.toNat ≤ w.size.toNat := by
    rw [h.position, hsize]
    exact hp
  obtain ⟨left, hleft, hvalue⟩ := Word.minus_of_le hle
  exact ⟨left, hleft, by rw [hvalue, h.position, hsize, Decoder.buffered]⟩

theorem Keeps.takeBody (h : w.Keeps d) (hp : d.Placed) (length : Length) (ignored : List Bytes) :
    Matches (w.takeBody length.word ignored) (d.takeBody length ignored) := by
  obtain ⟨left, hleft, hvalue⟩ := h.exists_buffered_eq hp
  have hiff : left < length.word ↔ d.buffered < length.size := by
    rw [UInt64.lt_iff_toNat_lt, hvalue, length.toNat_word]
  rw [WordDecoder.takeBody, hleft, Reading.ok_bind]
  rcases d.takeBody_cases length ignored with ⟨heq, hshort⟩ | ⟨heq, hfit⟩
  · rw [heq, if_pos (hiff.mpr hshort)]
    exact ⟨_, rfl, h.compact, rfl, rfl⟩
  · have hend : w.position.toNat + length.word.toNat ≤ w.buffer.length := by
      rw [h.position, h.buffer, length.toNat_word]
      rw [Decoder.Placed] at hp
      rw [Decoder.buffered] at hfit
      omega
    have hslice := Word.slice_of_le hend
    obtain ⟨position, hposition, hsum⟩ := Word.plus_of_lt (Nat.lt_of_le_of_lt hend w.fits)
    rw [heq, if_neg fun hlt => Nat.not_lt.mpr hfit (hiff.mp hlt), hslice, hposition, h.rest,
      length.toNat_word]
    rw [h.position, length.toNat_word] at hsum
    exact ⟨_, rfl, ⟨h.buffer, hsum, h.header, rfl⟩, rfl, rfl⟩

theorem Keeps.closeHeader {position : Nat} (h : w.Keeps { d with position })
    (hp : position ≤ d.buffer.length) (ignored : List Bytes) :
    Matches (w.closeHeader ignored) (d.closeHeader position ignored) := by
  unfold WordDecoder.closeHeader Decoder.closeHeader Header.close
  rw [h.header]
  cases hl : d.header.length with
  | none =>
    have hclosed : Keeps { w with header := {} } { d with position, header := {} } :=
      ⟨h.buffer, h.position, rfl, h.awaited⟩
    simp only [Header.words, hl, Option.map_none]
    exact ⟨_, rfl, hclosed.compact, rfl, rfl⟩
  | some length =>
    have hclosed : Keeps { w with header := {}, awaited := some length.word }
        { d with position, header := {}, awaited := some length } :=
      ⟨h.buffer, h.position, rfl, rfl⟩
    simp only [Header.words, hl, Option.map_some]
    exact hclosed.takeBody hp length ignored

theorem Keeps.lineFeed?_eq_none (h : w.Keeps d) (hs : splitLine? d.rest = none) :
    w.lineFeed? = none := by
  have hnone := splitLine?_eq_none_iff.mp hs
  rw [lineFeed?, h.rest, Option.map_eq_none_iff, List.findIdx?_eq_none_iff]
  intro b hb
  simpa using ne_of_mem_of_not_mem hb hnone

theorem Keeps.exists_line_eq {line rest : Bytes} (h : w.Keeps d)
    (hs : splitLine? d.rest = some (line, rest)) :
    ∃ mark position, w.lineFeed? = some mark ∧ w.lineTo mark = .ok (line, position) ∧
      position.toNat = d.position + line.length + 1 := by
  have hfind := findIdx?_of_splitLine? hs
  have htake : d.rest.take line.length = line := by
    rw [(splitLine?_eq_some_iff.mp hs).1]
    exact List.take_left' rfl
  rw [← h.rest] at hfind htake
  obtain ⟨position, hline, hsum, -⟩ := exists_lineTo_eq hfind
  rw [htake] at hline
  refine ⟨_, position, ?_, hline, by rw [hsum, h.position]⟩
  rw [lineFeed?, hfind, Option.map_some]

theorem readHeader_of_eq_none (h : w.lineFeed? = none) (ignored : List Bytes) :
    w.readHeader ignored = .ok ⟨w.compact, none, ignored.reverse⟩ := by
  rw [readHeader]
  split <;> simp_all

theorem readHeader_of_isEmpty {mark position : UInt64} {line : Bytes} (hf : w.lineFeed? = some mark)
    (hl : w.lineTo mark = .ok (line, position)) (he : (withoutCr line).isEmpty)
    (ignored : List Bytes) :
    w.readHeader ignored = { w with position }.closeHeader ignored.reverse := by
  rw [readHeader]
  split
  · simp_all
  · split <;> simp_all

theorem readHeader_of_not_isEmpty {mark position : UInt64} {line : Bytes}
    (hf : w.lineFeed? = some mark) (hl : w.lineTo mark = .ok (line, position))
    (he : (withoutCr line).isEmpty = false) (ignored : List Bytes) :
    w.readHeader ignored =
      { w with position, header := (w.header.line (withoutCr line)).1 }.readHeader
        ((w.header.line (withoutCr line)).2.toList ++ ignored) := by
  rw [readHeader]
  split
  · simp_all
  · split <;> simp_all

theorem Keeps.readHeader (h : w.Keeps d) (hp : d.Placed) (ignored : List Bytes) :
    Matches (w.readHeader ignored) (d.readHeader ignored) := by
  induction d, ignored using Decoder.readHeader_lines generalizing w with
  | part d ignored hs =>
    rw [readHeader_of_eq_none (h.lineFeed?_eq_none hs), Decoder.readHeader_of_eq_none hs]
    exact ⟨_, rfl, h.compact, rfl, rfl⟩
  | blank d ignored line rest hs he =>
    obtain ⟨mark, position, hf, hl, hposition⟩ := h.exists_line_eq hs
    rw [readHeader_of_isEmpty hf hl he, Decoder.readHeader_of_isEmpty hs he]
    have hmoved : Keeps { w with position } { d with position := d.position + line.length + 1 } :=
      ⟨h.buffer, hposition, h.header, h.awaited⟩
    exact hmoved.closeHeader (Decoder.position_pastLine_le hs) ignored.reverse
  | more d ignored line rest hs he ih =>
    obtain ⟨mark, position, hf, hl, hposition⟩ := h.exists_line_eq hs
    rw [readHeader_of_not_isEmpty hf hl he, Decoder.readHeader_of_not_isEmpty hs he, h.header,
      Header.line_words]
    exact ih ⟨h.buffer, hposition, rfl, h.awaited⟩ (Decoder.Placed.pastLine hs)

/-- One attempt with words is one attempt. -/
theorem Keeps.next (h : w.Keeps d) (hp : d.Placed) : Matches w.next d.next := by
  unfold WordDecoder.next Decoder.next
  rw [h.awaited]
  cases d.awaited with
  | some length => exact h.takeBody hp length []
  | none => exact h.readHeader hp []

end WordDecoder

/-! ### Whole runs -/

namespace Decoder

/-- The calls but for the pieces that the buffer has no room for. -/
def admitted (limit : UInt64) (d : Decoder) : List Call → List Call
  | [] => []
  | .feed bytes :: rest =>
    if (d.buffer ++ bytes).length ≤ limit.toNat then
      .feed bytes :: (d.feed bytes).admitted limit rest
    else d.admitted limit rest
  | .next :: rest => .next :: d.next.decoder.admitted limit rest

end Decoder

namespace WordDecoder

variable {w : WordDecoder} {d : Decoder}

theorem Keeps.feed (h : w.Keeps d) {limit : UInt64} {bytes : Bytes}
    (hroom : (d.buffer ++ bytes).length ≤ limit.toNat) :
    (w.feed limit bytes).Keeps (d.feed bytes) := by
  rw [WordDecoder.feed, dif_pos (by rwa [h.buffer])]
  exact ⟨congrArg (· ++ bytes) h.buffer, h.position, h.header, h.awaited⟩

theorem feed_of_not_le {limit : UInt64} {bytes : Bytes}
    (h : ¬ (w.buffer ++ bytes).length ≤ limit.toNat) : w.feed limit bytes = w := dif_neg h

/-- A run with words is never stopped, and it is the run of the decoder. -/
theorem Keeps.run (h : w.Keeps d) (hp : d.Placed) (limit : UInt64) (calls : List Call) :
    ∃ w' : WordDecoder, w.run limit calls =
        .ok ⟨(d.run (d.admitted limit calls)).outcomes, (d.run (d.admitted limit calls)).ignored, w'⟩ ∧
      w'.Keeps (d.run (d.admitted limit calls)).decoder := by
  induction calls generalizing w d with
  | nil => exact ⟨w, rfl, h⟩
  | cons c calls ih =>
    cases c with
    | feed bytes =>
      rw [WordDecoder.run, Decoder.admitted]
      by_cases hroom : (d.buffer ++ bytes).length ≤ limit.toNat
      · rw [if_pos hroom]
        exact ih (h.feed hroom) (hp.feed bytes)
      · rw [if_neg hroom, feed_of_not_le (by rwa [h.buffer])]
        exact ih h hp
    | next =>
      obtain ⟨t, ht, hkeeps, houtcome, hignored⟩ := h.next hp
      obtain ⟨w', hw', hkeeps'⟩ := ih hkeeps hp.next
      refine ⟨w', ?_, hkeeps'⟩
      rw [WordDecoder.run, ht, Reading.ok_bind, hw', houtcome, hignored]
      rfl

end WordDecoder

namespace Decoder

/-- Sizes are safe in every decoder that is fed and asked in any way. A machine with 64-bit words
carries out the same calls, those left out that would make a text longer than it may be, without
stopping at a size; in the end its words hold what the decoder holds. -/
theorem safe_run (calls : List Call) :
    Safe (run {} calls).decoder ∧ (run {} calls).decoder.rest <:+ fed calls ∧
      ∀ limit, ∃ (w : WordDecoder) (left : UInt64),
        WordDecoder.run limit {} calls =
          .ok ⟨(run {} (admitted limit {} calls)).outcomes,
            (run {} (admitted limit {} calls)).ignored, w⟩ ∧
        w.Keeps (run {} (admitted limit {} calls)).decoder ∧ w.buffered = .ok left ∧
        left.toNat = (run {} (admitted limit {} calls)).decoder.buffered := by
  refine ⟨.of_settled (Placed.empty.run calls) (Settled.empty.run calls),
    rest_run_suffix .empty .empty calls, fun limit => ?_⟩
  obtain ⟨w, hw, hkeeps⟩ := WordDecoder.Keeps.empty.run .empty limit calls
  obtain ⟨left, hleft, hvalue⟩ := hkeeps.exists_buffered_eq (Placed.empty.run _)
  exact ⟨w, left, hw, hkeeps, hleft, hvalue⟩

-- The greatest length there is is waited for, and leaves nothing of its header block behind.
example :
    (run {} [.feed (bytes "Content-Length: x\nContent-Length: 18446744073709551615\n\n[]"),
        .next]).decoder =
      { buffer := bytes "[]"
        awaited := some ⟨18446744073709551615, by decide, by decide⟩ } := by
  decide +kernel

-- A position behind the end of the buffer would be noticed.
example : WordDecoder.buffered { position := 1 } = .error .wraps := rfl

end Decoder

end LanguageClient.Frame
