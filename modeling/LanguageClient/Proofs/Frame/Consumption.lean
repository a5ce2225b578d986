import LanguageClient.Proofs.Frame.Grammar

/-!
# What an attempt uses up

An attempt reads lines from where the decoder stands. It stops in the middle of a line, behind a
header block that announces no length, or in front of a body (`next_ends`). So all that it uses up
are whole lines and the body behind them, a body is cut out within the buffer, and whenever there
is none the buffer is left with the bytes that are still to be used and no others (`Safe`).
-/

namespace LanguageClient.Frame.Decoder

variable {d e f : Decoder} {length : Length} {ignored : List Bytes} {line rest text more : Bytes}
variable {s : Step}

/-! ### Reading on -/

/-- The decoder `e` stands behind a text at which `d` stands. -/
structure Past (d : Decoder) (text : Bytes) (e : Decoder) : Prop where
  buffer : e.buffer = d.buffer
  position : e.position = d.position + text.length
  rest : d.rest = text ++ e.rest

theorem Past.refl (d : Decoder) : Past d [] d := ⟨rfl, rfl, rfl⟩

theorem Past.trans (h : Past d text e) (h' : Past e more f) : Past d (text ++ more) f where
  buffer := h'.buffer.trans h.buffer
  position := by rw [h'.position, h.position, List.length_append, Nat.add_assoc]
  rest := by rw [h.rest, h'.rest, List.append_assoc]

theorem rest_moved (d : Decoder) (n : Nat) (header : Header) (awaited : Option Length) :
    Decoder.rest { d with position := d.position + n, header, awaited } = d.rest.drop n :=
  List.drop_drop.symm

theorem Past.of_line (hs : splitLine? d.rest = some (line, rest)) (header : Header)
    (awaited : Option Length) :
    Past d (line ++ [Ascii.lf])
      { d with position := d.position + line.length + 1, header, awaited } where
  buffer := rfl
  position := by rw [List.length_append, List.length_singleton, Nat.add_assoc]
  rest := by
    obtain ⟨hr, -⟩ := splitLine?_eq_some_iff.mp hs
    rw [Nat.add_assoc, rest_moved, hr]
    simp

theorem Past.placed (h : Past d text e) (hp : d.Placed) : e.Placed := by
  have hlength := congrArg List.length h.rest
  rw [List.length_append, length_rest, buffered] at hlength
  rw [Placed, h.buffer, h.position]
  rw [Placed] at hp
  omega

/-! ### Where an attempt stops -/

/-- A body of this length comes behind the text: its header block, unless that was read before. -/
def Opens (d : Decoder) (length : Length) (text : Bytes) : Prop :=
  d.awaited = some length ∧ text = [] ∨ d.awaited = none ∧ ∃ block : Block, text = block.text

inductive Ends (d : Decoder) : Step → Prop
  /-- In the middle of a line. -/
  | line (lines : List Bytes) (e : Decoder) (ignored : List Bytes) (isLine : ∀ l ∈ lines, IsLine l)
    (past : Past d (lines.flatMap (· ++ [Ascii.lf])) e) (awaited : e.awaited = none)
    (whole : Ascii.lf ∉ e.rest) : Ends d ⟨e.compact, none, ignored⟩
  /-- Behind a header block that announces no length. -/
  | fault (block : Block) (e : Decoder) (error : HeaderError) (ignored : List Bytes)
    (past : Past d block.text e) (awaited : e.awaited = none) :
    Ends d ⟨e.compact, some (.error error), ignored⟩
  /-- In front of a body. -/
  | body (text : Bytes) (e : Decoder) (length : Length) (ignored : List Bytes)
    (opens : d.Opens length text) (past : Past d text e) (awaited : e.awaited = some length)
    (header : e.header = {}) : Ends d (e.takeBody length ignored)

/-- A line in front of where an attempt begins is read before all else. -/
theorem Ends.cons (hs : splitLine? d.rest = some (line, rest)) (hline : IsLine line)
    (ha : d.awaited = none) (h : Ends (d.pastLine line) s) : Ends d s := by
  have hfirst : Past d (line ++ [Ascii.lf]) (d.pastLine line) := .of_line hs _ _
  have hblock (block : Block) :
      (line ++ [Ascii.lf]) ++ block.text = Block.text ⟨line :: block.lines, block.blank,
        List.forall_mem_cons.mpr ⟨hline, block.isLine⟩, block.isBlank⟩ := by
    rw [Block.text, Block.text, blockText_cons, List.append_assoc, List.singleton_append]
  cases h with
  | line lines e ignored hlines hpast hnone hwhole =>
    exact .line (line :: lines) e ignored (List.forall_mem_cons.mpr ⟨hline, hlines⟩)
      (hfirst.trans hpast) hnone hwhole
  | fault block e error ignored hpast hnone =>
    exact .fault _ e error ignored (hblock block ▸ hfirst.trans hpast) hnone
  | body text e length ignored hopens hpast hsome hheader =>
    rcases hopens with ⟨hsome', -⟩ | ⟨-, block, rfl⟩
    · cases ha.symm.trans hsome'
    · exact .body _ e length ignored (.inr ⟨ha, _, rfl⟩) (hblock block ▸ hfirst.trans hpast) hsome
        hheader

theorem closeHeader_ends (hs : splitLine? d.rest = some (line, rest))
    (hblank : (withoutCr line).isEmpty) (ha : d.awaited = none) (ignored : List Bytes) :
    Ends d (d.closeHeader (d.position + line.length + 1) ignored) := by
  have hblank : IsBlankLine line := isBlankLine_of_isEmpty (List.isEmpty_iff.mp hblank)
  let block : Block := ⟨[], line, by simp, hblank⟩
  unfold closeHeader
  cases d.header.close with
  | error error => exact .fault block _ error ignored (Past.of_line hs {} d.awaited) ha
  | ok length =>
    exact .body block.text _ length ignored (.inr ⟨ha, block, rfl⟩)
      (Past.of_line hs {} (some length)) rfl rfl

theorem readHeader_ends (ha : d.awaited = none) (ignored : List Bytes) :
    Ends d (d.readHeader ignored) := by
  induction d, ignored using readHeader_lines with
  | part d ignored hs =>
    rw [readHeader_of_eq_none hs]
    exact .line [] d _ (by simp) (Past.refl d) ha (splitLine?_eq_none_iff.mp hs)
  | blank d ignored line rest hs he =>
    rw [readHeader_of_isEmpty hs he]
    exact closeHeader_ends hs he ha _
  | more d ignored line rest hs he ih =>
    rw [readHeader_of_not_isEmpty hs he]
    have hline : IsLine line :=
      ⟨(splitLine?_eq_some_iff.mp hs).2, fun h => by simp [h] at he⟩
    exact (ih ha).cons hs hline ha

/-- While a body is awaited, nothing of its header block is remembered. -/
def Settled (d : Decoder) : Prop := ∀ length, d.awaited = some length → d.header = {}

theorem next_ends (h : d.Settled) : Ends d d.next := by
  cases ha : d.awaited with
  | some length =>
    rw [next_of_awaited_eq_some ha]
    exact .body [] d length [] (.inl ⟨ha, rfl⟩) (Past.refl d) ha (h length ha)
  | none =>
    rw [next_of_awaited_eq_none ha]
    exact readHeader_ends ha []

/-! ### What is left -/

theorem takeBody_cases (d : Decoder) (length : Length) (ignored : List Bytes) :
    (d.takeBody length ignored = ⟨d.compact, none, ignored⟩ ∧ d.buffered < length.size) ∨
      d.takeBody length ignored =
        ⟨{ d with position := d.position + length.size, awaited := none },
          some (.body (d.rest.take length.size)), ignored⟩ ∧ length.size ≤ d.buffered := by
  unfold takeBody
  split
  · next hshort => exact .inl ⟨rfl, hshort⟩
  · next hfit => exact .inr ⟨rfl, Nat.le_of_not_lt hfit⟩

theorem Settled.empty : Settled {} := fun _ h => nomatch h

theorem Settled.of_ends (h : Ends d s) : s.decoder.Settled := by
  cases h with
  | line lines e ignored hlines hpast hnone hwhole =>
    intro length hsome
    cases hnone.symm.trans hsome
  | fault block e error ignored hpast hnone =>
    intro length hsome
    cases hnone.symm.trans hsome
  | body text e length ignored hopens hpast hsome hheader =>
    rcases e.takeBody_cases length ignored with ⟨heq, -⟩ | ⟨heq, -⟩
    · rw [heq]
      exact fun _ _ => hheader
    · rw [heq]
      exact fun _ h => nomatch h

theorem Settled.run (h : d.Settled) (calls : List Call) : (d.run calls).decoder.Settled := by
  induction calls generalizing d with
  | nil => exact h
  | cons c calls ih =>
    cases c with
    | feed bytes => exact ih (d := d.feed bytes) h
    | next => exact ih (d := d.next.decoder) (.of_ends (next_ends h))

theorem Past.rest_suffix (h : Past d text e) : e.rest <:+ d.rest := ⟨text, h.rest.symm⟩

theorem rest_suffix_of_ends (h : Ends d s) : s.decoder.rest <:+ d.rest := by
  cases h with
  | line lines e ignored hlines hpast hnone hwhole => exact hpast.rest_suffix
  | fault block e error ignored hpast hnone => exact hpast.rest_suffix
  | body text e length ignored hopens hpast hsome hheader =>
    refine List.IsSuffix.trans ?_ hpast.rest_suffix
    rcases e.takeBody_cases length ignored with ⟨heq, -⟩ | ⟨heq, -⟩
    · rw [heq]
      exact List.suffix_rfl
    · rw [heq, rest_moved]
      exact List.drop_suffix _ _

/-- The bytes that are left are the last ones that were fed. -/
theorem rest_run_suffix (hp : d.Placed) (hs : d.Settled) (calls : List Call) :
    (d.run calls).decoder.rest <:+ d.rest ++ fed calls := by
  induction calls generalizing d with
  | nil =>
    rw [fed, List.append_nil]
    exact List.suffix_rfl
  | cons c calls ih =>
    cases c with
    | feed bytes =>
      have h := ih (hp.feed bytes) (d := d.feed bytes) hs
      rwa [rest_feed hp, List.append_assoc] at h
    | next =>
      have hends := next_ends hs
      obtain ⟨used, hused⟩ := rest_suffix_of_ends hends
      have h := ih hp.next (.of_ends hends)
      refine h.trans ⟨used, ?_⟩
      rw [fed, ← hused, List.append_assoc]

/-! ### Sizes -/

/-- What can be relied on for the sizes in a decoder. -/
structure Safe (d : Decoder) : Prop where
  position_le : d.position ≤ d.buffer.length
  awaited : ∀ length, d.awaited = some length →
    1 ≤ length.size ∧ length.size < UInt64.size ∧ d.header.length = none ∧ d.header.invalid = []
  /-- A body is cut out behind its header block, all of it within the buffer. -/
  body : ∀ body, d.next.outcome = some (.body body) → ∃ length text,
    d.Opens length text ∧ d.position + text.length + length.size ≤ d.buffer.length ∧
    body = (d.buffer.drop (d.position + text.length)).take length.size ∧
    body.length = length.size ∧ d.rest = text ++ body ++ d.next.decoder.rest ∧
    d.next.decoder.buffer = d.buffer ∧
    d.next.decoder.position = d.position + text.length + length.size
  /-- After an error the buffer holds what comes behind the header block, -/
  error : ∀ e, d.next.outcome = some (.error e) →
    d.next.decoder.position = 0 ∧ ∃ block : Block, d.rest = block.text ++ d.next.decoder.buffer
  /-- and if nothing was found, a part of a line or a part of a body. -/
  nothing : d.next.outcome = none → d.next.decoder.position = 0 ∧
    ((d.next.decoder.awaited = none ∧ ∃ lines : List Bytes, (∀ l ∈ lines, IsLine l) ∧
        d.rest = lines.flatMap (· ++ [Ascii.lf]) ++ d.next.decoder.buffer ∧
        Ascii.lf ∉ d.next.decoder.buffer) ∨
      ∃ length text, d.next.decoder.awaited = some length ∧ d.Opens length text ∧
        d.rest = text ++ d.next.decoder.buffer ∧ d.next.decoder.buffer.length < length.size)

theorem Safe.of_settled (hp : d.Placed) (hs : d.Settled) : Safe d where
  position_le := hp
  awaited length h := by
    rw [hs length h]
    exact ⟨length.pos, length.below, rfl, rfl⟩
  body body h := by
    have hends := next_ends hs
    generalize d.next = s at h hends
    cases hends with
    | line | fault => cases h
    | body text e length ignored hopens hpast hsome hheader =>
      rcases e.takeBody_cases length ignored with ⟨heq, -⟩ | ⟨heq, hfit⟩
      · rw [heq] at h
        cases h
      · rw [heq] at h ⊢
        cases h
        have hplaced := hpast.placed hp
        have hsize : (e.rest.take length.size).length = length.size := by
          rw [List.length_take, length_rest, Nat.min_eq_left hfit]
        refine ⟨length, text, hopens, ?_, ?_, hsize, ?_, hpast.buffer, ?_⟩
        · rw [← hpast.position, ← hpast.buffer]
          rw [buffered] at hfit
          rw [Placed] at hplaced
          omega
        · rw [← hpast.position, ← hpast.buffer, Decoder.rest]
        · rw [rest_moved, hpast.rest, List.append_assoc, List.take_append_drop]
        · rw [← hpast.position]
  error e h := by
    have hends := next_ends hs
    generalize d.next = s at h hends
    cases hends with
    | line => cases h
    | fault block e error ignored hpast hnone => exact ⟨rfl, block, hpast.rest⟩
    | body text e length ignored hopens hpast hsome hheader =>
      rcases e.takeBody_cases length ignored with ⟨heq, -⟩ | ⟨heq, -⟩
      all_goals
        rw [heq] at h
        cases h
  nothing h := by
    have hends := next_ends hs
    generalize d.next = s at h hends
    cases hends with
    | line lines e ignored hlines hpast hnone hwhole =>
      exact ⟨rfl, .inl ⟨hnone, lines, hlines, hpast.rest, hwhole⟩⟩
    | fault => cases h
    | body text e length ignored hopens hpast hsome hheader =>
      rcases e.takeBody_cases length ignored with ⟨heq, hshort⟩ | ⟨heq, -⟩
      · rw [heq]
        rw [← length_rest] at hshort
        exact ⟨rfl, .inr ⟨length, text, hsome, hopens, hpast.rest, hshort⟩⟩
      · rw [heq] at h
        cases h

end LanguageClient.Frame.Decoder
