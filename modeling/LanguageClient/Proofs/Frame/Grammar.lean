import LanguageClient.Failure
import LanguageClient.Proofs.Frame.LengthLine

/-!
# What a frame is

The grammar of a stream, without any decoder. Up to its open end (`Tail`) a stream consists of
header blocks, those that announce a length with that many bytes behind them (`Segment`). Every
stream is divided so in one way (`Division.exists_text_eq`) and in no other
(`Division.text_injective`), and a decoder yields what the segments say (`exhaust_divided`). Of a
value that is no length a host is shown no more than what comes before a NUL (`message_of_reports`).
-/

namespace LanguageClient

namespace Frame

/-! ### Parts of a stream -/

/-- A header block. Its lines are given without their line feeds, and the empty one stands apart. -/
structure Block where
  lines : List Bytes
  blank : Bytes
  isLine : ∀ l ∈ lines, IsLine l
  isBlank : IsBlankLine blank

/-- A part of a stream that is complete. -/
inductive Segment where
  /-- A block that announces a length, with a body of this length. -/
  | frame (block : Block) (body : Bytes) (announced : LastOf Announces block.lines body.length)
  /-- A block that announces none. -/
  | fault (block : Block) (e : HeaderError) (reported : Reports block.lines e)

/-- The end of a stream, where more has to arrive. -/
inductive Tail where
  /-- The lines of a block that is not closed, and a part of its next line. -/
  | header (lines : List Bytes) (part : Bytes) (isLine : ∀ l ∈ lines, IsLine l)
    (whole : Ascii.lf ∉ part)
  /-- A block that announces a length, and a part of its body. -/
  | body (block : Block) (part : Bytes) (length : Length)
    (announced : LastOf Announces block.lines length.size) (short : part.length < length.size)

/-- A stream by its parts. -/
structure Division where
  segments : List Segment
  tail : Tail

def Block.text (b : Block) : Bytes := blockText b.lines b.blank

namespace Segment

def text : Segment → Bytes
  | .frame block body _ => block.text ++ body
  | .fault block _ _ => block.text

/-- What the segment amounts to. -/
def outcome : Segment → Outcome
  | .frame _ body _ => .body body
  | .fault _ e _ => .error e

end Segment

namespace Tail

def text : Tail → Bytes
  | .header lines part _ _ => lines.flatMap (· ++ [Ascii.lf]) ++ part
  | .body block part _ _ _ => block.text ++ part

/-- What is held back until more has arrived: a part of a line, or all there is of a body. -/
def part : Tail → Bytes
  | .header _ part _ _ => part
  | .body _ part _ _ _ => part

/-- The decoder at the end of the stream. It remembers what the lines of an open block have said, or
the length of an open body. -/
def decoder : Tail → Decoder
  | .header lines part _ _ => { buffer := part, header := (Header.lines {} lines).1 }
  | .body _ part length _ _ => { buffer := part, awaited := some length }

end Tail

def Division.text (d : Division) : Bytes := d.segments.flatMap Segment.text ++ d.tail.text

/-! ### Every stream has a division -/

theorem isBlankLine_of_isEmpty {line : Bytes} (h : withoutCr line = []) : IsBlankLine line := by
  unfold withoutCr at h
  split at h
  · next hcr =>
    obtain ⟨content, rfl⟩ := List.getLast?_eq_some_iff.mp hcr
    rw [List.dropLast_concat] at h
    exact .inr (by rw [h, List.nil_append])
  · exact .inl h

/-- The lines of a stream go on to its end, or there is an empty one among them. -/
theorem lines_cases (s : Bytes) :
    (∃ (lines : List Bytes) (part : Bytes), (∀ l ∈ lines, IsLine l) ∧ Ascii.lf ∉ part ∧
        s = lines.flatMap (· ++ [Ascii.lf]) ++ part) ∨
      ∃ (block : Block) (rest : Bytes), s = block.text ++ rest := by
  induction hn : s.length using Nat.strongRecOn generalizing s with
  | ind n ih =>
    cases hsplit : splitLine? s with
    | none => exact .inl ⟨[], s, by simp, splitLine?_eq_none_iff.mp hsplit, rfl⟩
    | some found =>
      obtain ⟨line, rest⟩ := found
      obtain ⟨rfl, hlf⟩ := splitLine?_eq_some_iff.mp hsplit
      by_cases hblank : withoutCr line = []
      · refine .inr ⟨⟨[], line, by simp, isBlankLine_of_isEmpty hblank⟩, rest, ?_⟩
        simp [Block.text, blockText]
      · have hline : IsLine line := ⟨hlf, hblank⟩
        have hlt : rest.length < n := by
          rw [← hn, List.length_append, List.length_cons]
          omega
        rcases ih rest.length hlt rest rfl with
          ⟨lines, part, hlines, hpart, heq⟩ | ⟨block, more, heq⟩
        · refine .inl ⟨line :: lines, part, List.forall_mem_cons.mpr ⟨hline, hlines⟩, hpart, ?_⟩
          simp [heq]
        · refine .inr ⟨⟨line :: block.lines, block.blank,
            List.forall_mem_cons.mpr ⟨hline, block.isLine⟩, block.isBlank⟩, more, ?_⟩
          rw [heq, Block.text, Block.text, blockText_cons, List.append_assoc, List.cons_append]

/-- A block announces one length or reports one error. -/
theorem announces_or_reports (lines : List Bytes) :
    (∃ length : Length, LastOf Announces lines length.size) ∨ ∃ e, Reports lines e := by
  cases h : (Header.lines {} lines).1.close with
  | ok length => exact .inl ⟨length, Header.close_lines_eq_ok_iff.mp h⟩
  | error e => exact .inr ⟨e, Header.close_lines_eq_error_iff.mp h⟩

theorem Block.length_text_pos (b : Block) : 0 < b.text.length := by
  rw [Block.text, blockText, List.length_append, List.length_singleton]
  exact Nat.succ_pos _

theorem Division.exists_text_eq (s : Bytes) : ∃ d : Division, d.text = s := by
  -- by induction on the length, as a block is at least one byte long
  induction hn : s.length using Nat.strongRecOn generalizing s with
  | ind n ih =>
    rcases lines_cases s with ⟨lines, part, hlines, hpart, rfl⟩ | ⟨block, rest, rfl⟩
    · exact ⟨⟨[], .header lines part hlines hpart⟩, rfl⟩
    · have hpos := block.length_text_pos
      rw [List.length_append] at hn
      rcases announces_or_reports block.lines with ⟨length, hlength⟩ | ⟨e, he⟩
      · by_cases hshort : rest.length < length.size
        · exact ⟨⟨[], .body block rest length hlength hshort⟩, rfl⟩
        -- the body is there, and what is behind it is divided in turn
        · have hsize : (rest.take length.size).length = length.size := by
            rw [List.length_take]
            omega
          have hless : (rest.drop length.size).length < n := by
            rw [List.length_drop]
            omega
          obtain ⟨d, hd⟩ := ih _ hless _ rfl
          refine ⟨⟨.frame block (rest.take length.size) (by rwa [hsize]) :: d.segments, d.tail⟩, ?_⟩
          have htext := List.take_append_drop length.size rest
          rw [← hd] at htext
          simp only [text, List.flatMap_cons, Segment.text, List.append_assoc] at htext ⊢
          rw [htext]
      · obtain ⟨d, hd⟩ := ih rest.length (by omega) rest rfl
        refine ⟨⟨.fault block e he :: d.segments, d.tail⟩, ?_⟩
        rw [← hd]
        simp only [text, List.flatMap_cons, Segment.text, List.append_assoc]

/-! ### No stream has two -/

theorem append_lf_inj {line line' s s' : Bytes} (h : Ascii.lf ∉ line) (h' : Ascii.lf ∉ line')
    (heq : line ++ Ascii.lf :: s = line' ++ Ascii.lf :: s') : line = line' ∧ s = s' := by
  have hsplit : splitLine? (line ++ Ascii.lf :: s) = some (line, s) := splitLine?_append h
  rw [heq, splitLine?_append h'] at hsplit
  cases hsplit
  exact ⟨rfl, rfl⟩

theorem IsLine.not_isBlankLine {line : Bytes} (h : IsLine line) : ¬ IsBlankLine line :=
  fun hblank => h.notBlank (List.isEmpty_iff.mp hblank.isEmpty)

/-- The lines of a block end here: what follows is an empty line or a part of a line. -/
def LinesEnd (s : Bytes) : Prop := ∀ line rest, s = line ++ Ascii.lf :: rest → ¬ IsLine line

theorem linesEnd_part {part : Bytes} (h : Ascii.lf ∉ part) : LinesEnd part := by
  rintro line rest rfl
  simp at h

theorem linesEnd_blank {blank : Bytes} (h : IsBlankLine blank) (rest : Bytes) :
    LinesEnd (blank ++ Ascii.lf :: rest) := by
  intro line rest' heq hline
  obtain ⟨rfl, -⟩ := append_lf_inj h.lf_not_mem hline.whole heq
  exact hline.not_isBlankLine h

theorem lines_append_inj {lines lines' : List Bytes} {s s' : Bytes} (hl : ∀ l ∈ lines, IsLine l)
    (hl' : ∀ l ∈ lines', IsLine l) (hs : LinesEnd s) (hs' : LinesEnd s')
    (h : lines.flatMap (· ++ [Ascii.lf]) ++ s = lines'.flatMap (· ++ [Ascii.lf]) ++ s') :
    lines = lines' ∧ s = s' := by
  induction lines generalizing lines' with
  | nil =>
    cases lines' with
    | nil => exact ⟨rfl, h⟩
    | cons line' lines' =>
      rw [List.flatMap_cons, List.append_assoc, List.append_assoc] at h
      exact absurd (hl' line' List.mem_cons_self) (hs _ _ h)
  | cons line lines ih =>
    obtain ⟨hline, hlines⟩ := List.forall_mem_cons.mp hl
    rw [List.flatMap_cons, List.append_assoc, List.append_assoc] at h
    cases lines' with
    | nil => exact absurd hline (hs' _ _ h.symm)
    | cons line' lines' =>
      obtain ⟨hline', hlines'⟩ := List.forall_mem_cons.mp hl'
      rw [List.flatMap_cons, List.append_assoc, List.append_assoc] at h
      obtain ⟨rfl, hrest⟩ := append_lf_inj hline.whole hline'.whole h
      obtain ⟨rfl, rfl⟩ := ih hlines hlines' hrest
      exact ⟨rfl, rfl⟩

theorem Block.text_append (b : Block) (rest : Bytes) :
    b.text ++ rest = b.lines.flatMap (· ++ [Ascii.lf]) ++ (b.blank ++ Ascii.lf :: rest) := by
  rw [Block.text, blockText, List.append_assoc, List.append_assoc, List.singleton_append]

theorem Block.text_append_inj {b b' : Block} {rest rest' : Bytes}
    (h : b.text ++ rest = b'.text ++ rest') : b = b' ∧ rest = rest' := by
  obtain ⟨lines, blank, hl, hb⟩ := b
  obtain ⟨lines', blank', hl', hb'⟩ := b'
  rw [text_append, text_append] at h
  obtain ⟨rfl, hblank⟩ :=
    lines_append_inj hl hl' (linesEnd_blank hb rest) (linesEnd_blank hb' rest') h
  obtain ⟨rfl, rfl⟩ := append_lf_inj hb.lf_not_mem hb'.lf_not_mem hblank
  exact ⟨rfl, rfl⟩

/-- A block that is closed is not one that is open. -/
theorem Block.text_append_ne (b : Block) {rest part : Bytes} {lines : List Bytes}
    (hl : ∀ l ∈ lines, IsLine l) (hp : Ascii.lf ∉ part) :
    b.text ++ rest ≠ lines.flatMap (· ++ [Ascii.lf]) ++ part := by
  intro h
  rw [text_append] at h
  obtain ⟨-, rfl⟩ :=
    lines_append_inj b.isLine hl (linesEnd_blank b.isBlank rest) (linesEnd_part hp) h
  simp at hp

theorem lastOf_announces_inj {lines : List Bytes} {n m : Nat} (hn : LastOf Announces lines n)
    (hm : LastOf Announces lines m) : n = m := by
  obtain ⟨length, rfl⟩ := exists_length_of_lastOf hn
  obtain ⟨length', rfl⟩ := exists_length_of_lastOf hm
  have hsame := (lastOf_announces_iff.mpr hn).symm.trans (lastOf_announces_iff.mpr hm)
  rw [Option.some.inj hsame]

theorem Reports.not_announces {lines : List Bytes} {e : HeaderError} {n : Nat}
    (h : Reports lines e) : ¬ LastOf Announces lines n := by
  rintro ⟨before, line, after, rfl, hline, -⟩
  have hnone := (reports_iff.mp h).1 line (by simp)
  exact announced?_eq_none_iff.mp hnone n hline

theorem Segment.text_append_inj {seg seg' : Segment} {rest rest' : Bytes}
    (h : seg.text ++ rest = seg'.text ++ rest') : seg = seg' ∧ rest = rest' := by
  cases seg with
  | frame block body hannounced =>
    cases seg' with
    | frame block' body' hannounced' =>
      simp only [text, List.append_assoc] at h
      obtain ⟨rfl, hbody⟩ := Block.text_append_inj h
      obtain ⟨rfl, rfl⟩ := List.append_inj hbody (lastOf_announces_inj hannounced hannounced')
      exact ⟨rfl, rfl⟩
    | fault block' e hreported =>
      simp only [text, List.append_assoc] at h
      obtain ⟨rfl, -⟩ := Block.text_append_inj h
      exact absurd hannounced hreported.not_announces
  | fault block e hreported =>
    cases seg' with
    | frame block' body hannounced =>
      simp only [text, List.append_assoc] at h
      obtain ⟨rfl, -⟩ := Block.text_append_inj h
      exact absurd hannounced hreported.not_announces
    | fault block' e' hreported' =>
      obtain ⟨rfl, rfl⟩ := Block.text_append_inj h
      obtain rfl : e = e' := (reports_iff.mp hreported).2.trans (reports_iff.mp hreported').2.symm
      exact ⟨rfl, rfl⟩

/-- The open end of a stream is no segment yet. -/
theorem Tail.text_ne (tail : Tail) (seg : Segment) (rest : Bytes) :
    tail.text ≠ seg.text ++ rest := by
  cases tail with
  | header lines part hl hp =>
    cases seg with
    | frame block body _ =>
      rw [Segment.text, List.append_assoc]
      exact (block.text_append_ne hl hp).symm
    | fault block e _ => exact (block.text_append_ne hl hp).symm
  | body block part length hannounced hshort =>
    intro h
    cases seg with
    | frame block' body hannounced' =>
      simp only [text, Segment.text, List.append_assoc] at h
      obtain ⟨rfl, rfl⟩ := Block.text_append_inj h
      have hsize := lastOf_announces_inj hannounced hannounced'
      rw [List.length_append] at hshort
      omega
    | fault block' e hreported =>
      obtain ⟨rfl, -⟩ := Block.text_append_inj h
      exact hreported.not_announces hannounced

theorem Tail.text_injective {tail tail' : Tail} (h : tail.text = tail'.text) : tail = tail' := by
  cases tail with
  | header lines part hl hp =>
    cases tail' with
    | header lines' part' hl' hp' =>
      obtain ⟨rfl, rfl⟩ := lines_append_inj hl hl' (linesEnd_part hp) (linesEnd_part hp') h
      rfl
    | body block part' length _ _ => exact absurd h.symm (block.text_append_ne hl hp)
  | body block part length hannounced hshort =>
    cases tail' with
    | header lines part' hl hp => exact absurd h (block.text_append_ne hl hp)
    | body block' part' length' hannounced' hshort' =>
      obtain ⟨rfl, rfl⟩ := Block.text_append_inj h
      have hsize := lastOf_announces_inj hannounced hannounced'
      cases length
      cases length'
      cases hsize
      rfl

theorem Division.text_injective {d d' : Division} (h : d.text = d'.text) : d = d' := by
  obtain ⟨segments, tail⟩ := d
  obtain ⟨segments', tail'⟩ := d'
  induction segments generalizing segments' with
  | nil =>
    cases segments' with
    | nil =>
      obtain rfl : tail = tail' := Tail.text_injective h
      rfl
    | cons seg more =>
      rw [text, text, List.flatMap_cons, List.append_assoc] at h
      exact absurd h (tail.text_ne seg _)
  | cons seg more ih =>
    rw [text, List.flatMap_cons, List.append_assoc] at h
    cases segments' with
    | nil => exact absurd h.symm (tail'.text_ne seg _)
    | cons seg' more' =>
      rw [text, List.flatMap_cons, List.append_assoc] at h
      obtain ⟨rfl, hmore⟩ := Segment.text_append_inj h
      cases ih more' hmore
      rfl

/-! ### What a decoder yields -/

namespace Decoder

theorem exhaust_segment (seg : Segment) (rest : Bytes) :
    (exhaust { buffer := seg.text ++ rest }).outcomes
        = seg.outcome :: (exhaust { buffer := rest }).outcomes ∧
      (exhaust { buffer := seg.text ++ rest }).decoder = (exhaust { buffer := rest }).decoder := by
  cases seg with
  | frame block body hannounced =>
    obtain ⟨length, hlength⟩ := exists_length_of_lastOf hannounced
    rw [← hlength] at hannounced
    rw [Segment.text, List.append_assoc]
    exact exhaust_block_append block.isLine block.isBlank
      (Header.close_lines_eq_ok_iff.mpr hannounced) hlength rest
  | fault block e hreported =>
    obtain ⟨hnone, rfl⟩ := reports_iff.mp hreported
    exact exhaust_block block.isLine block.isBlank hnone rest

theorem exhaust_of_compact_eq_none {d e : Decoder} {ignored : List Bytes}
    (h : d.next.compact = ⟨e, none, ignored⟩) : d.exhaust = ⟨[], ignored, e⟩ := by
  have ho : d.next.outcome = none := congrArg Step.outcome h
  have hd : d.next.decoder.compact = e := congrArg Step.decoder h
  rw [compact_eq_self (position_next_of_eq_none ho)] at hd
  rw [exhaust_of_eq_none ho]
  exact Yield.ext (congrArg Option.toList ho) (congrArg Step.ignored h) hd

theorem exhaust_tail (tail : Tail) :
    (exhaust { buffer := tail.text }).outcomes = [] ∧
      (exhaust { buffer := tail.text }).decoder = tail.decoder := by
  cases tail with
  | header lines part hl hp =>
    have hpart : splitLine? (rest { buffer := part, header := (Header.lines {} lines).1 }) = none :=
      splitLine?_eq_none_iff.mpr hp
    have hn : (next { buffer := lines.flatMap (· ++ [Ascii.lf]) ++ part }).compact =
        ⟨{ buffer := part, header := (Header.lines {} lines).1 }, none,
          (Header.lines {} lines).2⟩ := by
      rw [next_of_awaited_eq_none rfl, readHeader_pastLines {} hl, readHeader_of_eq_none hpart]
      simp [Step.compact, compact, rest]
    rw [Tail.text, exhaust_of_compact_eq_none hn]
    exact ⟨rfl, rfl⟩
  | body block part length hannounced hshort =>
    have hfew : buffered { buffer := part, awaited := some length } < length.size := hshort
    have hn : (next { buffer := block.text ++ part }).compact =
        ⟨{ buffer := part, awaited := some length }, none, (Header.lines {} block.lines).2⟩ := by
      rw [next_of_awaited_eq_none rfl, Block.text, readHeader_block {} block.isLine block.isBlank,
        closeHeader_of_ok (Header.close_lines_eq_ok_iff.mpr hannounced), takeBody, if_pos hfew]
      rfl
    rw [Tail.text, exhaust_of_compact_eq_none hn]
    exact ⟨rfl, rfl⟩

theorem exhaust_division (d : Division) :
    (exhaust { buffer := d.text }).outcomes = d.segments.map Segment.outcome ∧
      (exhaust { buffer := d.text }).decoder = d.tail.decoder := by
  obtain ⟨segments, tail⟩ := d
  induction segments with
  | nil => exact exhaust_tail tail
  | cons seg more ih =>
    obtain ⟨iho, ihd⟩ := ih
    obtain ⟨ho, hd⟩ := exhaust_segment seg (Division.text ⟨more, tail⟩)
    rw [Division.text, List.flatMap_cons, List.append_assoc, List.map_cons, ← iho]
    exact ⟨ho, hd.trans ihd⟩

/-- A stream has one division and no other. However it reaches a new decoder, once all of it is
there and the decoder finds nothing more, the decoder has yielded one outcome for each segment, in
order, and holds back what the open end does. -/
theorem exhaust_divided (calls : List Call) :
    ∃ d : Division, d.text = fed calls ∧ (∀ d' : Division, d'.text = fed calls → d' = d) ∧
      ((run {} calls).andThen exhaust).outcomes = d.segments.map Segment.outcome ∧
      ((run {} calls).andThen exhaust).decoder = d.tail.decoder ∧
      d.tail.decoder.rest = d.tail.part ∧ d.tail.decoder.next = ⟨d.tail.decoder, none, []⟩ := by
  obtain ⟨d, hd⟩ := Division.exists_text_eq (fed calls)
  have hwhole : feed {} (fed calls) = { buffer := d.text } := by rw [hd]; rfl
  have hrun := run_andThen_exhaust .empty calls
  rw [hwhole] at hrun
  obtain ⟨houtcomes, hdecoder⟩ := exhaust_division d
  have hnext := next_decoder_exhaust (d := { buffer := d.text }) (Nat.zero_le _)
  rw [hdecoder] at hnext
  refine ⟨d, hd, fun d' hd' => Division.text_injective (hd'.trans hd.symm), ?_, ?_, ?_, hnext⟩
  · rw [hrun, houtcomes]
  · rw [hrun, hdecoder]
  · cases d.tail <;> rfl

-- Of the lengths of a block the last usable one counts, and the next block knows of none of them.
example :
    (exhaust (feed {} (bytes
      "Content-Length: 9\nContent-Length:02\r\nContent-Length: 0\n\r\n[]X: y\n\n"))).outcomes =
      [.body (bytes "[]"), .error .noLength] := by
  decide +kernel

end Decoder

end Frame

/-! ### What a host is shown -/

theorem Bytes.beforeNul_append_of_not_mem {s : Bytes} (h : Ascii.nul ∉ s) (t : Bytes) :
    (s ++ t).beforeNul = s ++ t.beforeNul :=
  List.takeWhile_append_of_pos fun b hb => by simpa using ne_of_mem_of_not_mem hb h

theorem Bytes.beforeNul_append_of_mem {s : Bytes} (h : Ascii.nul ∈ s) (t : Bytes) :
    (s ++ t).beforeNul = s.beforeNul := by
  obtain ⟨before, after, rfl, hbefore⟩ := List.eq_append_cons_of_mem h
  rw [List.append_assoc, beforeNul_append_of_not_mem hbefore, beforeNul_append_of_not_mem hbefore]
  rfl

namespace Frame

/-- The text for a value that is no length has the value between quotation marks. It ends at a NUL,
and then it does without the second mark. -/
theorem message_invalidLength (value : Bytes) :
    (FrameFault.header (.invalidLength value)).message =
      bytes "Invalid Content-Length value '" ++
        if Ascii.nul ∈ value then value.beforeNul else value ++ bytes "'" := by
  have hstart : Ascii.nul ∉ bytes "Invalid Content-Length value '" := by decide
  have hquoted : bytes "Invalid Content-Length value '" =
      bytes "Invalid Content-Length value " ++ bytes "'" := by decide
  have htext : (HeaderError.invalidLength value).message =
      bytes "Invalid Content-Length value '" ++ (value ++ bytes "'") := by
    rw [HeaderError.message, Bytes.inQuotes, hquoted, List.append_assoc, List.append_assoc]
  rw [FrameFault.message, htext, Bytes.beforeNul_append_of_not_mem hstart]
  split
  · next h => rw [Bytes.beforeNul_append_of_mem h]
  · next h =>
    rw [Bytes.beforeNul_append_of_not_mem h]
    rfl

/-- What a host is shown of a block that announces no length: the value of its last length line, if
there is one. -/
theorem message_of_reports {lines : List Bytes} {e : HeaderError} (h : Reports lines e) :
    (∃ value, LastOf HasValue lines value ∧ value ≠ [] ∧
      (FrameFault.header e).message = bytes "Invalid Content-Length value '" ++
        if Ascii.nul ∈ value then value.beforeNul else value ++ bytes "'") ∨
      ((LastOf HasValue lines [] ∨ ∀ l ∈ lines, ∀ v, ¬ HasValue l v) ∧
        (FrameFault.header e).message = bytes "Header block without Content-Length") := by
  cases h with
  | @value value hnone hlast hne => exact .inl ⟨value, hlast, hne, message_invalidLength value⟩
  | noValue hnone hlast => exact .inr ⟨hlast, by decide⟩

end Frame

end LanguageClient
