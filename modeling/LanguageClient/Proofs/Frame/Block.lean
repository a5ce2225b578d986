import LanguageClient.Proofs.Digits
import LanguageClient.Proofs.Frame.Chunking

/-!
# Header blocks at the front of a stream

A header block is a row of lines and an empty line (`blockText`). A new decoder that meets one
reports it if none of its lines announces a length (`exhaust_block`), and otherwise waits for the
body; a frame is a block of one line with its body behind it (`encode_eq_block`), and yields the
body whatever follows (`exhaust_encode`). In both cases it goes on with the rest of the stream as
a new decoder does.
-/

namespace LanguageClient.Frame

/-! ### Lines -/

/-- The lines of a block and its empty line, all given without their line feeds. -/
def blockText (lines : List Bytes) (blank : Bytes) : Bytes :=
  lines.flatMap (· ++ [Ascii.lf]) ++ blank ++ [Ascii.lf]

/-- Neither cut by a line feed nor empty; it may end in a carriage return. -/
structure IsLine (line : Bytes) : Prop where
  whole : Ascii.lf ∉ line
  notBlank : withoutCr line ≠ []

/-- The empty line, with or without a carriage return. -/
def IsBlankLine (line : Bytes) : Prop := line = [] ∨ line = [Ascii.cr]

/-- The value of a length line; other lines have none. -/
def fieldValue? (line : Bytes) : Option Bytes :=
  (Bytes.after? lengthField (withoutCr line)).map Bytes.trim

/-- The length that a line announces, if it announces a usable one. -/
def announced? (line : Bytes) : Option Length := (fieldValue? line).bind Length.read?

/-- What is wrong with a block none of whose lines announces a length: it names the value of its
last length line, unless that is empty or there is none. -/
def blockError (lines : List Bytes) : HeaderError :=
  match (lines.filterMap fieldValue?).getLast? with
  | none | some [] => .noLength
  | some value => .invalidLength value

theorem blockText_cons (line : Bytes) (lines : List Bytes) (blank : Bytes) :
    blockText (line :: lines) blank = line ++ Ascii.lf :: blockText lines blank := by
  simp [blockText]

theorem IsBlankLine.lf_not_mem {line : Bytes} (h : IsBlankLine line) : Ascii.lf ∉ line := by
  obtain rfl | rfl := h <;> decide

theorem IsBlankLine.isEmpty {line : Bytes} (h : IsBlankLine line) :
    (withoutCr line).isEmpty = true := by
  obtain rfl | rfl := h <;> decide

theorem withoutCr_append_cr (line : Bytes) : withoutCr (line ++ [Ascii.cr]) = line := by
  simp [withoutCr]

namespace Header

/-- What the lines of a block have said after `h`, and the values among them that were ignored. -/
def lines (h : Header) : List Bytes → Header × List Bytes
  | [] => (h, [])
  | line :: rest =>
    let (h, bad) := h.line (withoutCr line)
    let (h, more) := h.lines rest
    (h, bad.toList ++ more)

theorem length_line (h : Header) (line : Bytes) :
    (h.line (withoutCr line)).1.length = (announced? line).or h.length := by
  unfold Header.line announced? fieldValue?
  cases Bytes.after? lengthField (withoutCr line) with
  | none => rfl
  | some value =>
    rw [Option.map_some, Option.bind_some]
    dsimp only
    cases Length.read? (Bytes.trim value) <;> rfl

theorem invalid_line_of_eq_none (h : Header) {line : Bytes} (hn : announced? line = none) :
    (h.line (withoutCr line)).1.invalid = (fieldValue? line).getD h.invalid := by
  unfold announced? fieldValue? at hn
  unfold Header.line fieldValue?
  cases ha : Bytes.after? lengthField (withoutCr line) with
  | none => rfl
  | some value =>
    rw [ha, Option.map_some, Option.bind_some] at hn
    simp [hn]

/-- Lines that announce nothing leave the length open, and the last of their values is kept. -/
theorem lines_of_forall_none (h : Header) {ls : List Bytes}
    (hn : ∀ l ∈ ls, announced? l = none) :
    (h.lines ls).1.length = h.length ∧
      (h.lines ls).1.invalid = (ls.filterMap fieldValue?).getLast?.getD h.invalid := by
  induction ls generalizing h with
  | nil => exact ⟨rfl, rfl⟩
  | cons line rest ih =>
    have hline := hn line List.mem_cons_self
    have hlength := length_line h line
    rw [hline, Option.none_or] at hlength
    obtain ⟨ihl, ihi⟩ := ih (h.line (withoutCr line)).1 fun l hl => hn l (List.mem_cons_of_mem line hl)
    refine ⟨ihl.trans hlength, ihi.trans ?_⟩
    rw [invalid_line_of_eq_none h hline, List.filterMap_cons]
    cases fieldValue? line with
    | none => rfl
    | some value => simp [List.getLast?_cons]

theorem close_lines_of_forall_none {ls : List Bytes} (hn : ∀ l ∈ ls, announced? l = none) :
    (lines {} ls).1.close = .error (blockError ls) := by
  obtain ⟨hl, hi⟩ := lines_of_forall_none {} hn
  rw [close, hl, hi, blockError]
  cases (ls.filterMap fieldValue?).getLast? with
  | none => rfl
  | some value => cases value <;> rfl

end Header

namespace Decoder

theorem exhaust_of_compact_eq {d e : Decoder} {o : Outcome} {ignored : List Bytes}
    (h : d.next.compact = ⟨e, some o, ignored⟩) :
    d.exhaust = ⟨o :: e.exhaust.outcomes, ignored ++ e.exhaust.ignored, e.exhaust.decoder⟩ := by
  have ho : d.next.outcome = some o := congrArg Step.outcome h
  have hi : d.next.ignored = ignored := congrArg Step.ignored h
  have hd : d.next.decoder.compact = e := congrArg Step.decoder h
  have he : d.next.decoder.exhaust = e.exhaust := by
    rw [← hd]
    exact exhaust_congr rfl
  rw [exhaust_of_isSome (by simp [ho])]
  simp [Yield.andThen, Step.yield, ho, hi, he]

theorem reverse_toList {α : Type} (o : Option α) : o.toList.reverse = o.toList := by
  cases o <;> rfl

/-- A decoder reads the lines of an open block one by one. -/
theorem readHeader_pastLines (h : Header) {lines : List Bytes} (hl : ∀ l ∈ lines, IsLine l)
    (s : Bytes) (ignored : List Bytes) :
    (readHeader { buffer := lines.flatMap (· ++ [Ascii.lf]) ++ s, header := h } ignored).compact
      = (readHeader { buffer := s, header := (h.lines lines).1 }
          ((h.lines lines).2.reverse ++ ignored)).compact := by
  induction lines generalizing h ignored with
  | nil => rfl
  | cons line lines ih =>
    have hline := hl line List.mem_cons_self
    rw [List.flatMap_cons, List.append_assoc, List.append_assoc, List.singleton_append]
    have hs : splitLine? (line ++ Ascii.lf :: (lines.flatMap (· ++ [Ascii.lf]) ++ s))
        = some (line, lines.flatMap (· ++ [Ascii.lf]) ++ s) := splitLine?_append hline.whole
    have hr : readHeader
        { buffer := line ++ Ascii.lf :: (lines.flatMap (· ++ [Ascii.lf]) ++ s), header := h }
          ignored = _ :=
      readHeader_of_not_isEmpty hs (by simpa using hline.notBlank)
    have hc : (pastLine
          { buffer := line ++ Ascii.lf :: (lines.flatMap (· ++ [Ascii.lf]) ++ s), header := h }
          line).compact
        = { buffer := lines.flatMap (· ++ [Ascii.lf]) ++ s
            header := (h.line (withoutCr line)).1 } := by
      simp [pastLine, compact, Decoder.rest]
    rw [hr, readHeader_congr (hc.trans (compact_eq_self rfl).symm),
      ih _ fun l h => hl l (List.mem_cons_of_mem line h)]
    simp only [Header.lines, List.reverse_append, List.append_assoc, reverse_toList]

/-- After the lines of a block it closes the block at the empty line. -/
theorem readHeader_block (h : Header) {lines : List Bytes} {blank : Bytes}
    (hl : ∀ l ∈ lines, IsLine l) (hb : IsBlankLine blank) (rest : Bytes) (ignored : List Bytes) :
    (readHeader { buffer := blockText lines blank ++ rest, header := h } ignored).compact
      = (closeHeader { buffer := blank ++ Ascii.lf :: rest, header := (h.lines lines).1 }
          (blank.length + 1) (ignored.reverse ++ (h.lines lines).2)).compact := by
  have hs : splitLine? (blank ++ Ascii.lf :: rest) = some (blank, rest) :=
    splitLine?_append hb.lf_not_mem
  have hr : readHeader { buffer := blank ++ Ascii.lf :: rest, header := (h.lines lines).1 }
      ((h.lines lines).2.reverse ++ ignored) = _ := readHeader_of_isEmpty hs hb.isEmpty
  rw [blockText, List.append_assoc, List.append_assoc, List.singleton_append,
    readHeader_pastLines h hl, hr]
  simp only [List.reverse_append, List.reverse_reverse, Nat.zero_add]

theorem closeHeader_of_error {h : Header} {e : HeaderError} (hc : h.close = .error e)
    (blank rest : Bytes) (ignored : List Bytes) :
    (closeHeader { buffer := blank ++ Ascii.lf :: rest, header := h } (blank.length + 1)
      ignored).compact = ⟨{ buffer := rest }, some (.error e), ignored⟩ := by
  simp [closeHeader, hc, Step.compact, compact, Decoder.rest]

theorem closeHeader_of_ok {h : Header} {length : Length} (hc : h.close = .ok length)
    (blank rest : Bytes) (ignored : List Bytes) :
    (closeHeader { buffer := blank ++ Ascii.lf :: rest, header := h } (blank.length + 1)
      ignored).compact
      = (takeBody { buffer := rest, awaited := some length } length ignored).compact := by
  simp only [closeHeader, hc]
  apply takeBody_congr
  simp [compact, Decoder.rest]

theorem takeBody_append {length : Length} {body : Bytes} (h : length.size = body.length)
    (rest : Bytes) (ignored : List Bytes) :
    (takeBody { buffer := body ++ rest, awaited := some length } length ignored).compact
      = ⟨{ buffer := rest }, some (.body body), ignored⟩ := by
  have hfit : ¬ buffered { buffer := body ++ rest, awaited := some length } < length.size := by
    simp [buffered, h]
  rw [takeBody, if_neg hfit]
  simp [Step.compact, compact, Decoder.rest, h]

/-- A block without a usable length is reported, and forgotten. -/
theorem exhaust_block {lines : List Bytes} {blank : Bytes} (hl : ∀ l ∈ lines, IsLine l)
    (hb : IsBlankLine blank) (hn : ∀ l ∈ lines, announced? l = none) (rest : Bytes) :
    (exhaust { buffer := blockText lines blank ++ rest }).outcomes
        = .error (blockError lines) :: (exhaust { buffer := rest }).outcomes ∧
      (exhaust { buffer := blockText lines blank ++ rest }).decoder
        = (exhaust { buffer := rest }).decoder := by
  have hn : (next { buffer := blockText lines blank ++ rest }).compact
      = ⟨{ buffer := rest }, some (.error (blockError lines)), (Header.lines {} lines).2⟩ := by
    rw [next_of_awaited_eq_none rfl, readHeader_block {} hl hb,
      closeHeader_of_error (Header.close_lines_of_forall_none hn)]
    rfl
  rw [exhaust_of_compact_eq hn]
  exact ⟨rfl, rfl⟩

/-- The body of a frame is found, whatever follows it. -/
theorem exhaust_block_append {lines : List Bytes} {blank : Bytes} (hl : ∀ l ∈ lines, IsLine l)
    (hb : IsBlankLine blank) {length : Length} (hc : (Header.lines {} lines).1.close = .ok length)
    {body : Bytes} (hlen : length.size = body.length) (rest : Bytes) :
    (exhaust { buffer := blockText lines blank ++ (body ++ rest) }).outcomes
        = .body body :: (exhaust { buffer := rest }).outcomes ∧
      (exhaust { buffer := blockText lines blank ++ (body ++ rest) }).decoder
        = (exhaust { buffer := rest }).decoder := by
  have hn : (next { buffer := blockText lines blank ++ (body ++ rest) }).compact
      = ⟨{ buffer := rest }, some (.body body), (Header.lines {} lines).2⟩ := by
    rw [next_of_awaited_eq_none rfl, readHeader_block {} hl hb, closeHeader_of_ok hc,
      takeBody_append hlen]
    rfl
  rw [exhaust_of_compact_eq hn]
  exact ⟨rfl, rfl⟩

end Decoder

/-! ### Frames -/

/-- The line that announces a length. -/
def lengthLine (n : Nat) : Bytes := lengthField ++ Ascii.space :: Digits.ofNat n ++ [Ascii.cr]

theorem encode_eq_block (body : Bytes) :
    encode body = blockText [lengthLine body.length] [Ascii.cr] ++ body := by
  have hend : bytes "\r\n\r\n" = [Ascii.cr, Ascii.lf, Ascii.cr, Ascii.lf] := rfl
  simp [encode, blockText, lengthLine, hend]

theorem lf_not_mem_ofNat (n : Nat) : Ascii.lf ∉ Digits.ofNat n := by
  intro hm
  have := List.all_eq_true.mp (Digits.all_isDigit_ofNat n) _ hm
  exact absurd this (by decide)

theorem isLine_lengthLine (n : Nat) : IsLine (lengthLine n) where
  whole := by
    have hfield : Ascii.lf ∉ lengthField := by decide
    simp [lengthLine, hfield, lf_not_mem_ofNat]
    decide
  notBlank := by
    rw [lengthLine, withoutCr_append_cr]
    simp

theorem dropWhile_eq_self_of_all {p : UInt8 → Bool} {s : Bytes} (h : s.all (! p ·) = true) :
    s.dropWhile p = s := by
  cases s with
  | nil => rfl
  | cons b rest =>
    simp only [List.all_cons, Bool.and_eq_true, Bool.not_eq_true'] at h
    exact List.dropWhile_cons_of_neg (by simp [h.1])

theorem not_isBlank_of_isDigit {b : UInt8} (h : Digits.isDigit b = true) :
    Bytes.isBlank b = false := by
  have hb := (Digits.isDigit_iff.mp h).1
  have hs : b ≠ Ascii.space := by
    rintro rfl
    exact absurd hb (by decide)
  have ht : b ≠ Ascii.tab := by
    rintro rfl
    exact absurd hb (by decide)
  simp [Bytes.isBlank, hs, ht]

theorem trim_space_cons {s : Bytes} (h : s.all (! Bytes.isBlank ·) = true) :
    Bytes.trim (Ascii.space :: s) = s := by
  have hspace : Bytes.isBlank Ascii.space = true := by decide
  rw [Bytes.trim, List.dropWhile_cons_of_pos hspace, dropWhile_eq_self_of_all h,
    dropWhile_eq_self_of_all (by rwa [List.all_reverse]), List.reverse_reverse]

theorem fieldValue?_lengthLine (n : Nat) : fieldValue? (lengthLine n) = some (Digits.ofNat n) := by
  have hblank : (Digits.ofNat n).all (! Bytes.isBlank ·) = true := by
    rw [List.all_eq_true]
    intro b hb
    rw [not_isBlank_of_isDigit (List.all_eq_true.mp (Digits.all_isDigit_ofNat n) b hb)]
    rfl
  have hafter : Bytes.after? lengthField (lengthField ++ Ascii.space :: Digits.ofNat n)
      = some (Ascii.space :: Digits.ofNat n) := Bytes.after?_eq_some_iff.mpr rfl
  rw [fieldValue?, lengthLine, withoutCr_append_cr, hafter, Option.map_some, trim_space_cons hblank]

theorem announced?_lengthLine (n : Nat) :
    announced? (lengthLine n) = if h : 0 < n ∧ n < UInt64.size then some ⟨n, h.1, h.2⟩ else none := by
  rw [announced?, fieldValue?_lengthLine, Option.bind_some, Length.read?, Digits.toNat?_ofNat]

namespace Decoder

/-- A frame yields its body, whatever the body contains and whatever follows. -/
theorem exhaust_encode {body : Bytes} (hpos : 0 < body.length) (hlt : body.length < UInt64.size)
    (rest : Bytes) :
    (exhaust { buffer := encode body ++ rest }).outcomes
        = .body body :: (exhaust { buffer := rest }).outcomes ∧
      (exhaust { buffer := encode body ++ rest }).decoder
        = (exhaust { buffer := rest }).decoder := by
  have hlength := Header.length_line {} (lengthLine body.length)
  rw [announced?_lengthLine, dif_pos ⟨hpos, hlt⟩, Option.some_or] at hlength
  have hc : (Header.lines {} [lengthLine body.length]).1.close = .ok ⟨body.length, hpos, hlt⟩ := by
    simp only [Header.lines, Header.close, hlength]
  rw [encode_eq_block, List.append_assoc]
  exact exhaust_block_append (by simp [isLine_lengthLine]) (.inr rfl) hc rfl rest

/-- The frame of the empty body announces no usable length. -/
theorem exhaust_encode_nil (rest : Bytes) :
    (exhaust { buffer := encode [] ++ rest }).outcomes
        = .error (.invalidLength (bytes "0")) :: (exhaust { buffer := rest }).outcomes ∧
      (exhaust { buffer := encode [] ++ rest }).decoder
        = (exhaust { buffer := rest }).decoder := by
  have he : blockError [lengthLine 0] = .invalidLength (bytes "0") := by
    rw [blockError, List.filterMap_cons, fieldValue?_lengthLine]
    decide
  rw [encode_eq_block, List.append_nil, ← he]
  exact exhaust_block (by simp [isLine_lengthLine]) (.inr rfl) (by simp [announced?_lengthLine]) rest

end Decoder

end LanguageClient.Frame
