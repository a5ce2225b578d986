import LanguageClient.Json.Text
import LanguageClient.Proofs.Json.Numeral
import LanguageClient.Proofs.Json.Quoted
import LanguageClient.Proofs.Json.Syntax

/-!
# The tokens of a written value

`Json.tree` is the tree that a value is written as, and the text of the value is split into the
tokens of that tree (`lex?_text`). A number or a word ends where a byte follows that cannot belong to
it, so the lemmas about parts of a text say what may follow.
-/

namespace LanguageClient.Json

open Bytes (Stops)

mutual

/-- The tree that a value is written as. -/
def tree : Json → Tree
  | .null => .null
  | .bool b => .bool b
  | .integer n => .number (.integer n.toInt)
  | .double d => .number (.ofDouble d)
  | .string s => .string s
  | .array items => .array (trees items)
  | .object members => .object (memberTrees members)

def trees : List Json → List Tree
  | [] => []
  | item :: rest => tree item :: trees rest

def memberTrees : List (Bytes × Json) → List (Bytes × Tree)
  | [] => []
  | (key, value) :: rest => (key, tree value) :: memberTrees rest

end

namespace Token

/-! ### One token -/

/-- A word is null, or it is read to its end. -/
theorem word?_cases {b : UInt8} {s rest : Bytes} {t : Token} (h : word? b s = some (t, rest)) :
    (b = Ascii.byte 'n' ∧ t = .null ∧ ∃ part, s = part ++ rest ∧ part.all isWordPart = true ∧
      Stops isWordPart rest) ∨
    ∃ word, (word, t) ∈ words ∧ b :: s = word ++ rest := by
  unfold word? at h
  split at h
  · next hb =>
    cases h
    exact .inl ⟨hb, rfl, s.takeWhile isWordPart, List.takeWhile_append_dropWhile.symm,
      List.all_takeWhile, Bytes.stops_dropWhile isWordPart s⟩
  · obtain ⟨⟨word, token⟩, hw, h⟩ := List.exists_of_findSome?_eq_some h
    obtain ⟨found, hfound, heq⟩ := Option.map_eq_some_iff.mp h
    cases heq
    exact .inr ⟨word, hw, Bytes.after?_eq_some_iff.mp hfound⟩

/-- The token at the front of a text is a mark, a string, a number or a word. -/
theorem first?_cases {b : UInt8} {s rest : Bytes} {t : Token} (h : first? b s = some (t, rest)) :
    (mark? b = some t ∧ s = rest) ∨
    (b = Ascii.quote ∧ ∃ text, Quoted.read? s = some (text, rest) ∧ t = .string text) ∨
    (∃ part n, b :: s = part ++ rest ∧ part.all Numeral.isPart = true ∧
      Stops Numeral.isPart rest ∧ Numeral.read? part = some n ∧ t = .number n) ∨
    (b = Ascii.byte 'n' ∧ t = .null ∧ ∃ part, s = part ++ rest ∧ part.all isWordPart = true ∧
      Stops isWordPart rest) ∨
    ∃ word, (word, t) ∈ words ∧ b :: s = word ++ rest := by
  unfold first? at h
  split at h
  · next hmark =>
    cases h
    exact .inl ⟨hmark, rfl⟩
  split at h
  · next hquote =>
    obtain ⟨⟨text, found⟩, hread, heq⟩ := Option.map_eq_some_iff.mp h
    cases heq
    exact .inr (.inl ⟨hquote, text, hread, rfl⟩)
  split at h
  · next hpart =>
    obtain ⟨n, hread, heq⟩ := Option.map_eq_some_iff.mp h
    cases heq
    refine .inr (.inr (.inl ⟨b :: s.takeWhile Numeral.isPart, n, ?_, ?_, ?_, hread, rfl⟩))
    · rw [List.cons_append, List.takeWhile_append_dropWhile]
    · rw [List.all_cons, hpart, List.all_takeWhile]
      rfl
    · exact Bytes.stops_dropWhile Numeral.isPart s
  · exact .inr (.inr (.inr (word?_cases h)))

section

variable {before : List Token} {rest : Bytes}

/-- The first token, and then the others. -/
theorem lexAfter?_eq (before : List Token) (s : Bytes) :
    lexAfter? before s =
      match s.dropWhile isBlank with
      | [] => some before.reverse
      | b :: rest => (first? b rest).bind fun found => lexAfter? (found.1 :: before) found.2 := by
  rw [lexAfter?]
  split
  · next h => rw [h]
  · next h =>
    rw [h]
    split
    · next hfirst => simp only [hfirst, Option.bind_none]
    · next hfirst => simp only [hfirst, Option.bind_some]

theorem lexAfter?_nil (before : List Token) : lexAfter? before [] = some before.reverse :=
  lexAfter?_eq before []

theorem lexAfter?_blanks {blanks : Bytes} (h : blanks.all isBlank = true) (s : Bytes) :
    lexAfter? before (blanks ++ s) = lexAfter? before s := by
  have hd : (blanks ++ s).dropWhile isBlank = s.dropWhile isBlank :=
    List.dropWhile_append_of_pos (by simpa using h)
  rw [lexAfter?_eq, lexAfter?_eq, hd]

theorem lexAfter?_cons {b : UInt8} {s : Bytes} {t : Token} (hb : isBlank b = false)
    (hf : first? b s = some (t, rest)) :
    lexAfter? before (b :: s) = lexAfter? (t :: before) rest := by
  have hd : (b :: s).dropWhile isBlank = b :: s := List.dropWhile_cons_of_neg (by simp [hb])
  rw [lexAfter?_eq, hd]
  simp only [hf, Option.bind_some]

theorem lexAfter?_mark {b : UInt8} {t : Token} (hb : isBlank b = false) (hm : mark? b = some t)
    (s : Bytes) : lexAfter? before (b :: s) = lexAfter? (t :: before) s :=
  lexAfter?_cons hb (by rw [first?, hm])

theorem lexAfter?_string (s rest : Bytes) :
    lexAfter? before (Quoted.write s ++ rest) = lexAfter? (.string s :: before) rest := by
  have hmark : mark? Ascii.quote = none := by decide
  rw [Quoted.write, List.cons_append, List.append_assoc]
  exact lexAfter?_cons (by decide) (by
    rw [first?, hmark]
    simp only [if_true]
    rw [List.singleton_append, Quoted.read?_write]
    rfl)

theorem lexAfter?_word {word : Bytes} {t : Token} (h : (word, t) ∈ words) (rest : Bytes) :
    lexAfter? before (word ++ rest) = lexAfter? (t :: before) rest := by
  simp only [words, List.mem_cons, Prod.mk.injEq, List.not_mem_nil, or_false] at h
  obtain ⟨rfl, rfl⟩ | ⟨rfl, rfl⟩ := h <;> exact lexAfter?_cons (by decide) rfl

/-- A word that begins with `n` ends where a byte follows that cannot belong to it. -/
theorem lexAfter?_null {part : Bytes} (hpart : part.all isWordPart = true)
    (hr : Stops isWordPart rest) :
    lexAfter? before (Ascii.byte 'n' :: (part ++ rest)) = lexAfter? (.null :: before) rest := by
  refine lexAfter?_cons (by decide) ?_
  have hword : first? (Ascii.byte 'n') (part ++ rest) = word? (Ascii.byte 'n') (part ++ rest) := rfl
  rw [hword, word?, if_pos rfl, hr.dropWhile_append hpart]

/-- No byte of a number is a blank or begins another token. -/
theorem of_isPart {b : UInt8} (h : Numeral.isPart b = true) :
    isBlank b = false ∧ mark? b = none ∧ b ≠ Ascii.quote := by
  have hne : ∀ x, Numeral.isPart x = false → b ≠ x := fun x hx hbx =>
    absurd (h.symm.trans (hbx ▸ hx)) (by decide)
  refine ⟨?_, ?_, hne _ (by decide)⟩
  · simp only [isBlank, Bool.or_eq_false_iff, beq_eq_false_iff_ne]
    exact ⟨⟨⟨hne _ (by decide), hne _ (by decide)⟩, hne _ (by decide)⟩, hne _ (by decide)⟩
  · rw [mark?, if_neg (hne _ (by decide)), if_neg (hne _ (by decide)), if_neg (hne _ (by decide)),
      if_neg (hne _ (by decide)), if_neg (hne _ (by decide)), if_neg (hne _ (by decide))]

theorem isWordPart_iff {b : UInt8} :
    isWordPart b = true ↔ isBlank b = false ∧ mark? b = none ∧ b ≠ Ascii.quote := by
  simp [isWordPart, and_assoc]

/-- What cannot go on with a word cannot go on with a number either. -/
theorem stops_isPart (h : Stops isWordPart rest) : Stops Numeral.isPart rest := by
  refine fun b hb => Bool.eq_false_iff.mpr fun hpart => ?_
  exact Bool.eq_false_iff.mp (h b hb) (isWordPart_iff.mpr (of_isPart hpart))

theorem lexAfter?_number {s : Bytes} {n : Numeral} (hs : s.all Numeral.isPart = true)
    (hread : Numeral.read? s = some n) (hr : Stops Numeral.isPart rest) :
    lexAfter? before (s ++ rest) = lexAfter? (.number n :: before) rest := by
  cases s with
  | nil => exact nomatch hread
  | cons b s =>
    obtain ⟨hb, hs⟩ := Bool.and_eq_true_iff.mp (List.all_cons ▸ hs)
    obtain ⟨hblank, hmark, hquote⟩ := of_isPart hb
    have hfirst : first? b (s ++ rest) = some (.number n, rest) := by
      rw [first?, hmark]
      simp only [if_neg hquote, if_pos hb]
      rw [hr.takeWhile_append hs, hr.dropWhile_append hs, hread]
      rfl
    exact lexAfter?_cons hblank hfirst

end

/-! ### Values -/

/-- After a value and the items that follow it, no word goes on. -/
theorem stops_commas (rows : List Bytes) {rest : Bytes} (hr : Stops isWordPart rest) :
    Stops isWordPart (rows.flatMap (Ascii.comma :: ·) ++ rest) := by
  cases rows with
  | nil => exact hr
  | cons row rows => exact Bytes.stops_cons (by decide) _

mutual

/-- The text of a value is split into the tokens of its tree. -/
theorem lexAfter?_text (j : Json) (before : List Token) {rest : Bytes}
    (hr : Stops isWordPart rest) :
    lexAfter? before (j.text ++ rest) = lexAfter? (j.tree.tokens.reverse ++ before) rest := by
  cases j with
  | null => exact lexAfter?_null (show (bytes "ull").all isWordPart = true by decide) hr
  | bool b =>
    cases b <;> rw [text]
    · exact lexAfter?_word (by simp [words]) rest
    · exact lexAfter?_word (by simp [words]) rest
  | integer n =>
    exact lexAfter?_number (Numeral.all_isPart_ofInt _) (Numeral.read?_ofInt _) (stops_isPart hr)
  | double d =>
    exact lexAfter?_number (Numeral.all_isPart_text d) (Numeral.read?_text d) (stops_isPart hr)
  | string s => exact lexAfter?_string s rest
  | array items =>
    rw [text, List.cons_append, List.append_assoc,
      lexAfter?_mark (t := .openArray) (by decide) (by decide)]
    cases items with
    | nil => exact lexAfter?_mark (t := .closeArray) (by decide) (by decide) rest
    | cons item items =>
      have hclose : Stops isWordPart ([Ascii.closeBracket] ++ rest) :=
        Bytes.stops_cons (by decide) rest
      rw [itemTexts, withCommas, List.append_assoc,
        lexAfter?_text item _ (stops_commas _ hclose), lexAfter?_items items _ hclose]
      refine (lexAfter?_mark (t := .closeArray) (by decide) (by decide) rest).trans ?_
      simp [tree, trees, Tree.tokens, Tree.itemTokens, Tree.withCommas]
  | object members =>
    rw [text, List.cons_append, List.append_assoc,
      lexAfter?_mark (t := .openObject) (by decide) (by decide)]
    cases members with
    | nil => exact lexAfter?_mark (t := .closeObject) (by decide) (by decide) rest
    | cons member members =>
      obtain ⟨key, value⟩ := member
      have hclose : Stops isWordPart ([Ascii.closeBrace] ++ rest) :=
        Bytes.stops_cons (by decide) rest
      rw [memberTexts, withCommas, List.append_assoc, List.append_assoc, lexAfter?_string,
        List.cons_append, lexAfter?_mark (t := .colon) (by decide) (by decide),
        lexAfter?_text value _ (stops_commas _ hclose), lexAfter?_members members _ hclose]
      refine (lexAfter?_mark (t := .closeObject) (by decide) (by decide) rest).trans ?_
      simp [tree, memberTrees, Tree.tokens, Tree.memberTokens, Tree.withCommas]

theorem lexAfter?_items (items : List Json) (before : List Token) {rest : Bytes}
    (hr : Stops isWordPart rest) :
    lexAfter? before ((itemTexts items).flatMap (Ascii.comma :: ·) ++ rest) =
      lexAfter? (((Tree.itemTokens (trees items)).flatMap (.comma :: ·)).reverse ++ before)
        rest := by
  cases items with
  | nil => rfl
  | cons item items =>
    rw [itemTexts, List.flatMap_cons, List.append_assoc, List.cons_append,
      lexAfter?_mark (t := .comma) (by decide) (by decide),
      lexAfter?_text item _ (stops_commas _ hr), lexAfter?_items items _ hr]
    simp [trees, Tree.itemTokens]

theorem lexAfter?_members (members : List (Bytes × Json)) (before : List Token) {rest : Bytes}
    (hr : Stops isWordPart rest) :
    lexAfter? before ((memberTexts members).flatMap (Ascii.comma :: ·) ++ rest) =
      lexAfter? (((Tree.memberTokens (memberTrees members)).flatMap (.comma :: ·)).reverse ++ before)
        rest := by
  cases members with
  | nil => rfl
  | cons member members =>
    obtain ⟨key, value⟩ := member
    rw [memberTexts, List.flatMap_cons, List.append_assoc, List.cons_append,
      lexAfter?_mark (t := .comma) (by decide) (by decide), List.append_assoc, lexAfter?_string,
      List.cons_append, lexAfter?_mark (t := .colon) (by decide) (by decide),
      lexAfter?_text value _ (stops_commas _ hr), lexAfter?_members members _ hr]
    simp [memberTrees, Tree.memberTokens]

end

theorem lex?_text (j : Json) : lex? j.text = some j.tree.tokens := by
  have h := lexAfter?_text j [] (show Stops isWordPart [] from nofun)
  rw [List.append_nil, List.append_nil, lexAfter?_nil, List.reverse_reverse] at h
  exact h

end Token

end LanguageClient.Json
