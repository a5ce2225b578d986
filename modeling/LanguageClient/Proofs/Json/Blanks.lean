import LanguageClient.Proofs.Json.Lexing

/-!
# Blanks between tokens

Blanks stand outside of strings only, and `withoutBlanks` takes them out. What is left of a text is read
as the same tree (`Token.lex?_withoutBlanks`), because two numbers or words, which blanks could keep
apart, never follow each other in a tree (`Tree.ofTokens?_bare`). So two texts that differ in their blanks only have
one tree (`Tree.read?_unique_of_withoutBlanks_eq`).
-/

namespace LanguageClient.Json

open Bytes (Stops)

/-! ### Taking blanks out -/

/-- Where a byte of a text stands. -/
inductive Place where
  | between
  | inString
  /-- In a string, behind a backslash. -/
  | escaped
  deriving DecidableEq

/-- The place behind a byte. -/
def Place.next (b : UInt8) : Place → Place
  | .between => if b = Ascii.quote then .inString else .between
  | .inString =>
    if b = Ascii.quote then .between else if b = Ascii.backslash then .escaped else .inString
  | .escaped => .inString

/-- A text that begins at a place, without the blanks outside of its strings. -/
def withoutBlanks (place : Place) : Bytes → Bytes
  | [] => []
  | b :: s =>
    if place = .between ∧ Token.isBlank b then withoutBlanks place s
    else b :: withoutBlanks (place.next b) s

section

variable {s rest : Bytes} {b : UInt8}

theorem withoutBlanks_cons (h : Token.isBlank b = false) :
    withoutBlanks .between (b :: s) = b :: withoutBlanks (Place.between.next b) s := by
  rw [withoutBlanks, if_neg fun hb => absurd hb.2 (by simp [h])]

theorem withoutBlanks_inString (b : UInt8) (s : Bytes) :
    withoutBlanks .inString (b :: s) = b :: withoutBlanks (Place.inString.next b) s := rfl

theorem withoutBlanks_escape (b : UInt8) (s : Bytes) :
    withoutBlanks .inString (Ascii.backslash :: b :: s) =
      Ascii.backslash :: b :: withoutBlanks .inString s := rfl

/-- Blanks at the front leave no trace. -/
theorem withoutBlanks_dropWhile (s : Bytes) :
    withoutBlanks .between (s.dropWhile Token.isBlank) = withoutBlanks .between s := by
  induction s with
  | nil => rfl
  | cons b s ih =>
    by_cases hb : Token.isBlank b = true
    · rw [List.dropWhile_cons_of_pos hb, ih, withoutBlanks, if_pos ⟨rfl, hb⟩]
    · rw [List.dropWhile_cons_of_neg hb]

theorem withoutBlanks_append (h : ∀ b ∈ s, Token.isBlank b = false ∧ b ≠ Ascii.quote) :
    withoutBlanks .between (s ++ rest) = s ++ withoutBlanks .between rest := by
  induction s with
  | nil => rfl
  | cons b s ih =>
    obtain ⟨⟨hb, hquote⟩, hs⟩ := List.forall_mem_cons.mp h
    rw [List.cons_append, withoutBlanks_cons hb, Place.next, if_neg hquote, ih hs, List.cons_append]

end

/-! ### Strings stay as they are -/

/-- A hexadecimal digit does not leave the string. -/
theorem next_of_hexValue? {b : UInt8} {n : Nat} (h : Quoted.hexValue? b = some n) :
    Place.inString.next b = .inString := by
  have hquote : b ≠ Ascii.quote := by
    rintro rfl
    cases h
  have hback : b ≠ Ascii.backslash := by
    rintro rfl
    cases h
  rw [Place.next, if_neg hquote, if_neg hback]

theorem withoutBlanks_hexUnit? {a b c d : UInt8} {u : Nat} {s : Bytes}
    (h : Quoted.hexUnit? a b c d = some u) :
    withoutBlanks .inString (a :: b :: c :: d :: s) =
      a :: b :: c :: d :: withoutBlanks .inString s := by
  simp only [Quoted.hexUnit?, Option.bind_eq_bind, Option.bind_eq_some_iff] at h
  obtain ⟨_, ha, _, hb, _, hc, _, hd, -⟩ := h
  simp only [withoutBlanks_inString, next_of_hexValue? ha, next_of_hexValue? hb,
    next_of_hexValue? hc, next_of_hexValue? hd]

theorem pieces?_withoutBlanks {before pieces : List Quoted.Piece} {s rest : Bytes}
    (h : Quoted.pieces? before s = some (pieces, rest)) :
    Quoted.pieces? before (withoutBlanks .inString s) =
      some (pieces, withoutBlanks .between rest) := by
  fun_induction Quoted.pieces? before s with
  | case1 => cases h
  | case2 before s =>
    cases h
    exact Quoted.pieces?_quote before _
  | case3 => cases h
  | case4 before h₁ h₂ h₃ h₄ s u hunit _ ih =>
    rw [withoutBlanks_escape, withoutBlanks_hexUnit? hunit, Quoted.pieces?_unit _ _ hunit]
    exact ih h
  | case5 => cases h
  | case6 => cases h
  | case7 before c s hc b hof _ ih =>
    rw [withoutBlanks_escape, Quoted.pieces?_letter _ _ hc hof]
    exact ih h
  | case8 => cases h
  | case9 => cases h
  | case10 before b s hquote hback hlow ih =>
    rw [withoutBlanks_inString, Place.next, if_neg hquote, if_neg hback,
      Quoted.pieces?_plain _ _ hquote hback hlow]
    exact ih h

theorem quoted_withoutBlanks {s t rest : Bytes} (h : Quoted.read? s = some (t, rest)) :
    Quoted.read? (withoutBlanks .inString s) = some (t, withoutBlanks .between rest) := by
  unfold Quoted.read? at h ⊢
  split at h
  · cases h
  · next pieces found hpieces =>
    obtain ⟨joined, hjoin, heq⟩ := Option.map_eq_some_iff.mp h
    cases heq
    rw [pieces?_withoutBlanks hpieces]
    exact congrArg (Option.map _) hjoin

namespace Token

/-! ### One token -/

section

variable {before ts : List Token} {b : UInt8} {s rest : Bytes} {t : Token}

theorem ne_quote_of_mark? (h : mark? b = some t) : b ≠ Ascii.quote := by
  rintro rfl
  cases h

theorem words_plain : ∀ w ∈ words, ∀ b ∈ w.1, isBlank b = false ∧ b ≠ Ascii.quote := by
  decide +kernel

theorem isBare_of_mem_words {word : Bytes} (h : (word, t) ∈ words) : t.IsBare := by
  simp only [words, List.mem_cons, Prod.mk.injEq, List.not_mem_nil, or_false] at h
  obtain ⟨-, rfl⟩ | ⟨-, rfl⟩ := h <;> exact .bool _

/-- The token at the front stays, if it is no number or word that what follows could continue. -/
theorem lexAfter?_withoutBlanks_cons (hb : isBlank b = false) (h : first? b s = some (t, rest))
    (hstop : t.IsBare → Stops isWordPart (withoutBlanks .between rest)) :
    lexAfter? before (withoutBlanks .between (b :: s)) =
      lexAfter? (t :: before) (withoutBlanks .between rest) := by
  rcases first?_cases h with ⟨hmark, rfl⟩ | ⟨rfl, text, hread, rfl⟩ |
    ⟨part, n, heq, hpart, -, hread, rfl⟩ | ⟨rfl, rfl, part, rfl, hpart, -⟩ | ⟨word, hword, heq⟩
  · rw [withoutBlanks_cons hb, Place.next, if_neg (ne_quote_of_mark? hmark)]
    exact lexAfter?_mark hb hmark _
  · rw [withoutBlanks_cons hb, Place.next, if_pos rfl]
    exact lexAfter?_cons hb (congrArg (Option.map _) (quoted_withoutBlanks hread))
  · have hplain : ∀ c ∈ part, isBlank c = false ∧ c ≠ Ascii.quote := by
      intro c hc
      obtain ⟨hblank, -, hne⟩ := of_isPart (List.all_eq_true.mp hpart c hc)
      exact ⟨hblank, hne⟩
    rw [heq, withoutBlanks_append hplain]
    exact lexAfter?_number hpart hread (stops_isPart (hstop (.number n)))
  · have hplain : ∀ c ∈ Ascii.byte 'n' :: part, isBlank c = false ∧ c ≠ Ascii.quote := by
      refine List.forall_mem_cons.mpr ⟨⟨hb, by decide⟩, fun c hc => ?_⟩
      obtain ⟨hblank, -, hne⟩ := isWordPart_iff.mp (List.all_eq_true.mp hpart c hc)
      exact ⟨hblank, hne⟩
    rw [← List.cons_append, withoutBlanks_append hplain]
    exact lexAfter?_null hpart (hstop .null)
  · rw [heq, withoutBlanks_append (words_plain _ hword)]
    exact lexAfter?_word hword _

theorem isBare_of_first? (hb : isWordPart b = true) (h : first? b s = some (t, rest)) :
    t.IsBare := by
  obtain ⟨-, hmark, hquote⟩ := isWordPart_iff.mp hb
  rcases first?_cases h with ⟨hmark', -⟩ | ⟨rfl, -⟩ | ⟨_, n, -, -, -, -, rfl⟩ | ⟨-, rfl, -⟩ |
    ⟨_, hword, -⟩
  · cases hmark.symm.trans hmark'
  · exact absurd rfl hquote
  · exact .number n
  · exact .null
  · exact isBare_of_mem_words hword

end

/-! ### All tokens -/

section

variable {before ts : List Token} {s : Bytes} {tree : Tree}

theorem isBlank_of_dropWhile {b : UInt8} {rest : Bytes} (h : s.dropWhile isBlank = b :: rest) :
    isBlank b = false := by
  have hnot := List.head?_dropWhile_not isBlank s
  rw [h] at hnot
  exact hnot

theorem exists_first?_of_lexAfter? {b : UInt8} {rest : Bytes} (hs : s.dropWhile isBlank = b :: rest)
    (h : lexAfter? before s = some ts) :
    ∃ t rest', first? b rest = some (t, rest') ∧ lexAfter? (t :: before) rest' = some ts := by
  rw [lexAfter?_eq, hs] at h
  obtain ⟨⟨t, rest'⟩, hfirst, h⟩ := Option.bind_eq_some_iff.mp h
  exact ⟨t, rest', hfirst, h⟩

theorem append_of_lexAfter? (h : lexAfter? before s = some ts) : ∃ us, ts = before.reverse ++ us := by
  fun_induction lexAfter? before s with
  | case1 before s =>
    cases h
    exact ⟨[], (List.append_nil _).symm⟩
  | case2 => cases h
  | case3 before s b rest _ t rest' _ ih =>
    obtain ⟨us, rfl⟩ := ih h
    exact ⟨t :: us, by simp⟩

/-- Behind a number or a word, blanks keep nothing apart. -/
theorem stops_withoutBlanks {t : Token} (ht : t.IsBare) (h : lexAfter? (t :: before) s = some ts)
    (htree : Tree.ofTokens? ts = some tree) : Stops isWordPart (withoutBlanks .between s) := by
  rw [← withoutBlanks_dropWhile]
  cases hs : s.dropWhile isBlank with
  | nil => exact nofun
  | cons b rest =>
    rw [withoutBlanks_cons (isBlank_of_dropWhile hs)]
    refine Bytes.stops_cons (Bool.eq_false_iff.mpr fun hb => ?_) _
    obtain ⟨u, rest', hfirst, hrest⟩ := exists_first?_of_lexAfter? hs h
    obtain ⟨us, rfl⟩ := append_of_lexAfter? hrest
    have hnone := Tree.ofTokens?_bare ht (isBare_of_first? hb hfirst) before.reverse us
    rw [List.reverse_cons, List.reverse_cons, List.append_assoc, List.append_assoc] at htree
    cases hnone.symm.trans htree

theorem lexAfter?_withoutBlanks (h : lexAfter? before s = some ts)
    (htree : Tree.ofTokens? ts = some tree) :
    lexAfter? before (withoutBlanks .between s) = some ts := by
  fun_induction lexAfter? before s with
  | case1 before s hnil =>
    rw [← withoutBlanks_dropWhile, hnil]
    exact (lexAfter?_nil before).trans h
  | case2 => cases h
  | case3 before s b rest hcons t rest' hfirst ih =>
    have hstop (ht : t.IsBare) : Stops isWordPart (withoutBlanks .between rest') :=
      stops_withoutBlanks ht h htree
    rw [← withoutBlanks_dropWhile, hcons,
      lexAfter?_withoutBlanks_cons (isBlank_of_dropWhile hcons) hfirst hstop]
    exact ih h

/-- Without blanks the text of a tree has the same tokens. -/
theorem lex?_withoutBlanks (h : lex? s = some ts) (htree : Tree.ofTokens? ts = some tree) :
    lex? (withoutBlanks .between s) = some ts :=
  lexAfter?_withoutBlanks h htree

end

end Token

/-- Texts that differ in their blanks only are read as the same tree. -/
theorem Tree.read?_unique_of_withoutBlanks_eq {s s' : Bytes} {tree tree' : Tree}
    (heq : withoutBlanks .between s = withoutBlanks .between s') (h : Tree.read? s = some tree)
    (h' : Tree.read? s' = some tree') : tree = tree' := by
  rw [Tree.read?, Option.ite_none_right_eq_some] at h h'
  obtain ⟨ts, hlex, htree⟩ := Option.bind_eq_some_iff.mp h.2
  obtain ⟨ts', hlex', htree'⟩ := Option.bind_eq_some_iff.mp h'.2
  have hts := Token.lex?_withoutBlanks hlex htree
  rw [heq, Token.lex?_withoutBlanks hlex' htree'] at hts
  cases hts
  exact Option.some.inj (htree.symm.trans htree')

end LanguageClient.Json
