import LanguageClient.Proofs.Json.Blanks
import LanguageClient.Proofs.Json.RoundTrip
import LanguageClient.Proofs.Json.Spelling

/-!
# How a tree is spelled

A text spells a tree if it consists of the tokens of the tree, with blanks between them (`IsText`).
What the lax dialect spells is read as the tree that it spells, and nothing else is read
(`Tree.read?_eq_some_iff`). The strict dialect spells less, and so it is read too
(`Tree.read?_of_isText`).
-/

namespace LanguageClient.Json

open Bytes (Stops)

/-! ### Tokens -/

namespace Token

inductive Spells (g : Dialect) : Bytes → Token → Prop
  | mark {b : UInt8} {t : Token} (h : mark? b = some t) : Spells g [b] t
  | string {s text : Bytes} (h : Quoted.Spells s text) :
      Spells g (Ascii.quote :: (s ++ [Ascii.quote])) (.string text)
  | number {s : Bytes} {n : Numeral} (h : Numeral.Spells g s n) : Spells g s (.number n)
  | word {word : Bytes} {t : Token} (h : (word, t) ∈ words) : Spells g word t
  | null {s : Bytes} (h : g.null s) : Spells g s .null

/-- Tokens with blanks before, between and behind them. -/
inductive Row (g : Dialect) : Bytes → List Token → Prop
  | nil {blanks : Bytes} (hblanks : blanks.all isBlank = true) : Row g blanks []
  | cons {blanks s rest : Bytes} {t : Token} {ts : List Token} (hblanks : blanks.all isBlank = true)
      (h : Spells g s t) (hrest : Row g rest ts) : Row g (blanks ++ (s ++ rest)) (t :: ts)

section

variable {g : Dialect} {before ts : List Token} {s rest : Bytes} {t : Token} {tree : Tree}

theorem not_isBlank_of_mark? {b : UInt8} (h : mark? b = some t) : isBlank b = false := by
  unfold mark? at h
  repeat' split at h
  all_goals cases h
  all_goals subst b; decide

/-- What is spelled is read, unless what follows it goes on with it. -/
theorem lexAfter?_of_spells (hg : ∀ s, g.null s → Dialect.lax.null s) (h : Spells g s t)
    (hstop : t.IsBare → Stops isWordPart rest) :
    lexAfter? before (s ++ rest) = lexAfter? (t :: before) rest := by
  cases h with
  | mark hmark => exact lexAfter?_mark (not_isBlank_of_mark? hmark) hmark rest
  | @string u text h =>
    have hmark : mark? Ascii.quote = none := by decide
    have hread : Quoted.read? (u ++ Ascii.quote :: rest) = some (text, rest) :=
      Quoted.read?_eq_some_iff.mpr ⟨u, rfl, h⟩
    rw [List.cons_append, List.append_assoc]
    exact lexAfter?_cons (by decide) (by
      rw [first?, hmark]
      simp only [if_true]
      rw [List.singleton_append, hread]
      rfl)
  | number h =>
    exact lexAfter?_number (Numeral.all_isPart_of_spells h) (Numeral.read?_of_spells h)
      (stops_isPart (hstop (.number _)))
  | word h => exact lexAfter?_word h rest
  | null h =>
    obtain ⟨part, rfl, hpart⟩ := hg s h
    exact lexAfter?_null hpart (hstop .null)

/-- A token that is no number and no word begins with a byte that goes on with none. -/
theorem stops_of_spells (h : Spells g s t) (ht : ¬ t.IsBare) :
    Stops isWordPart (s ++ rest) := by
  cases h with
  | mark hmark =>
    refine Bytes.stops_cons (Bool.eq_false_iff.mpr fun hpart => ?_) _
    cases hmark.symm.trans (isWordPart_iff.mp hpart).2.1
  | string h => exact Bytes.stops_cons (by decide) _
  | number => exact absurd (.number _) ht
  | word h => exact absurd (isBare_of_mem_words h) ht
  | null => exact absurd .null ht

theorem stops_of_blanks {blanks : Bytes} (h : blanks.all isBlank = true)
    (hrest : Stops isWordPart rest) : Stops isWordPart (blanks ++ rest) := by
  cases blanks with
  | nil => exact hrest
  | cons b blanks =>
    have hb : isBlank b = true := (Bool.and_eq_true_iff.mp (List.all_cons ▸ h)).1
    refine Bytes.stops_cons (Bool.eq_false_iff.mpr fun hpart => ?_) _
    cases hb.symm.trans (isWordPart_iff.mp hpart).1

/-- Behind a number or a word of a tree, none of them goes on. -/
theorem stops_of_row (h : Row g s ts) (ht : t.IsBare)
    (htree : Tree.ofTokens? (before ++ t :: ts) = some tree) : Stops isWordPart s := by
  cases h with
  | nil hblanks =>
    rw [← List.append_nil s]
    exact stops_of_blanks hblanks nofun
  | cons hblanks h =>
    refine stops_of_blanks hblanks (stops_of_spells h fun hu => ?_)
    cases (Tree.ofTokens?_bare ht hu before _).symm.trans htree

theorem lexAfter?_of_row (hg : ∀ s, g.null s → Dialect.lax.null s) (h : Row g s ts)
    (htree : Tree.ofTokens? (before.reverse ++ ts) = some tree) :
    lexAfter? before s = some (before.reverse ++ ts) := by
  induction h generalizing before with
  | @nil blanks hblanks =>
    rw [← List.append_nil blanks, lexAfter?_blanks hblanks, lexAfter?_nil, List.append_nil]
  | @cons blanks s rest t ts hblanks h hrest ih =>
    have hreverse : before.reverse ++ t :: ts = (t :: before).reverse ++ ts := by simp
    rw [lexAfter?_blanks hblanks, lexAfter?_of_spells hg h fun ht => stops_of_row hrest ht htree,
      hreverse]
    exact ih (hreverse ▸ htree)

/-! ### Tokens that are read -/

theorem spells_of_first? {b : UInt8} (h : first? b s = some (t, rest)) :
    ∃ u, b :: s = u ++ rest ∧ Spells .lax u t := by
  rcases first?_cases h with ⟨hmark, rfl⟩ | ⟨rfl, text, hread, rfl⟩ |
    ⟨part, n, heq, -, -, hread, rfl⟩ | ⟨rfl, rfl, part, rfl, hpart, -⟩ | ⟨word, hword, heq⟩
  · exact ⟨[b], rfl, .mark hmark⟩
  · obtain ⟨u, rfl, hu⟩ := Quoted.read?_eq_some_iff.mp hread
    exact ⟨_, by simp, .string hu⟩
  · exact ⟨part, heq, .number (Numeral.spells_of_read? hread)⟩
  · exact ⟨_, rfl, .null ⟨part, rfl, hpart⟩⟩
  · exact ⟨word, heq, .word hword⟩

theorem row_of_lexAfter? (h : lexAfter? before s = some ts) :
    ∃ us, ts = before.reverse ++ us ∧ Row .lax s us := by
  have hsplit (s : Bytes) : s = s.takeWhile isBlank ++ s.dropWhile isBlank :=
    List.takeWhile_append_dropWhile.symm
  fun_induction lexAfter? before s with
  | case1 before s hnil =>
    cases h
    refine ⟨[], (List.append_nil _).symm, ?_⟩
    rw [hsplit s, hnil, List.append_nil]
    exact .nil List.all_takeWhile
  | case2 => cases h
  | case3 before s b rest hcons t rest' hfirst ih =>
    obtain ⟨us, rfl, hrow⟩ := ih h
    obtain ⟨u, hu, hspells⟩ := spells_of_first? hfirst
    refine ⟨t :: us, by simp, ?_⟩
    rw [hsplit s, hcons, hu]
    exact .cons List.all_takeWhile hspells hrow

end

end Token

/-! ### Trees -/

/-- The text is valid UTF-8 and spells the tokens of the tree. -/
structure IsText (g : Dialect) (raw : Bytes) (tree : Tree) : Prop where
  valid : Utf8.valid raw = true
  row : Token.Row g raw tree.tokens

section

variable {raw : Bytes} {tree tree' : Tree}

/-- A strict text is read. -/
theorem Tree.read?_of_isText (h : IsText .strict raw tree) : Tree.read? raw = some tree := by
  have hnull (s : Bytes) (hs : s = bytes "null") : Dialect.lax.null s := ⟨bytes "ull", hs, by decide⟩
  exact read?_of_lex? h.valid (Token.lexAfter?_of_row hnull h.row (ofTokens?_tokens tree))

/-- What is read is the tree that a lax text spells. -/
theorem Tree.read?_eq_some_iff : Tree.read? raw = some tree ↔ IsText .lax raw tree := by
  refine ⟨fun h => ?_, fun h => read?_of_lex? h.valid
    (Token.lexAfter?_of_row (fun _ hs => hs) h.row (ofTokens?_tokens tree))⟩
  rw [Tree.read?, Option.ite_none_right_eq_some] at h
  obtain ⟨hvalid, h⟩ := h
  obtain ⟨ts, hlex, htree⟩ := Option.bind_eq_some_iff.mp h
  obtain rfl := ofTokens?_eq_some_iff.mp htree
  obtain ⟨us, heq, hrow⟩ := Token.row_of_lexAfter? hlex
  exact ⟨hvalid, heq ▸ hrow⟩

/-- A text spells one tree only. -/
theorem IsText.unique (h : IsText .lax raw tree) (h' : IsText .lax raw tree') : tree = tree' :=
  Option.some.inj ((Tree.read?_eq_some_iff.mpr h).symm.trans (Tree.read?_eq_some_iff.mpr h'))

/-- The lax dialect spells what the strict one spells. -/
theorem IsText.lax (h : IsText .strict raw tree) : IsText .lax raw tree :=
  Tree.read?_eq_some_iff.mp (Tree.read?_of_isText h)

end

/-! ### Every tree has a text -/

/-- A number without a fraction. -/
def Numeral.text : Numeral → Bytes
  | .integer n => Digits.ofInt n
  | .decimal negative d =>
    (if negative then [Ascii.minus] else []) ++
      (Digits.ofNat d.coefficient ++ Ascii.byte 'e' :: Digits.ofInt d.exponent)

def Token.text : Token → Bytes
  | .openObject => [Ascii.openBrace]
  | .closeObject => [Ascii.closeBrace]
  | .openArray => [Ascii.openBracket]
  | .closeArray => [Ascii.closeBracket]
  | .comma => [Ascii.comma]
  | .colon => [Ascii.colon]
  | .null => bytes "null"
  | .bool true => bytes "true"
  | .bool false => bytes "false"
  | .number n => n.text
  | .string s => Quoted.write s

/-- The tokens of the tree without blanks. -/
def Tree.text (tree : Tree) : Bytes := tree.tokens.flatMap Token.text

/-- An exponent that it has is written with few digits. -/
def Token.IsShort : Token → Prop
  | .number (.decimal _ d) => (Digits.ofNat d.exponent.natAbs).length ≤ 18
  | .number (.integer _) | .string _ | .openObject | .closeObject | .openArray | .closeArray
  | .comma | .colon | .null | .bool _ => True

instance : DecidablePred Token.IsShort
  | .number (.decimal _ d) =>
    inferInstanceAs (Decidable ((Digits.ofNat d.exponent.natAbs).length ≤ 18))
  | .number (.integer _) | .string _ | .openObject | .closeObject | .openArray | .closeArray
  | .comma | .colon | .null | .bool _ => .isTrue trivial

theorem Numeral.isExponent_ofInt {g : Dialect} {e : Int}
    (h : g.exponent (Digits.ofNat e.natAbs).length) :
    IsExponent g (Ascii.byte 'e' :: Digits.ofInt e) (some e) := by
  have hsign : IsSign (if decide (e < 0) then [Ascii.minus] else []) (decide (e < 0)) := by
    cases decide (e < 0) with
    | false => exact .absent
    | true => exact .minus
  have hread := IsExponent.digits (.inl rfl) hsign (Digits.ofNat_ne_nil e.natAbs)
    (Digits.all_isDigit_ofNat e.natAbs) h
  rwa [Digits.toNat_ofNat, Digits.signed_natAbs, ← Digits.ofInt_eq] at hread

theorem Numeral.spells_text {n : Numeral} (h : (Token.number n).IsShort) :
    Spells .strict n.text n := by
  cases n with
  | integer n =>
    have hparts :=
      Spells.mk (g := .strict) (decide (n < 0)) (isWhole_ofNat n.natAbs) .absent .absent
    rwa [ofParts, Digits.toNat_ofNat, Digits.signed_natAbs, List.append_nil, List.append_nil,
      ← Digits.ofInt_eq] at hparts
  | decimal negative d =>
    have hd : decimal negative d =
        ofParts negative (Digits.ofNat d.coefficient) none (some d.exponent) := by
      simp [ofParts, Digits.toNat_ofNat]
    rw [text, hd]
    exact .mk negative (isWhole_ofNat d.coefficient) .absent (isExponent_ofInt h)

theorem Quoted.spells_write (s : Bytes) : Spells (s.flatMap escape) s := by
  obtain ⟨u, hu, hspells⟩ := read?_eq_some_iff.mp (read?_write s [])
  exact List.append_cancel_right hu ▸ hspells

theorem Token.spells_text {t : Token} (h : t.IsShort) : Spells .strict t.text t := by
  cases t with
  | number n => exact .number (Numeral.spells_text h)
  | string s => exact .string (Quoted.spells_write s)
  | null => exact .null rfl
  | bool b => cases b <;> exact .word (by simp [words, text])
  | openObject | closeObject | openArray | closeArray | comma | colon => exact .mark (by decide)

theorem Token.valid_text {t : Token} (hvalid : t.IsValid) (hshort : t.IsShort) :
    Utf8.valid t.text = true := by
  cases t with
  | number n => exact valid_of_isPart (Numeral.all_isPart_of_spells (Numeral.spells_text hshort))
  | string s => exact Quoted.valid_write hvalid
  | bool b => cases b <;> decide
  | null | openObject | closeObject | openArray | closeArray | comma | colon => decide

end LanguageClient.Json
