import LanguageClient.Proofs.Json.Members
import LanguageClient.Proofs.Json.WellFormed

/-!
# What is read from valid text

The strings that are read from a valid text are valid (`Token.isValid_of_lex?`), although escapes are
taken out of them: inside a character no ASCII byte can stand, so a character is never cut by an
escape or by the end of a string (`Quoted.valid_of_read?`). What has been read can therefore be written
(`Tree.wellFormed_of_read?`).
-/

namespace LanguageClient.Json

/-! ### Strings -/

namespace Quoted

open Utf8 (Missing run step?)

/-- What the machine does with the text that pieces stand for. A unit stands for whole characters. -/
def runPieces (m : Missing) : List Piece → Option Missing
  | [] => some m
  | .byte b :: rest => (step? m b).bind (runPieces · rest)
  | .unit u :: rest => if m = .none ∧ u < 0x10000 then runPieces .none rest else none

theorem runPieces_append (m : Missing) (ps qs : List Piece) :
    runPieces m (ps ++ qs) = (runPieces m ps).bind (runPieces · qs) := by
  induction ps generalizing m with
  | nil => rfl
  | cons p ps ih =>
    cases p with
    | byte b =>
      rw [List.cons_append, runPieces, runPieces]
      cases step? m b with
      | none => rfl
      | some m' => exact ih m'
    | unit u =>
      rw [List.cons_append, runPieces, runPieces]
      split
      · exact ih .none
      · rfl

theorem ofLetter?_ascii {b c : UInt8} (h : ofLetter? c = some b) : b < 0x80 ∧ c < 0x80 := by
  unfold ofLetter? at h
  repeat' split at h
  all_goals cases h
  · next hc => rcases hc with rfl | rfl | rfl <;> decide
  all_goals subst c; decide

theorem hexValue?_spec {b : UInt8} {n : Nat} (h : hexValue? b = some n) : b < 0x80 ∧ n < 16 := by
  unfold hexValue? at h
  simp only [UInt8.le_iff_toNat_le, UInt8.lt_iff_toNat_lt] at h ⊢
  grind

theorem hexUnit?_spec {a b c d : UInt8} {u : Nat} (h : hexUnit? a b c d = some u) :
    (∀ x ∈ [a, b, c, d], x < 0x80) ∧ u < 0x10000 := by
  simp only [hexUnit?, Option.bind_eq_bind, Option.bind_eq_some_iff, Option.pure_def,
    Option.some.injEq] at h
  obtain ⟨m, hm, n, hn, k, hk, l, hl, rfl⟩ := h
  obtain ⟨ha, hm⟩ := hexValue?_spec hm
  obtain ⟨hb, hn⟩ := hexValue?_spec hn
  obtain ⟨hc, hk⟩ := hexValue?_spec hk
  obtain ⟨hd, hl⟩ := hexValue?_spec hl
  refine ⟨by simp [ha, hb, hc, hd], ?_⟩
  omega

/-- Before and behind an ASCII byte the machine is between characters. -/
theorem run_of_ascii_cons {b : UInt8} {s : Bytes} {m m' : Missing} (hm : m.Proper) (hb : b < 0x80)
    (h : run m (b :: s) = some m') : m = .none ∧ run .none s = some m' := by
  rw [Utf8.run_cons] at h
  obtain ⟨mid, hstep, hrest⟩ := Option.bind_eq_some_iff.mp h
  obtain rfl := Utf8.eq_none_of_ascii hm hb hstep
  cases (Utf8.step?_ascii hb).symm.trans hstep
  exact ⟨rfl, hrest⟩

/-- Between the quotation marks the machine goes through the text as through its pieces. -/
theorem runPieces_of_pieces? {before pieces : List Piece} {s rest : Bytes} {m : Missing}
    (hm : m.Proper) (hbefore : runPieces .none before.reverse = some m)
    (hs : run m s = some .none) (h : pieces? before s = some (pieces, rest)) :
    runPieces .none pieces = some .none ∧ run .none rest = some .none := by
  have hback : Ascii.backslash < 0x80 := by decide
  have hletter : Ascii.byte 'u' < 0x80 := by decide
  fun_induction pieces? before s generalizing m with
  | case1 => cases h
  | case2 before s =>
    obtain ⟨rfl, hs⟩ := run_of_ascii_cons hm (show Ascii.quote < 0x80 by decide) hs
    cases h
    exact ⟨hbefore, hs⟩
  | case3 => cases h
  | case4 before h₁ h₂ h₃ h₄ s u hunit _ ih =>
    obtain ⟨hdigits, hu⟩ := hexUnit?_spec hunit
    obtain ⟨rfl, hs⟩ := run_of_ascii_cons hm hback hs
    obtain ⟨-, hs⟩ := run_of_ascii_cons Utf8.proper_none hletter hs
    have hs : run .none ([h₁, h₂, h₃, h₄] ++ s) = some .none := hs
    rw [Utf8.run_append, Utf8.run_ascii hdigits, Option.bind_some] at hs
    refine ih Utf8.proper_none ?_ hs h
    rw [List.reverse_cons, runPieces_append, hbefore]
    simp [runPieces, hu]
  | case5 => cases h
  | case6 => cases h
  | case7 before c s _ b hof _ ih =>
    obtain ⟨hb, hc⟩ := ofLetter?_ascii hof
    obtain ⟨rfl, hs⟩ := run_of_ascii_cons hm hback hs
    obtain ⟨-, hs⟩ := run_of_ascii_cons Utf8.proper_none hc hs
    refine ih Utf8.proper_none ?_ hs h
    rw [List.reverse_cons, runPieces_append, hbefore]
    simp [runPieces, Utf8.step?_ascii hb]
  | case8 => cases h
  | case9 => cases h
  | case10 before b s _ _ _ ih =>
    rw [Utf8.run_cons] at hs
    obtain ⟨mid, hstep, hs⟩ := Option.bind_eq_some_iff.mp hs
    refine ih (Utf8.step?_proper hstep) ?_ hs h
    rw [List.reverse_cons, runPieces_append, hbefore]
    simp [runPieces, hstep]

theorem joinPair_spec {high low : Nat} (hh : isHigh high = true) (hl : isLow low = true) :
    0xE000 ≤ joinPair high low ∧ joinPair high low < 0x110000 := by
  simp only [isHigh, isLow, Bool.and_eq_true, decide_eq_true_eq] at hh hl
  unfold joinPair
  constructor
  · omega
  · omega

theorem valid_of_join? {before s : Bytes} {pieces : List Piece} {m : Missing}
    (hbefore : run .none before.reverse = some m) (hp : runPieces m pieces = some .none)
    (h : join? before pieces = some s) : Utf8.valid s = true := by
  have hcharacter {before : Bytes} {c : Nat} (hbefore : run .none before.reverse = some .none)
      (hc : c < 0x110000) (hs : c < 0xD800 ∨ 0xE000 ≤ c) :
      run .none ((Utf8.encode c).reverse ++ before).reverse = some .none := by
    rw [List.reverse_append, List.reverse_reverse, Utf8.run_append, hbefore]
    exact Utf8.valid_iff.mp (Utf8.valid_encode hc hs)
  fun_induction join? before pieces generalizing m with
  | case1 before =>
    cases h
    cases hp
    exact Utf8.valid_iff.mpr hbefore
  | case2 before b pieces ih =>
    obtain ⟨mid, hstep, hp⟩ := Option.bind_eq_some_iff.mp hp
    refine ih ?_ hp h
    rw [List.reverse_cons, Utf8.run_append, hbefore, Option.bind_some, Utf8.run_cons, hstep]
    rfl
  | case3 before u hhigh v pieces hlow ih =>
    simp only [runPieces, Option.ite_none_right_eq_some] at hp
    obtain ⟨⟨rfl, -⟩, -, hp⟩ := hp
    obtain ⟨hgreat, hlimit⟩ := joinPair_spec hhigh hlow
    exact ih (hcharacter hbefore hlimit (.inr hgreat)) hp h
  | case4 => cases h
  | case5 => cases h
  | case6 => cases h
  | case7 before u pieces hhigh hlow ih =>
    simp only [runPieces, Option.ite_none_right_eq_some] at hp
    obtain ⟨⟨rfl, hu⟩, hp⟩ := hp
    simp only [isHigh, isLow, Bool.and_eq_true, decide_eq_true_eq] at hhigh hlow
    refine ih (hcharacter hbefore ?_ ?_) hp h <;> omega

/-- A string in valid text is valid, and so is what follows it. -/
theorem valid_of_read? {s t rest : Bytes} (hs : Utf8.valid s = true)
    (h : read? s = some (t, rest)) : Utf8.valid t = true ∧ Utf8.valid rest = true := by
  unfold read? at h
  split at h
  · cases h
  · next pieces found hpieces =>
    obtain ⟨joined, hjoin, heq⟩ := Option.map_eq_some_iff.mp h
    cases heq
    obtain ⟨hp, hrest⟩ := runPieces_of_pieces? Utf8.proper_none rfl (Utf8.valid_iff.mp hs) hpieces
    exact ⟨valid_of_join? rfl hp hjoin, Utf8.valid_iff.mpr hrest⟩

end Quoted

/-! ### Tokens -/

namespace Token

theorem valid_of_ascii_append {s t : Bytes} (hs : ∀ b ∈ s, b < 0x80)
    (h : Utf8.valid (s ++ t) = true) : Utf8.valid t = true :=
  Utf8.valid_of_append (Utf8.valid_of_ascii hs) h

/-- A token of valid text. -/
def IsValid : Token → Prop
  | .string s => Utf8.valid s = true
  | .openObject | .closeObject | .openArray | .closeArray | .comma | .colon | .null | .bool _
  | .number _ => True

instance : DecidablePred IsValid
  | .string s => inferInstanceAs (Decidable (Utf8.valid s = true))
  | .openObject | .closeObject | .openArray | .closeArray | .comma | .colon | .null | .bool _
  | .number _ => .isTrue trivial

theorem isBlank_ascii {b : UInt8} (h : isBlank b = true) : b < 0x80 := by
  simp only [isBlank, Bool.or_eq_true, beq_iff_eq] at h
  obtain ((rfl | rfl) | rfl) | rfl := h <;> decide

theorem mark?_spec {b : UInt8} {t : Token} (h : mark? b = some t) : b < 0x80 ∧ t.IsValid := by
  unfold mark? at h
  repeat' split at h
  all_goals cases h
  all_goals
    subst b
    exact ⟨by decide, trivial⟩

theorem words_ascii : ∀ w ∈ words, ∀ b ∈ w.1, b < 0x80 := by decide +kernel

/-- A word goes on with every byte that is not ASCII. -/
theorem ascii_of_not_isWordPart {b : UInt8} (h : isWordPart b = false) : b < 0x80 := by
  refine Decidable.byContradiction fun hb => ?_
  refine Bool.eq_false_iff.mp h (isWordPart_iff.mpr ⟨?_, ?_, ?_⟩)
  · exact Bool.eq_false_iff.mpr fun hblank => hb (isBlank_ascii hblank)
  · exact Option.eq_none_iff_forall_ne_some.mpr fun t hmark => hb (mark?_spec hmark).1
  · rintro rfl
    exact hb (by decide)

theorem isValid_of_mem_words {word : Bytes} {t : Token} (h : (word, t) ∈ words) : t.IsValid := by
  simp only [words, List.mem_cons, Prod.mk.injEq, List.not_mem_nil, or_false] at h
  obtain ⟨-, rfl⟩ | ⟨-, rfl⟩ := h <;> trivial

theorem isValid_of_first? {b : UInt8} {s rest : Bytes} {t : Token}
    (hs : Utf8.valid (b :: s) = true) (h : first? b s = some (t, rest)) :
    t.IsValid ∧ Utf8.valid rest = true := by
  have htail (hb : b < 0x80) : Utf8.valid s = true :=
    valid_of_ascii_append (s := [b]) (by simpa using hb) hs
  rcases first?_cases h with ⟨hmark, rfl⟩ | ⟨rfl, text, hread, rfl⟩ |
    ⟨part, n, heq, hpart, -, -, rfl⟩ | ⟨rfl, rfl, part, rfl, -, hr⟩ | ⟨word, hword, heq⟩
  · obtain ⟨hb, ht⟩ := mark?_spec hmark
    exact ⟨ht, htail hb⟩
  · exact Quoted.valid_of_read? (htail (by decide)) hread
  · rw [heq] at hs
    exact ⟨trivial, Utf8.valid_of_append (valid_of_isPart hpart) hs⟩
  · refine ⟨trivial, Utf8.valid_of_append_ascii (fun c hc => ?_) (htail (by decide))⟩
    exact ascii_of_not_isWordPart (hr c hc)
  · rw [heq] at hs
    exact ⟨isValid_of_mem_words hword, valid_of_ascii_append (words_ascii _ hword) hs⟩

theorem isValid_of_lexAfter? {before ts : List Token} {s : Bytes}
    (hbefore : ∀ t ∈ before, t.IsValid) (hs : Utf8.valid s = true)
    (h : lexAfter? before s = some ts) : ∀ t ∈ ts, t.IsValid := by
  have hblanks (s : Bytes) (hs : Utf8.valid s = true) :
      Utf8.valid (s.dropWhile isBlank) = true := by
    refine valid_of_ascii_append (s := s.takeWhile isBlank) (fun b hb => ?_) ?_
    · exact isBlank_ascii (List.all_eq_true.mp List.all_takeWhile b hb)
    · rwa [List.takeWhile_append_dropWhile]
  fun_induction lexAfter? before s with
  | case1 before s hnil =>
    cases h
    simpa using hbefore
  | case2 => cases h
  | case3 before s b rest hcons t rest' hfirst ih =>
    obtain ⟨ht, hrest⟩ := isValid_of_first? (hcons ▸ hblanks s hs) hfirst
    exact ih (List.forall_mem_cons.mpr ⟨ht, hbefore⟩) hrest h

theorem isValid_of_lex? {s : Bytes} {ts : List Token} (hs : Utf8.valid s = true)
    (h : lex? s = some ts) : ∀ t ∈ ts, t.IsValid :=
  isValid_of_lexAfter? (List.forall_mem_nil _) hs h

end Token

/-! ### Values -/

namespace Tree

/-- Every string in the tree is valid, keys included. -/
def IsValid (tree : Tree) : Prop := ∀ t ∈ tree.tokens, t.IsValid

theorem wellFormed_of_number? {n : Numeral} {j : Json} (h : number? n = some j) :
    j.WellFormed := by
  rcases number?_cases h with ⟨k, -, rfl⟩ | ⟨d, rfl⟩ <;> exact ⟨trivial, rfl⟩

mutual

theorem wellFormed_of_value? {tree : Tree} {j : Json} (htree : tree.IsValid)
    (h : tree.value? = some j) : j.WellFormed := by
  cases tree with
  | null =>
    cases h
    exact wellFormed_null
  | bool b =>
    cases h
    exact ⟨trivial, rfl⟩
  | number n => exact wellFormed_of_number? h
  | string s =>
    cases h
    exact wellFormed_string (htree (.string s) (List.mem_singleton_self _))
  | array items =>
    obtain ⟨values, hvalues, rfl⟩ := Option.map_eq_some_iff.mp h
    exact wellFormed_array (wellFormed_of_values? (forall_mem_itemTokens htree) hvalues)
  | object members =>
    obtain ⟨values, hvalues, rfl⟩ := Option.map_eq_some_iff.mp h
    have hmembers := wellFormed_of_memberValues? (forall_mem_memberTokens htree) hvalues
    refine wellFormed_ofMembers (List.forall_mem_map.mpr fun m hm => (hmembers m hm).1) ?_
    exact fun m hm => (hmembers m hm).2

theorem wellFormed_of_values? {items : List Tree} {values : List Json}
    (hrows : ∀ row ∈ itemTokens items, ∀ t ∈ row, t.IsValid) (h : values? items = some values) :
    ∀ j ∈ values, j.WellFormed := by
  cases items with
  | nil =>
    cases h
    exact List.forall_mem_nil _
  | cons item items =>
    obtain ⟨v, rest, hv, hrest, rfl⟩ := values?_cons.mp h
    obtain ⟨hitem, hrows⟩ := List.forall_mem_cons.mp hrows
    exact List.forall_mem_cons.mpr ⟨wellFormed_of_value? hitem hv,
      wellFormed_of_values? hrows hrest⟩

theorem wellFormed_of_memberValues? {members : List (Bytes × Tree)} {values : List (Bytes × Json)}
    (hrows : ∀ row ∈ memberTokens members, ∀ t ∈ row, t.IsValid)
    (h : memberValues? members = some values) :
    ∀ m ∈ values, Utf8.valid m.1 = true ∧ m.2.WellFormed := by
  cases members with
  | nil =>
    cases h
    exact List.forall_mem_nil _
  | cons member members =>
    obtain ⟨key, tree⟩ := member
    obtain ⟨v, rest, hv, hrest, rfl⟩ := memberValues?_cons.mp h
    obtain ⟨hmember, hrows⟩ := List.forall_mem_cons.mp hrows
    obtain ⟨hkey, hmember⟩ := List.forall_mem_cons.mp hmember
    obtain ⟨-, htree⟩ := List.forall_mem_cons.mp hmember
    exact List.forall_mem_cons.mpr ⟨⟨hkey, wellFormed_of_value? htree hv⟩,
      wellFormed_of_memberValues? hrows hrest⟩

end

theorem isValid_of_read? {s : Bytes} {tree : Tree} (h : Tree.read? s = some tree) :
    tree.IsValid := by
  rw [Tree.read?, Option.ite_none_right_eq_some] at h
  obtain ⟨hs, h⟩ := h
  obtain ⟨ts, hlex, htree⟩ := Option.bind_eq_some_iff.mp h
  obtain rfl := ofTokens?_eq_some_iff.mp htree
  exact Token.isValid_of_lex? hs hlex

/-- Whatever is read can be written and is read as itself again. -/
theorem wellFormed_of_read? {s : Bytes} {tree : Tree} {j : Json} (h : Tree.read? s = some tree)
    (hvalue : tree.value? = some j) : j.WellFormed :=
  wellFormed_of_value? (isValid_of_read? h) hvalue

end Tree

end LanguageClient.Json
