import LanguageClient.Json.Quoted
import LanguageClient.Proofs.Utf8

/-!
# Strings read back

Reading undoes writing for every text, valid or not (`read?_write`): each byte is written as one
piece (`pieceOf`), and the pieces of a text join to the text. Escapes are ASCII, so that a valid
text is written as one (`valid_write`).
-/

namespace LanguageClient.Json.Quoted

/-- The piece that a byte is written as. -/
def pieceOf (b : UInt8) : Piece := if letterOf? b = none ∧ b < 0x20 then .unit b.toNat else .byte b

theorem ofLetter?_letterOf? {b c : UInt8} (h : letterOf? b = some c) :
    ofLetter? c = some b ∧ c ≠ Ascii.byte 'u' := by
  unfold letterOf? at h
  repeat' split at h
  all_goals cases h
  · next hb => rcases hb with rfl | rfl <;> decide
  all_goals subst b; decide

theorem hexValue?_hexDigit {n : Nat} (h : n < 16) : hexValue? (hexDigit n) = some n := by
  revert n
  decide

theorem hexUnit?_hexDigit {b : UInt8} (h : b < 0x20) :
    hexUnit? Ascii.zero Ascii.zero (hexDigit (b.toNat / 16)) (hexDigit (b.toNat % 16)) =
      some b.toNat := by
  have hb : b.toNat < 32 := UInt8.lt_iff_toNat_lt.mp h
  have hzero : hexValue? Ascii.zero = some 0 := by decide
  have hhigh := hexValue?_hexDigit (show b.toNat / 16 < 16 by omega)
  have hlow := hexValue?_hexDigit (Nat.mod_lt b.toNat (show 16 > 0 by decide))
  simp only [hexUnit?, hzero, hhigh, hlow, Option.bind_eq_bind, Option.bind_some, Option.pure_def,
    Option.some.injEq]
  omega

section

variable (before : List Piece) (rest : Bytes)

theorem pieces?_quote : pieces? before (Ascii.quote :: rest) = some (before.reverse, rest) := by
  rw [pieces?.eq_def]
  exact if_pos rfl

theorem pieces?_plain {b : UInt8} (hq : b ≠ Ascii.quote) (hs : b ≠ Ascii.backslash)
    (hc : ¬ b < 0x20) : pieces? before (b :: rest) = pieces? (.byte b :: before) rest := by
  rw [pieces?.eq_def]
  simp only [if_neg hq, if_neg hs, if_neg hc]

theorem pieces?_letter {b c : UInt8} (hu : c ≠ Ascii.byte 'u') (hof : ofLetter? c = some b) :
    pieces? before (Ascii.backslash :: c :: rest) = pieces? (.byte b :: before) rest := by
  have hslash : Ascii.backslash ≠ Ascii.quote := by decide
  rw [pieces?.eq_def]
  simp only [if_neg hslash, if_true, if_neg hu, hof]

theorem pieces?_unit {h₁ h₂ h₃ h₄ : UInt8} {u : Nat} (hu : hexUnit? h₁ h₂ h₃ h₄ = some u) :
    pieces? before (Ascii.backslash :: Ascii.byte 'u' :: h₁ :: h₂ :: h₃ :: h₄ :: rest) =
      pieces? (.unit u :: before) rest := by
  have hslash : Ascii.backslash ≠ Ascii.quote := by decide
  rw [pieces?.eq_def]
  simp only [if_neg hslash, if_true, hu]

/-- A written byte is read as its piece. -/
theorem pieces?_escape (b : UInt8) :
    pieces? before (escape b ++ rest) = pieces? (pieceOf b :: before) rest := by
  unfold escape
  cases hl : letterOf? b with
  | some c =>
    obtain ⟨hof, hu⟩ := ofLetter?_letterOf? hl
    have hp : pieceOf b = .byte b := by simp [pieceOf, hl]
    rw [hp]
    exact pieces?_letter before rest hu hof
  | none =>
    by_cases hb : b < 0x20
    · have hp : pieceOf b = .unit b.toNat := if_pos ⟨hl, hb⟩
      rw [hp]
      simp only [if_pos hb]
      exact pieces?_unit before rest (hexUnit?_hexDigit hb)
    · have hp : pieceOf b = .byte b := if_neg fun h => hb h.2
      have hquote : b ≠ Ascii.quote := fun h => absurd (h ▸ hl) (by decide)
      have hback : b ≠ Ascii.backslash := fun h => absurd (h ▸ hl) (by decide)
      rw [hp]
      simp only [if_neg hb]
      exact pieces?_plain before rest hquote hback hb

end

theorem pieces?_write (before : List Piece) (s rest : Bytes) :
    pieces? before (s.flatMap escape ++ Ascii.quote :: rest) =
      some (before.reverse ++ s.map pieceOf, rest) := by
  induction s generalizing before with
  | nil => simp [pieces?_quote]
  | cons b s ih =>
    rw [List.flatMap_cons, List.append_assoc, pieces?_escape, ih]
    simp

/-- The pieces of a text join to the text. -/
theorem join?_pieceOf (before s : Bytes) :
    join? before (s.map pieceOf) = some (before.reverse ++ s) := by
  induction s generalizing before with
  | nil => simp [join?]
  | cons b s ih =>
    have hstep : join? before (pieceOf b :: s.map pieceOf) = join? (b :: before) (s.map pieceOf) := by
      unfold pieceOf
      split
      · next h =>
        have hb : b.toNat < 32 := UInt8.lt_iff_toNat_lt.mp h.2
        have hhigh : isHigh b.toNat = false := by simp [isHigh]; omega
        have hlow : isLow b.toNat = false := by simp [isLow]; omega
        have hcode : Utf8.encode b.toNat = [b] := by
          rw [Utf8.encode, if_pos (by omega)]
          simp [Nat.toUInt8]
        rw [join?.eq_def]
        simp [hhigh, hlow, hcode]
      · rw [join?]
    rw [List.map_cons, hstep, ih]
    simp

/-- Reading undoes writing. -/
theorem read?_write (s rest : Bytes) :
    read? (s.flatMap escape ++ Ascii.quote :: rest) = some (s, rest) := by
  rw [read?, pieces?_write]
  simp [join?_pieceOf]

/-! ### A valid text is written as a valid text -/

theorem letterOf?_ascii {b c : UInt8} (h : letterOf? b = some c) : b < 0x80 ∧ c < 0x80 := by
  unfold letterOf? at h
  repeat' split at h
  all_goals cases h
  · next hb => rcases hb with rfl | rfl <;> decide
  all_goals subst b; decide

theorem hexDigit_ascii {n : Nat} (h : n < 16) : hexDigit n < 0x80 := by
  revert n
  decide

theorem escape_ascii {b : UInt8} (hb : b < 0x80) : ∀ x ∈ escape b, x < 0x80 := by
  unfold escape
  cases hl : letterOf? b with
  | some c => simpa using ⟨by decide, (letterOf?_ascii hl).2⟩
  | none =>
    by_cases hc : b < 0x20
    · have hlt : b.toNat < 32 := UInt8.lt_iff_toNat_lt.mp hc
      have hhigh := hexDigit_ascii (show b.toNat / 16 < 16 by omega)
      have hlow := hexDigit_ascii (Nat.mod_lt b.toNat (show 16 > 0 by decide))
      simpa [hc] using ⟨by decide, by decide, by decide, hhigh, hlow⟩
    · simpa [hc] using hb

theorem escape_of_not_ascii {b : UInt8} (hb : ¬ b < 0x80) : escape b = [b] := by
  have hctl : ¬ b < 0x20 := fun h => hb (UInt8.lt_trans h (by decide))
  unfold escape
  cases hl : letterOf? b with
  | some c => exact absurd (letterOf?_ascii hl).1 hb
  | none => exact if_neg hctl

theorem valid_write {s : Bytes} (h : Utf8.valid s = true) : Utf8.valid (write s) = true := by
  have hbody := Utf8.valid_flatMap (f := escape) (fun _ => escape_ascii)
    (fun _ => escape_of_not_ascii) h
  have hquote : Utf8.valid [Ascii.quote] = true := by decide
  exact Utf8.valid_append (s := [Ascii.quote]) hquote (Utf8.valid_append hbody hquote)

end LanguageClient.Json.Quoted
