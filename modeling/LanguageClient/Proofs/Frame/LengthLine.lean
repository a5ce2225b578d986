import LanguageClient.Proofs.Frame.Block
import LanguageClient.Proofs.LastOf

/-!
# What the lines of a header block say

A length line is said here by what it looks like (`HasValue`), and so is one that announces a length
(`Announces`). A decoder finds exactly these (`fieldValue?_eq_some_iff`, `announced?_eq_some_iff`),
and what it makes of a block is what the last of them says (`Header.close_lines_eq_ok_iff`,
`Header.close_lines_eq_error_iff`).
-/

namespace LanguageClient

/-! ### Text between blanks -/

namespace Bytes

/-- Neither the first byte nor the last one is a blank. -/
def IsTrimmed (s : Bytes) : Prop :=
  (∀ b ∈ s.head?, isBlank b = false) ∧ ∀ b ∈ s.getLast?, isBlank b = false

theorem dropWhile_append_eq {p : UInt8 → Bool} {skipped s : Bytes} (h : skipped.all p = true)
    (hs : ∀ b ∈ s.head?, p b = false) : (skipped ++ s).dropWhile p = s := by
  rw [List.dropWhile_append_of_pos (List.all_eq_true.mp h)]
  cases s with
  | nil => rfl
  | cons b s => exact List.dropWhile_cons_of_neg (by simp [hs b rfl])

theorem head?_dropWhile (p : UInt8 → Bool) (s : Bytes) :
    ∀ b ∈ (s.dropWhile p).head?, p b = false := by
  intro b hb
  have hnot := List.head?_dropWhile_not p s
  rw [hb] at hnot
  simpa using hnot

theorem isTrimmed_trim (s : Bytes) : IsTrimmed (trim s) := by
  obtain ⟨after, hafter⟩ := List.dropWhile_suffix isBlank (l := (s.dropWhile isBlank).reverse)
  have hsplit : s.dropWhile isBlank = trim s ++ after.reverse := by
    rw [trim, ← List.reverse_append, hafter, List.reverse_reverse]
  constructor
  · intro b hb
    refine head?_dropWhile isBlank s b ?_
    rw [hsplit, List.head?_append]
    simp [Option.mem_def.mp hb]
  · intro b hb
    rw [trim, List.getLast?_reverse] at hb
    exact head?_dropWhile isBlank _ b hb

/-- Trimming cuts off the blanks around a text, and nothing else. -/
theorem trim_eq_iff {s value : Bytes} :
    trim s = value ↔ IsTrimmed value ∧ ∃ before after, s = before ++ value ++ after ∧
      before.all isBlank = true ∧ after.all isBlank = true := by
  constructor
  · rintro rfl
    refine ⟨isTrimmed_trim s, s.takeWhile isBlank,
      ((s.dropWhile isBlank).reverse.takeWhile isBlank).reverse, ?_, ?_, ?_⟩
    · rw [trim, List.append_assoc, ← List.reverse_append, List.takeWhile_append_dropWhile,
        List.reverse_reverse, List.takeWhile_append_dropWhile]
    · exact List.all_takeWhile
    · rw [List.all_reverse]
      exact List.all_takeWhile
  · rintro ⟨⟨hhead, hlast⟩, before, after, rfl, hbefore, hafter⟩
    rw [trim, List.append_assoc]
    cases value with
    | nil =>
      have hall : (before ++ after).all isBlank = true := by simp [hbefore, hafter]
      rw [List.nil_append, ← List.append_nil (before ++ after), dropWhile_append_eq hall (by simp)]
      rfl
    | cons b value =>
      have hreverse : after.reverse.all isBlank = true := List.all_reverse.trans hafter
      rw [dropWhile_append_eq (s := b :: value ++ after) hbefore hhead, List.reverse_append,
        dropWhile_append_eq hreverse (by rwa [List.head?_reverse]), List.reverse_reverse]

end Bytes

namespace Frame

/-! ### One line -/

/-- A length line with this value. What surrounds the value is blank. -/
def HasValue (line value : Bytes) : Prop :=
  ∃ before after, withoutCr line = lengthField ++ before ++ value ++ after ∧
    before.all Bytes.isBlank = true ∧ after.all Bytes.isBlank = true ∧ Bytes.IsTrimmed value

/-- A length line whose value is a row of digits, leading zeros allowed, that stands for `n`. -/
def Announces (line : Bytes) (n : Nat) : Prop :=
  ∃ digits, HasValue line digits ∧ digits ≠ [] ∧ (∀ d ∈ digits, Digits.isDigit d = true) ∧
    Digits.toNat digits = n ∧ 1 ≤ n ∧ n < UInt64.size

theorem fieldValue?_eq_some_iff {line value : Bytes} :
    fieldValue? line = some value ↔ HasValue line value := by
  simp only [fieldValue?, Option.map_eq_some_iff, Bytes.after?_eq_some_iff, Bytes.trim_eq_iff]
  constructor
  · rintro ⟨rest, hline, htrimmed, before, after, rfl, hbefore, hafter⟩
    refine ⟨before, after, ?_, hbefore, hafter, htrimmed⟩
    rw [hline, List.append_assoc, List.append_assoc, List.append_assoc]
  · rintro ⟨before, after, hline, hbefore, hafter, htrimmed⟩
    refine ⟨before ++ value ++ after, ?_, htrimmed, before, after, rfl, hbefore, hafter⟩
    rw [hline, List.append_assoc, List.append_assoc, List.append_assoc]

theorem Digits.toNat?_eq_some_iff {s : Bytes} {n : Nat} :
    Digits.toNat? s = some n ↔
      s ≠ [] ∧ (∀ d ∈ s, Digits.isDigit d = true) ∧ Digits.toNat s = n := by
  unfold Digits.toNat?
  split
  · next h =>
    simp only [reduceCtorEq, false_iff]
    rintro ⟨hne, hall, -⟩
    simp [List.all_eq_true.mpr hall, hne] at h
  · next h =>
    obtain ⟨hne, hall⟩ : s ≠ [] ∧ s.all Digits.isDigit = true := by simpa using h
    rw [Option.some_inj]
    exact ⟨fun hn => ⟨hne, List.all_eq_true.mp hall, hn⟩, fun hn => hn.2.2⟩

theorem Length.read?_eq_some_iff {value : Bytes} {length : Length} :
    Length.read? value = some length ↔ Digits.toNat? value = some length.size := by
  unfold Length.read?
  cases Digits.toNat? value with
  | none => simp
  | some n =>
    dsimp only
    split
    · next h =>
      cases length
      simp
    · next h =>
      simp only [reduceCtorEq, Option.some_inj, false_iff]
      rintro rfl
      exact h ⟨length.pos, length.below⟩

theorem announced?_eq_some_iff {line : Bytes} {length : Length} :
    announced? line = some length ↔ Announces line length.size := by
  simp only [announced?, Option.bind_eq_some_iff, fieldValue?_eq_some_iff, Length.read?_eq_some_iff,
    Digits.toNat?_eq_some_iff]
  constructor
  · rintro ⟨value, hvalue, hne, hdigits, hsize⟩
    exact ⟨value, hvalue, hne, hdigits, hsize, length.pos, length.below⟩
  · rintro ⟨digits, hvalue, hne, hdigits, hsize, -, -⟩
    exact ⟨digits, hvalue, hne, hdigits, hsize⟩

/-- What a line announces can be announced. -/
theorem Announces.exists_length {line : Bytes} {n : Nat} (h : Announces line n) :
    ∃ length : Length, length.size = n := by
  obtain ⟨-, -, -, -, -, hpos, hbelow⟩ := h
  exact ⟨⟨n, hpos, hbelow⟩, rfl⟩

/-! ### A whole block -/

/-- What is reported of a block none of whose lines announces a length. -/
inductive Reports (lines : List Bytes) : HeaderError → Prop where
  /-- The last length line has a value. -/
  | value {value : Bytes} : (∀ l ∈ lines, ∀ n, ¬ Announces l n) → LastOf HasValue lines value →
      value ≠ [] → Reports lines (.invalidLength value)
  /-- It has none, or there is no length line. -/
  | noValue : (∀ l ∈ lines, ∀ n, ¬ Announces l n) →
      (LastOf HasValue lines [] ∨ ∀ l ∈ lines, ∀ v, ¬ HasValue l v) → Reports lines .noLength

theorem announced?_eq_none_iff {line : Bytes} :
    announced? line = none ↔ ∀ n, ¬ Announces line n := by
  rw [Option.eq_none_iff_forall_ne_some]
  constructor
  · intro h n hn
    obtain ⟨length, rfl⟩ := hn.exists_length
    exact h length (announced?_eq_some_iff.mpr hn)
  · exact fun h length hlength => h length.size (announced?_eq_some_iff.mp hlength)

theorem lastOf_announces_iff {lines : List Bytes} {length : Length} :
    (lines.filterMap announced?).getLast? = some length ↔ LastOf Announces lines length.size := by
  rw [getLast?_filterMap_eq_some_iff (P := fun l k => Announces l k.size)
    fun _ _ => announced?_eq_some_iff]
  simp only [LastOf, ← announced?_eq_none_iff, Option.eq_none_iff_forall_ne_some, ne_eq,
    announced?_eq_some_iff]

theorem exists_length_of_lastOf {lines : List Bytes} {n : Nat} (h : LastOf Announces lines n) :
    ∃ length : Length, length.size = n := by
  obtain ⟨-, line, -, -, hn, -⟩ := h
  exact hn.exists_length

theorem reports_iff {lines : List Bytes} {e : HeaderError} :
    Reports lines e ↔ (∀ l ∈ lines, announced? l = none) ∧ e = blockError lines := by
  have hlast {value : Bytes} : (lines.filterMap fieldValue?).getLast? = some value ↔
      LastOf HasValue lines value :=
    getLast?_filterMap_eq_some_iff fun _ _ => fieldValue?_eq_some_iff
  have hnone : (lines.filterMap fieldValue?).getLast? = none ↔
      ∀ l ∈ lines, ∀ v, ¬ HasValue l v := by
    rw [List.getLast?_eq_none_iff]
    exact filterMap_eq_nil_iff fun _ _ => fieldValue?_eq_some_iff
  simp only [announced?_eq_none_iff]
  unfold blockError
  constructor
  · rintro (⟨hn, hv, hne⟩ | ⟨hn, hv | hv⟩)
    · rename_i value
      refine ⟨hn, ?_⟩
      rw [hlast.mpr hv]
      cases value with
      | nil => exact absurd rfl hne
      | cons b value => rfl
    · exact ⟨hn, by rw [hlast.mpr hv]⟩
    · exact ⟨hn, by rw [hnone.mpr hv]⟩
  · rintro ⟨hn, rfl⟩
    cases hcases : (lines.filterMap fieldValue?).getLast? with
    | none => exact .noValue hn (.inr (hnone.mp hcases))
    | some value =>
      cases value with
      | nil => exact .noValue hn (.inl (hlast.mp hcases))
      | cons b value => exact .value hn (hlast.mp hcases) (List.cons_ne_nil b value)

namespace Header

/-- The last usable length of some lines counts. -/
theorem length_lines (h : Header) (ls : List Bytes) :
    (h.lines ls).1.length = ((ls.filterMap announced?).getLast?).or h.length := by
  induction ls generalizing h with
  | nil => rfl
  | cons line rest ih =>
    have hrest : (h.lines (line :: rest)).1.length =
        ((h.line (withoutCr line)).1.lines rest).1.length := rfl
    rw [hrest, ih, length_line, List.filterMap_cons]
    cases announced? line with
    | none => rfl
    | some length =>
      rw [List.getLast?_cons]
      cases (rest.filterMap announced?).getLast? <;> rfl

theorem close_lines_eq_ok_iff {ls : List Bytes} {length : Length} :
    (lines {} ls).1.close = .ok length ↔ LastOf Announces ls length.size := by
  rw [← lastOf_announces_iff]
  have hlength := length_lines {} ls
  rw [show ({} : Header).length = none from rfl, Option.or_none] at hlength
  unfold close
  rw [hlength]
  cases (ls.filterMap announced?).getLast? <;> simp

theorem close_lines_eq_error_iff {ls : List Bytes} {e : HeaderError} :
    (lines {} ls).1.close = .error e ↔ Reports ls e := by
  rw [reports_iff]
  constructor
  · intro h
    have hlength : (lines {} ls).1.length = none := by
      unfold close at h
      split at h
      · cases h
      · assumption
    rw [length_lines, show ({} : Header).length = none from rfl, Option.or_none] at hlength
    have hn : ∀ l ∈ ls, announced? l = none :=
      List.filterMap_eq_nil_iff.mp (List.getLast?_eq_none_iff.mp hlength)
    rw [close_lines_of_forall_none hn] at h
    exact ⟨hn, (Except.error.inj h).symm⟩
  · rintro ⟨hn, rfl⟩
    exact close_lines_of_forall_none hn

end Header

end Frame

end LanguageClient
