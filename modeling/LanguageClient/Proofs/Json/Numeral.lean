import LanguageClient.Json.Tree
import LanguageClient.Proofs.Binary64.Shortest
import LanguageClient.Proofs.Digits

/-!
# Number literals read back

An integer is written as the literal that says it (`read?_ofInt`), and a double as a literal that
denotes it (`read?_text`, `number?_ofDouble`): with a point, with an exponent or with both, depending
on the place of its first digit.
-/

namespace LanguageClient

/-- A text that does not go on with a byte of the kind `p`. -/
def Bytes.Stops (p : UInt8 → Bool) (s : Bytes) : Prop := ∀ b, s.head? = some b → p b = false

namespace Bytes

variable {p : UInt8 → Bool} {s rest : Bytes}

theorem stops_cons {b : UInt8} (hb : p b = false) (s : Bytes) : Stops p (b :: s) := by
  intro x hx
  cases hx
  exact hb

theorem stops_dropWhile (p : UInt8 → Bool) (s : Bytes) : Stops p (s.dropWhile p) := by
  intro b hb
  have hnot := List.head?_dropWhile_not p s
  rw [hb] at hnot
  exact hnot

theorem Stops.takeWhile_append (hr : Stops p rest) (hs : s.all p = true) :
    (s ++ rest).takeWhile p = s := by
  rw [List.takeWhile_append_of_pos (by simpa using hs)]
  cases rest with
  | nil => simp
  | cons b rest => simp [hr b rfl]

theorem Stops.dropWhile_append (hr : Stops p rest) (hs : s.all p = true) :
    (s ++ rest).dropWhile p = rest := by
  rw [List.dropWhile_append_of_pos (by simpa using hs)]
  cases rest with
  | nil => rfl
  | cons b rest => simp [hr b rfl]

end Bytes

namespace Digits

theorem foldl_value (n : Nat) (s : Bytes) :
    s.foldl (fun n d => 10 * n + value d) n = n * Nat.pow 10 s.length + toNat s := by
  induction s generalizing n with
  | nil => simp [toNat]
  | cons d s ih =>
    have hpow : Nat.pow 10 (s.length + 1) = 10 * Nat.pow 10 s.length := Nat.mul_comm ..
    rw [toNat, List.foldl_cons, List.foldl_cons, ih, ih, List.length_cons, hpow, Nat.mul_zero,
      Nat.zero_add, Nat.add_mul, Nat.mul_comm 10 n, Nat.mul_assoc, Nat.add_assoc]

theorem toNat_append (s t : Bytes) :
    toNat (s ++ t) = toNat s * Nat.pow 10 t.length + toNat t := by
  rw [toNat, List.foldl_append, foldl_value]
  rfl

theorem toNat_replicate_zero (n : Nat) : toNat (List.replicate n Ascii.zero) = 0 := by
  induction n with
  | zero => rfl
  | succ n ih =>
    have hzero : toNat [Ascii.zero] = 0 := by decide
    rw [List.replicate_succ, ← List.singleton_append, toNat_append, hzero, ih, Nat.zero_mul]

theorem all_isDigit_replicate_zero (n : Nat) :
    (List.replicate n Ascii.zero).all isDigit = true := by
  rw [List.all_replicate]
  simp only [show isDigit Ascii.zero = true by decide, ite_self]

end Digits

namespace Json.Numeral

open Bytes (Stops)

/-! ### The parts of a literal -/

/-- Digits that can be the whole part of a literal. -/
structure IsWhole (ds : Bytes) : Prop where
  ne_nil : ds ≠ []
  all : ds.all Digits.isDigit = true
  zero : ds.head? = some Ascii.zero → ds = [Ascii.zero]

theorem isWhole_zero : IsWhole [Ascii.zero] := ⟨by simp, by decide, fun _ => rfl⟩

theorem IsWhole.of_head {ds : Bytes} (hne : ds ≠ []) (hall : ds.all Digits.isDigit = true)
    (hz : ds.head? ≠ some Ascii.zero) : IsWhole ds :=
  ⟨hne, hall, fun h => absurd h hz⟩

theorem isWhole_ofNat (n : Nat) : IsWhole (Digits.ofNat n) where
  ne_nil := Digits.ofNat_ne_nil n
  all := Digits.all_isDigit_ofNat n
  zero h := by
    by_cases hn : n = 0
    · subst hn
      rfl
    · exact absurd h (Digits.head?_ofNat_ne_zero hn)

section

variable {ds rest : Bytes}

theorem whole?_append (h : IsWhole ds) (hr : Stops Digits.isDigit rest) :
    whole? (ds ++ rest) = some (ds, rest) := by
  rw [whole?, digits, hr.takeWhile_append h.all, hr.dropWhile_append h.all]
  match ds, h with
  | [], h => exact absurd rfl h.ne_nil
  | [_], _ => rfl
  | first :: second :: more, h =>
    have hz : first ≠ Ascii.zero := fun hz => absurd (h.zero (hz ▸ rfl)) (by simp)
    exact if_neg hz

theorem fraction?_point (hne : ds ≠ []) (hds : ds.all Digits.isDigit = true)
    (hr : Stops Digits.isDigit rest) :
    fraction? (Ascii.point :: (ds ++ rest)) = some (some ds, rest) := by
  rw [fraction?, if_pos rfl, digits, hr.takeWhile_append hds, hr.dropWhile_append hds]
  cases ds with
  | nil => exact absurd rfl hne
  | cons d ds => rfl

theorem fraction?_none (h : rest.head? ≠ some Ascii.point) : fraction? rest = some (none, rest) := by
  cases rest with
  | nil => rfl
  | cons b rest => exact if_neg fun hb : b = Ascii.point => h (hb ▸ rfl)

end

theorem toNat?_padded (n : Nat) :
    Digits.toNat? (if (Digits.ofNat n).length < 2 then Ascii.zero :: Digits.ofNat n
      else Digits.ofNat n) = some n := by
  split
  · have hzero : Digits.toNat [Ascii.zero] = 0 := by decide
    have hall : Digits.isDigit Ascii.zero = true := by decide
    rw [← List.singleton_append, Digits.toNat?, Digits.toNat_append, Digits.toNat_ofNat, hzero]
    simp [hall, Digits.all_isDigit_ofNat]
  · exact Digits.toNat?_ofNat n

theorem exponent?_text (e : Int) :
    exponent? (Ascii.byte 'e' :: Binary64.exponentText e) = some (some e) := by
  rw [exponent?, if_pos (.inl rfl), Binary64.exponentText]
  by_cases he : e < 0
  · simp only [if_pos he, exponentSign, toNat?_padded, if_true, Option.some.injEq]
    omega
  · have hplus : Ascii.plus ≠ Ascii.minus := by decide
    simp only [if_neg he, exponentSign, if_neg hplus, toNat?_padded, if_true, Option.some.injEq,
      Bool.false_eq_true, if_false]
    omega

/-! ### Whole literals -/

section

variable {whole fraction : Bytes} (negative : Bool)

theorem readMagnitude?_integer (n : Nat) :
    readMagnitude? negative (Digits.ofNat n) = some (.integer (if negative then -n else n)) := by
  have hwhole := whole?_append (isWhole_ofNat n) (show Stops Digits.isDigit [] from nofun)
  rw [List.append_nil] at hwhole
  simp [readMagnitude?, hwhole, fraction?, exponent?, Digits.toNat_ofNat]

/-- With a fraction and no exponent. -/
theorem readMagnitude?_fraction (hw : IsWhole whole) (hne : fraction ≠ [])
    (hf : fraction.all Digits.isDigit = true) :
    readMagnitude? negative (whole ++ Ascii.point :: fraction) =
      some (.decimal negative ⟨Digits.toNat (whole ++ fraction), -fraction.length⟩) := by
  have hwhole := whole?_append hw (Bytes.stops_cons (b := Ascii.point) (by decide) fraction)
  have hfraction := fraction?_point hne hf (show Stops Digits.isDigit [] from nofun)
  rw [List.append_nil] at hfraction
  simp [readMagnitude?, hwhole, hfraction, exponent?]

/-- With an exponent and perhaps a fraction. -/
theorem readMagnitude?_exponent (hw : IsWhole whole) (hf : fraction.all Digits.isDigit = true)
    (e : Int) :
    readMagnitude? negative
        (whole ++ (if fraction.isEmpty then [] else Ascii.point :: fraction)
          ++ Ascii.byte 'e' :: Binary64.exponentText e) =
      some (.decimal negative ⟨Digits.toNat (whole ++ fraction), e - fraction.length⟩) := by
  have hstop := Bytes.stops_cons (p := Digits.isDigit) (b := Ascii.byte 'e') (by decide)
    (Binary64.exponentText e)
  rw [List.append_assoc]
  cases fraction with
  | nil =>
    have hwhole := whole?_append hw hstop
    have hpoint : (Ascii.byte 'e' :: Binary64.exponentText e).head? ≠ some Ascii.point := by
      rw [List.head?_cons]
      decide
    have hfraction := fraction?_none hpoint
    simp [readMagnitude?, hwhole, hfraction, exponent?_text]
  | cons d ds =>
    have hwhole := whole?_append hw (Bytes.stops_cons (b := Ascii.point) (by decide)
      (d :: ds ++ Ascii.byte 'e' :: Binary64.exponentText e))
    have hfraction := fraction?_point (List.cons_ne_nil d ds) hf hstop
    simp only [List.isEmpty_cons, Bool.false_eq_true, if_false, List.cons_append]
    simp only [List.cons_append] at hwhole hfraction
    simp [readMagnitude?, hwhole, hfraction, exponent?_text]

end

/-! ### The four layouts of a magnitude -/

section

variable {ds : Bytes} (negative : Bool) (hne : ds ≠ []) (hall : ds.all Digits.isDigit = true)

include hne hall

/-- All digits after the point. -/
theorem readMagnitude?_after (k : Nat) :
    readMagnitude? negative (Ascii.zero :: Ascii.point :: List.replicate k Ascii.zero ++ ds) =
      some (.decimal negative ⟨Digits.toNat ds, -k - ds.length⟩) := by
  have hf : (List.replicate k Ascii.zero ++ ds).all Digits.isDigit = true := by
    rw [List.all_append, hall, Digits.all_isDigit_replicate_zero]
    rfl
  have hread := readMagnitude?_fraction negative isWhole_zero
    (show List.replicate k Ascii.zero ++ ds ≠ [] by simp [hne]) hf
  have hvalue : Digits.toNat ([Ascii.zero] ++ (List.replicate k Ascii.zero ++ ds)) =
      Digits.toNat ds := by
    rw [← List.append_assoc, List.singleton_append, ← List.replicate_succ, Digits.toNat_append,
      Digits.toNat_replicate_zero, Nat.zero_mul, Nat.zero_add]
  rw [hvalue, List.length_append, List.length_replicate] at hread
  refine hread.trans ?_
  congr 3
  omega

variable (hhead : ds.head? ≠ some Ascii.zero)

include hhead

/-- All digits before the point. -/
theorem readMagnitude?_before (k : Nat) :
    readMagnitude? negative (ds ++ List.replicate k Ascii.zero ++ [Ascii.point, Ascii.zero]) =
      some (.decimal negative ⟨Digits.toNat ds * Nat.pow 10 (k + 1), -1⟩) := by
  have hw : IsWhole (ds ++ List.replicate k Ascii.zero) := by
    refine .of_head (by simp [hne]) ?_ ?_
    · rw [List.all_append, hall, Digits.all_isDigit_replicate_zero]
      rfl
    · obtain ⟨d, ds, rfl⟩ := List.exists_cons_of_ne_nil hne
      exact hhead
  rw [readMagnitude?_fraction negative hw (List.cons_ne_nil _ _) (by decide), List.append_assoc,
    ← List.replicate_succ', Digits.toNat_append, Digits.toNat_replicate_zero, List.length_replicate]
  rfl

/-- The point between two digits. -/
theorem readMagnitude?_between {l : Nat} (hpos : 0 < l) (hlt : l < ds.length) :
    readMagnitude? negative (ds.take l ++ Ascii.point :: ds.drop l) =
      some (.decimal negative ⟨Digits.toNat ds, l - ds.length⟩) := by
  have hdigits : ds.take l ++ ds.drop l = ds := List.take_append_drop l ds
  have hsplit := hall
  rw [← hdigits, List.all_append, Bool.and_eq_true] at hsplit
  have hw : IsWhole (ds.take l) := by
    refine .of_head (by simp [hne]; omega) hsplit.1 ?_
    rwa [List.head?_take, if_neg (by omega)]
  have hdrop : ds.drop l ≠ [] := by simpa using hlt
  rw [readMagnitude?_fraction negative hw hdrop hsplit.2, hdigits, List.length_drop]
  congr 3
  omega

/-- One digit before the point, and an exponent. -/
theorem readMagnitude?_scientific (e : Int) :
    readMagnitude? negative
        (ds.take 1 ++ (if (ds.drop 1).isEmpty then [] else Ascii.point :: ds.drop 1)
          ++ Ascii.byte 'e' :: Binary64.exponentText e) =
      some (.decimal negative ⟨Digits.toNat ds, e + 1 - ds.length⟩) := by
  have hdigits : ds.take 1 ++ ds.drop 1 = ds := List.take_append_drop 1 ds
  have hsplit := hall
  rw [← hdigits, List.all_append, Bool.and_eq_true] at hsplit
  have hw : IsWhole (ds.take 1) := by
    refine .of_head (by simp [hne]) hsplit.1 ?_
    rwa [List.head?_take, if_neg (by decide)]
  have hlength := List.length_pos_iff.mpr hne
  rw [readMagnitude?_exponent negative hw hsplit.2, hdigits, List.length_drop]
  congr 3
  omega

end

end Json.Numeral

namespace Decimal

theorem width_eq (c : Decimal) : c.width = (Digits.ofNat c.coefficient).length := by
  simp [width, Digits.ofNat]

/-- The decimal that a magnitude is written as: a whole number of moderate size with all its digits
and one zero after the point. -/
def written (c : Decimal) : Decimal :=
  if c.width ≤ c.leading ∧ c.leading ≤ Binary64.greatestPositional then
    ⟨c.coefficient * Nat.pow 10 ((c.leading - c.width).toNat + 1), -1⟩
  else c

theorem toBinary64?_written (c : Decimal) (negative : Bool) :
    c.written.toBinary64? negative = c.toBinary64? negative := by
  unfold written
  split
  · next h =>
    rw [toBinary64?_mul_pow]
    obtain ⟨coefficient, exponent⟩ := c
    simp only [leading] at h ⊢
    congr 2
    omega
  · rfl

end Decimal

namespace Json.Numeral

theorem readMagnitude?_magnitudeText (negative : Bool) {c : Decimal} (hc : c.coefficient ≠ 0) :
    readMagnitude? negative (Binary64.magnitudeText (Digits.ofNat c.coefficient) c.leading) =
      some (.decimal negative c.written) := by
  obtain ⟨n, e⟩ := c
  have hall := Digits.all_isDigit_ofNat n
  have hne := Digits.ofNat_ne_nil n
  have hhead := Digits.head?_ofNat_ne_zero hc
  have hnat := Digits.toNat_ofNat n
  have hwidth := Decimal.width_eq ⟨n, e⟩
  have hleading : Decimal.leading ⟨n, e⟩ = e + (Digits.ofNat n).length := by
    rw [Decimal.leading, hwidth]
  simp only [Decimal.written, hwidth, hleading]
  generalize Digits.ofNat n = ds at *
  generalize hl : e + (ds.length : Int) = l
  unfold Binary64.magnitudeText
  dsimp only
  split
  · rw [readMagnitude?_before negative hne hall hhead, hnat]
  · split
    · next h₁ h₂ =>
      rw [readMagnitude?_between negative hne hall hhead (by omega) (by omega), hnat]
      congr 3
      omega
    · split
      · rw [readMagnitude?_after negative hne hall, hnat]
        congr 3
        omega
      · rw [readMagnitude?_scientific negative hne hall hhead, hnat]
        congr 3
        omega

end Json.Numeral

/-- The text of a number without its sign. -/
def Binary64.magnitude (d : Binary64) : Bytes :=
  if d.code = 0 then [Ascii.zero, Ascii.point, Ascii.zero]
  else magnitudeText (Digits.ofNat d.shortest.coefficient) d.shortest.leading

theorem Binary64.text_eq (d : Binary64) :
    d.text = if d.negative then Ascii.minus :: d.magnitude else d.magnitude := by
  unfold text magnitude
  rfl

namespace Json.Numeral

/-! ### Signs -/

theorem read?_minus (s : Bytes) : read? (Ascii.minus :: s) = readMagnitude? true s := by
  rw [read?, if_pos rfl]

/-- A literal without a sign does not begin with one. -/
theorem read?_of_readMagnitude? {s : Bytes} {n : Numeral} (h : readMagnitude? false s = some n) :
    read? s = some n := by
  cases s with
  | nil => exact h
  | cons b s =>
    rw [read?]
    split
    · next hb =>
      have hnone : readMagnitude? false (Ascii.minus :: s) = none := rfl
      subst hb
      exact absurd (h.symm.trans hnone) (Option.some_ne_none n)
    · exact h

/-- Reading an integer undoes writing it. -/
theorem read?_ofInt (n : Int) : read? (Digits.ofInt n) = some (.integer n) := by
  unfold Digits.ofInt
  split
  · rw [read?_minus, readMagnitude?_integer]
    simp only [if_true, Option.some.injEq, integer.injEq]
    omega
  · rw [read?_of_readMagnitude? (readMagnitude?_integer false n.natAbs)]
    simp only [Bool.false_eq_true, if_false, Option.some.injEq, integer.injEq]
    omega

/-- The literal that a double is written as. -/
def ofDouble (d : Binary64) : Numeral :=
  .decimal d.negative (if d.code = 0 then ⟨0, -1⟩ else d.shortest.written)

theorem readMagnitude?_magnitude (negative : Bool) (d : Binary64) :
    readMagnitude? negative d.magnitude =
      some (.decimal negative (if d.code = 0 then ⟨0, -1⟩ else d.shortest.written)) := by
  unfold Binary64.magnitude
  split
  · rfl
  · next h => exact readMagnitude?_magnitudeText negative (Binary64.shortest_coefficient_ne_zero h)

theorem read?_text (d : Binary64) : read? d.text = some (ofDouble d) := by
  have hread := readMagnitude?_magnitude d.negative d
  rw [Binary64.text_eq, ofDouble]
  by_cases hn : d.negative = true
  · rw [if_pos hn, read?_minus, ← hread, hn]
  · rw [if_neg hn, ← hread]
    rw [Bool.not_eq_true] at hn
    rw [hn] at hread ⊢
    rw [hread, read?_of_readMagnitude? hread]

/-- The literal of a double denotes it. -/
theorem number?_ofDouble (d : Binary64) : Tree.number? (ofDouble d) = some (.double d) := by
  unfold ofDouble Tree.number?
  dsimp only
  split
  · next h =>
    obtain ⟨negative, code, hfinite⟩ := d
    obtain rfl : code = 0 := h
    rfl
  · next h => rw [Decimal.toBinary64?_written, Binary64.toBinary64?_shortest h, Option.map_some]

theorem number?_integer (n : Integer) : Tree.number? (.integer n.toInt) = some (.integer n) := by
  simp only [Tree.number?, Integer.ofInt?, dif_pos (And.intro n.least n.below)]

/-! ### The bytes of a literal -/

theorem all_isPart_of_isDigit {s : Bytes} (h : s.all Digits.isDigit = true) :
    s.all isPart = true := by
  rw [List.all_eq_true] at h ⊢
  intro b hb
  simp [isPart, h b hb]

theorem all_isPart_ofInt (n : Int) : (Digits.ofInt n).all isPart = true := by
  have hdigits := all_isPart_of_isDigit (Digits.all_isDigit_ofNat n.natAbs)
  have hminus : isPart Ascii.minus = true := by decide
  unfold Digits.ofInt
  split <;> simp [hdigits, hminus]

theorem all_isPart_exponentText (e : Int) : (Binary64.exponentText e).all isPart = true := by
  have hdigits := all_isPart_of_isDigit (Digits.all_isDigit_ofNat e.natAbs)
  have hsigns : isPart Ascii.minus = true ∧ isPart Ascii.plus = true ∧ isPart Ascii.zero = true := by
    decide
  unfold Binary64.exponentText
  dsimp only
  split <;> split <;> simp [hdigits, hsigns]

theorem all_isPart_magnitudeText {ds : Bytes} (h : ds.all Digits.isDigit = true) (l : Int) :
    (Binary64.magnitudeText ds l).all isPart = true := by
  have hdigits := all_isPart_of_isDigit h
  have htake : ∀ n, (ds.take n).all isPart = true ∧ (ds.drop n).all isPart = true := by
    intro n
    rw [← List.take_append_drop n ds, List.all_append, Bool.and_eq_true] at hdigits
    exact hdigits
  have hmarks : isPart Ascii.zero = true ∧ isPart Ascii.point = true ∧
      isPart (Ascii.byte 'e') = true := by decide
  have hzeros : ∀ n, (List.replicate n Ascii.zero).all isPart = true := fun n =>
    all_isPart_of_isDigit (Digits.all_isDigit_replicate_zero n)
  have hexponent := all_isPart_exponentText (l - 1)
  unfold Binary64.magnitudeText
  dsimp only
  repeat' split
  all_goals simp only [List.all_append, List.all_cons, List.all_nil, hdigits, htake, hmarks, hzeros,
    hexponent, Bool.and_self]

theorem all_isPart_magnitude (d : Binary64) : d.magnitude.all isPart = true := by
  unfold Binary64.magnitude
  split
  · decide
  · exact all_isPart_magnitudeText (Digits.all_isDigit_ofNat _) _

theorem all_isPart_text (d : Binary64) : d.text.all isPart = true := by
  have hminus : isPart Ascii.minus = true := by decide
  rw [Binary64.text_eq]
  split <;> simp only [List.all_cons, hminus, all_isPart_magnitude, Bool.and_self]

end Json.Numeral

/-! ### The literals of a value -/

namespace Json

variable {tree : Tree}

theorem Integer.ofInt?_eq_some_iff {k : Int} {n : Integer} : ofInt? k = some n ↔ k = n.toInt := by
  unfold ofInt?
  split
  · rw [Option.some_inj]
    exact ⟨fun h => h ▸ rfl, fun h => by cases n; cases h; rfl⟩
  · next h =>
    simp only [reduceCtorEq, false_iff]
    rintro rfl
    exact h ⟨n.least, n.below⟩

/-- A literal is that of an integer, or it stands for a double. -/
theorem number?_cases {literal : Numeral} {j : Json} (h : Tree.number? literal = some j) :
    (∃ n : Integer, literal = .integer n.toInt ∧ j = .integer n) ∨ ∃ d, j = .double d := by
  cases literal with
  | integer k =>
    rw [Tree.number?] at h
    split at h
    · next n hn =>
      cases h
      exact .inl ⟨n, congrArg Numeral.integer (Integer.ofInt?_eq_some_iff.mp hn), rfl⟩
    · obtain ⟨d, -, rfl⟩ := Option.map_eq_some_iff.mp h
      exact .inr ⟨d, rfl⟩
  | decimal negative magnitude =>
    obtain ⟨d, -, rfl⟩ := Option.map_eq_some_iff.mp h
    exact .inr ⟨d, rfl⟩

/-- An integer has one literal. -/
theorem value?_eq_integer_iff {n : Integer} :
    tree.value? = some (.integer n) ↔ tree = .number (.integer n.toInt) := by
  constructor
  · intro h
    cases tree with
    | number literal =>
      rw [Tree.value?] at h
      rcases number?_cases h with ⟨m, rfl, hm⟩ | ⟨d, hd⟩
      · cases hm
        rfl
      · cases hd
    | array | object => simp [Tree.value?, ofMembers] at h
    | null | bool | string => cases h
  · rintro rfl
    exact Numeral.number?_integer n

theorem value?_eq_string_iff {s : Bytes} : tree.value? = some (.string s) ↔ tree = .string s := by
  constructor
  · intro h
    cases tree with
    | number literal =>
      rw [Tree.value?] at h
      rcases number?_cases h with ⟨m, -, hm⟩ | ⟨d, hd⟩
      · cases hm
      · cases hd
    | array | object => simp [Tree.value?, ofMembers] at h
    | string t =>
      cases h
      rfl
    | null | bool => cases h
  · rintro rfl
    rfl

end Json

end LanguageClient
