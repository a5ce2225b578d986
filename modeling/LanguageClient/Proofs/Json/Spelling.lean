import LanguageClient.Proofs.Json.Validity

/-!
# How strings and numbers are spelled

What the items of a string and the parts of a number may be, as relations between a text and what it
says. A string is read as what it says and as nothing else (`Quoted.read?_eq_some_iff`), and so is a
number, for readers that put no limit on its exponent (`Numeral.read?_of_spells`,
`Numeral.spells_of_read?`). Readers differ in this limit, and in what they take for null: that is what
a `Dialect` says.
-/

namespace LanguageClient.Json

open Bytes (Stops)

/-- What the grammar is about beyond what readers agree on. -/
structure Dialect where
  /-- A text that says null. -/
  null : Bytes → Prop
  /-- How many digits an exponent may have. -/
  exponent : Nat → Prop

namespace Dialect

/-- The word null, and exponents that a signed 64-bit word holds whatever their digits are. -/
def strict : Dialect where
  null s := s = bytes "null"
  exponent n := n ≤ 18

/-- Any word that begins with `n`, and exponents of any length. -/
def lax : Dialect where
  null s := ∃ part, s = Ascii.byte 'n' :: part ∧ part.all Token.isWordPart = true
  exponent _ := True

end Dialect

/-! ### Strings -/

namespace Quoted

/-- Items between quotation marks, as they are written. -/
inductive Written : Bytes → List Piece → Prop
  | nil : Written [] []
  | plain {b : UInt8} {s : Bytes} {ps : List Piece} (hquote : b ≠ Ascii.quote)
      (hback : b ≠ Ascii.backslash) (hcontrol : ¬ b < 0x20) (h : Written s ps) :
      Written (b :: s) (.byte b :: ps)
  | letter {c b : UInt8} {s : Bytes} {ps : List Piece} (hletter : ofLetter? c = some b)
      (h : Written s ps) : Written (Ascii.backslash :: c :: s) (.byte b :: ps)
  | unit {h₁ h₂ h₃ h₄ : UInt8} {u : Nat} {s : Bytes} {ps : List Piece}
      (hunit : hexUnit? h₁ h₂ h₃ h₄ = some u) (h : Written s ps) :
      Written (Ascii.backslash :: Ascii.byte 'u' :: h₁ :: h₂ :: h₃ :: h₄ :: s) (.unit u :: ps)

/-- What items say together. Half of a surrogate pair says nothing. -/
inductive Says : List Piece → Bytes → Prop
  | nil : Says [] []
  | byte (b : UInt8) {ps : List Piece} {t : Bytes} (h : Says ps t) : Says (.byte b :: ps) (b :: t)
  | unit {u : Nat} {ps : List Piece} {t : Bytes} (hu : u < 0xD800 ∨ 0xE000 ≤ u) (h : Says ps t) :
      Says (.unit u :: ps) (Utf8.encode u ++ t)
  | pair {u v : Nat} {ps : List Piece} {t : Bytes} (hu : 0xD800 ≤ u ∧ u < 0xDC00)
      (hv : 0xDC00 ≤ v ∧ v < 0xE000) (h : Says ps t) :
      Says (.unit u :: .unit v :: ps) (Utf8.encode (joinPair u v) ++ t)

/-- What stands between two quotation marks says the text. -/
def Spells (s t : Bytes) : Prop := ∃ ps, Written s ps ∧ Says ps t

theorem pieces?_of_written {s : Bytes} {ps : List Piece} (h : Written s ps) (before : List Piece)
    (rest : Bytes) :
    pieces? before (s ++ Ascii.quote :: rest) = some (before.reverse ++ ps, rest) := by
  induction h generalizing before with
  | nil => rw [List.nil_append, pieces?_quote, List.append_nil]
  | plain hquote hback hcontrol _ ih =>
    rw [List.cons_append, pieces?_plain _ _ hquote hback hcontrol, ih]
    simp
  | @letter c _ _ _ hletter _ ih =>
    have hu : c ≠ Ascii.byte 'u' := by
      rintro rfl
      cases hletter
    rw [List.cons_append, List.cons_append, pieces?_letter _ _ hu hletter, ih]
    simp
  | unit hunit _ ih =>
    simp only [List.cons_append]
    rw [pieces?_unit _ _ hunit, ih]
    simp

theorem exists_written {before pieces : List Piece} {s rest : Bytes}
    (h : pieces? before s = some (pieces, rest)) :
    ∃ t ps, s = t ++ Ascii.quote :: rest ∧ pieces = before.reverse ++ ps ∧ Written t ps := by
  fun_induction pieces? before s with
  | case1 => cases h
  | case2 before s =>
    cases h
    exact ⟨[], [], rfl, (List.append_nil _).symm, .nil⟩
  | case3 => cases h
  | case4 before h₁ h₂ h₃ h₄ s u hunit _ ih =>
    obtain ⟨t, ps, rfl, rfl, hwritten⟩ := ih h
    exact ⟨_, _, rfl, by simp, .unit hunit hwritten⟩
  | case5 => cases h
  | case6 => cases h
  | case7 before c s hc b hof _ ih =>
    obtain ⟨t, ps, rfl, rfl, hwritten⟩ := ih h
    exact ⟨_, _, rfl, by simp, .letter hof hwritten⟩
  | case8 => cases h
  | case9 => cases h
  | case10 before b s hquote hback hlow ih =>
    obtain ⟨t, ps, rfl, rfl, hwritten⟩ := ih h
    exact ⟨_, _, rfl, by simp, .plain hquote hback hlow hwritten⟩

theorem Says.join?_eq {ps : List Piece} {t : Bytes} (h : Says ps t) (before : Bytes) :
    join? before ps = some (before.reverse ++ t) := by
  induction h generalizing before with
  | nil => simp [join?]
  | byte b _ ih =>
    rw [join?, ih]
    simp
  | @unit u _ _ hu _ ih =>
    have hhigh : isHigh u = false := by simp [isHigh]; omega
    have hlow : isLow u = false := by simp [isLow]; omega
    rw [join?.eq_def]
    simp only [hhigh, hlow, Bool.false_eq_true, if_false, ih]
    simp
  | @pair u v _ _ hu hv _ ih =>
    have hhigh : isHigh u = true := by simp [isHigh]; omega
    have hlow : isLow v = true := by simp [isLow]; omega
    rw [join?.eq_def]
    simp only [hhigh, hlow, if_true, ih]
    simp

theorem says_of_join? {before : Bytes} {ps : List Piece} {t : Bytes}
    (h : join? before ps = some t) : ∃ u, t = before.reverse ++ u ∧ Says ps u := by
  fun_induction join? before ps with
  | case1 before =>
    cases h
    exact ⟨[], (List.append_nil _).symm, .nil⟩
  | case2 before b ps ih =>
    obtain ⟨u, rfl, hsaid⟩ := ih h
    exact ⟨_, by simp, .byte b hsaid⟩
  | case3 before u hhigh v ps hlow ih =>
    simp only [isHigh, isLow, Bool.and_eq_true, decide_eq_true_eq] at hhigh hlow
    obtain ⟨w, hw, hsaid⟩ := ih h
    exact ⟨Utf8.encode (joinPair u v) ++ w, by simp [hw], .pair hhigh hlow hsaid⟩
  | case4 => cases h
  | case5 => cases h
  | case6 => cases h
  | case7 before u ps hhigh hlow ih =>
    simp only [isHigh, isLow, Bool.and_eq_true, decide_eq_true_eq] at hhigh hlow
    obtain ⟨w, hw, hsaid⟩ := ih h
    exact ⟨Utf8.encode u ++ w, by simp [hw], .unit (by omega) hsaid⟩

/-- A string is read as what it says, and as nothing else. -/
theorem read?_eq_some_iff {s t rest : Bytes} :
    read? s = some (t, rest) ↔ ∃ u, s = u ++ Ascii.quote :: rest ∧ Spells u t := by
  unfold read?
  constructor
  · intro h
    split at h
    · cases h
    · next pieces found hpieces =>
      obtain ⟨joined, hjoin, heq⟩ := Option.map_eq_some_iff.mp h
      cases heq
      obtain ⟨u, _, rfl, rfl, hwritten⟩ := exists_written hpieces
      obtain ⟨_, rfl, hsaid⟩ := says_of_join? hjoin
      exact ⟨u, rfl, _, hwritten, hsaid⟩
  · rintro ⟨u, rfl, ps, hwritten, hsaid⟩
    rw [pieces?_of_written hwritten [] rest]
    exact congrArg (Option.map _) (hsaid.join?_eq [])

end Quoted

/-! ### Numbers -/

namespace Numeral

/-- What the parts of a number say together. -/
def ofParts (negative : Bool) (whole : Bytes) (fraction : Option Bytes) (exponent : Option Int) :
    Numeral :=
  match fraction, exponent with
  | none, none =>
    let n : Int := Digits.toNat whole
    .integer (if negative then -n else n)
  | _, _ =>
    .decimal negative ⟨Digits.toNat (whole ++ fraction.getD []),
      exponent.getD 0 - (fraction.getD []).length⟩

inductive IsFraction : Bytes → Option Bytes → Prop
  | absent : IsFraction [] none
  | digits {ds : Bytes} (hne : ds ≠ []) (hall : ds.all Digits.isDigit = true) :
      IsFraction (Ascii.point :: ds) (some ds)

/-- The sign of an exponent; it is true if it is a minus. -/
inductive IsSign : Bytes → Bool → Prop
  | absent : IsSign [] false
  | plus : IsSign [Ascii.plus] false
  | minus : IsSign [Ascii.minus] true

inductive IsExponent (g : Dialect) : Bytes → Option Int → Prop
  | absent : IsExponent g [] none
  | digits {e : UInt8} {sign ds : Bytes} {negative : Bool}
      (he : e = Ascii.byte 'e' ∨ e = Ascii.byte 'E') (hsign : IsSign sign negative)
      (hne : ds ≠ []) (hall : ds.all Digits.isDigit = true) (hlength : g.exponent ds.length) :
      IsExponent g (e :: (sign ++ ds))
        (some (if negative then -(Digits.toNat ds : Int) else Digits.toNat ds))

/-- A number: perhaps a minus, digits, perhaps a fraction and perhaps an exponent. -/
inductive Spells (g : Dialect) : Bytes → Numeral → Prop
  | mk (negative : Bool) {whole fractional exponential : Bytes} {fraction : Option Bytes}
      {exponent : Option Int} (hwhole : IsWhole whole) (hfraction : IsFraction fractional fraction)
      (hexponent : IsExponent g exponential exponent) :
      Spells g ((if negative then [Ascii.minus] else []) ++ (whole ++ (fractional ++ exponential)))
        (ofParts negative whole fraction exponent)

section

variable {g : Dialect} {negative : Bool} {whole fractional exponential ds s rest : Bytes}
  {fraction : Option Bytes} {exponent : Option Int} {n : Numeral}

theorem IsExponent.head?_eq (h : IsExponent g s exponent) :
    s = [] ∨ s.head? = some (Ascii.byte 'e') ∨ s.head? = some (Ascii.byte 'E') := by
  cases h with
  | absent => exact .inl rfl
  | digits he => rcases he with rfl | rfl <;> simp

theorem IsExponent.stops (h : IsExponent g s exponent) : Stops Digits.isDigit s := by
  intro b hb
  rcases h.head?_eq with rfl | he | he
  · cases hb
  · cases he.symm.trans hb
    decide
  · cases he.symm.trans hb
    decide

theorem fraction?_of_isFraction (hf : IsFraction fractional fraction)
    (he : IsExponent g exponential exponent) :
    fraction? (fractional ++ exponential) = some (fraction, exponential) := by
  cases hf with
  | absent =>
    refine fraction?_none fun hpoint => ?_
    rcases he.head?_eq with rfl | he | he
    · cases hpoint
    · cases he.symm.trans hpoint
    · cases he.symm.trans hpoint
  | digits hne hall => exact fraction?_point hne hall he.stops

theorem exponentSign_append (h : IsSign s negative) (hall : ds.all Digits.isDigit = true) :
    exponentSign (s ++ ds) = (negative, ds) := by
  have hplus : Ascii.plus ≠ Ascii.minus := by decide
  cases h with
  | absent =>
    cases ds with
    | nil => rfl
    | cons d ds =>
      have hd : Digits.isDigit d = true := (Bool.and_eq_true_iff.mp (List.all_cons ▸ hall)).1
      have hne : d ≠ Ascii.minus ∧ d ≠ Ascii.plus := by
        constructor <;> rintro rfl <;> cases hd
      exact (if_neg hne.1).trans (if_neg hne.2)
  | plus => simp [exponentSign, hplus]
  | minus => simp [exponentSign]

theorem exponent?_of_isExponent (h : IsExponent g s exponent) : exponent? s = some exponent := by
  cases h with
  | absent => rfl
  | @digits e sign ds negative he hsign hne hall =>
    have hread : Digits.toNat? ds = some (Digits.toNat ds) :=
      if_neg (by simp [List.isEmpty_iff, hne, hall])
    rw [exponent?, if_pos he, exponentSign_append hsign hall]
    simp only [hread]

theorem readMagnitude?_of_parts (hw : IsWhole whole) (hf : IsFraction fractional fraction)
    (he : IsExponent g exponential exponent) :
    readMagnitude? negative (whole ++ (fractional ++ exponential)) =
      some (ofParts negative whole fraction exponent) := by
  have hstops : Stops Digits.isDigit (fractional ++ exponential) := by
    cases hf with
    | absent => exact he.stops
    | digits => exact Bytes.stops_cons (by decide) _
  simp only [readMagnitude?, whole?_append hw hstops, fraction?_of_isFraction hf he,
    exponent?_of_isExponent he, Option.bind_eq_bind, Option.bind_some]
  cases fraction <;> cases exponent <;> rfl

/-- What spells a number is read as this number. -/
theorem read?_of_spells (h : Spells g s n) : read? s = some n := by
  cases h with
  | mk negative hw hf he =>
    cases negative with
    | false => exact read?_of_readMagnitude? (readMagnitude?_of_parts hw hf he)
    | true => exact (read?_minus _).trans (readMagnitude?_of_parts hw hf he)

theorem all_isPart_of_spells (h : Spells g s n) : s.all isPart = true := by
  cases h with
  | mk negative hw hf he =>
    have hfraction {t : Bytes} {f : Option Bytes} (h : IsFraction t f) : t.all isPart = true := by
      cases h with
      | absent => rfl
      | digits _ hall => exact Bool.and_eq_true_iff.mpr ⟨by decide, all_isPart_of_isDigit hall⟩
    have hsign {t : Bytes} {b : Bool} (h : IsSign t b) : t.all isPart = true := by
      cases h <;> decide
    have hexponent {t : Bytes} {e : Option Int} (h : IsExponent g t e) : t.all isPart = true := by
      cases h with
      | absent => rfl
      | @digits e _ _ _ he hs _ hall =>
        have hletter : isPart e = true := by rcases he with rfl | rfl <;> decide
        rw [List.all_cons, List.all_append, hletter, hsign hs, all_isPart_of_isDigit hall]
        rfl
    have hminus : (if negative then [Ascii.minus] else []).all isPart = true := by
      cases negative <;> decide
    rw [List.all_append, List.all_append, List.all_append, hminus, all_isPart_of_isDigit hw.all,
      hfraction hf, hexponent he]
    rfl

/-! ### Numbers that are read -/

theorem isWhole_of_whole? (h : whole? s = some (ds, rest)) : s = ds ++ rest ∧ IsWhole ds := by
  have hall : (s.takeWhile Digits.isDigit).all Digits.isDigit = true := List.all_takeWhile
  have hsplit : s = s.takeWhile Digits.isDigit ++ s.dropWhile Digits.isDigit :=
    List.takeWhile_append_dropWhile.symm
  rw [whole?, digits] at h
  generalize s.takeWhile Digits.isDigit = found at h hall hsplit
  rcases found with _ | ⟨first, _ | ⟨second, more⟩⟩
  · cases h
  · cases h
    refine ⟨hsplit, List.cons_ne_nil _ _, hall, fun hzero => ?_⟩
    rw [Option.some.inj hzero]
  · obtain ⟨hzero, heq⟩ := Option.ite_none_left_eq_some.mp h
    cases heq
    exact ⟨hsplit, .of_head (List.cons_ne_nil _ _) hall fun h => hzero (Option.some.inj h)⟩

theorem isFraction_of_fraction? (h : fraction? s = some (fraction, rest)) :
    ∃ t, s = t ++ rest ∧ IsFraction t fraction := by
  cases s with
  | nil =>
    cases h
    exact ⟨[], rfl, .absent⟩
  | cons b s =>
    have hall : (s.takeWhile Digits.isDigit).all Digits.isDigit = true := List.all_takeWhile
    have hsplit : s = s.takeWhile Digits.isDigit ++ s.dropWhile Digits.isDigit :=
      List.takeWhile_append_dropWhile.symm
    rw [fraction?, digits] at h
    generalize s.takeWhile Digits.isDigit = found at h hall hsplit
    split at h
    · next hb =>
      subst hb
      cases found with
      | nil => cases h
      | cons d ds =>
        cases h
        exact ⟨_, congrArg _ hsplit, .digits (List.cons_ne_nil _ _) hall⟩
    · cases h
      exact ⟨[], rfl, .absent⟩

theorem isSign_of_exponentSign (h : exponentSign s = (negative, rest)) :
    ∃ t, s = t ++ rest ∧ IsSign t negative := by
  cases s with
  | nil =>
    cases h
    exact ⟨[], rfl, .absent⟩
  | cons b s =>
    rw [exponentSign] at h
    split at h
    · next hb =>
      cases h
      exact ⟨[b], rfl, hb ▸ .minus⟩
    split at h
    · next hb =>
      cases h
      exact ⟨[b], rfl, hb ▸ .plus⟩
    · cases h
      exact ⟨[], rfl, .absent⟩

theorem isExponent_of_exponent? (h : exponent? s = some exponent) : IsExponent .lax s exponent := by
  cases s with
  | nil =>
    cases h
    exact .absent
  | cons b s =>
    rw [exponent?] at h
    split at h
    · next hb =>
      cases hsign : exponentSign s with
      | mk negative rest =>
        obtain ⟨sign, rfl, hs⟩ := isSign_of_exponentSign hsign
        simp only [hsign] at h
        split at h
        · cases h
        · next n hread =>
          obtain ⟨hdigits, heq⟩ := Option.ite_none_left_eq_some.mp hread
          cases heq
          cases h
          simp only [Bool.or_eq_true, Bool.not_eq_true', not_or, List.isEmpty_iff,
            Bool.not_eq_false] at hdigits
          exact .digits hb hs hdigits.1 hdigits.2 trivial
    · cases h

theorem exists_parts_of_readMagnitude? (h : readMagnitude? negative s = some n) :
    ∃ whole fractional exponential fraction exponent,
      s = whole ++ (fractional ++ exponential) ∧ IsWhole whole ∧ IsFraction fractional fraction ∧
        IsExponent .lax exponential exponent ∧ n = ofParts negative whole fraction exponent := by
  simp only [readMagnitude?, Option.bind_eq_bind, Option.bind_eq_some_iff, Prod.exists] at h
  obtain ⟨whole, rest, hw, fraction, exponential, hf, exponent, he, heq⟩ := h
  obtain ⟨rfl, hwhole⟩ := isWhole_of_whole? hw
  obtain ⟨fractional, rfl, hfraction⟩ := isFraction_of_fraction? hf
  refine ⟨whole, fractional, exponential, fraction, exponent, rfl, hwhole, hfraction,
    isExponent_of_exponent? he, ?_⟩
  cases fraction <;> cases exponent <;> exact (Option.some.inj heq).symm

/-- What is read as a number spells this number. -/
theorem spells_of_read? (h : read? s = some n) : Spells .lax s n := by
  cases s with
  | nil => cases h
  | cons b s =>
    rw [read?] at h
    split at h
    · next hb =>
      obtain ⟨_, _, _, _, _, rfl, hw, hf, he, rfl⟩ := exists_parts_of_readMagnitude? h
      exact hb ▸ .mk true hw hf he
    · obtain ⟨_, _, _, _, _, heq, hw, hf, he, rfl⟩ := exists_parts_of_readMagnitude? h
      exact heq ▸ .mk false hw hf he

end

end Numeral

end LanguageClient.Json
