import LanguageClient.Binary64

/-!
# Rounding of quotients

Only the quotient counts (`nearest?_mul_left`), and a number that has a code is rounded to it
(`nearest?_units`).
-/

namespace LanguageClient.Binary64

theorem roundHalfEven_mul_left {k : Nat} (hk : 0 < k) (a b : Nat) :
    roundHalfEven (k * a) (k * b) = roundHalfEven a b := by
  unfold roundHalfEven
  dsimp only
  rw [Nat.mul_div_mul_left _ _ hk, Nat.mul_mod_mul_left, Nat.mul_left_comm 2 k]
  simp only [Nat.mul_lt_mul_left hk]

theorem roundHalfEven_mul (q : Nat) {den : Nat} (hden : 0 < den) :
    roundHalfEven (q * den) den = q := by
  unfold roundHalfEven
  rw [Nat.mul_div_cancel q hden, Nat.mul_mod_left]
  exact if_pos hden

theorem nearestCode_mul_left {k : Nat} (hk : 0 < k) (num den : Nat) :
    nearestCode (k * num) (k * den) = nearestCode num den := by
  unfold nearestCode
  simp only [Nat.mul_assoc, Nat.mul_div_mul_left _ _ hk, roundHalfEven_mul_left hk]

theorem nearest?_mul_left {k : Nat} (hk : 0 < k) (negative : Bool) (num den : Nat) :
    nearest? negative (k * num) (k * den) = nearest? negative num den := by
  simp only [nearest?, nearestCode_mul_left hk]

/-! ### Exact numbers -/

theorem unitsPerOne_pos : 0 < unitsPerOne := by decide +kernel

/-- The shift that rounding makes for a number of units. -/
theorem log2_unitsOfCode (code : Nat) : Nat.log2 (unitsOfCode code) - 52 = code / binade - 1 := by
  have hb : 0 < binade := by decide
  unfold unitsOfCode
  split
  · next h =>
    rw [Nat.div_eq_of_lt h]
    by_cases hz : code = 0
    · subst hz
      decide
    · have := (Nat.log2_lt (k := 52) hz).mpr h
      omega
  · next h =>
    have hmod := Nat.mod_lt code hb
    have hpow : 0 < Nat.pow 2 (code / binade - 1) := Nat.pow_pos (by decide)
    have hne : (binade + code % binade) * Nat.pow 2 (code / binade - 1) ≠ 0 :=
      Nat.ne_of_gt (Nat.mul_pos (by omega) hpow)
    have hlog : Nat.log2 ((binade + code % binade) * Nat.pow 2 (code / binade - 1)) =
        52 + (code / binade - 1) := by
      rw [Nat.log2_eq_iff hne]
      constructor
      · rw [Nat.pow_add]
        exact Nat.mul_le_mul_right _ (Nat.le_add_right _ _)
      · rw [Nat.add_right_comm, Nat.pow_add]
        have hlt := Nat.lt_of_lt_of_le (Nat.add_lt_add_left hmod binade)
          (show binade + binade ≤ Nat.pow 2 (52 + 1) by decide)
        exact Nat.mul_lt_mul_of_pos_right hlt hpow
    rw [hlog]
    omega

/-- The code of a number of units is made of its shift and its leading bits. -/
theorem unitsOfCode_eq (code : Nat) :
    ∃ bits, unitsOfCode code = bits * Nat.pow 2 (code / binade - 1) ∧
      (code / binade - 1) * binade + bits = code := by
  have hb : 0 < binade := by decide
  unfold unitsOfCode
  split
  · next h =>
    refine ⟨code, ?_, ?_⟩ <;> rw [Nat.div_eq_of_lt h]
    · exact (Nat.mul_one code).symm
    · omega
  · next h =>
    refine ⟨binade + code % binade, rfl, ?_⟩
    have hq : 1 ≤ code / binade := (Nat.le_div_iff_mul_le hb).mpr (by omega)
    have hdiv := Nat.div_add_mod code binade
    rw [← Nat.add_assoc, ← Nat.succ_mul, Nat.succ_eq_add_one, Nat.sub_add_cancel hq, Nat.mul_comm]
    exact hdiv

theorem nearestCode_unitsOfCode (code : Nat) : nearestCode (unitsOfCode code) unitsPerOne = code := by
  unfold nearestCode
  dsimp only
  rw [Nat.mul_div_cancel _ unitsPerOne_pos, log2_unitsOfCode]
  obtain ⟨bits, hunits, hcode⟩ := unitsOfCode_eq code
  have hpos : 0 < unitsPerOne * Nat.pow 2 (code / binade - 1) :=
    Nat.mul_pos unitsPerOne_pos (Nat.pow_pos (by decide))
  rw [hunits, Nat.mul_assoc, Nat.mul_comm (Nat.pow 2 _) unitsPerOne, roundHalfEven_mul bits hpos,
    hcode]

/-- A finite number is the nearest to itself. -/
theorem nearest?_units (d : Binary64) : nearest? d.negative d.units unitsPerOne = some d := by
  have hcode : nearestCode d.units unitsPerOne = d.code := nearestCode_unitsOfCode d.code
  simp only [nearest?, hcode, dif_pos d.finite]

end LanguageClient.Binary64
