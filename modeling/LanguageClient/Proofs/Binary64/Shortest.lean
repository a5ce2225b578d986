import LanguageClient.Binary64.Decimal
import LanguageClient.Proofs.Binary64.Rounding

/-!
# The shortest decimal of a number reads back as the number

A decimal is read the same if a factor of ten is moved between its coefficient and its exponent
(`toBinary64?_mul_pow`), so the zeros that `shortest` takes off do not matter. What is left is
either a decimal that was tried and read back, or the exact one (`toBinary64?_exact`).
-/

namespace LanguageClient

namespace Decimal

open Binary64 (nearest? nearest?_mul_left)

theorem width_mul_ten {c : Nat} (hc : c ≠ 0) (e e' : Int) :
    width ⟨c * 10, e⟩ = width ⟨c, e'⟩ + 1 := by
  simp only [width]
  rw [Nat.toDigits_of_base_le (by decide) (show 10 ≤ c * 10 by omega),
    Nat.mul_div_cancel c (by decide), List.length_append]
  rfl

theorem leading_mul_ten {c : Nat} (hc : c ≠ 0) (e : Int) :
    leading ⟨c * 10, e⟩ = leading ⟨c, e + 1⟩ := by
  simp only [leading, width_mul_ten hc e (e + 1)]
  omega

/-- The number nearest to a decimal that is neither zero nor far out of range. -/
def multiplyOut? (negative : Bool) (d : Decimal) : Option Binary64 :=
  if d.exponent < 0 then nearest? negative d.coefficient (Nat.pow 10 d.exponent.natAbs)
  else nearest? negative (d.coefficient * Nat.pow 10 d.exponent.natAbs) 1

theorem multiplyOut?_mul_ten (negative : Bool) (c : Nat) (e : Int) :
    multiplyOut? negative ⟨c * 10, e⟩ = multiplyOut? negative ⟨c, e + 1⟩ := by
  have hten : 0 < 10 := by decide
  simp only [multiplyOut?]
  by_cases h : e + 1 < 0
  · have hpow : Nat.pow 10 e.natAbs = 10 * Nat.pow 10 (e + 1).natAbs := by
      rw [show e.natAbs = (e + 1).natAbs + 1 by omega, Nat.mul_comm]
      rfl
    rw [if_pos (show e < 0 by omega), if_pos h, hpow, Nat.mul_comm c, nearest?_mul_left hten]
  · rw [if_neg h]
    by_cases he : e < 0
    · obtain rfl : e = -1 := by omega
      have hone : Nat.pow 10 (-1 : Int).natAbs = 10 * 1 := rfl
      have hzero : Nat.pow 10 (-1 + 1 : Int).natAbs = 1 := rfl
      rw [if_pos he, hone, hzero, Nat.mul_comm c, nearest?_mul_left hten, Nat.mul_one]
    · have hpow : Nat.pow 10 (e + 1).natAbs = 10 * Nat.pow 10 e.natAbs := by
        rw [show (e + 1).natAbs = e.natAbs + 1 by omega, Nat.mul_comm]
        rfl
      rw [if_neg he, hpow, Nat.mul_assoc]

theorem toBinary64?_of_ne_zero {d : Decimal} (hd : d.coefficient ≠ 0) (negative : Bool) :
    d.toBinary64? negative =
      if d.leading > 310 then none
      else if d.leading < -330 then some (.zero negative)
      else d.multiplyOut? negative := by
  simp only [toBinary64?, multiplyOut?, if_neg hd]

theorem toBinary64?_mul_ten (negative : Bool) (c : Nat) (e : Int) :
    toBinary64? negative ⟨c * 10, e⟩ = toBinary64? negative ⟨c, e + 1⟩ := by
  by_cases hc : c = 0
  · simp [toBinary64?, hc]
  · rw [toBinary64?_of_ne_zero (d := ⟨c * 10, e⟩) (show c * 10 ≠ 0 by omega),
      toBinary64?_of_ne_zero (d := ⟨c, e + 1⟩) hc, leading_mul_ten hc, multiplyOut?_mul_ten]

/-- Zeros at the end of the coefficient may go into the exponent. -/
theorem toBinary64?_mul_pow (negative : Bool) (c : Nat) (e : Int) (k : Nat) :
    toBinary64? negative ⟨c * Nat.pow 10 k, e⟩ = toBinary64? negative ⟨c, e + k⟩ := by
  induction k generalizing e with
  | zero => simp
  | succ k ih =>
    have hpow : c * Nat.pow 10 (k + 1) = c * Nat.pow 10 k * 10 := (Nat.mul_assoc ..).symm
    rw [hpow, toBinary64?_mul_ten, ih]
    congr 2
    omega

theorem toBinary64?_dropZeros (negative : Bool) (n : Nat) (d : Decimal) :
    (d.dropZeros n).toBinary64? negative = d.toBinary64? negative := by
  induction n generalizing d with
  | zero => rfl
  | succ n ih =>
    unfold dropZeros
    split
    · next h =>
      rw [ih, ← toBinary64?_mul_ten, Nat.div_mul_cancel (Nat.dvd_of_mod_eq_zero h)]
    · rfl

end Decimal

namespace Binary64

/-! ### The exact decimal -/

theorem units_lt (d : Binary64) : d.units < 2 * binade * Nat.pow 2 2045 := by
  obtain ⟨bits, hunits, hcode⟩ := unitsOfCode_eq d.code
  have hfinite : d.code < 2047 * binade := d.finite
  have hexp : d.code / binade < 2047 := Nat.div_lt_of_lt_mul (by rwa [Nat.mul_comm])
  have hbits : bits < 2 * binade := by
    have hmod := Nat.mod_lt d.code (show binade > 0 by decide)
    have hdiv := Nat.div_add_mod d.code binade
    simp only [binade] at hcode hmod hdiv ⊢
    omega
  have hpow : Nat.pow 2 (d.code / binade - 1) ≤ Nat.pow 2 2045 :=
    Nat.pow_le_pow_right (by decide) (Nat.sub_le_sub_right (Nat.le_of_lt_succ hexp) 1)
  rw [units, hunits]
  exact Nat.lt_of_lt_of_le (Nat.mul_lt_mul_of_pos_right hbits (Nat.pow_pos (by decide)))
    (Nat.mul_le_mul_left _ hpow)

theorem units_ne_zero {d : Binary64} (h : d.code ≠ 0) : d.units ≠ 0 := by
  unfold units unitsOfCode
  split
  · exact h
  · exact Nat.mul_ne_zero (by simp) (Nat.ne_of_gt (Nat.pow_pos (by decide)))

/-- The exact decimal is within the range that is multiplied out. -/
theorem leading_exact {d : Binary64} (h : d.code ≠ 0) :
    ¬ d.exact.leading > 310 ∧ ¬ d.exact.leading < -330 := by
  have hwidth : ∀ k, 0 < k → (d.exact.width ≤ k ↔ d.units * Nat.pow 5 1074 < Nat.pow 10 k) :=
    fun k hk => Nat.length_toDigits_le_iff (by decide) hk
  have hleast : ¬ d.exact.width ≤ 750 := by
    rw [hwidth 750 (by decide)]
    have h1 : Nat.pow 10 750 ≤ Nat.pow 5 1074 := by decide +kernel
    have h2 := Nat.le_mul_of_pos_left (Nat.pow 5 1074) (Nat.pos_of_ne_zero (units_ne_zero h))
    exact fun hlt => Nat.lt_irrefl _ (Nat.lt_of_lt_of_le hlt (Nat.le_trans h1 h2))
  have hgreatest : d.exact.width ≤ 1384 := by
    rw [hwidth 1384 (by decide)]
    have h1 : 2 * binade * Nat.pow 2 2045 * Nat.pow 5 1074 ≤ Nat.pow 10 1384 := by decide +kernel
    have h2 := Nat.mul_lt_mul_of_pos_right (units_lt d) (show 0 < Nat.pow 5 1074 by decide +kernel)
    exact Nat.lt_of_lt_of_le h2 h1
  have hleading : d.exact.leading = -1074 + d.exact.width := rfl
  omega

theorem toBinary64?_exact {d : Binary64} (h : d.code ≠ 0) :
    d.exact.toBinary64? d.negative = some d := by
  obtain ⟨hgreat, hleast⟩ := leading_exact h
  have hfive : 0 < Nat.pow 5 1074 := by decide +kernel
  have hten : Nat.pow 10 1074 = Nat.pow 5 1074 * unitsPerOne := by decide +kernel
  have hnegative : d.exact.exponent < 0 := show (-1074 : Int) < 0 by decide
  have hnatAbs : d.exact.exponent.natAbs = 1074 := rfl
  have hcoefficient : d.exact.coefficient ≠ 0 :=
    Nat.mul_ne_zero (units_ne_zero h) (Nat.ne_of_gt hfive)
  rw [Decimal.toBinary64?_of_ne_zero hcoefficient, if_neg hgreat, if_neg hleast,
    Decimal.multiplyOut?, if_pos hnegative, hnatAbs, hten, exact, Nat.mul_comm d.units,
    nearest?_mul_left hfive, nearest?_units]

/-! ### The decimals that are tried -/

theorem toBinary64?_of_withDigits? {d : Binary64} {count : Nat} {c : Decimal}
    (h : d.withDigits? count = some c) : c.toBinary64? d.negative = some d := by
  unfold withDigits? at h
  dsimp only at h
  split at h
  · have hread := List.find?_some h
    exact beq_iff_eq.mp hread
  · have hread := List.find?_some h
    exact beq_iff_eq.mp hread

/-- Whatever decimal is chosen, it reads back as the number. -/
theorem toBinary64?_shortest {d : Binary64} (h : d.code ≠ 0) :
    d.shortest.toBinary64? d.negative = some d := by
  unfold shortest
  dsimp only
  rw [Decimal.toBinary64?_dropZeros]
  cases hf : (List.range' 1 17).findSome? d.withDigits? with
  | none => exact toBinary64?_exact h
  | some c =>
    obtain ⟨count, -, hcount⟩ := List.exists_of_findSome?_eq_some hf
    exact toBinary64?_of_withDigits? hcount

theorem shortest_coefficient_ne_zero {d : Binary64} (h : d.code ≠ 0) :
    d.shortest.coefficient ≠ 0 := by
  intro hz
  have hread := toBinary64?_shortest h
  rw [Decimal.toBinary64?, if_pos hz, Option.some.injEq] at hread
  exact h (hread ▸ rfl)

end Binary64

end LanguageClient
