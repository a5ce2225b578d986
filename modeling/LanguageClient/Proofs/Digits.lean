import LanguageClient.Digits

/-!
# Decimal digits read back

Reading undoes writing (`toNat?_ofNat`), a written number consists of digits only
(`all_isDigit_ofNat`) and has no zero in front unless it is zero (`head?_ofNat_ne_zero`).
-/

namespace LanguageClient.Digits

/-- The digit of a number below ten. -/
def digit (n : Nat) : UInt8 := (48 + n).toUInt8

theorem toNat_digit {n : Nat} (h : n < 10) : (digit n).toNat = 48 + n := by
  simp only [digit, Nat.toUInt8, UInt8.toNat_ofNat']
  omega

theorem isDigit_iff {b : UInt8} : isDigit b = true ↔ 48 ≤ b.toNat ∧ b.toNat ≤ 57 := by
  simp only [isDigit, Bool.and_eq_true, decide_eq_true_eq, UInt8.le_iff_toNat_le]
  rfl

theorem isDigit_digit {n : Nat} (h : n < 10) : isDigit (digit n) = true := by
  rw [isDigit_iff, toNat_digit h]
  omega

theorem value_digit {n : Nat} (h : n < 10) : value (digit n) = n := by
  have hle : Ascii.zero ≤ digit n := by
    rw [UInt8.le_iff_toNat_le, toNat_digit h]
    exact Nat.le_add_right 48 n
  rw [value, UInt8.toNat_sub_of_le _ _ hle, toNat_digit h]
  exact Nat.add_sub_cancel_left 48 n

theorem toUInt8_digitChar {n : Nat} (h : n < 10) : (Nat.digitChar n).toNat.toUInt8 = digit n := by
  rw [Nat.toNat_digitChar_of_lt_ten h, digit]

theorem ofNat_of_lt_ten {n : Nat} (h : n < 10) : ofNat n = [digit n] := by
  rw [ofNat, Nat.toDigits_of_lt_base h, List.map_singleton, toUInt8_digitChar h]

theorem ofNat_of_ten_le {n : Nat} (h : 10 ≤ n) :
    ofNat n = ofNat (n / 10) ++ [digit (n % 10)] := by
  rw [ofNat, Nat.toDigits_of_base_le (by decide) h, List.map_append, List.map_singleton,
    toUInt8_digitChar (Nat.mod_lt n (by decide)), ofNat]

theorem ofNat_ne_nil (n : Nat) : ofNat n ≠ [] := by simp [ofNat]

/-- Induction along the digits of a number, the last one first. -/
theorem digits_induction {motive : Nat → Prop} (single : ∀ n, n < 10 → motive n)
    (more : ∀ n, 10 ≤ n → motive (n / 10) → motive n) (n : Nat) : motive n := by
  induction n using Nat.strongRecOn with
  | ind n ih =>
    by_cases h : n < 10
    · exact single n h
    · exact more n (by omega) (ih (n / 10) (by omega))

theorem all_isDigit_ofNat (n : Nat) : (ofNat n).all isDigit = true := by
  induction n using digits_induction with
  | single n h => simp [ofNat_of_lt_ten h, isDigit_digit h]
  | more n h ih =>
    rw [ofNat_of_ten_le h, List.all_append, ih]
    simp [isDigit_digit (Nat.mod_lt n (by decide : 10 > 0))]

theorem toNat_append_singleton (digits : Bytes) (d : UInt8) :
    toNat (digits ++ [d]) = 10 * toNat digits + value d := by
  simp [toNat]

theorem toNat_ofNat (n : Nat) : toNat (ofNat n) = n := by
  induction n using digits_induction with
  | single n h => simp [ofNat_of_lt_ten h, toNat, value_digit h]
  | more n h ih =>
    rw [ofNat_of_ten_le h, toNat_append_singleton, ih,
      value_digit (Nat.mod_lt n (by decide : 10 > 0))]
    exact Nat.div_add_mod n 10

/-- Reading undoes writing. -/
theorem toNat?_ofNat (n : Nat) : toNat? (ofNat n) = some n := by
  have hne : (ofNat n).isEmpty = false := by simpa using ofNat_ne_nil n
  simp [toNat?, hne, all_isDigit_ofNat, toNat_ofNat]

/-- The first digit of a number other than zero is not zero. -/
theorem head?_ofNat_ne_zero {n : Nat} (hn : n ≠ 0) : (ofNat n).head? ≠ some Ascii.zero := by
  induction n using digits_induction with
  | single n h =>
    rw [ofNat_of_lt_ten h, List.head?_cons, ne_eq, Option.some.injEq]
    intro hz
    have : Ascii.zero.toNat = 48 + n := hz ▸ toNat_digit h
    have : Ascii.zero.toNat = 48 := rfl
    omega
  | more n h ih =>
    have := ih (by omega)
    rw [ofNat_of_ten_le h, List.head?_append]
    cases hh : (ofNat (n / 10)).head? with
    | none => simp [ofNat_ne_nil] at hh
    | some d => simpa [hh] using this

/-! ### Integers -/

/-- A minus stands in front of the digits if the number is negative. -/
theorem ofInt_eq (n : Int) :
    ofInt n = (if decide (n < 0) then [Ascii.minus] else []) ++ ofNat n.natAbs := by
  unfold ofInt
  by_cases h : n < 0
  · rw [if_pos h, if_pos (decide_eq_true h), List.singleton_append]
  · rw [if_neg h, if_neg (mt of_decide_eq_true h), List.nil_append]

/-- The sign and the magnitude of a number are the number. -/
theorem signed_natAbs (n : Int) :
    (if decide (n < 0) then -(n.natAbs : Int) else n.natAbs) = n := by
  by_cases h : n < 0
  · rw [if_pos (decide_eq_true h)]
    omega
  · rw [if_neg (mt of_decide_eq_true h)]
    omega

end LanguageClient.Digits
