import FormulaBar.Proofs.Numeral.Plain
import FormulaBar.Proofs.Numeral.Rounding

/-!
# Texts of whole numbers

1. **Decimal texts** of whole numbers are the usual ones, and are read as these numbers.
2. **Plain numerals** tell finite doubles apart. A decimal text that is a plain numeral is that of
   the double nearest to its number.
-/

namespace FormulaBar.Numeral

open FormulaBar.Text (Digit isDigit)

/-! ## Decimal texts -/

section DecimalTexts

variable {n n' : Nat}

theorem toChar_eq_digitChar (d : Digit) : d.toChar = Nat.digitChar d.val := by
  revert d
  decide

theorem map_digitsOnto (n : Nat) (ds : List Digit) :
    (digitsOnto n ds).map Digit.toChar = Nat.toDigits 10 n ++ ds.map Digit.toChar := by
  fun_induction digitsOnto n ds with
  | case1 n ds h =>
      rw [Nat.toDigits_of_lt_base h, List.map_cons, toChar_eq_digitChar]
      rfl
  | case2 n ds h ih =>
      rw [ih, Nat.toDigits_of_base_le (by decide) (Nat.not_lt.mp h), List.map_cons,
        toChar_eq_digitChar, List.append_assoc]
      rfl

/-- The decimal text of a number is the usual one. -/
theorem natText_eq (n : Nat) : natText n = toString n := by
  have hdigits := map_digitsOnto n []
  rw [List.map_nil, List.append_nil] at hdigits
  rw [natText, digitText, digits, hdigits, Nat.toString_eq_ofList_toDigits]

theorem ofChars?_digitText (n : Nat) : Decimal.ofChars? (digitText n) = some ⟨n, 0⟩ := by
  rw [digitText, ofChars?_whole (digits_ne_nil n), ofDigits_digits]

theorem digitText_injective (h : digitText n = digitText n') : n = n' := by
  have hread := ofChars?_digitText n
  rw [h, ofChars?_digitText] at hread
  exact (congrArg Decimal.coefficient (Option.some.inj hread)).symm

theorem toFloat_whole (n : Nat) : Decimal.toFloat false ⟨n, 0⟩ = ofIndex false (nearestIndex n 1) := by
  unfold Decimal.toFloat
  rcases Nat.eq_zero_or_pos n with rfl | hpos
  · decide +kernel
  · have hindex := toIndex_whole (Nat.ne_of_gt hpos) (Nat.zero_le 400)
    rw [Nat.pow_zero, Nat.mul_one] at hindex
    exact congrArg (ofIndex false) hindex

end DecimalTexts

/-! ## Plain numerals -/

section PlainNumerals

variable {x y : Float}

/-- Without a sign, the plain numeral of a double is read as this double. -/
theorem plainChars_of_not_negative (hx : x.isFinite = true) (hsign : isNegative x = false) :
    (∀ c ∈ plainChars x, isDigit c = true ∨ c = '.') ∧
      ∃ d, Decimal.ofChars? (plainChars x) = some d ∧ d.toFloat false = x := by
  obtain ⟨cs, d, hchars, hdigits, hread, hvalue⟩ := plainChars_of_finite hx
  rw [hsign] at hchars hvalue
  replace hchars : plainChars x = cs := hchars
  rw [hchars]
  exact ⟨hdigits, d, hread, hvalue⟩

/-- The plain numeral of a double tells which double it is. -/
theorem plainChars_injective (hx : x.isFinite = true) (hy : y.isFinite = true)
    (hxsign : isNegative x = false) (hysign : isNegative y = false)
    (h : plainChars x = plainChars y) : x = y := by
  obtain ⟨-, d, hread, hvalue⟩ := plainChars_of_not_negative hx hxsign
  obtain ⟨-, d', hread', hvalue'⟩ := plainChars_of_not_negative hy hysign
  rw [h, hread'] at hread
  cases hread
  rw [← hvalue, hvalue']

/-- A decimal text is the plain numeral of no other double than the nearest one. -/
theorem eq_of_digitText_eq_plainChars {n : Nat} (hx : x.isFinite = true)
    (hsign : isNegative x = false) (h : digitText n = plainChars x) :
    x = ofIndex false (nearestIndex n 1) := by
  obtain ⟨-, d, hread, hvalue⟩ := plainChars_of_not_negative hx hsign
  rw [← h, ofChars?_digitText] at hread
  cases hread
  rw [← hvalue, toFloat_whole]

end PlainNumerals

end FormulaBar.Numeral
