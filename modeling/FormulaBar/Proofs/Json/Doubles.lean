import FormulaBar.Json.Number
import FormulaBar.Proofs.Numeral.Rounding

/-!
# The doubles of number literals

A number literal is scaled in double arithmetic, in as many steps as it takes. What comes out of it
is finite: a division by a power of ten never makes a number larger, and a product that is too large
is refused.

1. **Finite doubles**: products and quotients of them.
2. **Powers of ten** are one at least, and finite.
3. **Scaling** keeps a number finite.
4. **Literals**: all have finite doubles, and whole numbers the nearest ones.
-/

namespace FormulaBar.Numeral

/-! ## Finite doubles -/

section Finite

variable {x y : Float}

theorem isInf_infinity (negative : Bool) : (ofIndex negative infinityIndex).isInf = true := by
  cases negative <;> decide +kernel

theorem not_isInf_of_finite (hx : x.isFinite = true) : x.isInf = false := by
  show x.toModel.unpack.isInf = false
  rw [unpack_of_finite hx]
  rcases Nat.eq_zero_or_pos (significand (index x)) with hzero | hpos
  · rw [unpacked_zero hzero]
    rfl
  · rw [unpacked_finite hpos rfl rfl]
    rfl

/-- A product is finite unless it is infinite. -/
theorem isFinite_mul (hx : x.isFinite = true) (hy : y.isFinite = true)
    (h : (x * y).isInf = false) : (x * y).isFinite = true := by
  rw [mul_eq hx hy] at h ⊢
  rcases Nat.lt_or_eq_of_le (nearestOfUnits_le (units (index x) * units (index y)) unitsPerOne) with
    hlt | heq
  · exact isFinite_ofIndex _ hlt
  · rw [heq, isInf_infinity] at h
    cases h

/-- A quotient is no larger than the dividend if the divisor is one at least. -/
theorem index_div_le (hx : x.isFinite = true) (hy : y.isFinite = true)
    (hone : oneIndex ≤ index y) : index (x / y) ≤ index x := by
  have hpos : 0 < index y := Nat.lt_of_lt_of_le (by decide) hone
  have hunits : unitsPerOne ≤ units (index y) := by
    rw [← units_oneIndex]
    exact units_mono (isFinite_iff.mp hy) hone
  rw [div_eq hx hy hpos, index_ofIndex _ (nearestOfUnits_le _ _)]
  calc nearestOfUnits (units (index x) * unitsPerOne) (units (index y))
      ≤ nearestOfUnits (units (index x) * unitsPerOne) unitsPerOne :=
        nearestOfUnits_mono (units_pos hpos) unitsPerOne_pos (Nat.mul_le_mul_left _ hunits)
    _ = index x := nearestOfUnits_units (isFinite_iff.mp hx) unitsPerOne_pos

end Finite

end FormulaBar.Numeral

namespace FormulaBar.Json.Number

open FormulaBar.Text (Digit)
open FormulaBar.Numeral

/-! ## Powers of ten -/

theorem powerOfTen_eq {n : Nat} (hn : n ≤ maxPower) :
    powerOfTen n = ofIndex false (nearestIndex (10 ^ n) 1) := by
  have hle : n ≤ 400 := Nat.le_trans hn (by decide)
  rw [powerOfTen, Decimal.toFloat, toIndex_whole Nat.one_ne_zero hle, Nat.one_mul]

/-- The powers of ten that are used as factors and divisors are finite and one at least. -/
theorem powerOfTen_range {n : Nat} (hn : n ≤ maxPower) :
    (powerOfTen n).isFinite = true ∧ oneIndex ≤ index (powerOfTen n) := by
  have hlow : oneIndex ≤ nearestIndex (10 ^ n) 1 := by
    have hone : nearestIndex 1 1 = oneIndex := by decide +kernel
    rw [← hone]
    exact nearestIndex_mono Nat.one_pos Nat.one_pos
      (Nat.mul_le_mul_right 1 (Nat.one_le_pow n 10 (by decide)))
  have hhigh : nearestIndex (10 ^ n) 1 < infinityIndex := by
    have hlargest : nearestIndex (10 ^ maxPower) 1 < infinityIndex := by decide +kernel
    exact Nat.lt_of_le_of_lt (nearestIndex_mono Nat.one_pos Nat.one_pos
      (Nat.mul_le_mul_right 1 (Nat.pow_le_pow_right (by decide) hn))) hlargest
  rw [powerOfTen_eq hn, index_ofIndex false (Nat.le_of_lt hhigh)]
  exact ⟨isFinite_ofIndex false hhigh, hlow⟩

/-! ## Scaling -/

section Scaling

variable {x y : Float}

theorem isFinite_div_power (hx : x.isFinite = true) {n : Nat} (hn : n ≤ maxPower) :
    (x / powerOfTen n).isFinite = true := by
  obtain ⟨hfinite, hone⟩ := powerOfTen_range hn
  rw [isFinite_iff] at hx ⊢
  exact Nat.lt_of_le_of_lt (index_div_le (isFinite_iff.mpr hx) hfinite hone) hx

/-- The steps of a division never leave the finite doubles. -/
theorem isFinite_shrink (hx : x.isFinite = true) (n : Nat) : (shrink x n).isFinite = true := by
  fun_induction shrink x n with
  | case1 x n hn => exact isFinite_div_power hx hn
  | case2 => exact hx
  | case3 x n _ _ ih => exact ih (isFinite_div_power hx (Nat.le_refl _))

theorem isFinite_scale (hx : x.isFinite = true) {e : Int} (h : scale x e = some y) :
    y.isFinite = true := by
  unfold scale at h
  split at h
  · cases h
    exact isFinite_shrink hx _
  · split at h
    · next hn =>
      -- a product that is too large is refused
      obtain ⟨hy, hinf⟩ := Option.filter_eq_some_iff.mp h
      cases hy
      exact isFinite_mul hx (powerOfTen_range hn).1 (by simpa using hinf)
    · split at h
      · cases h
        exact hx
      · cases h

end Scaling

/-! ## Literals -/

section Literals

variable {n : Nat} {ds : List Digit} {x : Float}

theorem clip_lt (n : Nat) : (clip n).1 < 2 ^ 64 := by
  fun_induction clip n with
  | case1 n hn => exact hn
  | case2 n _ ih => exact ih

theorem extend_lt (hn : n < 2 ^ 64) : (extend n ds).1 < 2 ^ 64 := by
  fun_induction extend n ds with
  | case1 => exact hn
  | case2 s d ds hs ih => exact ih hs
  | case3 => exact hn

theorem isFinite_ofNat (hn : n < 2 ^ 64) : (Float.ofNat n).isFinite = true := by
  rw [ofNat_eq]
  exact isFinite_ofIndex false (index_one_lt (Nat.le_of_lt hn))

/-- What is read from a number literal is a finite double. -/
theorem isFinite_toFloat? {n : Number} (h : n.toFloat? = some x) : x.isFinite = true := by
  obtain ⟨f, hf, rfl⟩ := Option.map_eq_some_iff.mp h
  have hfinite : f.isFinite = true := by
    unfold magnitude? at hf
    dsimp only at hf
    split at hf
    · split at hf
      · cases hf
      · cases hf
        decide
    · exact isFinite_scale (isFinite_ofNat (extend_lt (clip_lt n.whole))) hf
  split
  · exact isFinite_neg hfinite
  · exact hfinite

/-- A whole number that fits a 64-bit word is read as the double nearest to it. -/
theorem toFloat?_ofNat (hn : n < 2 ^ 64) :
    (Number.ofNat n).toFloat? = some (ofIndex false (nearestIndex n 1)) := by
  have hclip : clip n = (n, 0) := by
    rw [clip]
    exact if_pos hn
  have hone : powerOfTen 0 = ofIndex false oneIndex := by decide +kernel
  have hindex := index_one_lt (Nat.le_of_lt hn)
  have hinf := not_isInf_of_finite (isFinite_ofIndex false hindex)
  -- no digit is clipped, and the number is scaled by a power of ten that is one
  have hmagnitude : (Number.ofNat n).magnitude? = some (ofIndex false (nearestIndex n 1)) := by
    simp only [magnitude?, Number.ofNat, hclip, extend, Option.getD_none]
    rw [if_neg (by decide)]
    show (some (Float.ofNat n * powerOfTen 0)).filter (! ·.isInf) = _
    rw [ofNat_eq, hone, mul_one_eq hindex]
    exact Option.filter_some_pos (by rw [hinf]; rfl)
  rw [toFloat?, hmagnitude]
  rfl

end Literals

end FormulaBar.Json.Number
