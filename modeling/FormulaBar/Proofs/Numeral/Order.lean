import FormulaBar.Proofs.Numeral.Nearest
import Mathlib.Data.Nat.Log

/-!
# Larger numbers have nearest doubles that are no smaller

1. **Rounding to a whole number**: which whole numbers the rounded quotient is above.
2. **The nearest double** of a quotient of units depends on the value of the quotient alone, and is
   monotone in it.
3. **Doubles** are nearest to themselves.
-/

namespace FormulaBar.Numeral

/-! ## Rounding to a whole number -/

section Whole

variable {num den num' den' n : Nat}

/-- A rounded quotient is above `n` if the quotient is past the middle between `n` and `n + 1`, or
on it and the upper neighbour is the even one. -/
theorem lt_divToNearest_iff (hden : 0 < den) :
    n < divToNearest num den ↔
      (2 * n + 1) * den < 2 * num ∨ (2 * n + 1) * den = 2 * num ∧ n % 2 = 1 := by
  have hnum : num / den * den + num % den = num := Nat.div_add_mod' num den
  have hrest : num % den < den := Nat.mod_lt num hden
  generalize hlow : num / den = low at hnum
  generalize num % den = rest at hnum hrest
  have hmiddle : (2 * low + 1) * den = 2 * (low * den) + den := by
    rw [Nat.add_mul, Nat.one_mul, Nat.mul_assoc]
  -- away from `low` the quotient is on one side of the middle for certain
  have hbelow : n < low → (2 * n + 1) * den < 2 * num := by
    intro hn
    have hle : (2 * n + 1) * den + den ≤ 2 * low * den := by
      rw [← Nat.succ_mul]
      exact Nat.mul_le_mul_right den (by omega)
    rw [Nat.mul_assoc] at hle
    omega
  have habove : low < n → 2 * num < (2 * n + 1) * den := by
    intro hn
    have hle : (2 * low + 2) * den + den ≤ (2 * n + 1) * den := by
      rw [← Nat.succ_mul]
      exact Nat.mul_le_mul_right den (by omega)
    rw [Nat.add_mul, Nat.mul_assoc] at hle
    omega
  simp only [divToNearest, hlow]
  rcases Nat.lt_trichotomy n low with hn | rfl | hn
  · have := hbelow hn
    split
    · omega
    · split <;> omega
  · split
    · omega
    · split <;> omega
  · have := habove hn
    split
    · omega
    · split <;> omega

/-- A larger quotient is not rounded to a smaller number. -/
theorem divToNearest_mono (hden : 0 < den) (hden' : 0 < den') (h : num * den' ≤ num' * den) :
    divToNearest num den ≤ divToNearest num' den' := by
  rw [← Nat.not_lt, lt_divToNearest_iff hden]
  have hnot := Nat.lt_irrefl (divToNearest num' den')
  rw [lt_divToNearest_iff hden'] at hnot
  generalize 2 * divToNearest num' den' + 1 = middle at hnot ⊢
  -- crosswise, the one number of middles is the other
  have hcross : 2 * num * den' ≤ 2 * num' * den := by
    rw [Nat.mul_assoc, Nat.mul_assoc]
    exact Nat.mul_le_mul_left 2 h
  have hswap : middle * den * den' = middle * den' * den := Nat.mul_right_comm middle den den'
  rintro (hlt | ⟨heq, hodd⟩)
  · have := Nat.mul_lt_mul_of_pos_right hlt hden'
    have : middle * den' * den < 2 * num' * den := by omega
    exact hnot (.inl (Nat.lt_of_mul_lt_mul_right this))
  · have hle : middle * den' * den ≤ 2 * num' * den := by
      rw [← hswap, heq]
      exact hcross
    rcases Nat.lt_or_eq_of_le (Nat.le_of_mul_le_mul_right hle hden) with hlt | heq'
    · exact hnot (.inl hlt)
    · exact hnot (.inr ⟨heq', hodd⟩)

theorem divToNearest_congr (hden : 0 < den) (hden' : 0 < den') (h : num * den' = num' * den) :
    divToNearest num den = divToNearest num' den' :=
  Nat.le_antisymm (divToNearest_mono hden hden' (Nat.le_of_eq h))
    (divToNearest_mono hden' hden (Nat.le_of_eq h.symm))

theorem divToNearest_le (hden : 0 < den) (h : num ≤ n * den) : divToNearest num den ≤ n := by
  rw [← divToNearest_mul n hden]
  exact divToNearest_mono hden hden (Nat.mul_le_mul_right den h)

theorem le_divToNearest (hden : 0 < den) (h : n * den ≤ num) : n ≤ divToNearest num den := by
  rw [← divToNearest_mul n hden]
  exact divToNearest_mono hden hden (Nat.mul_le_mul_right den h)

end Whole

/-! ## The nearest double -/

/-- How far the significand of the double nearest to `num / den` units is shifted. -/
def scaleOf (num den : Nat) : Nat := (num / den).log2 - 52

/-- The index of the double nearest to `num / den` units. -/
def nearestOfUnits (num den : Nat) : Nat :=
  min (scaleOf num den * 2 ^ 52 + divToNearest num (den * 2 ^ scaleOf num den)) infinityIndex

theorem nearestIndex_eq (num den : Nat) :
    nearestIndex num den = nearestOfUnits (num * unitsPerOne) den := by
  rfl

section Nearest

variable {num den num' den' k k' : Nat}

theorem nearestOfUnits_le (num den : Nat) : nearestOfUnits num den ≤ infinityIndex :=
  Nat.min_le_right _ _

/-- A significand has 53 binary digits at most, or is rounded up to the next power of two. -/
theorem divToNearest_scaleOf_le (num : Nat) (hden : 0 < den) :
    divToNearest num (den * 2 ^ scaleOf num den) ≤ 2 ^ 53 := by
  apply divToNearest_le (Nat.mul_pos hden (Nat.two_pow_pos _))
  have hlog : num / den < 2 ^ ((num / den).log2 + 1) := Nat.lt_log2_self
  have hscale : (num / den).log2 + 1 ≤ 53 + scaleOf num den := by
    unfold scaleOf
    omega
  have hlt : num / den < 2 ^ (53 + scaleOf num den) :=
    Nat.lt_of_lt_of_le hlog (Nat.pow_le_pow_right (by decide) hscale)
  have hnum := (Nat.div_lt_iff_lt_mul hden).mp hlt
  rw [Nat.pow_add, Nat.mul_assoc, Nat.mul_comm _ den] at hnum
  exact Nat.le_of_lt hnum

/-- It has no fewer if it is shifted at all. -/
theorem le_divToNearest_scaleOf (hden : 0 < den) (hscale : 0 < scaleOf num den) :
    2 ^ 52 ≤ divToNearest num (den * 2 ^ scaleOf num den) := by
  apply le_divToNearest (Nat.mul_pos hden (Nat.two_pow_pos _))
  have hlog : (num / den).log2 = 52 + scaleOf num den := by
    unfold scaleOf at hscale ⊢
    omega
  have hne : num / den ≠ 0 := by
    intro h
    rw [scaleOf, h] at hscale
    cases hscale
  have hle := Nat.log2_self_le hne
  rw [hlog, Nat.le_div_iff_mul_le hden, Nat.pow_add, Nat.mul_assoc, Nat.mul_comm _ den] at hle
  exact hle

theorem log2_mono {a b : Nat} (h : a ≤ b) : a.log2 ≤ b.log2 := by
  rw [Nat.log2_eq_log_two, Nat.log2_eq_log_two]
  exact Nat.log_mono_right h

/-- The nearest double of a larger number is no smaller. -/
theorem nearestOfUnits_mono (hden : 0 < den) (hden' : 0 < den') (h : num * den' ≤ num' * den) :
    nearestOfUnits num den ≤ nearestOfUnits num' den' := by
  have hquot : num / den ≤ num' / den' := by
    rw [Nat.le_div_iff_mul_le hden']
    apply Nat.le_of_mul_le_mul_right _ hden
    calc num / den * den' * den = num / den * den * den' := Nat.mul_right_comm _ _ _
      _ ≤ num * den' := Nat.mul_le_mul_right _ (Nat.div_mul_le_self num den)
      _ ≤ num' * den := h
  have hscale : scaleOf num den ≤ scaleOf num' den' := Nat.sub_le_sub_right (log2_mono hquot) 52
  have hle : scaleOf num den * 2 ^ 52 + divToNearest num (den * 2 ^ scaleOf num den) ≤
      scaleOf num' den' * 2 ^ 52 + divToNearest num' (den' * 2 ^ scaleOf num' den') := by
    rcases Nat.lt_or_eq_of_le hscale with hlt | heq
    · have hupper := divToNearest_scaleOf_le num hden
      have hpos : 0 < scaleOf num' den' := Nat.zero_lt_of_lt hlt
      have hlower := le_divToNearest_scaleOf hden' hpos
      omega
    · rw [heq]
      apply Nat.add_le_add_left
      have hpow := Nat.two_pow_pos (scaleOf num' den')
      apply divToNearest_mono (Nat.mul_pos hden hpow) (Nat.mul_pos hden' hpow)
      rw [← Nat.mul_assoc, ← Nat.mul_assoc]
      exact Nat.mul_le_mul_right _ h
  exact Nat.le_min.mpr
    ⟨Nat.le_trans (Nat.min_le_left _ _) hle, nearestOfUnits_le num den⟩

/-- The nearest double depends on the value of the quotient alone. -/
theorem nearestOfUnits_congr (hden : 0 < den) (hden' : 0 < den') (h : num * den' = num' * den) :
    nearestOfUnits num den = nearestOfUnits num' den' :=
  Nat.le_antisymm (nearestOfUnits_mono hden hden' (Nat.le_of_eq h))
    (nearestOfUnits_mono hden' hden (Nat.le_of_eq h.symm))

theorem nearestIndex_mono (hden : 0 < den) (hden' : 0 < den') (h : num * den' ≤ num' * den) :
    nearestIndex num den ≤ nearestIndex num' den' := by
  rw [nearestIndex_eq, nearestIndex_eq]
  apply nearestOfUnits_mono hden hden'
  rw [Nat.mul_right_comm, Nat.mul_right_comm num']
  exact Nat.mul_le_mul_right _ h

/-! ## Doubles -/

/-- One is a power of two of units. The exponent is kept a variable, since its power is too large to
be worked out. -/
theorem exists_unitsPerOne : ∃ n : Nat, n = 1074 ∧ unitsPerOne = 2 ^ n := by
  obtain ⟨n, hn⟩ : ∃ n : Nat, 1074 = n := ⟨1074, rfl⟩
  refine ⟨n, hn.symm, ?_⟩
  delta unitsPerOne
  rw [hn, Nat.pow_eq]

theorem unitsPerOne_pos : 0 < unitsPerOne := by
  obtain ⟨n, -, hn⟩ := exists_unitsPerOne
  rw [hn]
  exact Nat.two_pow_pos n

theorem nearestOfUnits_zero (hden : 0 < den) : nearestOfUnits 0 den = 0 := by
  have hscale : scaleOf 0 den = 0 := by
    rw [scaleOf, Nat.zero_div]
    rfl
  have hzero := divToNearest_mul 0 hden
  rw [Nat.zero_mul] at hzero
  rw [nearestOfUnits, hscale, Nat.pow_zero, Nat.mul_one, hzero]
  rfl

/-- A double is nearest to itself. -/
theorem nearestOfUnits_units (hk : k < infinityIndex) (hden : 0 < den) :
    nearestOfUnits (units k * den) den = k := by
  rcases Nat.eq_zero_or_pos k with rfl | hpos
  · have hzero : units 0 * den = 0 := Nat.zero_mul den
    rw [hzero, nearestOfUnits_zero hden]
  · have hexact := nearestIndex_of_eq hpos hk unitsPerOne_pos rfl
    rw [nearestIndex_eq] at hexact
    calc nearestOfUnits (units k * den) den
        = nearestOfUnits (units k * unitsPerOne) unitsPerOne :=
          nearestOfUnits_congr hden unitsPerOne_pos (Nat.mul_right_comm _ _ _)
      _ = k := hexact

/-- A larger double has more units. -/
theorem units_mono (hk' : k' < infinityIndex) (h : k ≤ k') : units k ≤ units k' := by
  rcases Nat.lt_or_ge (units k') (units k) with hlt | hle
  · have hunits := nearestOfUnits_mono Nat.one_pos Nat.one_pos
      (Nat.mul_le_mul_right 1 (Nat.mul_le_mul_right 1 (Nat.le_of_lt hlt)))
    rw [nearestOfUnits_units hk' Nat.one_pos,
      nearestOfUnits_units (Nat.lt_of_le_of_lt h hk') Nat.one_pos] at hunits
    obtain rfl := Nat.le_antisymm h hunits
    exact Nat.le_refl _
  · exact hle

end Nearest

end FormulaBar.Numeral
