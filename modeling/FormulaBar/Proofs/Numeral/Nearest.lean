import FormulaBar.Numeral.Shortest
import Mathlib.Algebra.Group.Nat.Defs

/-!
# The shortest decimal reads back

1. **Exact numbers** are not rounded: the number of units of a double has the index of that double.
2. **Reading back**: the shortest decimal of a double is a decimal for that double.
3. **Whole numbers** may be written out with their zeros.
-/

namespace FormulaBar.Numeral

variable {k : Nat}

/-! ## Exact numbers -/

/-- A quotient that is a whole number is not rounded. -/
theorem divToNearest_mul (q : Nat) {d : Nat} (hd : 0 < d) : divToNearest (q * d) d = q := by
  have hlow : q * d / d = q := Nat.mul_div_cancel q hd
  have hbelow : 2 * (q * d) < (2 * q + 1) * d := by
    rw [Nat.add_mul, Nat.one_mul, Nat.mul_assoc]
    omega
  unfold divToNearest
  simp only [hlow, if_pos hbelow]

/-- The leading digits of a double, as a whole number below `2 ^ 53`. -/
def significand (k : Nat) : Nat := if k < 2 ^ 52 then k else 2 ^ 52 + k % 2 ^ 52

theorem units_eq (k : Nat) : units k = significand k * 2 ^ (k / 2 ^ 52 - 1) := by
  show (if k < 2 ^ 52 then k else (2 ^ 52 + k % 2 ^ 52) * 2 ^ (k / 2 ^ 52 - 1)) = _
  unfold significand
  split
  · next hlow =>
    have hdiv : k / 2 ^ 52 - 1 = 0 := by omega
    rw [hdiv, Nat.pow_zero, Nat.mul_one]
  · rfl

theorem significand_add (k : Nat) : (k / 2 ^ 52 - 1) * 2 ^ 52 + significand k = k := by
  unfold significand
  split <;> omega

theorem units_pos (hk : 0 < k) : 0 < units k := by
  rw [units_eq]
  apply Nat.mul_pos
  · unfold significand
    split <;> omega
  · exact Nat.two_pow_pos _

/-- The units of a double tell how far apart its neighbours are. -/
theorem log2_units (hk : 0 < k) : (units k).log2 - 52 = k / 2 ^ 52 - 1 := by
  have hpos : units k ≠ 0 := Nat.ne_of_gt (units_pos hk)
  rcases Nat.lt_or_ge k (2 ^ 52) with hlow | hhigh
  · have hunits : units k = k := if_pos hlow
    have hlog : k.log2 < 52 := (Nat.log2_lt (Nat.ne_of_gt hk)).mpr hlow
    rw [hunits]
    omega
  · have hsignificand : significand k = 2 ^ 52 + k % 2 ^ 52 := if_neg (Nat.not_lt.mpr hhigh)
    have hlog : (units k).log2 = 52 + (k / 2 ^ 52 - 1) := by
      rw [Nat.log2_eq_iff hpos, units_eq, hsignificand, Nat.pow_add, Nat.add_right_comm,
        Nat.pow_add]
      constructor
      · exact Nat.mul_le_mul_right _ (by omega)
      · exact Nat.mul_lt_mul_of_pos_right (by omega) (Nat.two_pow_pos _)
    omega

/-- A quotient that is a double is not rounded. -/
theorem nearestIndex_of_eq (hpos : 0 < k) (hk : k < infinityIndex) {num den : Nat} (hden : 0 < den)
    (h : num * unitsPerOne = units k * den) : nearestIndex num den = k := by
  have hunits : num * unitsPerOne / den = units k := by
    rw [h, Nat.mul_div_cancel _ hden]
  have hscaled : num * unitsPerOne = significand k * (den * 2 ^ (k / 2 ^ 52 - 1)) := by
    rw [h, units_eq, Nat.mul_assoc, Nat.mul_comm den]
  unfold nearestIndex
  simp only [Nat.pow_eq]
  rw [hunits, log2_units hpos, hscaled,
    divToNearest_mul _ (Nat.mul_pos hden (Nat.two_pow_pos _)), significand_add]
  exact Nat.min_eq_left (Nat.le_of_lt hk)

/-! ## Reading back -/

theorem mul_pow_ne_zero {u : Nat} (hu : 0 < u) (n : Nat) : u * Nat.pow 5 n ≠ 0 :=
  Nat.ne_of_gt (Nat.mul_pos hu (Nat.pow_pos (by decide)))

/-- A multiple of a power of five has at least as many binary digits as that of two. -/
theorem le_log2_mul_pow {u : Nat} (hu : 0 < u) (n : Nat) : n ≤ (u * Nat.pow 5 n).log2 := by
  have hle : 2 ^ n ≤ u * 5 ^ n := by
    calc 2 ^ n ≤ 5 ^ n := Nat.pow_le_pow_left (by decide) n
      _ ≤ u * 5 ^ n := Nat.le_mul_of_pos_left _ hu
  exact (Nat.le_log2 (mul_pow_ne_zero hu n)).mpr hle

theorem mul_pow_mul_pow (u n : Nat) : u * Nat.pow 5 n * Nat.pow 2 n = u * Nat.pow 10 n := by
  rw [Nat.mul_assoc, Nat.pow_eq, Nat.pow_eq, Nat.pow_eq, ← Nat.mul_pow]

/-- The exact value of a double reads back. The number of decimal places is kept a variable, since
its powers are too large to be worked out. -/
theorem exactDecimal_toIndex (hpos : 0 < k) (hk : k < infinityIndex) :
    (exactDecimal k).toIndex = k := by
  obtain ⟨n, hn⟩ : ∃ n : Nat, 1074 = n := ⟨1074, rfl⟩
  have hplaces : (-1074 : Int) = -n := by omega
  have hone : unitsPerOne = Nat.pow 2 n := by
    delta unitsPerOne
    rw [hn]
  have hexact : exactDecimal k = ⟨units k * Nat.pow 5 n, -n⟩ := by
    delta exactDecimal
    rw [hn, hplaces]
  have hunits := units_pos hpos
  have hlog := le_log2_mul_pow hunits n
  rw [hexact]
  unfold Decimal.toIndex
  dsimp only
  rw [if_neg (mul_pow_ne_zero hunits n), if_neg (by omega), if_neg (by omega), if_neg (by omega),
    Int.neg_neg, Int.toNat_natCast]
  apply nearestIndex_of_eq hpos hk (Nat.pow_pos (by decide))
  rw [hone, mul_pow_mul_pow, Nat.pow_eq]

/-- A neighbour is given only if it reads back. -/
theorem neighbour?_toIndex {tie : Tie} {p : Int} {d : Decimal} (h : neighbour? tie k p = some d) :
    d.toIndex = k := by
  unfold neighbour? at h
  dsimp only at h
  split at h
  · next hbelow habove =>
    simp only [Bool.and_eq_true, beq_iff_eq] at hbelow habove
    split at h
    · cases h
      exact hbelow.2
    · split at h
      · cases h
        exact habove.2
      · cases h
        split
        · exact habove.2
        · exact hbelow.2
  · next hbelow _ =>
    cases h
    simp only [Bool.and_eq_true, beq_iff_eq] at hbelow
    exact hbelow.2
  · next _ habove =>
    cases h
    simp only [Bool.and_eq_true, beq_iff_eq] at habove
    exact habove.2
  · cases h

/-- The shortest decimal of a double reads back. -/
theorem shortest_toIndex (tie : Tie) (hk : k < infinityIndex) : (shortest tie k).toIndex = k := by
  unfold shortest
  split
  · next hzero =>
    rw [hzero]
    rfl
  · next hne =>
    dsimp only
    cases hfound : (List.range 17).findSome? fun (n : Nat) =>
        neighbour? tie k (leadingPlace (units k) - (n + 1)) with
    | none => exact exactDecimal_toIndex (Nat.pos_of_ne_zero hne) hk
    | some d =>
        obtain ⟨n, -, hn⟩ := List.exists_of_findSome?_eq_some hfound
        exact neighbour?_toIndex hn

/-! ## Whole numbers -/

/-- No decimal is beyond infinity. -/
theorem toIndex_le (d : Decimal) : d.toIndex ≤ infinityIndex := by
  unfold Decimal.toIndex
  split
  · exact Nat.zero_le _
  · split
    · exact Nat.le_refl _
    · split
      · exact Nat.zero_le _
      · split <;> exact Nat.min_le_right _ _

@[simp]
theorem toIndex_zero (e : Int) : Decimal.toIndex ⟨0, e⟩ = 0 := by
  unfold Decimal.toIndex
  exact if_pos rfl

theorem toIndex_whole {c e : Nat} (hc : c ≠ 0) (he : e ≤ 400) :
    Decimal.toIndex ⟨c, e⟩ = nearestIndex (c * 10 ^ e) 1 := by
  unfold Decimal.toIndex
  dsimp only
  rw [if_neg hc, if_neg (by omega), if_neg (by omega), if_pos (by omega), Int.toNat_natCast]
  rfl

/-- A finite whole number may be written out with its zeros. -/
theorem toIndex_writtenOut {c e : Nat} (h : Decimal.toIndex ⟨c, e⟩ < infinityIndex) :
    Decimal.toIndex ⟨c * 10 ^ e, 0⟩ = Decimal.toIndex ⟨c, e⟩ := by
  by_cases hc : c = 0
  · subst hc
    simp only [Nat.zero_mul, toIndex_zero]
  · have hle : e ≤ 400 := Nat.le_of_not_lt (fun hlt => by
      -- a larger exponent would make the number infinite
      have hlarge : (e : Int) > 400 := Int.ofNat_lt.2 hlt
      unfold Decimal.toIndex at h
      dsimp only at h
      rw [if_neg hc, if_pos hlarge] at h
      exact Nat.lt_irrefl _ h)
    have hpow : c * 10 ^ e ≠ 0 := Nat.mul_ne_zero hc (Nat.ne_of_gt (Nat.pow_pos (by decide)))
    calc Decimal.toIndex ⟨c * 10 ^ e, (0 : Nat)⟩
        = nearestIndex (c * 10 ^ e * 10 ^ 0) 1 := toIndex_whole hpow (by decide)
      _ = nearestIndex (c * 10 ^ e) 1 := by rw [Nat.pow_zero, Nat.mul_one]
      _ = Decimal.toIndex ⟨c, e⟩ := (toIndex_whole hc hle).symm

end FormulaBar.Numeral
