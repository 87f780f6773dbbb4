import FormulaBar.Proofs.Numeral.Double
import FormulaBar.Proofs.Numeral.Order
import Mathlib.Tactic.Ring

/-!
# Arithmetic gives the nearest double

Products and quotients of finite doubles, and whole numbers as doubles, are rounded once: the result
is the double nearest to the exact value.

1. **Residual bits**: what of a quotient is kept beside its whole part is enough to round it.
2. **Rounding** to the precision and range of doubles.
3. **Operations** on doubles.
-/

namespace FormulaBar.Numeral

open Float.Model Float.Model.UnpackedFloat

/-! ## Residual bits -/

/-- A mantissa with its residual bits stands for the quotient `num / den`: it is the whole part, the
round bit tells whether the rest is half at least, and the sticky bit whether it is neither nothing
nor half. -/
structure Represents (em : ExtendedMantissa) (num den : Nat) : Prop where
  mantissa : em.mantissa = num / den
  roundBit : em.roundBit = decide (den ≤ 2 * (num % den))
  stickyBit : em.stickyBit = decide (num % den ≠ 0 ∧ 2 * (num % den) ≠ den)

section Represents

variable {em : ExtendedMantissa} {num den : Nat}

/-- A quotient with its accuracy. -/
theorem represents_quotient (hden : 0 < den) :
    Represents (.ofMantissaAndAccuracy (num / den) (accuracyOfFraction (num % den) den)) num den := by
  unfold accuracyOfFraction
  split
  · next hzero =>
    refine ⟨rfl, ?_, ?_⟩
    · rw [hzero]
      exact (decide_eq_false (by omega)).symm
    · rw [hzero]
      exact (decide_eq_false (by omega)).symm
  · next hrest =>
    rcases Nat.lt_trichotomy (2 * (num % den)) den with hlt | heq | hgt
    · rw [Nat.compare_eq_lt.mpr hlt]
      exact ⟨rfl, (decide_eq_false (by omega)).symm, (decide_eq_true (by omega)).symm⟩
    · rw [Nat.compare_eq_eq.mpr heq]
      exact ⟨rfl, (decide_eq_true (by omega)).symm, (decide_eq_false (by omega)).symm⟩
    · rw [Nat.compare_eq_gt.mpr hgt]
      exact ⟨rfl, (decide_eq_true (by omega)).symm, (decide_eq_true (by omega)).symm⟩

theorem represents_exact (m : Nat) : Represents (.ofMantissaAndAccuracy m .exact) m 1 := by
  have h : Represents _ m 1 := represents_quotient Nat.one_pos
  rwa [Nat.div_one, Nat.mod_one] at h

/-- A shift by one place halves the quotient. -/
theorem Represents.shiftRightOne (h : Represents em num den) (hden : 0 < den) :
    Represents em.shiftRightOne num (den * 2) := by
  obtain ⟨hmantissa, hround, hsticky⟩ := h
  have hrest : num % den < den := Nat.mod_lt num hden
  have hmod : num % (den * 2) = num % den + den * (num / den % 2) := Nat.mod_mul
  refine ⟨?_, ?_, ?_⟩
  · show em.mantissa / 2 = _
    rw [hmantissa, Nat.div_div_eq_div_mul]
  · show (em.mantissa % 2 != 0) = _
    rw [hmantissa, hmod, Bool.eq_iff_iff, bne_iff_ne, decide_eq_true_eq]
    rcases Nat.mod_two_eq_zero_or_one (num / den) with hbit | hbit
    · rw [hbit]
      omega
    · rw [hbit]
      omega
  · show (em.roundBit || em.stickyBit) = _
    rw [hround, hsticky, hmod, Bool.eq_iff_iff, Bool.or_eq_true, decide_eq_true_eq,
      decide_eq_true_eq, decide_eq_true_eq]
    rcases Nat.mod_two_eq_zero_or_one (num / den) with hbit | hbit
    · rw [hbit]
      omega
    · rw [hbit]
      omega

theorem Represents.shiftRight (h : Represents em num den) (hden : 0 < den) (k : Nat) :
    Represents (em >>> k) num (den * 2 ^ k) := by
  show Represents (k.repeat ExtendedMantissa.shiftRightOne em) _ _
  induction k with
  | zero => rwa [Nat.pow_zero, Nat.mul_one]
  | succ k ih =>
      rw [Nat.pow_succ, ← Nat.mul_assoc]
      exact ih.shiftRightOne (Nat.mul_pos hden (Nat.two_pow_pos k))

/-- The bits are enough to round the quotient. -/
theorem Represents.roundedMantissa (h : Represents em num den) :
    em.roundedMantissa = divToNearest num den := by
  obtain ⟨hmantissa, hround, hsticky⟩ := h
  have hnum : num / den * den + num % den = num := Nat.div_add_mod' num den
  have hmiddle : (2 * (num / den) + 1) * den = 2 * (num / den * den) + den := by
    rw [Nat.add_mul, Nat.one_mul, Nat.mul_assoc]
  obtain ⟨mantissa, round, sticky⟩ := em
  dsimp only at hmantissa hround hsticky
  subst hmantissa
  unfold divToNearest
  dsimp only
  cases round with
  | false =>
      have hless : ¬den ≤ 2 * (num % den) := of_decide_eq_false hround.symm
      rw [if_pos (by omega)]
      cases sticky <;> rfl
  | true =>
      have hmore : den ≤ 2 * (num % den) := of_decide_eq_true hround.symm
      rw [if_neg (by omega)]
      cases sticky with
      | false =>
          have hhalf : ¬(num % den ≠ 0 ∧ 2 * (num % den) ≠ den) := of_decide_eq_false hsticky.symm
          rw [if_neg (by omega)]
          rfl
      | true =>
          have hhalf : num % den ≠ 0 ∧ 2 * (num % den) ≠ den := of_decide_eq_true hsticky.symm
          rw [if_pos (by omega)]
          rfl

end Represents

/-! ## Rounding -/

section Rounding

variable {s : Sign} {e : Int}

/-- The bit pattern of the double with a sign and an index. -/
def patternOf (s : Sign) (k : Nat) : Pattern :=
  pattern s (BitVec.ofNat 11 (k / 2 ^ 52)) (BitVec.ofNat 52 k)

theorem targetExponent_eq (e : Int) : Format.binary64.targetExponent e = max (e - 53) (-1074) := by
  rfl

/-- A mantissa that fits is not shifted. -/
theorem shift_settled {m : Nat} (hm : m < 2 ^ 53) (he : -1074 ≤ e) :
    shiftToTargetExponent .binary64 m e .exact = (⟨m, false, false⟩, e) := by
  have hlog : m.log2 ≤ 52 := by
    rcases Nat.eq_zero_or_pos m with rfl | hpos
    · decide
    · exact Nat.le_of_lt_succ ((Nat.log2_lt (Nat.ne_of_gt hpos)).mpr hm)
  have hshift : (Format.binary64.targetExponent (totalExponent m e) - e).toNat = 0 := by
    rw [targetExponent_eq, totalExponent]
    omega
  unfold shiftToTargetExponent shiftToExponent
  dsimp only
  rw [hshift]
  show (_, e + ((0 : Nat) : Int)) = _
  rw [Int.natCast_zero, Int.add_zero]
  rfl

/-- A mantissa that has been rounded up to one more digit is shifted once. -/
theorem shift_carry (he : -1074 ≤ e) :
    shiftToTargetExponent .binary64 (2 ^ 53) e .exact = (⟨2 ^ 52, false, false⟩, e + 1) := by
  have hlog : (2 ^ 53 : Nat).log2 = 53 := Nat.log2_two_pow
  have hshift :
      (Format.binary64.targetExponent (totalExponent (2 ^ 53) e) - e).toNat = 1 := by
    rw [targetExponent_eq, totalExponent, hlog]
    omega
  unfold shiftToTargetExponent shiftToExponent
  dsimp only
  rw [hshift]
  rfl

/-- Beyond the range of doubles is infinity. -/
theorem pack_overflow {m : Nat} (hpos : 0 < m) (he : 972 ≤ e) :
    UnpackedFloat.pack .binary64 (.finite s m e hpos) = patternOf s infinityIndex := by
  have hbiased : 2 ^ 11 ≤ (e + (1023 : Nat) + (52 : Nat)).toNat + 1 := by omega
  unfold UnpackedFloat.pack
  dsimp only
  exact if_pos hbiased

/-- A canonical number is packed as the pattern of its index. -/
theorem pack_canonical {m j : Nat} (hpos : 0 < m) (hm : m < 2 ^ 53) (hj : j = 0 ∨ 2 ^ 52 ≤ m)
    (he : e = (j : Int) - 1074) :
    UnpackedFloat.pack .binary64 (.finite s m e hpos) =
      patternOf s (min (j * 2 ^ 52 + m) infinityIndex) := by
  have hinfinity : infinityIndex = 2047 * 2 ^ 52 := rfl
  subst he
  rcases Nat.lt_or_ge m (2 ^ 52) with hlow | hhigh
  · obtain rfl : j = 0 := by omega
    have hmin : min (0 * 2 ^ 52 + m) infinityIndex = m := by omega
    have hexponent : m / 2 ^ 52 = 0 := Nat.div_eq_of_lt hlow
    rw [hmin, patternOf, hexponent]
    exact pack_subnormal hpos hlow
  · obtain ⟨n, rfl⟩ := Nat.exists_eq_add_of_le hhigh
    have hn : n < 2 ^ 52 := by omega
    rcases Nat.lt_or_ge (j + 1) 2047 with hrange | hrange
    · have hmin : min (j * 2 ^ 52 + (2 ^ 52 + n)) infinityIndex = (j + 1) * 2 ^ 52 + n := by omega
      have hexponent : ((j + 1) * 2 ^ 52 + n) / 2 ^ 52 = j + 1 := by omega
      have hmantissa : BitVec.ofNat 52 ((j + 1) * 2 ^ 52 + n) = BitVec.ofNat 52 n := by
        apply BitVec.eq_of_toNat_eq
        rw [BitVec.toNat_ofNat, BitVec.toNat_ofNat, Nat.mul_comm, Nat.mul_add_mod]
      have hpack := pack_normal (s := s) hpos hn hrange
      have heq : ((j + 1 : Nat) : Int) - 1075 = (j : Int) - 1074 := by omega
      rw [heq] at hpack
      rw [hpack, hmin, patternOf, hexponent, hmantissa]
    · have hmin : min (j * 2 ^ 52 + (2 ^ 52 + n)) infinityIndex = infinityIndex := by omega
      rw [hmin]
      exact pack_overflow hpos (by omega)

/-- What is left to do after the mantissa has been rounded. -/
theorem pack_rounded {m j : Nat} (hm : m ≤ 2 ^ 53) (hj : j = 0 ∨ 2 ^ 52 ≤ m)
    (he : e = (j : Int) - 1074) {em : ExtendedMantissa} {e' : Int}
    (hshift : shiftToTargetExponent .binary64 m e .exact = (em, e')) :
    UnpackedFloat.pack .binary64
        (if h : em.mantissa = 0 then .zero s
        else .finite s em.mantissa e' (Nat.pos_of_ne_zero h)) =
      patternOf s (min (j * 2 ^ 52 + m) infinityIndex) := by
  have hmin : -1074 ≤ e := by omega
  rcases Nat.lt_or_eq_of_le hm with hlt | rfl
  · rw [shift_settled hlt hmin] at hshift
    cases hshift
    rcases Nat.eq_zero_or_pos m with rfl | hpos
    · -- only a number below the normal ones is rounded to zero
      obtain rfl : j = 0 := by omega
      rfl
    · refine (congrArg (UnpackedFloat.pack .binary64) (dif_neg (Nat.ne_of_gt hpos))).trans ?_
      exact pack_canonical hpos hlt hj he
  · rw [shift_carry hmin] at hshift
    cases hshift
    have hindex : j * 2 ^ 52 + 2 ^ 53 = (j + 1) * 2 ^ 52 + 2 ^ 52 := by omega
    rw [hindex]
    exact pack_canonical (by decide) (by decide) (.inr (Nat.le_refl _)) (by omega)

section Quotient

variable {num den : Nat}

/-- The digits of a quotient that is scaled by a power of two. -/
theorem log2_scaled (hden : 0 < den) (hquot : num / den ≠ 0) (d : Nat) :
    (num * 2 ^ d / den).log2 = (num / den).log2 + d := by
  have hlow : 2 ^ (num / den).log2 * den ≤ num :=
    (Nat.le_div_iff_mul_le hden).mp (Nat.log2_self_le hquot)
  have hhigh : num < 2 ^ ((num / den).log2 + 1) * den :=
    (Nat.div_lt_iff_lt_mul hden).mp Nat.lt_log2_self
  have hpow := Nat.two_pow_pos d
  have hle : 2 ^ ((num / den).log2 + d) ≤ num * 2 ^ d / den := by
    rw [Nat.le_div_iff_mul_le hden, Nat.pow_add, Nat.mul_right_comm]
    exact Nat.mul_le_mul_right _ hlow
  have hlt : num * 2 ^ d / den < 2 ^ ((num / den).log2 + d + 1) := by
    rw [Nat.div_lt_iff_lt_mul hden, Nat.add_right_comm, Nat.pow_add, Nat.mul_right_comm]
    exact Nat.mul_lt_mul_of_pos_right hhigh hpow
  have hne : num * 2 ^ d / den ≠ 0 := Nat.ne_of_gt (Nat.lt_of_lt_of_le (Nat.two_pow_pos _) hle)
  exact (Nat.log2_eq_iff hne).mpr ⟨hle, hlt⟩

/-- The exponent that a quotient is rounded at, as a number of shifts. -/
theorem scaleOf_exponent (hden : 0 < den)
    (he : e ≤ max (((num / den).log2 : Int) + e - 52) (-1074)) :
    scaleOf (num * 2 ^ (e + 1074).toNat) (den * 2 ^ (-1074 - e).toNat) =
      (max (((num / den).log2 : Int) + e - 52) (-1074) + 1074).toNat := by
  unfold scaleOf
  rcases le_or_gt e (-1074) with hlow | hhigh
  · have hup : (e + 1074).toNat = 0 := by omega
    rw [hup, Nat.pow_zero, Nat.mul_one, ← Nat.div_div_eq_div_mul, Nat.log2_eq_log_two,
      Nat.log_div_base_pow, ← Nat.log2_eq_log_two]
    omega
  · have hdown : (-1074 - e).toNat = 0 := by omega
    have hquot : num / den ≠ 0 := by
      intro hzero
      have hlog : Nat.log2 0 = 0 := by decide
      rw [hzero, hlog] at he
      omega
    rw [hdown, Nat.pow_zero, Nat.mul_one, log2_scaled hden hquot]
    omega

/-- A quotient is rounded to the double nearest to it, unless it has so few digits that its exponent
would have to be lowered. -/
theorem pack_roundWithAccuracy (hden : 0 < den) {accuracy : Accuracy}
    (haccuracy : Represents (.ofMantissaAndAccuracy (num / den) accuracy) num den)
    (he : e ≤ max (((num / den).log2 : Int) + e - 52) (-1074)) :
    UnpackedFloat.pack .binary64 (roundWithAccuracy .binary64 s (num / den) e accuracy) =
      patternOf s (nearestOfUnits (num * 2 ^ (e + 1074).toNat) (den * 2 ^ (-1074 - e).toNat)) := by
  have hscale := scaleOf_exponent hden he
  generalize hj : scaleOf (num * 2 ^ (e + 1074).toNat) (den * 2 ^ (-1074 - e).toNat) = j at hscale
  have hdown := Nat.mul_pos hden (Nat.two_pow_pos (-1074 - e).toNat)
  obtain ⟨k, hk⟩ : ∃ k : Nat, (j : Int) - 1074 = e + k := ⟨(j - 1074 - e).toNat, by omega⟩
  -- the first shift goes to the exponent that the rounded number has
  have hfirst : shiftToTargetExponent .binary64 (num / den) e accuracy =
      (ExtendedMantissa.ofMantissaAndAccuracy (num / den) accuracy >>> k, (j : Int) - 1074) := by
    have hshift : (Format.binary64.targetExponent (totalExponent (num / den) e) - e).toNat = k := by
      rw [targetExponent_eq, totalExponent]
      omega
    unfold shiftToTargetExponent shiftToExponent
    dsimp only
    rw [hshift, hk]
  have hrounded := (haccuracy.shiftRight hden k).roundedMantissa
  have hsame : divToNearest num (den * 2 ^ k) =
      divToNearest (num * 2 ^ (e + 1074).toNat) (den * 2 ^ (-1074 - e).toNat * 2 ^ j) := by
    apply divToNearest_congr (Nat.mul_pos hden (Nat.two_pow_pos k))
      (Nat.mul_pos hdown (Nat.two_pow_pos j))
    have hexponents : (-1074 - e).toNat + j = (e + 1074).toNat + k := by omega
    rw [Nat.mul_assoc den, ← Nat.pow_add, hexponents, Nat.pow_add]
    ring
  obtain ⟨em, e', hsecond⟩ : ∃ em e', shiftToTargetExponent .binary64
      (divToNearest num (den * 2 ^ k)) ((j : Int) - 1074) .exact = (em, e') := ⟨_, _, rfl⟩
  unfold roundWithAccuracy
  rw [hfirst]
  dsimp only
  rw [hrounded, hsecond, nearestOfUnits, hj, ← hsame]
  apply pack_rounded _ _ rfl hsecond
  · rw [hsame, ← hj]
    exact divToNearest_scaleOf_le _ hdown
  · rw [hsame, ← hj]
    rcases Nat.eq_zero_or_pos (scaleOf (num * 2 ^ (e + 1074).toNat)
        (den * 2 ^ (-1074 - e).toNat)) with hzero | hpos
    · exact .inl hzero
    · exact .inr (le_divToNearest_scaleOf hdown hpos)

theorem pack_roundExact {m : Nat} (he : e ≤ max ((m.log2 : Int) + e - 52) (-1074)) :
    UnpackedFloat.pack .binary64 (roundWithAccuracy .binary64 s m e .exact) =
      patternOf s (nearestOfUnits (m * 2 ^ (e + 1074).toNat) (2 ^ (-1074 - e).toNat)) := by
  have haccuracy := represents_exact m
  rw [← Nat.div_one m] at he haccuracy
  have h := pack_roundWithAccuracy (s := s) Nat.one_pos (by rwa [Nat.div_one] at haccuracy ⊢) he
  rwa [Nat.div_one, Nat.one_mul] at h

end Quotient

end Rounding

/-! ## Operations -/

/-- How far the significand of a double is shifted. -/
def shiftOf (k : Nat) : Nat := k / 2 ^ 52 - 1

/-- The double with a sign and an index, as the model takes it apart. -/
def unpacked (s : Sign) (k : Nat) : UnpackedFloat :=
  if h : significand k = 0 then .zero s
  else .finite s (significand k) ((shiftOf k : Int) - 1074) (Nat.pos_of_ne_zero h)

section Operations

variable {s s' : Sign} {k k' : Nat}

theorem units_eq_shiftOf (k : Nat) : units k = significand k * 2 ^ shiftOf k := units_eq k

/-- A significand that is shifted has all of its digits. -/
theorem le_significand (h : 0 < shiftOf k) : 2 ^ 52 ≤ significand k := by
  unfold shiftOf at h
  unfold significand
  split <;> omega

theorem log2_significand_of_shifted (h : 0 < shiftOf k) : 52 ≤ (significand k).log2 :=
  (Nat.le_log2 (by have := le_significand h; omega)).mpr (le_significand h)

theorem unpacked_zero (h : significand k = 0) : unpacked s k = .zero s :=
  dif_pos h

theorem unpacked_finite {m : Nat} {e : Int} (hpos : 0 < m) (hm : significand k = m)
    (he : (shiftOf k : Int) - 1074 = e) : unpacked s k = .finite s m e hpos := by
  subst hm he
  exact dif_neg (Nat.ne_of_gt hpos)

/-- A finite double is taken apart by its sign and its index. -/
theorem unpack_of_finite {x : Float} (hx : x.isFinite = true) :
    x.toModel.unpack = unpacked (signOf (isNegative x)) (index x) := by
  obtain ⟨s, e, m, h⟩ := exists_fields x
  have hlt := m.isLt
  have hne : e ≠ 2047#11 := fun hinf => h.isFinite.mp hx (congrArg BitVec.toNat hinf)
  rw [h.unpack, h.signOf_isNegative, h.index_eq]
  rcases fields_cases e m with ⟨he, -⟩ | ⟨he, -⟩ | ⟨he, hm⟩ | ⟨he, hm⟩ | ⟨hhigh, hlow⟩
  · exact absurd he hne
  · exact absurd he hne
  · have hindex : (0#11).toNat * 2 ^ 52 + (0#52).toNat = 0 := rfl
    rw [meaning_zero s he hm, he, hm, hindex]
    exact (unpacked_zero rfl).symm
  · rw [meaning_subnormal s he hm (toNat_pos_of_ne hm), he]
    have hindex : (0#11).toNat * 2 ^ 52 + m.toNat = m.toNat := Nat.zero_add _
    rw [hindex]
    refine (unpacked_finite _ (if_pos hlt) ?_).symm
    rw [shiftOf, Nat.div_eq_of_lt hlt]
    rfl
  · rw [meaning_normal s hhigh hlow]
    have hpos : e.toNat ≠ 0 := fun h => hlow (BitVec.eq_of_toNat_eq h)
    refine (unpacked_finite _ ?_ ?_).symm
    · unfold significand
      rw [if_neg (by omega)]
      omega
    · unfold shiftOf
      omega

theorem pack_zero (s : Sign) : UnpackedFloat.pack .binary64 (.zero s) = patternOf s 0 := by
  rfl

theorem mul_finite {m m' : Nat} {e e' : Int} (hpos : 0 < m) (hpos' : 0 < m') :
    UnpackedFloat.mul .binary64 (.finite s m e hpos) (.finite s' m' e' hpos') =
      roundWithAccuracy .binary64 (s * s') (m * m') (e + e') .exact := by
  rfl

/-- A product has digits enough to be rounded, unless both factors are below the normal numbers. -/
theorem product_exponent (hpos : significand k ≠ 0) (hpos' : significand k' ≠ 0) :
    ((shiftOf k : Int) - 1074 + (shiftOf k' - 1074)) ≤
      max (((significand k * significand k').log2 : Int) +
        (shiftOf k - 1074 + (shiftOf k' - 1074)) - 52) (-1074) := by
  rcases Nat.eq_zero_or_pos (shiftOf k) with hshift | hshift
  · rcases Nat.eq_zero_or_pos (shiftOf k') with hshift' | hshift'
    · omega
    · have := log2_significand_of_shifted hshift'
      have := log2_mono (Nat.le_mul_of_pos_left (significand k') (Nat.pos_of_ne_zero hpos))
      omega
  · have := log2_significand_of_shifted hshift
    have := log2_mono (Nat.le_mul_of_pos_right (significand k) (Nat.pos_of_ne_zero hpos'))
    omega

/-- A product is rounded once. -/
theorem pack_mul (s s' : Sign) (k k' : Nat) :
    UnpackedFloat.pack .binary64 (UnpackedFloat.mul .binary64 (unpacked s k) (unpacked s' k')) =
      patternOf (s * s') (nearestOfUnits (units k * units k') unitsPerOne) := by
  obtain ⟨n, hn, hone⟩ := exists_unitsPerOne
  rw [units_eq_shiftOf, units_eq_shiftOf]
  rcases Nat.eq_zero_or_pos (significand k) with hzero | hpos
  · rw [unpacked_zero hzero, hzero, Nat.zero_mul, Nat.zero_mul, nearestOfUnits_zero unitsPerOne_pos]
    rcases Nat.eq_zero_or_pos (significand k') with hzero' | hpos'
    · rw [unpacked_zero hzero']
      exact pack_zero (s * s')
    · rw [unpacked_finite hpos' rfl rfl]
      exact pack_zero (s * s')
  · rcases Nat.eq_zero_or_pos (significand k') with hzero' | hpos'
    · rw [unpacked_finite hpos rfl rfl, unpacked_zero hzero', hzero', Nat.zero_mul, Nat.mul_zero,
        nearestOfUnits_zero unitsPerOne_pos]
      exact pack_zero (s * s')
    · rw [unpacked_finite hpos rfl rfl, unpacked_finite hpos' rfl rfl, mul_finite,
        pack_roundExact (product_exponent (Nat.ne_of_gt hpos) (Nat.ne_of_gt hpos'))]
      apply congrArg (patternOf (s * s'))
      apply nearestOfUnits_congr (Nat.two_pow_pos _) unitsPerOne_pos
      generalize hup : (((shiftOf k : Int) - 1074 + (shiftOf k' - 1074)) + 1074).toNat = up
      generalize hdown : (-1074 - ((shiftOf k : Int) - 1074 + (shiftOf k' - 1074))).toNat = down
      have hexponents : up + n = shiftOf k + shiftOf k' + down := by omega
      calc significand k * significand k' * 2 ^ up * unitsPerOne
          = significand k * significand k' * 2 ^ (up + n) := by rw [hone, pow_add]; ring
        _ = significand k * 2 ^ shiftOf k * (significand k' * 2 ^ shiftOf k') * 2 ^ down := by
          rw [hexponents, pow_add, pow_add]
          ring

/-- A dividend with 53 binary digits more than the divisor has a quotient with 53 digits. -/
theorem log2_quotient {m d shift : Nat} (hd : 0 < d) (hm : m ≠ 0)
    (hdigits : 53 + d.log2 ≤ m.log2 + shift) : 52 ≤ (m * 2 ^ shift / d).log2 := by
  have hle : 2 ^ 52 ≤ m * 2 ^ shift / d := by
    rw [Nat.le_div_iff_mul_le hd]
    calc 2 ^ 52 * d ≤ 2 ^ 52 * 2 ^ (d.log2 + 1) :=
          Nat.mul_le_mul_left _ (Nat.le_of_lt Nat.lt_log2_self)
      _ = 2 ^ (53 + d.log2) := by rw [← Nat.pow_add, ← Nat.add_assoc, Nat.add_right_comm]
      _ ≤ 2 ^ (m.log2 + shift) := Nat.pow_le_pow_right (by decide) hdigits
      _ = 2 ^ m.log2 * 2 ^ shift := Nat.pow_add _ _ _
      _ ≤ m * 2 ^ shift := Nat.mul_le_mul_right _ (Nat.log2_self_le hm)
  exact (Nat.le_log2 (Nat.ne_of_gt (Nat.lt_of_lt_of_le (by decide) hle))).mpr hle

/-- A quotient is rounded once. -/
theorem pack_div (s s' : Sign) (k : Nat) (hk' : 0 < k') :
    UnpackedFloat.pack .binary64 (UnpackedFloat.div .binary64 (unpacked s k) (unpacked s' k')) =
      patternOf (s / s') (nearestOfUnits (units k * unitsPerOne) (units k')) := by
  obtain ⟨n, hn, hone⟩ := exists_unitsPerOne
  have hden : 0 < significand k' := by
    apply Nat.pos_of_ne_zero
    intro hzero
    have hunits := units_pos hk'
    rw [units_eq_shiftOf, hzero, Nat.zero_mul] at hunits
    cases hunits
  have hunits' := units_pos hk'
  rw [units_eq_shiftOf] at hunits' ⊢
  rw [units_eq_shiftOf, unpacked_finite hden rfl rfl]
  rcases Nat.eq_zero_or_pos (significand k) with hzero | hpos
  · rw [unpacked_zero hzero, hzero, Nat.zero_mul, Nat.zero_mul, nearestOfUnits_zero hunits']
    exact pack_zero (s / s')
  · rw [unpacked_finite hpos rfl rfl]
    show UnpackedFloat.pack .binary64 (roundWithAccuracy .binary64 (s / s') _ _ _) = _
    generalize ht : min (((shiftOf k : Int) - 1074) - (shiftOf k' - 1074))
      (Format.binary64.targetExponent (totalExponent (significand k) (shiftOf k - 1074) -
        totalExponent (significand k') (shiftOf k' - 1074))) = t
    generalize hshift : (((shiftOf k : Int) - 1074) - (shiftOf k' - 1074) - t).toNat = shift
    rw [targetExponent_eq, totalExponent, totalExponent] at ht
    rw [Nat.shiftLeft_eq]
    -- the dividend is shifted until the quotient has digits enough
    have hexponent : t ≤
        max (((significand k * 2 ^ shift / significand k').log2 : Int) + t - 52) (-1074) := by
      rcases le_or_gt t (-1074) with hlow | hhigh
      · exact le_max_of_le_right hlow
      · have hlog := log2_quotient hden (Nat.ne_of_gt hpos)
          (show 53 + (significand k').log2 ≤ (significand k).log2 + shift by omega)
        omega
    refine (pack_roundWithAccuracy hden (represents_quotient hden) hexponent).trans
      (congrArg (patternOf (s / s')) ?_)
    apply nearestOfUnits_congr (Nat.mul_pos hden (Nat.two_pow_pos _)) hunits'
    generalize hup : (t + 1074).toNat = up
    generalize hdown : (-1074 - t).toNat = down
    have hexponents : shift + up + shiftOf k' = shiftOf k + n + down := by omega
    calc significand k * 2 ^ shift * 2 ^ up * (significand k' * 2 ^ shiftOf k')
        = significand k * significand k' * 2 ^ (shift + up + shiftOf k') := by
          rw [pow_add, pow_add]
          ring
      _ = significand k * 2 ^ shiftOf k * unitsPerOne * (significand k' * 2 ^ down) := by
          rw [hexponents, hone, pow_add, pow_add]
          ring

/-- A double with the pattern of an index is the one with this index. -/
theorem eq_ofIndex {x : Float} {negative : Bool} (hk : k ≤ infinityIndex)
    (h : x.toBits.toBitVec = patternOf (signOf negative) k) : x = ofIndex negative k :=
  HasFields.unique h (hasFields_ofIndex hk)

theorem isFinite_ofIndex (negative : Bool) (hk : k < infinityIndex) :
    (ofIndex negative k).isFinite = true := by
  rwa [isFinite_iff, index_ofIndex negative (Nat.le_of_lt hk)]

variable {x y : Float}

theorem mul_eq (hx : x.isFinite = true) (hy : y.isFinite = true) :
    x * y = ofIndex (isNegative x != isNegative y)
      (nearestOfUnits (units (index x) * units (index y)) unitsPerOne) := by
  apply eq_ofIndex (nearestOfUnits_le _ _)
  show UnpackedFloat.pack .binary64 (UnpackedFloat.mul .binary64 x.toModel.unpack y.toModel.unpack) = _
  rw [unpack_of_finite hx, unpack_of_finite hy, pack_mul]
  cases isNegative x <;> cases isNegative y <;> rfl

theorem div_eq (hx : x.isFinite = true) (hy : y.isFinite = true) (hzero : 0 < index y) :
    x / y = ofIndex (isNegative x != isNegative y)
      (nearestOfUnits (units (index x) * unitsPerOne) (units (index y))) := by
  apply eq_ofIndex (nearestOfUnits_le _ _)
  show UnpackedFloat.pack .binary64 (UnpackedFloat.div .binary64 x.toModel.unpack y.toModel.unpack) = _
  rw [unpack_of_finite hx, unpack_of_finite hy, pack_div _ _ _ hzero]
  cases isNegative x <;> cases isNegative y <;> rfl

/-- A whole number is rounded once, at whatever exponent it has been given enough digits. -/
theorem pack_whole {n shift : Nat} (hn : n ≠ 0) (hle : shift ≤ 1074)
    (hdigits : 52 ≤ n.log2 + shift) :
    UnpackedFloat.pack .binary64 (roundWithAccuracy .binary64 s (n * 2 ^ shift) (-shift) .exact) =
      patternOf s (nearestIndex n 1) := by
  obtain ⟨units, hunits, hone⟩ := exists_unitsPerOne
  have hlog : (n * 2 ^ shift).log2 = n.log2 + shift := by
    have h := log2_scaled Nat.one_pos (by rwa [Nat.div_one]) shift
    rwa [Nat.div_one, Nat.div_one] at h
  refine (pack_roundExact (by omega)).trans (congrArg (patternOf s) ?_)
  rw [nearestIndex_eq]
  apply nearestOfUnits_congr (Nat.two_pow_pos _) Nat.one_pos
  have hup : (-(shift : Int) + 1074).toNat = units - shift := by omega
  have hdown : (-1074 - -(shift : Int)).toNat = 0 := by omega
  have hsum : shift + (units - shift) = units := by omega
  rw [hup, hdown, Nat.mul_assoc n, ← Nat.pow_add, hsum, hone]

theorem index_one_lt {n : Nat} (hn : n ≤ 2 ^ 64) : nearestIndex n 1 < infinityIndex := by
  have hmono : nearestIndex n 1 ≤ nearestIndex (2 ^ 64) 1 :=
    nearestIndex_mono Nat.one_pos Nat.one_pos (Nat.mul_le_mul_right 1 hn)
  have hlarge : nearestIndex (2 ^ 64) 1 < infinityIndex := by decide +kernel
  exact Nat.lt_of_le_of_lt hmono hlarge

theorem toFloat_eq {n : Nat} (hn : n < 2 ^ 64) :
    n.toUInt64.toFloat = ofIndex false (nearestIndex n 1) := by
  apply eq_ofIndex (Nat.min_le_right _ _)
  have hword : n.toUInt64.toNat = n := UInt64.toNat_ofNat_of_lt' hn
  show UnpackedFloat.pack .binary64 (UnpackedFloat.normalize .binary64 n.toUInt64.toNat 0 .positive) = _
  rw [hword]
  unfold UnpackedFloat.normalize
  rcases Nat.eq_zero_or_pos n with rfl | hpos
  · decide +kernel
  · have hcompare : compare (n : Int) 0 = .gt := Int.compare_eq_gt.mpr (by omega)
    rw [hcompare]
    dsimp only
    unfold UnpackedFloat.round decreaseExponent
    dsimp only
    rw [Int.toNat_natCast, Nat.shiftLeft_eq]
    generalize hshift :
      (0 - Format.binary64.targetExponent (totalExponent n 0)).toNat = shift
    rw [targetExponent_eq, totalExponent] at hshift
    have hexponent : (0 : Int) - (shift : Int) = -shift := Int.zero_sub _
    rw [hexponent]
    exact pack_whole (Nat.ne_of_gt hpos) (by omega) (by omega)

/-- The index of one. -/
def oneIndex : Nat := 1023 * 2 ^ 52

theorem units_oneIndex : units oneIndex = unitsPerOne := by
  decide +kernel

theorem oneIndex_lt : oneIndex < infinityIndex := by
  decide

/-- A factor of one changes nothing. -/
theorem mul_one_eq {k : Nat} (hk : k < infinityIndex) :
    ofIndex false k * ofIndex false oneIndex = ofIndex false k := by
  have hk' := Nat.le_of_lt hk
  have hone := Nat.le_of_lt oneIndex_lt
  rw [mul_eq (isFinite_ofIndex false hk) (isFinite_ofIndex false oneIndex_lt),
    isNegative_ofIndex false hk', isNegative_ofIndex false hone, index_ofIndex false hk',
    index_ofIndex false hone, units_oneIndex, nearestOfUnits_units hk unitsPerOne_pos]
  rfl

theorem firstPower_eq : Float.exactlyRepresentablePowersOfTen[0] = ofIndex false oneIndex := by
  decide +kernel

/-- A whole number as a double is the one nearest to it. -/
theorem ofNat_eq (n : Nat) : Float.ofNat n = ofIndex false (nearestIndex n 1) := by
  show Float.ofScientific n false 0 = _
  unfold Float.ofScientific
  split
  · next hsmall =>
    have hn : n < 2 ^ 64 := Nat.lt_of_lt_of_le hsmall.1 (by decide)
    show n.toUInt64.toFloat * Float.exactlyRepresentablePowersOfTen[0] = _
    rw [toFloat_eq hn, firstPower_eq]
    exact mul_one_eq (index_one_lt (Nat.le_of_lt hn))
  · next hlarge =>
    have hne : n ≠ 0 := by omega
    apply eq_ofIndex (Nat.min_le_right _ _)
    show UnpackedFloat.pack .binary64 (UnpackedFloat.ofScientific .binary64 n 0) = _
    unfold UnpackedFloat.ofScientific
    have hsmall : ¬(0 : Int) < -((2 : Int) ^ 11 + n.log2) := by omega
    rw [dif_neg hne, if_neg (by decide), if_neg hsmall, if_pos (by decide)]
    have hproduct : n <<< Format.binary64.mantissaBits * 10 ^ (0 : Int).toNat = n * 2 ^ 53 := by
      rw [Int.toNat_zero, Nat.pow_zero, Nat.mul_one, Nat.shiftLeft_eq]
      rfl
    rw [mul_finite, hproduct, Int.add_zero]
    exact pack_whole hne (by decide) (by omega)

end Operations

end FormulaBar.Numeral
