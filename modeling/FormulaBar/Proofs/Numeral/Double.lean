import FormulaBar.Numeral.Binary
import Mathlib.Algebra.Group.Nat.Defs

/-!
# Doubles by sign and index

A finite double is the one with its sign and its index, every index below infinity names a double
of either sign, and negation changes the sign alone.

1. **Fields**: what a bit pattern stands for, and that it is packed again as it was.
2. **Doubles** with given fields.
3. **Sign and index**.
-/

namespace FormulaBar.Numeral

/-! ## Fields -/

section Fields

open Float.Model Float.Model.UnpackedFloat

/-- The bit patterns of doubles. -/
abbrev Pattern : Type := BitVec Format.binary64.numBits

variable (s : Sign) (e : BitVec 11) (m : BitVec 52)

/-- The bit pattern with the given sign, exponent and mantissa. -/
def pattern : Pattern := packComponents Format.binary64 s e m

theorem toNat_pattern :
    (pattern s e m).toNat = s.toBitVec.toNat * 2 ^ 63 + e.toNat * 2 ^ 52 + m.toNat := by
  unfold pattern packComponents
  rw [BitVec.toNat_append, BitVec.toNat_append, ← Nat.shiftLeft_add_eq_or_of_lt m.isLt,
    ← Nat.shiftLeft_add_eq_or_of_lt e.isLt, Nat.shiftLeft_eq, Nat.shiftLeft_eq]
  omega

/-- Every bit pattern is made of fields. -/
theorem exists_pattern (b : Pattern) : ∃ s e m, b = pattern s e m := by
  have hb : b.toNat < 2 ^ 64 := b.isLt
  refine ⟨if 2 ^ 63 ≤ b.toNat then .negative else .positive, BitVec.ofNat 11 (b.toNat / 2 ^ 52),
    BitVec.ofNat 52 b.toNat, BitVec.eq_of_toNat_eq ?_⟩
  rw [toNat_pattern, BitVec.toNat_ofNat, BitVec.toNat_ofNat]
  split
  · show _ = 1 * 2 ^ 63 + _ + _
    omega
  · show _ = 0 * 2 ^ 63 + _ + _
    omega

theorem sign_pattern : Sign.ofBitVec (unpackSign (pattern s e m)) = s := by
  have hm := m.isLt
  have he := e.isLt
  have hsign : unpackSign (pattern s e m) = s.toBitVec := by
    apply BitVec.eq_of_toNat_eq
    have hs := s.toBitVec.isLt
    show (pattern s e m).toNat >>> 63 % 2 ^ 1 = s.toBitVec.toNat
    rw [Nat.shiftRight_eq_div_pow, toNat_pattern]
    omega
  rw [hsign]
  cases s <;> rfl

theorem toNat_pos_of_ne {m : BitVec 52} (hm : m ≠ 0#52) : 0 < m.toNat := by
  simpa [BitVec.toNat_pos, BitVec.pos_iff_ne_zero] using hm

/-- What a bit pattern stands for, by its fields. -/
def meaning : UnpackedFloat :=
  if e = 2047#11 then
    if m = 0#52 then .infinity s else .notANumber
  else if e = 0#11 then
    if h : m = 0#52 then .zero s
    else .finite s m.toNat (-1074) (toNat_pos_of_ne h)
  else .finite s (2 ^ 52 + m.toNat) (e.toNat - 1075) (by omega)

/-- The fields are those of an infinity, of no number, of zero, of a number below the normal ones or
of a normal one. -/
theorem fields_cases : (e = 2047#11 ∧ m = 0#52) ∨ (e = 2047#11 ∧ m ≠ 0#52) ∨
    (e = 0#11 ∧ m = 0#52) ∨ (e = 0#11 ∧ m ≠ 0#52) ∨ (e ≠ 2047#11 ∧ e ≠ 0#11) := by
  by_cases hm : m = 0#52 <;> by_cases hhigh : e = 2047#11 <;> by_cases hlow : e = 0#11 <;>
    simp [hm, hhigh, hlow]

section Kinds

variable {e m}

theorem meaning_infinity (he : e = 2047#11) (hm : m = 0#52) : meaning s e m = .infinity s := by
  rw [meaning, if_pos he, if_pos hm]

theorem meaning_nan (he : e = 2047#11) (hm : m ≠ 0#52) : meaning s e m = .notANumber := by
  rw [meaning, if_pos he, if_neg hm]

theorem meaning_zero (he : e = 0#11) (hm : m = 0#52) : meaning s e m = .zero s := by
  subst he hm
  rfl

theorem meaning_subnormal (he : e = 0#11) (hm : m ≠ 0#52) (hpos : 0 < m.toNat) :
    meaning s e m = .finite s m.toNat (-1074) hpos := by
  subst he
  exact dif_neg hm

theorem meaning_normal (hhigh : e ≠ 2047#11) (hlow : e ≠ 0#11) :
    meaning s e m = .finite s (2 ^ 52 + m.toNat) (e.toNat - 1075) (by omega) := by
  rw [meaning, if_neg hhigh, if_neg hlow]

/-- The leading bit of a normal number, which is not in the pattern, adds `2 ^ 52` to the mantissa. -/
theorem finite_lead (k : Int) (hpos : 0 < (1#1 ++ m).toNat) :
    UnpackedFloat.finite s (1#1 ++ m).toNat k hpos =
      .finite s (2 ^ 52 + m.toNat) k (by omega) := by
  have hlead : (1#1 ++ m).toNat = 2 ^ 52 + m.toNat := by
    rw [BitVec.toNat_append, ← Nat.shiftLeft_add_eq_or_of_lt m.isLt, Nat.shiftLeft_eq]
    rfl
  have hfinite : ∀ n (hn : 0 < n), n = 2 ^ 52 + m.toNat →
      UnpackedFloat.finite s n k hn = .finite s (2 ^ 52 + m.toNat) k (by omega) := by
    rintro _ _ rfl
    rfl
  exact hfinite _ hpos hlead

end Kinds

theorem unpack_eq_meaning (b : Pattern) : UnpackedFloat.unpack Format.binary64 b =
    meaning (Sign.ofBitVec (unpackSign b)) (unpackExponent b) (unpackMantissa b) := by
  unfold UnpackedFloat.unpack
  dsimp only
  rcases fields_cases (unpackExponent b) (unpackMantissa b) with
    ⟨he, hm⟩ | ⟨he, hm⟩ | ⟨he, hm⟩ | ⟨he, hm⟩ | ⟨hhigh, hlow⟩
  · -- the largest exponent is written as minus one there
    rw [meaning_infinity _ he hm]
    exact (if_pos he).trans (if_pos hm)
  · rw [meaning_nan _ he hm]
    exact (if_pos he).trans (if_neg hm)
  · rw [meaning_zero _ he hm, he]
    exact dif_pos hm
  · rw [meaning_subnormal _ he hm (toNat_pos_of_ne hm), he]
    exact dif_neg hm
  · rw [meaning_normal _ hhigh hlow]
    exact (if_neg hhigh).trans ((if_neg hlow).trans (finite_lead _ _ _))

theorem unpack_pattern : UnpackedFloat.unpack Format.binary64 (pattern s e m) = meaning s e m := by
  have hm : unpackMantissa (pattern s e m) = m := unpackMantissa_packComponents
  have he : unpackExponent (pattern s e m) = e := unpackExponent_packComponents
  rw [unpack_eq_meaning, sign_pattern, he, hm]

variable {s e m}

/-- A number below the normal ones is packed as its mantissa. -/
theorem pack_subnormal {n : Nat} (hpos : 0 < n) (hn : n < 2 ^ 52) :
    UnpackedFloat.pack Format.binary64 (.finite s n (-1074) hpos) =
      pattern s 0#11 (BitVec.ofNat 52 n) := by
  have hlog : n.log2 < 52 := (Nat.log2_lt (by omega)).mpr hn
  have hbits : ¬ n.log2 + 1 = Format.binary64.mantissaBits := by
    show ¬ n.log2 + 1 = 53
    omega
  unfold UnpackedFloat.pack
  dsimp only
  rw [if_neg (by decide), if_neg hbits]
  rfl

/-- Of a normal number the leading bit of the mantissa is left out. -/
theorem pack_normal {n k : Nat} (hpos : 0 < 2 ^ 52 + n) (hn : n < 2 ^ 52) (hk : k < 2047) :
    UnpackedFloat.pack Format.binary64 (.finite s (2 ^ 52 + n) (k - 1075) hpos) =
      pattern s (BitVec.ofNat 11 k) (BitVec.ofNat 52 n) := by
  have hlog : (2 ^ 52 + n).log2 = 52 := by
    rw [Nat.log2_eq_iff (by omega)]
    omega
  have hbits : (2 ^ 52 + n).log2 + 1 = Format.binary64.mantissaBits := by
    rw [hlog]
    rfl
  have hbiased : ((k : Int) - 1075 + Format.binary64.exponentBias +
      Format.binary64.mantissaBitsWithoutImplicit).toNat = k := by
    show ((k : Int) - 1075 + (1023 : Nat) + (52 : Nat)).toNat = k
    omega
  have hmantissa : BitVec.ofNat 52 (2 ^ 52 + n) = BitVec.ofNat 52 n := by
    apply BitVec.eq_of_toNat_eq
    rw [BitVec.toNat_ofNat, BitVec.toNat_ofNat, Nat.add_mod_left]
  unfold UnpackedFloat.pack
  dsimp only
  rw [hbiased, if_neg (by show ¬ 2 ^ 11 ≤ k + 1; omega), if_pos hbits, ← hmantissa]
  rfl

/-- A bit pattern is packed again as it was, unless it is one of those that are no number. -/
theorem pack_meaning (h : e = 2047#11 → m = 0#52) :
    UnpackedFloat.pack Format.binary64 (meaning s e m) = pattern s e m := by
  rcases fields_cases e m with ⟨he, hm⟩ | ⟨he, hm⟩ | ⟨he, hm⟩ | ⟨he, hm⟩ | ⟨hhigh, hlow⟩
  · rw [meaning_infinity s he hm, he, hm]
    rfl
  · exact absurd (h he) hm
  · rw [meaning_zero s he hm, he, hm]
    rfl
  · rw [meaning_subnormal s he hm (toNat_pos_of_ne hm), pack_subnormal _ m.isLt,
      BitVec.ofNat_toNat, BitVec.setWidth_eq, he]
  · have hlt : e.toNat < 2047 := by
      have he := e.isLt
      have hne : e.toNat ≠ 2047 := fun h => hhigh (BitVec.eq_of_toNat_eq h)
      omega
    rw [meaning_normal s hhigh hlow, pack_normal _ m.isLt hlt, BitVec.ofNat_toNat,
      BitVec.setWidth_eq, BitVec.ofNat_toNat, BitVec.setWidth_eq]

theorem neg_meaning : (meaning s e m).neg = meaning (-s) e m := by
  rcases fields_cases e m with ⟨he, hm⟩ | ⟨he, hm⟩ | ⟨he, hm⟩ | ⟨he, hm⟩ | ⟨hhigh, hlow⟩
  · rw [meaning_infinity s he hm, meaning_infinity (-s) he hm]
    rfl
  · rw [meaning_nan s he hm, meaning_nan (-s) he hm]
    rfl
  · rw [meaning_zero s he hm, meaning_zero (-s) he hm]
    rfl
  · rw [meaning_subnormal s he hm (toNat_pos_of_ne hm),
      meaning_subnormal (-s) he hm (toNat_pos_of_ne hm)]
    rfl
  · rw [meaning_normal s hhigh hlow, meaning_normal (-s) hhigh hlow]
    rfl

theorem isFinite_meaning : (meaning s e m).isFinite = true ↔ e ≠ 2047#11 := by
  rcases fields_cases e m with ⟨he, hm⟩ | ⟨he, hm⟩ | ⟨he, hm⟩ | ⟨he, hm⟩ | ⟨hhigh, hlow⟩
  · rw [meaning_infinity s he hm]
    exact iff_of_false Bool.false_ne_true fun hne => hne he
  · rw [meaning_nan s he hm]
    exact iff_of_false Bool.false_ne_true fun hne => hne he
  · rw [meaning_zero s he hm, he]
    exact iff_of_true rfl (by decide)
  · rw [meaning_subnormal s he hm (toNat_pos_of_ne hm), he]
    exact iff_of_true rfl (by decide)
  · rw [meaning_normal s hhigh hlow]
    exact iff_of_true rfl hhigh

theorem isNaN_meaning : (meaning s e m).isNaN = true ↔ e = 2047#11 ∧ m ≠ 0#52 := by
  rcases fields_cases e m with ⟨he, hm⟩ | ⟨he, hm⟩ | ⟨he, hm⟩ | ⟨he, hm⟩ | ⟨hhigh, hlow⟩
  · rw [meaning_infinity s he hm]
    exact iff_of_false Bool.false_ne_true fun h => h.2 hm
  · rw [meaning_nan s he hm]
    exact iff_of_true rfl ⟨he, hm⟩
  · rw [meaning_zero s he hm]
    exact iff_of_false Bool.false_ne_true fun h => h.2 hm
  · rw [meaning_subnormal s he hm (toNat_pos_of_ne hm), he]
    exact iff_of_false Bool.false_ne_true fun h => absurd h.1 (by decide)
  · rw [meaning_normal s hhigh hlow]
    exact iff_of_false Bool.false_ne_true fun h => hhigh h.1

/-! ## Doubles -/

/-- A double has the given fields. -/
def HasFields (x : Float) (s : Sign) (e : BitVec 11) (m : BitVec 52) : Prop :=
  x.toBits.toBitVec = pattern s e m

variable {x : Float}

theorem exists_fields (x : Float) : ∃ s e m, HasFields x s e m := exists_pattern x.toBits.toBitVec

theorem HasFields.toNat_toBits (h : HasFields x s e m) :
    x.toBits.toNat = s.toBitVec.toNat * 2 ^ 63 + e.toNat * 2 ^ 52 + m.toNat := by
  rw [← toNat_pattern, ← h]
  rfl

theorem HasFields.unpack (h : HasFields x s e m) : x.toModel.unpack = meaning s e m := by
  rw [← unpack_pattern, ← h]
  rfl

/-- Doubles with the same fields are equal. -/
theorem HasFields.unique {y : Float} (hx : HasFields x s e m) (hy : HasFields y s e m) : x = y := by
  have hbits : x.toModel.toBits = y.toModel.toBits := UInt64.toBitVec_inj.mp (hx.trans hy.symm)
  rcases x with ⟨⟨b, hb⟩⟩
  rcases y with ⟨⟨c, hc⟩⟩
  cases hbits
  rfl

theorem HasFields.neg (h : HasFields x s e m) (hnum : e = 2047#11 → m = 0#52) :
    HasFields (-x) (-s) e m := by
  show UnpackedFloat.pack Format.binary64 x.toModel.unpack.neg = pattern (-s) e m
  rw [h.unpack, neg_meaning, pack_meaning hnum]

theorem hasFields_ofBits {w : UInt64} (h : w.toBitVec = pattern s e m)
    (hnum : e = 2047#11 → m = 0#52) : HasFields (Float.ofBits w) s e m := by
  show UnpackedFloat.pack Format.binary64 (UnpackedFloat.unpack Format.binary64 w.toBitVec) = _
  rw [h, unpack_pattern, pack_meaning hnum]

theorem HasFields.isFinite (h : HasFields x s e m) : x.isFinite = true ↔ e.toNat ≠ 2047 := by
  show x.toModel.unpack.isFinite = true ↔ _
  rw [h.unpack, isFinite_meaning, ne_eq, ← BitVec.toNat_inj]
  rfl

theorem HasFields.isNaN (h : HasFields x s e m) :
    x.isNaN = true ↔ e.toNat = 2047 ∧ m.toNat ≠ 0 := by
  show x.toModel.unpack.isNaN = true ↔ _
  rw [h.unpack, isNaN_meaning, ne_eq, ← BitVec.toNat_inj, ← BitVec.toNat_inj]
  rfl

/-! ## Sign and index -/

theorem HasFields.index_eq (h : HasFields x s e m) : index x = e.toNat * 2 ^ 52 + m.toNat := by
  show x.toBits.toNat % 2 ^ 63 = _
  have hm := m.isLt
  have he := e.isLt
  rw [h.toNat_toBits]
  omega

theorem HasFields.isNegative_iff (h : HasFields x s e m) :
    isNegative x = true ↔ s = .negative := by
  have hm := m.isLt
  have he := e.isLt
  unfold isNegative
  rw [decide_eq_true_eq, h.toNat_toBits]
  show 2 ^ 63 ≤ _ ↔ _
  cases s with
  | negative =>
      show 2 ^ 63 ≤ 1 * 2 ^ 63 + _ + _ ↔ _
      simp only [iff_true]
      omega
  | positive =>
      show 2 ^ 63 ≤ 0 * 2 ^ 63 + _ + _ ↔ _
      simp only [reduceCtorEq, iff_false]
      omega

/-- The sign with a given bit. -/
def signOf (negative : Bool) : Sign := if negative then .negative else .positive

/-- The double with a sign and an index has the fields that these are made of. -/
theorem hasFields_ofIndex {negative : Bool} {k : Nat} (hk : k ≤ infinityIndex) :
    HasFields (ofIndex negative k) (signOf negative) (BitVec.ofNat 11 (k / 2 ^ 52))
      (BitVec.ofNat 52 k) := by
  replace hk : k ≤ 2047 * 2 ^ 52 := hk
  apply hasFields_ofBits
  · apply BitVec.eq_of_toNat_eq
    rw [toNat_pattern, BitVec.toNat_ofNat, BitVec.toNat_ofNat]
    cases negative with
    | false =>
        show k % 2 ^ 64 = 0 * 2 ^ 63 + _ + _
        omega
    | true =>
        show (2 ^ 63 + k) % 2 ^ 64 = 1 * 2 ^ 63 + _ + _
        omega
  · intro hinf
    have he : k / 2 ^ 52 % 2 ^ 11 = 2047 := congrArg BitVec.toNat hinf
    apply BitVec.eq_of_toNat_eq
    show k % 2 ^ 52 = 0
    omega

theorem HasFields.signOf_isNegative (h : HasFields x s e m) : signOf (isNegative x) = s := by
  have hiff := h.isNegative_iff
  cases s with
  | negative => rw [hiff.mpr rfl]; rfl
  | positive =>
      have hfalse : isNegative x = false := by simpa using hiff
      rw [hfalse]
      rfl

/-- The double with another sign and the same index differs in the sign alone. -/
theorem HasFields.ofIndex (h : HasFields x s e m) (hx : x.isFinite = true) (negative : Bool) :
    HasFields (ofIndex negative (index x)) (signOf negative) e m := by
  have he := e.isLt
  have hm := m.isLt
  have hlt := h.isFinite.mp hx
  have hindex := h.index_eq
  have hle : index x ≤ 2047 * 2 ^ 52 := by omega
  have hexponent : BitVec.ofNat 11 (index x / 2 ^ 52) = e := by
    apply BitVec.eq_of_toNat_eq
    rw [BitVec.toNat_ofNat]
    omega
  have hmantissa : BitVec.ofNat 52 (index x) = m := by
    apply BitVec.eq_of_toNat_eq
    rw [BitVec.toNat_ofNat]
    omega
  have hfields : HasFields (Numeral.ofIndex negative (index x)) _ _ _ := hasFields_ofIndex hle
  rwa [hexponent, hmantissa] at hfields

theorem hasFields_zero : HasFields 0 .positive 0#11 0#52 := by
  show (0 : Float).toBits.toBitVec = _
  decide

theorem hasFields_neg_zero : HasFields (-0) .negative 0#11 0#52 := by
  show (-0 : Float).toBits.toBitVec = _
  decide

theorem beq_meaning_zero :
    (meaning s e m).beq (.zero .positive) = true ↔ e = 0#11 ∧ m = 0#52 := by
  rcases fields_cases e m with ⟨he, hm⟩ | ⟨he, hm⟩ | ⟨he, hm⟩ | ⟨he, hm⟩ | ⟨hhigh, hlow⟩
  · rw [meaning_infinity s he hm, he]
    cases s <;> exact iff_of_false Bool.false_ne_true fun h => absurd h.1 (by decide)
  · rw [meaning_nan s he hm]
    exact iff_of_false Bool.false_ne_true fun h => hm h.2
  · rw [meaning_zero s he hm]
    cases s <;> exact iff_of_true rfl ⟨he, hm⟩
  · rw [meaning_subnormal s he hm (toNat_pos_of_ne hm)]
    cases s <;> exact iff_of_false Bool.false_ne_true fun h => hm h.2
  · rw [meaning_normal s hhigh hlow]
    cases s <;> exact iff_of_false Bool.false_ne_true fun h => hlow h.1

/-- Two doubles compare equal to zero: zero with either sign. -/
theorem beq_zero_iff : (x == 0) = true ↔ x = 0 ∨ x = -0 := by
  constructor
  · intro h
    obtain ⟨s, e, m, hfields⟩ := exists_fields x
    have hbeq : x.toModel.unpack.beq (0 : Float).toModel.unpack = true := h
    rw [hfields.unpack, hasFields_zero.unpack] at hbeq
    obtain ⟨rfl, rfl⟩ := beq_meaning_zero.mp hbeq
    cases s with
    | positive => exact .inl (hfields.unique hasFields_zero)
    | negative => exact .inr (hfields.unique hasFields_neg_zero)
  · rintro (rfl | rfl) <;> decide

end Fields

theorem isFinite_iff {x : Float} : x.isFinite = true ↔ index x < infinityIndex := by
  obtain ⟨s, e, m, h⟩ := exists_fields x
  rw [h.isFinite, h.index_eq]
  show _ ↔ _ < 2047 * 2 ^ 52
  have he := e.isLt
  have hm := m.isLt
  omega

theorem isNaN_iff {x : Float} : x.isNaN = true ↔ infinityIndex < index x := by
  obtain ⟨s, e, m, h⟩ := exists_fields x
  rw [h.isNaN, h.index_eq]
  show _ ↔ 2047 * 2 ^ 52 < _
  have he := e.isLt
  have hm := m.isLt
  omega

variable {k : Nat}

theorem index_ofIndex (negative : Bool) (hk : k ≤ infinityIndex) :
    index (ofIndex negative k) = k := by
  rw [(hasFields_ofIndex hk).index_eq, BitVec.toNat_ofNat, BitVec.toNat_ofNat]
  replace hk : k ≤ 2047 * 2 ^ 52 := hk
  omega

theorem isNegative_ofIndex (negative : Bool) (hk : k ≤ infinityIndex) :
    isNegative (ofIndex negative k) = negative := by
  rw [Bool.eq_iff_iff, (hasFields_ofIndex hk).isNegative_iff]
  cases negative <;> simp [signOf]

variable {x : Float}

/-- A double is determined by its sign and its index. -/
theorem ofIndex_index (hx : x.isFinite = true) : ofIndex (isNegative x) (index x) = x := by
  obtain ⟨s, e, m, h⟩ := exists_fields x
  have hfields := h.ofIndex hx (isNegative x)
  rw [h.signOf_isNegative] at hfields
  exact hfields.unique h

/-- Negation changes the sign. -/
theorem neg_eq_ofIndex (hx : x.isFinite = true) : -x = ofIndex (!isNegative x) (index x) := by
  obtain ⟨s, e, m, h⟩ := exists_fields x
  have hneg : HasFields (-x) (-s) e m := by
    apply h.neg
    intro hinf
    exact absurd (congrArg BitVec.toNat hinf) (h.isFinite.mp hx)
  have hsign : signOf (!isNegative x) = -s := by
    rw [← h.signOf_isNegative]
    cases isNegative x <;> rfl
  have hfields := h.ofIndex hx (!isNegative x)
  rw [hsign] at hfields
  exact hneg.unique hfields

theorem isFinite_neg (hx : x.isFinite = true) : (-x).isFinite = true := by
  have hindex : index x < infinityIndex := isFinite_iff.mp hx
  rw [isFinite_iff, neg_eq_ofIndex hx, index_ofIndex _ (Nat.le_of_lt hindex)]
  exact hindex

/-- Negation undoes itself. -/
theorem neg_neg_of_finite (hx : x.isFinite = true) : -(-x) = x := by
  have hindex : index x ≤ infinityIndex := Nat.le_of_lt (isFinite_iff.mp hx)
  have hback := neg_eq_ofIndex (isFinite_neg hx)
  rw [neg_eq_ofIndex hx, isNegative_ofIndex _ hindex, index_ofIndex _ hindex, Bool.not_not,
    ofIndex_index hx, ← neg_eq_ofIndex hx] at hback
  exact hback

end FormulaBar.Numeral
