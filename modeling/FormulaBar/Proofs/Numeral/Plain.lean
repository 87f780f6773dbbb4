import FormulaBar.Numeral.Plain
import FormulaBar.Numeral.Reader
import FormulaBar.Proofs.Numeral.Digits
import FormulaBar.Proofs.Numeral.Double
import FormulaBar.Proofs.Numeral.Nearest

/-!
# Plain numerals read back

The plain numeral of a finite double is a minus sign, if its sign bit is set, and then digits with
an optional point, which are read as the same double without its sign.

1. **Positional decimals** are digits and points, and are read as a decimal for the same double.
2. **Plain numerals** of finite doubles are read back, and the others are words.
-/

namespace FormulaBar.Numeral

open FormulaBar.Text (Digit digit? isDigit spanDigits digit?_toChar)

/-! ## Positional decimals -/

theorem isDigit_of_mem_digitText {n : Nat} {c : Char} (h : c ∈ digitText n) :
    isDigit c = true := by
  obtain ⟨d, -, rfl⟩ := List.mem_map.mp h
  exact isDigit_toChar d

/-- Nothing but digits and points stands in a positional decimal. -/
theorem digit_or_point_of_mem_positional {d : Decimal} {c : Char} (h : c ∈ d.positional) :
    isDigit c = true ∨ c = '.' := by
  have hzero : ∀ {n : Nat}, c ∈ List.replicate n '0' → isDigit c = true := by
    intro n hc
    rw [List.eq_of_mem_replicate hc]
    rfl
  unfold Decimal.positional at h
  dsimp only at h
  split at h
  · rcases List.mem_append.mp h with h | h
    · exact .inl (isDigit_of_mem_digitText h)
    · exact .inl (hzero h)
  · split at h
    · rcases List.mem_append.mp h with h | h
      · exact .inl (isDigit_of_mem_digitText (List.mem_of_mem_take h))
      · rcases List.mem_cons.mp h with rfl | h
        · exact .inr rfl
        · exact .inl (isDigit_of_mem_digitText (List.mem_of_mem_drop h))
    · rcases List.mem_cons.mp h with rfl | h
      · exact .inl rfl
      · rcases List.mem_cons.mp h with rfl | h
        · exact .inr rfl
        · rcases List.mem_append.mp h with h | h
          · exact .inl (hzero h)
          · exact .inl (isDigit_of_mem_digitText h)

/-- Digits alone are a whole number. -/
theorem ofChars?_whole {whole : List Digit} (hne : whole ≠ []) :
    Decimal.ofChars? (whole.map Digit.toChar) = some ⟨ofDigits whole, 0⟩ := by
  have hempty : whole.isEmpty = false := by simpa using hne
  unfold Decimal.ofChars?
  simp only [spanDigits_map, hempty, Bool.false_and, Bool.false_eq_true, if_false, exponentPart?,
    Option.map_some, List.append_nil]
  rfl

/-- Digits around a point are a number with as many decimals as there are digits behind it. -/
theorem ofChars?_point {whole : List Digit} (hne : whole ≠ []) (fraction : List Digit) :
    Decimal.ofChars? (whole.map Digit.toChar ++ '.' :: fraction.map Digit.toChar) =
      some ⟨ofDigits (whole ++ fraction), -fraction.length⟩ := by
  have hempty : whole.isEmpty = false := by simpa using hne
  have hpoint : NoDigit ('.' :: fraction.map Digit.toChar) := noDigit_cons rfl _
  unfold Decimal.ofChars?
  simp only [spanDigits_append whole hpoint, spanDigits_map, hempty, Bool.false_and,
    Bool.false_eq_true, if_false, exponentPart?, Option.map_some]
  rw [Int.zero_sub]

/-- The digits of a decimal around its point are read as a decimal for the same double. -/
theorem ofChars?_positional (d : Decimal) (hd : d.toIndex < infinityIndex) :
    ∃ d', Decimal.ofChars? d.positional = some d' ∧ d'.toIndex = d.toIndex := by
  obtain ⟨c, e⟩ := d
  have hvalue : appendDigits 0 (digits c) = c := ofDigits_digits c
  unfold Decimal.positional
  dsimp only
  split
  · next he =>
    -- a whole number, with zeros behind its digits
    obtain ⟨n, rfl⟩ := Int.eq_ofNat_of_zero_le he
    have hchars : digitText c ++ List.replicate (n : Int).toNat '0' =
        (digits c ++ List.replicate n 0).map Digit.toChar := by
      rw [List.map_append, List.map_replicate, Int.toNat_natCast]
      rfl
    have hne : digits c ++ List.replicate n 0 ≠ [] := by
      simp [digits_ne_nil]
    refine ⟨_, by rw [hchars, ofChars?_whole hne], ?_⟩
    rw [← toIndex_writtenOut hd]
    show Decimal.toIndex ⟨appendDigits 0 _, 0⟩ = _
    rw [appendDigits_append, hvalue, appendDigits_replicate]
  · next he =>
    split
    · next hplace =>
      -- the point stands between two digits
      have hlength : (digitText c).length = (digits c).length := List.length_map _
      rw [hlength] at hplace ⊢
      obtain ⟨p, hp⟩ := Int.eq_ofNat_of_zero_le (Int.le_of_lt hplace)
      have hwhole : (digits c).take p ≠ [] := by
        simp only [ne_eq, List.take_eq_nil_iff, digits_ne_nil, or_false]
        omega
      have hexponent : -(((digits c).drop p).length : Int) = e := by
        rw [List.length_drop]
        omega
      rw [hp, Int.toNat_natCast]
      refine ⟨⟨c, e⟩, ?_, rfl⟩
      show Decimal.ofChars? (((digits c).map Digit.toChar).take p ++
        '.' :: ((digits c).map Digit.toChar).drop p) = _
      rw [← List.map_take, ← List.map_drop, ofChars?_point hwhole, List.take_append_drop,
        ofDigits_digits, hexponent]
    · next hplace =>
      -- all digits are behind the point
      have hlength : (digitText c).length = (digits c).length := List.length_map _
      rw [hlength] at hplace ⊢
      obtain ⟨z, hz⟩ := Int.eq_ofNat_of_zero_le (show 0 ≤ -(((digits c).length : Int) + e) by omega)
      have hzeros : appendDigits 0 ([0] ++ (List.replicate z 0 ++ digits c)) = c := by
        calc appendDigits 0 (List.replicate 1 0 ++ (List.replicate z 0 ++ digits c))
            = appendDigits 0 (List.replicate z 0 ++ digits c) := appendDigits_zeros 1 _
          _ = appendDigits 0 (digits c) := appendDigits_zeros z _
          _ = c := hvalue
      have hexponent : -((List.replicate z 0 ++ digits c).length : Int) = e := by
        rw [List.length_append, List.length_replicate]
        omega
      rw [hz, Int.toNat_natCast]
      refine ⟨⟨c, e⟩, ?_, rfl⟩
      have hchars : '0' :: '.' :: (List.replicate z '0' ++ digitText c) =
          [(0 : Digit)].map Digit.toChar ++
            '.' :: (List.replicate z 0 ++ digits c).map Digit.toChar := by
        rw [List.map_append, List.map_replicate]
        rfl
      rw [hchars, ofChars?_point (List.cons_ne_nil _ _), hexponent]
      exact congrArg (fun n => some (Decimal.mk n e)) hzeros

/-! ## Plain numerals -/

section Plain

variable {x : Float}

/-- The double of the same index without a sign. -/
theorem unsigned_eq (hx : x.isFinite = true) :
    ofIndex false (index x) = if isNegative x then -x else x := by
  cases hsign : isNegative x with
  | false =>
      have hself := ofIndex_index hx
      rw [hsign] at hself
      exact hself
  | true =>
      have hneg := neg_eq_ofIndex hx
      rw [hsign] at hneg
      exact hneg.symm

/-- The plain numeral of a finite double is a minus sign if it has one, and then digits and points
that are read as the double without its sign. -/
theorem plainChars_of_finite (hx : x.isFinite = true) :
    ∃ cs d, plainChars x = (if isNegative x then '-' :: cs else cs) ∧
      (∀ c ∈ cs, isDigit c = true ∨ c = '.') ∧
      Decimal.ofChars? cs = some d ∧ d.toFloat false = if isNegative x then -x else x := by
  have hindex : index x < infinityIndex := isFinite_iff.mp hx
  have hnumber : ¬infinityIndex < index x := Nat.not_lt_of_lt hindex
  have hsmall : index x ≠ infinityIndex := Nat.ne_of_lt hindex
  by_cases hzero : index x = 0
  · refine ⟨['0'], ⟨0, 0⟩, ?_, ?_, rfl, ?_⟩
    · simp only [plainChars, if_neg hnumber, if_neg hsmall, if_pos hzero]
    · intro c hc
      cases List.mem_singleton.mp hc
      exact .inl rfl
    · rw [← unsigned_eq hx, Decimal.toFloat, toIndex_zero, hzero]
  · have hread : (shortest .up (index x)).toIndex = index x := shortest_toIndex .up hindex
    obtain ⟨d, hd, hvalue⟩ := ofChars?_positional (shortest .up (index x)) (by rwa [hread])
    refine ⟨(shortest .up (index x)).positional, d, ?_, ?_, hd, ?_⟩
    · simp only [plainChars, if_neg hnumber, if_neg hsmall, if_neg hzero]
    · intro c hc
      exact digit_or_point_of_mem_positional hc
    · rw [← unsigned_eq hx, Decimal.toFloat, hvalue, hread]

/-- The plain numeral of a double that is not finite is a word. -/
theorem plainChars_of_not_finite (hx : ¬x.isFinite = true) :
    plainChars x =
      if x.isNaN then ['N', 'a', 'N']
      else if isNegative x then ['-', 'i', 'n', 'f'] else ['i', 'n', 'f'] := by
  rw [isFinite_iff] at hx
  unfold plainChars
  by_cases hnan : infinityIndex < index x
  · rw [if_pos hnan, if_pos (isNaN_iff.mpr hnan)]
  · have hinf : index x = infinityIndex := by omega
    have hno : ¬x.isNaN = true := fun h => hnan (isNaN_iff.mp h)
    rw [if_neg hnan, if_neg hno]
    dsimp only
    rw [if_pos hinf]

end Plain

end FormulaBar.Numeral
