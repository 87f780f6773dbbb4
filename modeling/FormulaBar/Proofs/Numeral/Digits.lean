import FormulaBar.Numeral.Decimal
import Mathlib.Algebra.Group.Nat.Defs

/-!
# Rows of digits

1. **Value** of a row of digits, and that the digits of a number have its value.
2. **Reading** a row of digits off the front of a text.
-/

namespace FormulaBar.Numeral

open FormulaBar.Text (Digit digit? isDigit spanDigits digit?_toChar)

/-! ## Value -/

/-- The number that a row of digits makes of the number before it. -/
def appendDigits (n : Nat) (ds : List Digit) : Nat := ds.foldl (fun n d => 10 * n + d.val) n

theorem appendDigits_append (n : Nat) (ds es : List Digit) :
    appendDigits n (ds ++ es) = appendDigits (appendDigits n ds) es :=
  List.foldl_append

theorem appendDigits_digitsOnto (n : Nat) (ds : List Digit) :
    appendDigits 0 (digitsOnto n ds) = appendDigits n ds := by
  fun_induction digitsOnto n ds with
  | case1 n ds hlt =>
      show appendDigits (10 * 0 + n) ds = appendDigits n ds
      rw [Nat.mul_zero, Nat.zero_add]
  | case2 n ds hge ih =>
      rw [ih]
      show appendDigits (10 * (n / 10) + n % 10) ds = appendDigits n ds
      rw [Nat.div_add_mod]

/-- The digits of a number have its value. -/
theorem ofDigits_digits (n : Nat) : ofDigits (digits n) = n :=
  appendDigits_digitsOnto n []

/-- Zeros in front of other digits have no value. -/
theorem appendDigits_zeros (z : Nat) (ds : List Digit) :
    appendDigits 0 (List.replicate z 0 ++ ds) = appendDigits 0 ds := by
  induction z with
  | zero => rfl
  | succ z ih =>
      rw [List.replicate_succ, List.cons_append]
      exact ih

/-- Zeros behind other digits make the number grow by powers of ten. -/
theorem appendDigits_replicate (n z : Nat) :
    appendDigits n (List.replicate z 0) = n * 10 ^ z := by
  induction z generalizing n with
  | zero => rw [Nat.pow_zero, Nat.mul_one]; rfl
  | succ z ih =>
      rw [List.replicate_succ]
      show appendDigits (10 * n + 0) (List.replicate z 0) = _
      rw [ih, Nat.pow_succ, Nat.add_zero, Nat.mul_comm 10, Nat.mul_assoc, Nat.mul_comm 10]

theorem digitsOnto_ne_nil (n : Nat) (ds : List Digit) : digitsOnto n ds ≠ [] := by
  fun_induction digitsOnto n ds with
  | case1 n ds hlt => exact List.cons_ne_nil _ _
  | case2 n ds hge ih => exact ih

theorem digits_ne_nil (n : Nat) : digits n ≠ [] := digitsOnto_ne_nil n []

/-- Of a number other than zero the first digit is not zero. -/
theorem head_digitsOnto {n : Nat} {ds : List Digit} (hn : 0 < n) {d : Digit} {rest : List Digit}
    (h : digitsOnto n ds = d :: rest) : d.val ≠ 0 := by
  fun_induction digitsOnto n ds with
  | case1 n ds hlt =>
      cases h
      exact Nat.ne_of_gt hn
  | case2 n ds hge ih => exact ih (by omega) h

/-- No number has a zero in front of its other digits. -/
theorem digits_of_zero {n : Nat} {d : Digit} {rest : List Digit} (h : digits n = d :: rest)
    (hzero : d.val = 0) : rest = [] := by
  rcases Nat.eq_zero_or_pos n with rfl | hpos
  · rw [digits, digitsOnto] at h
    cases h
    rfl
  · exact absurd hzero (head_digitsOnto hpos h)

/-! ## Reading -/

/-- No digit stands at the front of a text. -/
def NoDigit (cs : List Char) : Prop := ∀ c ∈ cs.head?, digit? c = none

theorem noDigit_nil : NoDigit [] := by
  intro c hc
  cases hc

theorem noDigit_cons {c : Char} (h : digit? c = none) (cs : List Char) : NoDigit (c :: cs) := by
  intro c' hc
  cases hc
  exact h

/-- A row of digits is read up to where it ends. -/
theorem spanDigits_append (ds : List Digit) {rest : List Char} (hrest : NoDigit rest) :
    spanDigits (ds.map Digit.toChar ++ rest) = (ds, rest) := by
  induction ds with
  | nil =>
      cases rest with
      | nil => rfl
      | cons c cs =>
          have hc : digit? c = none := hrest c rfl
          show spanDigits (c :: cs) = ([], c :: cs)
          rw [spanDigits, hc]
  | cons d ds ih =>
      show spanDigits (d.toChar :: (ds.map Digit.toChar ++ rest)) = (d :: ds, rest)
      rw [spanDigits, digit?_toChar, ih]

theorem spanDigits_map (ds : List Digit) : spanDigits (ds.map Digit.toChar) = (ds, []) := by
  have h := spanDigits_append ds noDigit_nil
  rwa [List.append_nil] at h

theorem isDigit_toChar (d : Digit) : isDigit d.toChar = true := by
  rw [isDigit, digit?_toChar]
  rfl

theorem toChar_ne (d : Digit) {c : Char} (h : digit? c = none) : d.toChar ≠ c := by
  rintro rfl
  rw [digit?_toChar] at h
  cases h

/-- A character that stands for a digit is the one of that digit. -/
theorem toChar_of_digit? {c : Char} {d : Digit} (h : digit? c = some d) : d.toChar = c := by
  unfold digit? at h
  split at h
  · next hrange =>
    cases h
    show Char.ofNat (48 + (c.toNat - 48)) = c
    rw [Nat.add_sub_cancel' hrange.1, Char.ofNat_toNat]
  · cases h

/-- Whatever is read as digits are the characters of these digits. -/
theorem spanDigits_eq {cs rest : List Char} {ds : List Digit} (h : spanDigits cs = (ds, rest)) :
    cs = ds.map Digit.toChar ++ rest ∧ NoDigit rest := by
  induction cs generalizing ds with
  | nil =>
      cases h
      exact ⟨rfl, noDigit_nil⟩
  | cons c cs ih =>
      rw [spanDigits] at h
      cases hc : digit? c with
      | none =>
          rw [hc] at h
          cases h
          exact ⟨rfl, noDigit_cons hc cs⟩
      | some d =>
          rw [hc] at h
          cases h
          obtain ⟨hcs, hrest⟩ := ih rfl
          refine ⟨?_, hrest⟩
          rw [List.map_cons, List.cons_append, ← hcs, toChar_of_digit? hc]

end FormulaBar.Numeral
