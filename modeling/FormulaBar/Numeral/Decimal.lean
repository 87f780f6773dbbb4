import FormulaBar.Numeral.Binary
import FormulaBar.Text.Class

/-!
# Decimal numbers

A decimal is a whole number of tens-powers, `coefficient * 10 ^ exponent`. It has an exact value,
and `Decimal.toIndex` gives the double nearest to that value.

1. **Digits**: the decimal digits of a whole number, and back.
2. **Nearest double** of a decimal.
-/

namespace FormulaBar.Numeral

open FormulaBar.Text (Digit)

/-! ## Digits -/

/-- The decimal digits of a number, the leading one first, in front of other digits. -/
def digitsOnto (n : Nat) (ds : List Digit) : List Digit :=
  if h : n < 10 then ⟨n, h⟩ :: ds else digitsOnto (n / 10) (⟨n % 10, by omega⟩ :: ds)
termination_by n

/-- The decimal digits of a number, the leading one first. -/
def digits (n : Nat) : List Digit := digitsOnto n []

/-- How many decimal digits a number has. The number of its binary digits tells where to look; only
if that fails the digits are counted. -/
def digitCount (n : Nat) : Nat :=
  -- The factor is just below the decimal logarithm of two.
  let guess := n.log2 * 1233 / 4096
  if Nat.pow 10 guess ≤ n ∧ n < Nat.pow 10 (guess + 1) then guess + 1
  else if Nat.pow 10 (guess + 1) ≤ n ∧ n < Nat.pow 10 (guess + 2) then guess + 2
  else (digits n).length

/-- The number that a row of digits stands for. -/
def ofDigits (ds : List Digit) : Nat := ds.foldl (fun n d => 10 * n + d.val) 0

/-- The characters of the decimal text of a number. -/
def digitText (n : Nat) : List Char := (digits n).map Digit.toChar

/-- The decimal text of a number as a string. -/
def natText (n : Nat) : String := String.ofList (digitText n)

/-! ## Nearest double -/

/-- The number `coefficient * 10 ^ exponent`. -/
structure Decimal where
  coefficient : Nat
  exponent : Int
deriving Repr, DecidableEq

/-- The index of the double nearest to a decimal. Exponents far outside the range of doubles are
settled without building the power. -/
def Decimal.toIndex (d : Decimal) : Nat :=
  if d.coefficient = 0 then 0
  else if 400 < d.exponent then infinityIndex
  else if d.exponent + d.coefficient.log2 < -400 then 0
  else if 0 ≤ d.exponent then nearestIndex (d.coefficient * Nat.pow 10 d.exponent.toNat) 1
  else nearestIndex d.coefficient (Nat.pow 10 (-d.exponent).toNat)

/-- The double nearest to a decimal, with the given sign. -/
def Decimal.toFloat (negative : Bool) (d : Decimal) : Float := ofIndex negative d.toIndex

end FormulaBar.Numeral
