/-!
# Doubles in exact arithmetic

A finite double is a whole number of units of `2 ^ -1074`. Its sign apart, it is named by its
*index*: the doubles in increasing order are `0, 1, 2, …`, and the index is the lower 63 bits of
the bit pattern. Powers are `Nat.pow`, which means the same whatever else is imported.

1. **Index and magnitude**: from a double to its index, and from an index to the number of units.
2. **Rounding**: the index of the double nearest to a quotient, a tie going to the even index.
3. **Assembly**: the double with a given sign and index.
-/

namespace FormulaBar.Numeral

/-! ## Index and magnitude -/

/-- The number of units in one. -/
def unitsPerOne : Nat := Nat.pow 2 1074

/-- The index of infinity; the patterns above it are not numbers. -/
def infinityIndex : Nat := 2047 * Nat.pow 2 52

/-- Whether the sign bit is set. -/
def isNegative (x : Float) : Bool := decide (Nat.pow 2 63 ≤ x.toBits.toNat)

/-- The place of a double among the doubles of its sign. -/
def index (x : Float) : Nat := x.toBits.toNat % Nat.pow 2 63

/-- The number of units in the double with index `k`: below `2 ^ 53` the index itself, then twice
as far apart at each further multiple of `2 ^ 52`. -/
def units (k : Nat) : Nat :=
  if k < Nat.pow 2 52 then k
  else (Nat.pow 2 52 + k % Nat.pow 2 52) * Nat.pow 2 (k / Nat.pow 2 52 - 1)

/-! ## Rounding -/

/-- The quotient rounded to the nearest whole number, a tie going to the even one. -/
def divToNearest (num den : Nat) : Nat :=
  let low := num / den
  -- Both sides are doubled, so that the middle between two neighbours is a whole number.
  let middle := (2 * low + 1) * den
  if 2 * num < middle then low
  else if middle < 2 * num then low + 1
  else low + low % 2

/-- The index of the double nearest to `num / den`. Numbers too large for a finite double get the
index of infinity. -/
def nearestIndex (num den : Nat) : Nat :=
  let scaled := num * unitsPerOne
  -- Only the 53 leading binary digits are kept; numbers with fewer units are exact to the unit.
  let shift := (scaled / den).log2 - 52
  min (shift * Nat.pow 2 52 + divToNearest scaled (den * Nat.pow 2 shift)) infinityIndex

/-! ## Assembly -/

/-- The double with the given sign bit and index. -/
def ofIndex (negative : Bool) (k : Nat) : Float :=
  Float.ofBits (UInt64.ofNat (if negative then Nat.pow 2 63 + k else k))

end FormulaBar.Numeral
