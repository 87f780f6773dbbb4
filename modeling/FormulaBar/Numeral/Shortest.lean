import FormulaBar.Numeral.Decimal

/-!
# The shortest decimal of a double

`shortest tie k` is a decimal with the fewest digits among those that read back as the double with
index `k`, and of these the one nearest to it. Each candidate is tested by reading it back, so
reading back holds by construction.

1. **Grid**: the two decimals next to a double at a given decimal place.
2. **Search** over the number of digits.
-/

namespace FormulaBar.Numeral

/-- Which of two neighbouring coefficients is taken when a double lies half-way between them. -/
inductive Tie where
  /-- The larger one. -/
  | up
  /-- The even one. -/
  | even
deriving Repr, DecidableEq

/-- Whether the larger one of `low` and `low + 1` is taken half-way between them. -/
def Tie.takesUpper : Tie → Nat → Bool
  | .up, _ => true
  | .even, low => low % 2 == 1

/-! ## Grid -/

/-- The decimal place just above the leading digit of `m` units: the least `p` such that the number
is below `10 ^ p`. -/
def leadingPlace (m : Nat) : Int :=
  if unitsPerOne ≤ m then digitCount (m / unitsPerOne)
  else 1 - (digitCount ((unitsPerOne - 1) / m) : Int)

/-- The decimal with a given coefficient at place `p`, where ten is carried to the next place. It
arises when a single nine is rounded up. -/
def atPlace (coefficient : Nat) (p : Int) : Decimal :=
  if coefficient = 10 then ⟨1, p + 1⟩ else ⟨coefficient, p⟩

/-- The decimal at place `p` that reads back as the double with index `k`, if a neighbour of the
double on that grid does; of two, the nearer one. Only a neighbour that is no further away than the
next double is read back. -/
def neighbour? (tie : Tie) (k : Nat) (p : Int) : Option Decimal :=
  let scale := Nat.pow 10 (-p).toNat
  let num := units k * scale
  let den := unitsPerOne * Nat.pow 10 p.toNat
  let low := num / den
  let past := num - low * den
  let reach := (units (k + 1) - units k) * scale
  let below := atPlace low p
  let above := atPlace (low + 1) p
  match past ≤ reach && below.toIndex == k, den - past ≤ reach && above.toIndex == k with
  | true, true =>
    if 2 * past < den then some below
    else if den < 2 * past then some above
    else some (if tie.takesUpper low then above else below)
  | true, false => some below
  | false, true => some above
  | false, false => none

/-! ## Search -/

/-- The exact value of a double as a decimal. -/
def exactDecimal (k : Nat) : Decimal := ⟨units k * Nat.pow 5 1074, -1074⟩

/-- The decimal with the fewest digits that reads back as the double with index `k`, and of these
the nearest to it. Seventeen digits always suffice; the exact value is the last resort that makes
this evident. -/
def shortest (tie : Tie) (k : Nat) : Decimal :=
  if k = 0 then ⟨0, 0⟩
  else
    let place := leadingPlace (units k)
    ((List.range 17).findSome? fun (n : Nat) => neighbour? tie k (place - (n + 1))).getD
      (exactDecimal k)

end FormulaBar.Numeral
