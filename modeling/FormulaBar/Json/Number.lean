import FormulaBar.Numeral.Plain

/-!
# JSON number literals

1. **Literals**: sign, whole part, fraction digits and exponent, as they are written.
2. **Written form** of a literal.
3. **From a double**: the shortest digits, positional with at least one decimal from `1e-5` up to
   `1e16`, scientific otherwise; an exact tie goes to the even digit.
4. **As a double**: the first digits, as many as fit a 64-bit word, are scaled by a power of ten in
   double arithmetic; numbers out of range are refused.
5. **As an integer**, and as the id of a record.
-/

namespace FormulaBar.Json

open FormulaBar.Text (Digit)
open FormulaBar.Numeral

/-! ## Literals -/

/-- A number literal. An empty fraction stands for no decimal point. -/
structure Number where
  negative : Bool
  whole : Nat
  fraction : List Digit
  exponent : Option Int
deriving Repr, DecidableEq

namespace Number

/-- The literal of a whole number. -/
def ofNat (n : Nat) : Number := ⟨false, n, [], none⟩

/-! ## Written form -/

/-- The exponent of a literal, with its mark and sign. -/
def exponentChars (e : Int) : List Char :=
  'e' :: (if e < 0 then '-' else '+') :: digitText e.natAbs

/-- The characters of a literal. -/
def chars (n : Number) : List Char :=
  (if n.negative then ['-'] else []) ++ digitText n.whole ++
    (if n.fraction = [] then [] else '.' :: n.fraction.map Digit.toChar) ++
    (match n.exponent with
     | none => []
     | some e => exponentChars e)

/-! ## From a double -/

/-- The literal of an unsigned decimal: positional while the leading digit stands from the fifth
decimal up to the sixteenth whole place. -/
def ofDecimal (negative : Bool) (d : Decimal) : Number :=
  let ds := digits d.coefficient
  let place : Int := ds.length + d.exponent
  if -4 ≤ place ∧ place ≤ 16 then
    if 0 ≤ d.exponent then ⟨negative, d.coefficient * Nat.pow 10 d.exponent.toNat, [0], none⟩
    else if 0 < place then
      ⟨negative, ofDigits (ds.take place.toNat), ds.drop place.toNat, none⟩
    else ⟨negative, 0, List.replicate (-place).toNat 0 ++ ds, none⟩
  else ⟨negative, ofDigits (ds.take 1), ds.drop 1, some (place - 1)⟩

/-- The literal of a double, if it is finite. -/
def ofFloat? (x : Float) : Option Number :=
  if infinityIndex ≤ index x then none
  else if index x = 0 then some ⟨isNegative x, 0, [0], none⟩
  else some (ofDecimal (isNegative x) (shortest .even (index x)))

/-! ## As a double -/

/-- The largest power of ten that is a finite double. -/
def maxPower : Nat := 308

/-- The double nearest to a power of ten. -/
def powerOfTen (n : Nat) : Float := Decimal.toFloat false ⟨1, n⟩

/-- The leading digits of a whole number that fit a 64-bit word, and how many are cut off. -/
def clip (n : Nat) : Nat × Nat :=
  if n < Nat.pow 2 64 then (n, 0) else ((clip (n / 10)).1, (clip (n / 10)).2 + 1)
termination_by n
decreasing_by
  all_goals
    have hpos : 0 < Nat.pow 2 64 := Nat.two_pow_pos 64
    omega

/-- Appends the digits that still fit a 64-bit word, and counts them. -/
def extend : Nat → List Digit → Nat × Nat
  | s, [] => (s, 0)
  | s, d :: ds =>
    if 10 * s + d.val < Nat.pow 2 64 then
      ((extend (10 * s + d.val) ds).1, (extend (10 * s + d.val) ds).2 + 1)
    else (s, 0)

/-- Divides by a power of ten, in steps that are doubles. -/
def shrink (f : Float) (n : Nat) : Float :=
  if n ≤ maxPower then f / powerOfTen n
  else if f == 0 then f
  else shrink (f / powerOfTen maxPower) (n - maxPower)
termination_by n
decreasing_by simp only [maxPower] at *; omega

/-- A number times a power of ten, if it is finite. -/
def scale (f : Float) (e : Int) : Option Float :=
  if e < 0 then some (shrink f e.natAbs)
  else if e.natAbs ≤ maxPower then (some (f * powerOfTen e.natAbs)).filter (! ·.isInf)
  else if f == 0 then some f
  else none

/-- The magnitude of a literal as a double, if it is in range. An exponent beyond 32 bits is not
added up: it gives zero, unless it would make a number grow. -/
def magnitude? (n : Number) : Option Float :=
  let (start, cut) := clip n.whole
  let (significand, taken) := extend start n.fraction
  let e := n.exponent.getD 0
  if Nat.pow 2 31 ≤ e.natAbs then
    if significand ≠ 0 ∧ 0 < e then none else some 0
  else scale (Float.ofNat significand) (e + cut - taken)

/-- A literal as a double, if it is in range. -/
def toFloat? (n : Number) : Option Float :=
  n.magnitude?.map fun f => if n.negative then -f else f

/-! ## As an integer -/

/-- Whether a literal has neither fraction nor exponent. -/
def isInteger (n : Number) : Bool := n.fraction.isEmpty && n.exponent.isNone

/-- A literal as an unsigned 64-bit word. -/
def toUInt64? (n : Number) : Option UInt64 :=
  if n.isInteger && !n.negative && decide (n.whole < Nat.pow 2 64) then some (UInt64.ofNat n.whole)
  else none

/-- The text of a literal used as an id: a signed 64-bit integer as it stands, any other number as
the plain numeral of its double. -/
def idText? (n : Number) : Option String :=
  if n.isInteger && !n.negative && decide (n.whole < Nat.pow 2 63) then some (natText n.whole)
  else if n.isInteger && n.negative && decide (0 < n.whole ∧ n.whole ≤ Nat.pow 2 63) then
    some ("-" ++ natText n.whole)
  else n.toFloat?.map plain

end Number

end FormulaBar.Json
