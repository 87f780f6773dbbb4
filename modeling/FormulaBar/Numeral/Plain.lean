import FormulaBar.Numeral.Shortest

/-!
# Plain numerals

How a value is shown to the user: the shortest decimal that reads back, always positional, with no
point on a whole number. Numbers that are not finite are written as words.
-/

namespace FormulaBar.Numeral

/-- The digits of a decimal laid out around the point, without exponent; a whole number has no
point. -/
def Decimal.positional (d : Decimal) : List Char :=
  let ds := digitText d.coefficient
  let place : Int := ds.length + d.exponent
  if 0 ≤ d.exponent then ds ++ List.replicate d.exponent.toNat '0'
  else if 0 < place then ds.take place.toNat ++ '.' :: ds.drop place.toNat
  else '0' :: '.' :: (List.replicate (-place).toNat '0' ++ ds)

/-- The characters of a plain numeral. -/
def plainChars (x : Float) : List Char :=
  if infinityIndex < index x then ['N', 'a', 'N']
  else
    let magnitude :=
      if index x = infinityIndex then ['i', 'n', 'f']
      else if index x = 0 then ['0']
      else (shortest .up (index x)).positional
    if isNegative x then '-' :: magnitude else magnitude

/-- The plain numeral of a double. -/
def plain (x : Float) : String := String.ofList (plainChars x)

end FormulaBar.Numeral
