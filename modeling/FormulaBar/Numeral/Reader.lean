import FormulaBar.Numeral.Decimal

/-!
# Reading numerals

1. **Unsigned decimals**: digits with an optional point and at least one digit, then an optional
   exponent.
2. **Signed numerals**, also the words for infinity and for what is not a number.
3. **Typed numbers**: what a user may commit as a number, which is a finite one.
-/

namespace FormulaBar.Numeral

open FormulaBar.Text (Digit spanDigits spanSign trimChars)

/-! ## Unsigned decimals -/

/-- A whole number with an optional sign, filling the text. -/
def exponentDigits? (cs : List Char) : Option Int :=
  match spanDigits (spanSign cs).2 with
  | (d :: ds, []) =>
    let n : Int := ofDigits (d :: ds)
    some (if (spanSign cs).1 then -n else n)
  | _ => none

/-- The exponent part that ends a numeral; nothing stands for zero. -/
def exponentPart? : List Char → Option Int
  | [] => some 0
  | c :: cs => if c = 'e' ∨ c = 'E' then exponentDigits? cs else none

/-- Reads a whole text as an unsigned decimal. -/
def Decimal.ofChars? (cs : List Char) : Option Decimal :=
  let (whole, rest) := spanDigits cs
  let (fraction, rest) :=
    match rest with
    | '.' :: rest => spanDigits rest
    | rest => ([], rest)
  if whole.isEmpty && fraction.isEmpty then none
  else
    (exponentPart? rest).map fun e =>
      ⟨ofDigits (whole ++ fraction), e - (fraction.length : Int)⟩

/-! ## Signed numerals -/

/-- Whether a text is one of the given lowercase words, the case of ASCII letters aside. -/
def isWord (words : List (List Char)) (cs : List Char) : Bool :=
  words.contains (cs.map Char.toLower)

/-- Reads a numeral without its sign. -/
def ofUnsigned? (negative : Bool) (cs : List Char) : Option Float :=
  if isWord ["inf".toList, "infinity".toList] cs then some (ofIndex negative infinityIndex)
  else if isWord ["nan".toList] cs then some (ofIndex false (infinityIndex + Nat.pow 2 51))
  else (Decimal.ofChars? cs).map (Decimal.toFloat negative)

/-- Reads a row of characters, all of it, as a numeral with an optional sign. -/
def ofChars? (cs : List Char) : Option Float := ofUnsigned? (spanSign cs).1 (spanSign cs).2

/-- Reads a string, all of it, as a numeral with an optional sign. -/
def ofText? (s : String) : Option Float := ofChars? s.toList

/-! ## Typed numbers -/

/-- The number that a typed text commits: blanks at the ends are ignored, and the rest has to be a
numeral of a finite number. -/
def typed? (s : String) : Option Float :=
  (ofChars? (trimChars s.toList)).filter Float.isFinite

end FormulaBar.Numeral
