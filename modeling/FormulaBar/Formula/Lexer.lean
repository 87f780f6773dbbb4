import FormulaBar.Formula.Error
import FormulaBar.Numeral.Reader

/-!
# From text to lexemes

1. **Literals**: the longest run of digits and points, then an exponent if digits follow its mark.
2. **Lexing**: blanks are skipped, every other character belongs to exactly one lexeme, and the
   leftmost fault is reported.
-/

namespace FormulaBar.Formula

open FormulaBar.Text (isBlank isDigit spanSign)

/-! ## Literals -/

/-- Whether a character can stand in the mantissa of a literal. -/
def isMantissa (c : Char) : Bool := isDigit c || c == '.'

/-- How many characters an exponent at the front of a text takes. A mark that no digit follows is no
exponent, and then it is none. -/
def exponentLength : List Char → Nat
  | [] => 0
  | c :: cs =>
    let rest := (spanSign cs).2
    if (c = 'e' ∨ c = 'E') ∧ rest.takeWhile isDigit ≠ [] then
      1 + (cs.length - rest.length) + (rest.takeWhile isDigit).length
    else 0

/-- How many characters the literal at the front of a text takes. -/
def literalLength (cs : List Char) : Nat :=
  (cs.takeWhile isMantissa).length + exponentLength (cs.dropWhile isMantissa)

/-- A literal that begins with a mantissa character takes at least this one. -/
theorem literalLength_pos {c : Char} (cs : List Char) (h : isMantissa c = true) :
    0 < literalLength (c :: cs) := by
  simp only [literalLength, List.takeWhile_cons_of_pos h, List.length_cons]
  omega

/-! ## Lexing -/

/-- The lexemes of a text. -/
def lex : List Char → Except Error (List Lexeme)
  | [] => .ok []
  | c :: cs =>
    if isBlank c then lex cs
    else
      match Operator.ofChar? c with
      | some op => (lex cs).map (.operator op :: ·)
      | none =>
        if _ : isMantissa c = true then
          let n := literalLength (c :: cs)
          match Numeral.Decimal.ofChars? ((c :: cs).take n) with
          | some d => (lex ((c :: cs).drop n)).map (.number (d.toFloat false) :: ·)
          | none => .error (.invalidNumber (String.ofList ((c :: cs).take n)))
        else .error (.unexpectedCharacter c)
termination_by cs => cs.length
decreasing_by
  · simp
  · simp
  · have := literalLength_pos cs ‹isMantissa c = true›
    simp only [List.length_drop, List.length_cons]
    omega

end FormulaBar.Formula
