import FormulaBar.Operator
import FormulaBar.Numeral.Plain

/-!
# Lexemes

The words of a formula text: numbers and operators.
-/

namespace FormulaBar.Formula

/-- A word of a formula. -/
inductive Lexeme where
  | number (value : Float)
  | operator (op : Operator)
deriving Repr, DecidableEq

/-- How a lexeme is named in a message: a number by its plain numeral, an operator by its glyph. -/
def Lexeme.text : Lexeme → String
  | .number v => Numeral.plain v
  | .operator op => op.text

end FormulaBar.Formula
