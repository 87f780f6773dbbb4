/-!
# Operator glyphs

The seven glyphs that stand for themselves in a formula: five arithmetic operators and the two
parentheses. A glyph typed into the editor commits a token instead of entering the text buffer.
-/

namespace FormulaBar

/-- The operators, parentheses included. -/
inductive Operator where
  | add
  | sub
  | mul
  | div
  | pow
  | lparen
  | rparen
deriving Repr, DecidableEq

namespace Operator

/-- All operators. -/
def all : List Operator := [.add, .sub, .mul, .div, .lparen, .rparen, .pow]

/-- The character of an operator. -/
def glyph : Operator → Char
  | .add => '+'
  | .sub => '-'
  | .mul => '*'
  | .div => '/'
  | .pow => '^'
  | .lparen => '('
  | .rparen => ')'

/-- The text of an operator: its glyph alone. -/
def text (op : Operator) : String := String.singleton op.glyph

/-- The operator with a given glyph. -/
def ofChar? : Char → Option Operator
  | '+' => some .add
  | '-' => some .sub
  | '*' => some .mul
  | '/' => some .div
  | '^' => some .pow
  | '(' => some .lparen
  | ')' => some .rparen
  | _ => none

/-- Reads a text that is exactly one glyph. -/
def ofText? (s : String) : Option Operator :=
  match s.toList with
  | [c] => ofChar? c
  | _ => none

theorem ofChar?_glyph (op : Operator) : ofChar? op.glyph = some op := by
  cases op <;> rfl

theorem ofText?_text (op : Operator) : ofText? op.text = some op := by
  cases op <;> rfl

end Operator

end FormulaBar
