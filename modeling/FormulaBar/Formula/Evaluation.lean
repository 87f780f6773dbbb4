import FormulaBar.Formula.Parser
import FormulaBar.Token

/-!
# The value of a token stream

A stream is written as infix text, operators as their glyph and all else as the plain numeral of its
value, and that text is evaluated. So the value depends on operators and values alone, and a
variable of negative value stands for a sign and a number.
-/

namespace FormulaBar.Formula

/-- The result of a token stream. Nothing entered is kept apart from something entered that has no
value, so that a blank editor shows no fault. -/
inductive Evaluation where
  | blank
  | value (v : Float)
  | invalid (cause : Error)
deriving Repr, DecidableEq

namespace Evaluation

/-- The number of a result that is one. -/
def value? : Evaluation → Option Float
  | .value v => some v
  | _ => none

/-- The cause of a result that is none. -/
def cause? : Evaluation → Option Error
  | .invalid cause => some cause
  | _ => none

/-- Whether something was entered that has no value. -/
def isInvalid (e : Evaluation) : Bool := e.cause?.isSome

/-- The text of the result line. -/
def text : Evaluation → String
  | .blank => ""
  | .value v => Numeral.plain v
  | .invalid _ => "Invalid formula"

/-- The result of an evaluation that was tried. -/
def ofExcept : Except Error Float → Evaluation
  | .ok v => .value v
  | .error cause => .invalid cause

theorem ofExcept_eq_value_iff {x : Except Error Float} {v : Float} :
    ofExcept x = .value v ↔ x = .ok v := by
  cases x <;> simp [ofExcept]

theorem ofExcept_eq_invalid_iff {x : Except Error Float} {cause : Error} :
    ofExcept x = .invalid cause ↔ x = .error cause := by
  cases x <;> simp [ofExcept]

end Evaluation

/-- How a content is written in the infix text. -/
def termChars : Content → List Char
  | .operator op => [op.glyph]
  | content => Numeral.plainChars content.value

/-- The characters of the infix text of a stream: its terms with single spaces between them. -/
def infixChars (tokens : List Token) : List Char :=
  [' '].intercalate (tokens.map fun t => termChars t.content)

/-- The infix text of a stream as a string. -/
def infixText (tokens : List Token) : String := String.ofList (infixChars tokens)

/-- The result of a token stream. -/
def evaluate (tokens : List Token) : Evaluation :=
  match tokens with
  | [] => .blank
  | _ => .ofExcept (evaluateChars (infixChars tokens))

end FormulaBar.Formula
