import FormulaBar.Formula.Lexeme

/-!
# Why a formula has no value

The causes, and the message that each one shows. None is fatal to the editor, which keeps the cause
as its result and goes on.
-/

namespace FormulaBar.Formula

/-- A cause for which a formula has no value. Positions count lexemes from zero. -/
inductive Error where
  /-- There is nothing but blanks. -/
  | empty
  /-- No lexeme begins with this character. -/
  | unexpectedCharacter (c : Char)
  /-- Digits and points that form no number. -/
  | invalidNumber (literal : String)
  /-- The text ends where an operand is due. -/
  | unexpectedEnd
  /-- A lexeme where it cannot stand. -/
  | unexpectedLexeme (position : Nat) (found : Lexeme)
  /-- An open parenthesis is never closed. -/
  | missingClosingParen
  /-- A parenthesis is closed that was never opened. -/
  | unmatchedClosingParen (position : Nat)
  /-- A divisor is zero. -/
  | divisionByZero
  /-- A literal or an intermediate result is not a finite number. -/
  | nonFinite
  /-- Parentheses and exponents nest too deeply. -/
  | tooDeep
  /-- There are too many lexemes. -/
  | tooLong
deriving Repr, DecidableEq

open Numeral (natText)

/-- The message of a cause. -/
def Error.message : Error → String
  | .empty => "Empty expression"
  | .unexpectedCharacter c => "Unexpected character: " ++ String.singleton c
  | .invalidNumber literal => "Invalid number: " ++ literal
  | .unexpectedEnd => "Unexpected end of expression"
  | .unexpectedLexeme position found =>
    "Unexpected '" ++ found.text ++ "' at position " ++ natText position
  | .missingClosingParen => "Missing closing parenthesis"
  | .unmatchedClosingParen position =>
    "Unmatched closing parenthesis at position " ++ natText position
  | .divisionByZero => "Division by zero"
  | .nonFinite => "Result is not a finite number"
  | .tooDeep => "Expression is nested too deeply"
  | .tooLong => "Expression is too long"

end FormulaBar.Formula
