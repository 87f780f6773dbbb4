import FormulaBar.Formula.Error

/-!
# Expression trees

1. **Trees**: numbers, negation and five binary operations.
2. **Evaluation** in doubles, operands from left to right. The first fault is the answer: a division
   by zero, or a literal or result that is not finite.
3. **Written form**, fully parenthesised with the operation in front.
-/

namespace FormulaBar.Formula

/-! ## Trees -/

/-- The binary operations. -/
inductive BinaryOp where
  | add
  | sub
  | mul
  | div
  | pow
deriving Repr, DecidableEq

/-- An arithmetic expression. -/
inductive Tree where
  | number (value : Float)
  | neg (operand : Tree)
  | binary (op : BinaryOp) (left right : Tree)
deriving Repr, DecidableEq

/-! ## Evaluation -/

/-- A finite number is a result, any other is a fault. -/
def finite (v : Float) : Except Error Float :=
  if v.isFinite then .ok v else .error .nonFinite

/-- One operation on two values. A divisor that equals zero, of either sign, is refused first. -/
def BinaryOp.apply (op : BinaryOp) (left right : Float) : Except Error Float :=
  match op with
  | .add => finite (left + right)
  | .sub => finite (left - right)
  | .mul => finite (left * right)
  | .div => if right == 0 then .error .divisionByZero else finite (left / right)
  | .pow => finite (left.pow right)

/-- The value of an expression. -/
def Tree.eval : Tree → Except Error Float
  | .number v => finite v
  | .neg operand => operand.eval.map (- ·)
  | .binary op left right => do
    let l ← left.eval
    let r ← right.eval
    op.apply l r

/-! ## Written form -/

/-- The sign of an operation. -/
def BinaryOp.sign : BinaryOp → String
  | .add => "+"
  | .sub => "-"
  | .mul => "*"
  | .div => "/"
  | .pow => "^"

/-- An expression with its operation in front and parentheses around every operation. -/
def Tree.text : Tree → String
  | .number v => Numeral.plain v
  | .neg operand => "(neg " ++ operand.text ++ ")"
  | .binary op left right =>
    "(" ++ op.sign ++ " " ++ left.text ++ " " ++ right.text ++ ")"

end FormulaBar.Formula
