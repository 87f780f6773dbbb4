import FormulaBar.Formula.Lexer
import FormulaBar.Formula.Tree

/-!
# From lexemes to trees

Loosest to tightest bind `+ -`, then `* /` and a multiplication that is left out before an opening
parenthesis, then signs, then `^`. All group to the left but `^`, which groups to the right and
whose exponent may carry a sign: `2 ^ 3 ^ 2` is `2 ^ 9` and `-2 ^ 2` is `-(2 ^ 2)`.

1. **Sub-parsers**: one for each level of the grammar, over the sub-parsers that stand one level
   deeper in parentheses and exponents.
2. **Nesting**: the sub-parsers with a given number of levels left. Only a parenthesis or an
   exponent uses one up.
3. **Parsing** of a whole text.
-/

namespace FormulaBar.Formula

/-- How many parentheses and exponents together may enclose a lexeme. -/
def maxDepth : Nat := 256

/-- How many lexemes a formula may have. -/
def maxLexemes : Nat := 4096

/-! ## Sub-parsers -/

/-- What a sub-parser has read: a tree, the position after it, and the lexemes from there on. -/
abbrev Reading := Tree × Nat × List Lexeme

/-- A sub-parser takes the position it starts at and the lexemes from there on. -/
abbrev SubParser := Nat → List Lexeme → Except Error Reading

/-- The sub-parsers one level deeper. -/
structure Inner where
  /-- What a parenthesis holds. -/
  group : SubParser
  /-- What follows `^`. -/
  exponent : SubParser

/-- A number, or a sum in parentheses. -/
def primary (inner : Inner) : SubParser
  | _, [] => .error .unexpectedEnd
  | pos, .number v :: ts => .ok (.number v, pos + 1, ts)
  | pos, .operator .lparen :: ts =>
    match inner.group (pos + 1) ts with
    | .error e => .error e
    | .ok (_, _, []) => .error .missingClosingParen
    | .ok (tree, pos, .operator .rparen :: ts) => .ok (tree, pos + 1, ts)
    | .ok (_, pos, t :: _) => .error (.unexpectedLexeme pos t)
  | pos, t :: _ => .error (.unexpectedLexeme pos t)

/-- A primary, raised to a power if `^` follows. -/
def power (inner : Inner) : SubParser := fun pos ts =>
  match primary inner pos ts with
  | .ok (base, pos, .operator .pow :: ts) =>
    (inner.exponent (pos + 1) ts).map fun (tree, rest) => (.binary .pow base tree, rest)
  | result => result

/-- A run of signs: whether it negates, and what follows it. -/
def signs : Bool → Nat → List Lexeme → Bool × Nat × List Lexeme
  | negate, pos, .operator .sub :: ts => signs (!negate) (pos + 1) ts
  | negate, pos, .operator .add :: ts => signs negate (pos + 1) ts
  | negate, pos, ts => (negate, pos, ts)

/-- A power under any number of signs, which fold into at most one negation. -/
def unary (inner : Inner) : SubParser := fun pos ts =>
  let (negate, pos, ts) := signs false pos ts
  (power inner pos ts).map fun (tree, rest) => (if negate then .neg tree else tree, rest)

/-- The further factors of a product whose first ones make up `left`. Every factor takes a lexeme,
so their number is bounded by that of the lexemes. -/
def factors (inner : Inner) : Nat → Tree → SubParser
  | 0, left, pos, ts => .ok (left, pos, ts)
  | n + 1, left, pos, ts =>
    match ts with
    | .operator .mul :: rest =>
      unary inner (pos + 1) rest >>= fun (right, pos, ts) =>
        factors inner n (.binary .mul left right) pos ts
    | .operator .div :: rest =>
      unary inner (pos + 1) rest >>= fun (right, pos, ts) =>
        factors inner n (.binary .div left right) pos ts
    | .operator .lparen :: _ =>
      unary inner pos ts >>= fun (right, pos, ts) =>
        factors inner n (.binary .mul left right) pos ts
    | _ => .ok (left, pos, ts)

/-- A product or quotient of unaries. -/
def product (inner : Inner) : SubParser := fun pos ts =>
  unary inner pos ts >>= fun (left, pos, ts) => factors inner ts.length left pos ts

/-- The further terms of a sum whose first ones make up `left`. -/
def terms (inner : Inner) : Nat → Tree → SubParser
  | 0, left, pos, ts => .ok (left, pos, ts)
  | n + 1, left, pos, ts =>
    match ts with
    | .operator .add :: rest =>
      product inner (pos + 1) rest >>= fun (right, pos, ts) =>
        terms inner n (.binary .add left right) pos ts
    | .operator .sub :: rest =>
      product inner (pos + 1) rest >>= fun (right, pos, ts) =>
        terms inner n (.binary .sub left right) pos ts
    | _ => .ok (left, pos, ts)

/-- A sum or difference of products. -/
def sum (inner : Inner) : SubParser := fun pos ts =>
  product inner pos ts >>= fun (left, pos, ts) => terms inner ts.length left pos ts

/-! ## Nesting -/

/-- The sub-parsers one level deeper when `n` more levels are allowed; when none is, going deeper is
the fault. -/
def nested : Nat → Inner
  | 0 => { group := fun _ _ => .error .tooDeep, exponent := fun _ _ => .error .tooDeep }
  | n + 1 => { group := sum (nested n), exponent := unary (nested n) }

/-! ## Parsing -/

/-- The tree of a list of lexemes. -/
def parseLexemes (ts : List Lexeme) : Except Error Tree :=
  if ts = [] then .error .empty
  else if maxLexemes < ts.length then .error .tooLong
  else
    match sum (nested maxDepth) 0 ts with
    | .error e => .error e
    | .ok (tree, _, []) => .ok tree
    | .ok (_, pos, .operator .rparen :: _) => .error (.unmatchedClosingParen pos)
    | .ok (_, pos, t :: _) => .error (.unexpectedLexeme pos t)

/-- The tree of a formula that is given as a row of characters. -/
def parseChars (cs : List Char) : Except Error Tree := lex cs >>= parseLexemes

/-- The value of a formula that is given as a row of characters. -/
def evaluateChars (cs : List Char) : Except Error Float := parseChars cs >>= Tree.eval

/-- The tree of a formula that is given as a string. -/
def parse (text : String) : Except Error Tree := parseChars text.toList

/-- The value of a formula that is given as a string. -/
def evaluateText (text : String) : Except Error Float := evaluateChars text.toList

end FormulaBar.Formula
