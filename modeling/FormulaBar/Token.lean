import FormulaBar.Candidate
import FormulaBar.Operator
import FormulaBar.Numeral.Plain

/-!
# Tokens

1. **Ids**: a token's id names it for as long as it lives. Ids come from a supply that never gives
   one out twice.
2. **Contents**: a typed number, an operator, or a variable bound from a candidate.
3. **Tokens**: a content under an id. Replacing a token keeps the id and changes the content.
-/

namespace FormulaBar

/-! ## Ids -/

/-- The name of a token. -/
structure TokenId where
  number : Nat
deriving Repr, DecidableEq

/-- The written form of an id. -/
def TokenId.text (id : TokenId) : String := "tok-" ++ Numeral.natText id.number

/-- A supply of ids: all numbers from `next` on are still to be given out. -/
structure IdSupply where
  next : Nat
deriving Repr, DecidableEq

/-- The supply from which no id has been taken. The number zero names no token. -/
def IdSupply.initial : IdSupply := ⟨1⟩

/-- Takes an id from the supply. -/
def IdSupply.fresh (supply : IdSupply) : TokenId × IdSupply := (⟨supply.next⟩, ⟨supply.next + 1⟩)

/-! ## Contents -/

/-- What a token stands for. -/
inductive Content where
  /-- A number, as it was typed and as it was read. -/
  | number (text : String) (value : Float)
  | operator (op : Operator)
  /-- A named value. `source` is the id of the candidate it is bound to. -/
  | variable (name category : String) (value : Float) (source : String)
deriving Repr, DecidableEq

/-- The kinds of tokens. -/
inductive Kind where
  | variable
  | operator
  | number
deriving Repr, DecidableEq

/-- The written form of a kind. -/
def Kind.text : Kind → String
  | .variable => "variable"
  | .operator => "operator"
  | .number => "number"

namespace Content

/-- A number whose text is its own plain numeral. -/
def ofValue (v : Float) : Content := .number (Numeral.plain v) v

/-- A variable bound to a candidate. -/
def ofCandidate (c : Candidate) : Content := .variable c.name c.category c.value c.id

/-- The kind of a content. -/
def kind : Content → Kind
  | .number .. => .number
  | .operator _ => .operator
  | .variable .. => .variable

/-- The text that is shown for a content. -/
def displayName : Content → String
  | .number text _ => text
  | .operator op => op.text
  | .variable name .. => name

/-- The category of a variable; other contents have none. -/
def category : Content → String
  | .variable _ category .. => category
  | _ => ""

/-- The value of a number or variable; an operator counts as zero. -/
def value : Content → Float
  | .number _ value => value
  | .operator _ => 0
  | .variable _ _ value _ => value

/-- The operator that a content is. -/
def operator? : Content → Option Operator
  | .operator op => some op
  | _ => none

/-- The id of the candidate that a variable is bound to. -/
def source? : Content → Option String
  | .variable _ _ _ source => some source
  | _ => none

/-- A variable bound anew: it keeps its category and takes the rest from the candidate. Other
contents stay as they are. -/
def rebind (c : Candidate) : Content → Content
  | .variable _ category _ _ => .variable c.name category c.value c.id
  | content => content

end Content

/-! ## Tokens -/

/-- One element of a formula. -/
structure Token where
  id : TokenId
  content : Content
deriving Repr, DecidableEq

/-- The place of the token with a given id. -/
def Token.position? (tokens : List Token) (id : TokenId) : Option Nat :=
  tokens.findIdx? fun t => t.id = id

/-- The token with a given id. -/
def Token.find? (tokens : List Token) (id : TokenId) : Option Token :=
  tokens.find? fun t => t.id = id

end FormulaBar
