import FormulaBar.Json.Lexeme

/-!
# From JSON lexemes to values

The lexemes are taken one by one. What is open around the current place is kept as a stack of
frames, so no nesting is too deep.

1. **Frames**: arrays and objects that are not closed yet.
2. **Parsing** of lexemes and of whole texts.
-/

namespace FormulaBar.Json

/-! ## Frames -/

/-- An array or object that is still open, with what it holds so far in reverse order. -/
inductive Frame where
  | items (done : List Json)
  /-- The name belongs to the member that is being read. -/
  | members (done : List (StringValue × Json)) (name : StringValue)

/-! ## Parsing -/

mutual

/-- Reads a value within the open frames, and all that follows. -/
def readValue (stack : List Frame) : List Lexeme → Option Json
  | .null :: ts => readRest stack .null ts
  | .bool b :: ts => readRest stack (.bool b) ts
  | .number n :: ts => readRest stack (.number n) ts
  | .string s :: ts => readRest stack (.string s) ts
  | .openArray :: .closeArray :: ts => readRest stack (.array []) ts
  | .openArray :: ts => readValue (.items [] :: stack) ts
  | .openObject :: .closeObject :: ts => readRest stack (.object []) ts
  | .openObject :: .string name :: .colon :: ts => readValue (.members [] name :: stack) ts
  | _ => none

/-- Puts a value into the innermost frame, and reads all that follows. -/
def readRest (stack : List Frame) (v : Json) : List Lexeme → Option Json
  | [] =>
    match stack with
    | [] => some v
    | _ => none
  | t :: ts =>
    match stack, t, ts with
    | .items done :: stack, .comma, ts => readValue (.items (v :: done) :: stack) ts
    | .items done :: stack, .closeArray, ts => readRest stack (.array (v :: done).reverse) ts
    | .members done name :: stack, .comma, .string next :: .colon :: ts =>
      readValue (.members ((name, v) :: done) next :: stack) ts
    | .members done name :: stack, .closeObject, ts =>
      readRest stack (.object ((name, v) :: done).reverse) ts
    | _, _, _ => none

end

/-- The value of a whole text. -/
def parse? (text : String) : Option Json := lexemes? text.toList >>= readValue []

end FormulaBar.Json
