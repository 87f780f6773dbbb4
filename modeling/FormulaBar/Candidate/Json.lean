import FormulaBar.Candidate
import FormulaBar.Json.Parser
import FormulaBar.Json.Record

/-!
# Candidates in JSON

1. **Reading**: an id is a string or a number, a category may be missing or null, and a missing
   value is zero.
2. **Writing**: all four fields, in order.
3. **Lists** of candidates as texts.
-/

namespace FormulaBar.Candidate

/-! ## Reading -/

/-- The names of the fields, in order. -/
def fieldNames : List String := ["id", "name", "category", "value"]

/-- An id: a string as it is, a number by its text. -/
def idOfJson? : Json → Option String
  | .string s => s
  | .number n => n.idText?
  | _ => none

/-- A category, where null stands for none. -/
def categoryOfJson? : Json → Option String
  | .null => some ""
  | v => v.text?

/-- The candidate that a value describes. -/
def ofJson? (v : Json) : Option Candidate := do
  let fields ← v.fields? fieldNames
  let id ← fields.required "id" idOfJson?
  let name ← fields.required "name" Json.text?
  let category ← fields.optional "category" "" categoryOfJson?
  let value ← fields.optional "value" 0 Json.float?
  return { id, name, category, value }

/-! ## Writing -/

/-- A candidate as an object. -/
def toJson (c : Candidate) : Json :=
  Json.ofMembers [("id", .ofText c.id), ("name", .ofText c.name), ("category", .ofText c.category),
    ("value", .ofFloat c.value)]

/-! ## Lists -/

/-- The candidates that an array of records describes. -/
def listOfJson? : Json → Option (List Candidate)
  | .array items => items.mapM ofJson?
  | _ => none

/-- The candidates that a text describes. -/
def readList? (text : String) : Option (List Candidate) := Json.parse? text >>= listOfJson?

/-- Candidates as a compact text. -/
def writeList (candidates : List Candidate) : String :=
  (Json.array (candidates.map toJson)).text .compact

end FormulaBar.Candidate
