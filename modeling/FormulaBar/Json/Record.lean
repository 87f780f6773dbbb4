import FormulaBar.Json.Value

/-!
# Records in JSON

A record with known field names is read from an object, where order does not matter and unknown
members are ignored, or from an array of the field values in order, where trailing ones may be
missing.

1. **Texts and words**: the values that a field may have.
2. **Fields**: the values of a record by name.
-/

namespace FormulaBar.Json

/-! ## Texts and words -/

/-- The text of a string. -/
def text? : Json → Option String
  | .string s => s
  | _ => none

/-- The truth value of a word. -/
def bool? : Json → Option Bool
  | .bool b => some b
  | _ => none

/-- A number as a double. -/
def float? : Json → Option Float
  | .number n => n.toFloat?
  | _ => none

/-- A number as an unsigned 64-bit word. -/
def uint64? : Json → Option UInt64
  | .number n => n.toUInt64?
  | _ => none

/-! ## Fields -/

/-- Values by field name. -/
abbrev Fields := List (String × Json)

/-- The members with known names. There are none if the name of any member has no text, or if a
known name is repeated. -/
def knownMembers? (known : List String) : List (StringValue × Json) → Option Fields
  | [] => some []
  | (none, _) :: _ => none
  | (some name, v) :: ms => do
    let fields ← knownMembers? known ms
    if name ∈ known then
      if fields.any fun field => field.1 = name then none else some ((name, v) :: fields)
    else some fields

/-- The fields of a record with the given names. -/
def fields? (known : List String) : Json → Option Fields
  | .object members => knownMembers? known members
  | .array items => if items.length ≤ known.length then some (known.zip items) else none
  | _ => none

/-- A field that has to be present. -/
def Fields.required {α : Type} (fields : Fields) (name : String) (read : Json → Option α) :
    Option α :=
  fields.lookup name >>= read

/-- A field that takes a default value when it is absent. -/
def Fields.optional {α : Type} (fields : Fields) (name : String) (default : α)
    (read : Json → Option α) : Option α :=
  match fields.lookup name with
  | some v => read v
  | none => some default

end FormulaBar.Json
