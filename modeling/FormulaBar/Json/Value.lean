import FormulaBar.Json.Number

/-!
# JSON values and their written form

1. **Values**, as they are written: number literals keep their parts and objects their members in
   order, repeated names included.
2. **Strings**: what is escaped, and how.
3. **Layouts**: compact, and indented by two spaces.
-/

namespace FormulaBar

/-- What a string literal denotes: a text, or nothing when it spells half of a surrogate pair. Such
a literal is well formed, yet there is no text that it stands for. -/
abbrev Json.StringValue := Option String

/-- A JSON value. -/
inductive Json where
  | null
  | bool (b : Bool)
  | number (n : Json.Number)
  | string (s : Json.StringValue)
  | array (items : List Json)
  | object (members : List (Json.StringValue × Json))

namespace Json

/-- The value of a text. -/
def ofText (s : String) : Json := .string (some s)

/-- The value of a whole number. -/
def ofNat (n : Nat) : Json := .number (.ofNat n)

/-- The value of a double; one that is not finite has none and becomes null. -/
def ofFloat (x : Float) : Json :=
  match Number.ofFloat? x with
  | some n => .number n
  | none => .null

/-- An object with the given members. -/
def ofMembers (members : List (String × Json)) : Json :=
  .object (members.map fun (name, v) => (some name, v))

/-! ## Strings -/

/-- A lowercase hexadecimal digit. -/
def hexChar (d : Fin 16) : Char := Nat.digitChar d.val

/-- How one character is written within a string: quotation mark, backslash and the characters below
a space are escaped, all others stand as they are. -/
def escape (c : Char) : List Char :=
  if c = '"' then ['\\', '"']
  else if c = '\\' then ['\\', '\\']
  else if c = '\x08' then ['\\', 'b']
  else if c = '\x0c' then ['\\', 'f']
  else if c = '\n' then ['\\', 'n']
  else if c = '\r' then ['\\', 'r']
  else if c = '\t' then ['\\', 't']
  else if c.toNat < 0x20 then
    ['\\', 'u', '0', '0', hexChar (Fin.ofNat 16 (c.toNat / 16)), hexChar (Fin.ofNat 16 c.toNat)]
  else [c]

/-- The characters of a string literal. -/
def quoted : StringValue → List Char
  | some s => '"' :: (s.toList.flatMap escape ++ ['"'])
  | none => "\"\\ud800\"".toList

/-! ## Layouts -/

/-- How the parts of arrays and objects are set apart. -/
inductive Layout where
  | compact
  | indented
deriving Repr, DecidableEq

/-- The break before an item at a given level. -/
def Layout.lineBreak : Layout → Nat → List Char
  | .compact, _ => []
  | .indented, level => '\n' :: List.replicate (2 * level) ' '

/-- What stands between the name and the value of a member. -/
def Layout.colon : Layout → List Char
  | .compact => [':']
  | .indented => [':', ' ']

mutual

/-- The characters of a value at a given level. -/
def chars (l : Layout) (level : Nat) : Json → List Char
  | .null => "null".toList
  | .bool true => "true".toList
  | .bool false => "false".toList
  | .number n => n.chars
  | .string s => quoted s
  | .array [] => ['[', ']']
  | .array (v :: vs) =>
    '[' :: (l.lineBreak (level + 1) ++ chars l (level + 1) v ++ itemChars l (level + 1) vs ++
      l.lineBreak level ++ [']'])
  | .object [] => ['{', '}']
  | .object ((name, v) :: ms) =>
    '{' :: (l.lineBreak (level + 1) ++ quoted name ++ l.colon ++ chars l (level + 1) v ++
      memberChars l (level + 1) ms ++ l.lineBreak level ++ ['}'])

/-- The characters of the further items of an array. -/
def itemChars (l : Layout) (level : Nat) : List Json → List Char
  | [] => []
  | v :: vs => ',' :: (l.lineBreak level ++ chars l level v ++ itemChars l level vs)

/-- The characters of the further members of an object. -/
def memberChars (l : Layout) (level : Nat) : List (StringValue × Json) → List Char
  | [] => []
  | (name, v) :: ms =>
    ',' :: (l.lineBreak level ++ quoted name ++ l.colon ++ chars l level v ++
      memberChars l level ms)

end

/-- The written form of a value. -/
def text (l : Layout) (v : Json) : String := String.ofList (chars l 0 v)

end Json

end FormulaBar
