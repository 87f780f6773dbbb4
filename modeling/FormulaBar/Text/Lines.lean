import FormulaBar.Text.Class

/-!
# Lines

1. **Lines** end at a line feed, and a carriage return in front of it belongs to the end. What
   follows the last line feed is a line unless it is empty.
2. **Comment lines** begin with two slashes, blanks aside.
-/

namespace FormulaBar.Text

/-- The lines of a text, without their ends. -/
def lines : List Char → List (List Char)
  | [] => []
  | '\n' :: cs => [] :: lines cs
  | '\r' :: '\n' :: cs => [] :: lines cs
  | c :: cs =>
    match lines cs with
    | [] => [[c]]
    | line :: rest => (c :: line) :: rest

/-- Whether a line is a comment. -/
def isComment (line : List Char) : Bool := ['/', '/'].isPrefixOf (trimChars line)

/-- A text without its comment lines. -/
def stripComments (cs : List Char) : List Char :=
  ['\n'].intercalate ((lines cs).filter fun line => !isComment line)

end FormulaBar.Text
