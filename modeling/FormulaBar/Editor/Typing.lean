import FormulaBar.Editor.Stream
import FormulaBar.Input
import FormulaBar.Numeral.Reader

/-!
# Typing

1. **Buffer**: text that is typed is looked up, unless it is empty or an operator glyph.
2. **Commits**: numeric text becomes a number, a candidate becomes a variable.
3. **Keys**.
-/

namespace FormulaBar.Editor

/-! ## Buffer -/

/-- Looks the buffer up, or stops offering candidates for it. Typing into the buffer closes the edit
box. -/
def searchBuffer (e : Editor) : Editor :=
  if e.options.autocomplete && !e.buffer.isEmpty && (Operator.ofText? e.buffer).isNone then
    { e.closeEdit with active := true }.ask .buffer e.buffer
  else e.dismiss

/-- Replaces the buffer. -/
def setBuffer (e : Editor) (text : String) : Editor := { e with buffer := text }.searchBuffer

/-- Takes back the last character of the buffer. When the buffer is empty, removes the token before
the cursor. -/
def backspace (e : Editor) : Editor :=
  if !e.buffer.isEmpty then
    { e with buffer := String.ofList e.buffer.toList.dropLast }.searchBuffer
  else if e.cursor = 0 then e
  else { e.removeIndex (e.cursor - 1) with cursor := e.cursor - 1 }.reevaluate

/-! ## Commits -/

/-- Commits the buffer as a number if it is one. -/
def commitNumber? (e : Editor) : Option Editor :=
  (Numeral.typed? e.buffer).map fun v =>
    e.insertNew e.cursor (.number (Text.trim e.buffer) v)

/-- Commits an operator at the cursor, after a number if the buffer holds one. -/
def commitOperator (e : Editor) (op : Operator) : Editor :=
  let e := e.commitNumber?.getD e
  e.insertNew e.cursor (.operator op)

/-- Commits the buffer as a number if it is one, and otherwise the first candidate for it. -/
def commit (e : Editor) : Editor :=
  if (Text.trim e.buffer).isEmpty then e
  else
    match e.commitNumber? with
    | some e => e
    | none =>
      match e.candidates with
      | c :: _ => if e.active then e.insertNew e.cursor (.ofCandidate c) else e
      | [] => e

/-- Commits the candidate with a given id as a variable, if it is on offer. -/
def pick (e : Editor) (id : String) : Bool × Editor :=
  match Candidate.find? e.candidates id with
  | none => (false, e)
  | some c => (true, e.insertNew e.cursor (.ofCandidate c))

/-! ## Keys -/

/-- Applies a keystroke. -/
def press (e : Editor) : Key → Editor
  | .backspace => e.backspace
  | .char c =>
    match Operator.ofChar? c with
    | some op => e.commitOperator op
    | none =>
      if Text.isControl c then e else { e with buffer := e.buffer.push c }.searchBuffer
  | .enter => e.commit
  | .left => e.moveCursor (-1)
  | .right => e.moveCursor 1
  | .escape => e.dismiss

end FormulaBar.Editor
