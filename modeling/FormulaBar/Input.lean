import FormulaBar.Text.Class

/-!
# Input events

What the surface around the editor delivers: keystrokes that are already decoded, clicks between
tokens, and picks from the list of candidates.
-/

namespace FormulaBar

/-- A keystroke. -/
inductive Key where
  /-- A printable character, operators included. -/
  | char (c : Char)
  | enter
  | backspace
  | left
  | right
  | escape
deriving Repr, DecidableEq

/-- The key with a given name: one of the five named keys, or a single character that is not a
control character. -/
def Key.ofName? (name : String) : Option Key :=
  match name with
  | "Enter" => some .enter
  | "Backspace" => some .backspace
  | "ArrowLeft" => some .left
  | "ArrowRight" => some .right
  | "Escape" => some .escape
  | _ =>
    match name.toList with
    | [c] => if Text.isControl c then none else some (.char c)
    | _ => none

/-- What the editor reacts to. -/
inductive InputEvent where
  | key (k : Key)
  /-- A click between tokens; the index is the insertion point. -/
  | click (index : Nat)
  /-- A pick from the list of candidates, by candidate id. -/
  | pick (id : String)
deriving Repr, DecidableEq

end FormulaBar
