import FormulaBar.Editor.Stream
import FormulaBar.Numeral.Reader

/-!
# Editing a token in place

An edit box opens on a token with the text that it shows. Only the text of a variable is looked up.
The token keeps its id and its kind whatever is typed.

1. **Opening and typing**.
2. **Finishing**: by the text, by a candidate, or not at all.
-/

namespace FormulaBar.Editor

/-! ## Opening and typing -/

/-- Whether the token with a given id is a variable. -/
def isVariable (e : Editor) (id : TokenId) : Bool :=
  (e.token? id).any fun t => t.content.kind = .variable

/-- Looks the text of the edit box up, or drops what was found for it. -/
def searchEdit (e : Editor) : Editor :=
  match e.edit with
  | none => e
  | some box =>
    if e.options.autocomplete && e.isVariable box.id && !box.text.isEmpty then
      e.ask (.edit box.id) box.text
    else { e with candidates := [], pending := none }

/-- Opens the edit box on the token with a given id, if there is one. -/
def openEdit (e : Editor) (id : TokenId) : Bool × Editor :=
  match e.token? id with
  | none => (false, e)
  | some t =>
    (true, { e.dismiss.closeEdit with edit := some ⟨id, t.content.displayName⟩ }.searchEdit)

/-- Replaces the text of the edit box, if it is open. -/
def typeEdit (e : Editor) (text : String) : Editor :=
  match e.edit with
  | none => e
  | some box => { e with edit := some { box with text } }.searchEdit

/-! ## Finishing -/

/-- Closes the edit box and replaces its token: a variable by the first candidate, a number or an
operator by the text if it reads as one. Says whether the token was replaced. -/
def commitEdit (e : Editor) : Bool × Editor :=
  match e.edit with
  | none => (false, e)
  | some box =>
    let first := e.candidates.head?
    let e := e.closeEdit
    match (e.token? box.id).map Token.content with
    | none => (false, e)
    | some (.variable name category value source) =>
      match first with
      | some c => e.replace box.id ((Content.variable name category value source).rebind c)
      | none => (false, e)
    | some (.number ..) =>
      match Numeral.typed? box.text with
      | some v => e.replaceNew box.id (.number (Text.trim box.text) v)
      | none => (false, e)
    | some (.operator _) =>
      match Operator.ofText? (Text.trim box.text) with
      | some op => e.replaceNew box.id (.operator op)
      | none => (false, e)

/-- Closes the edit box and binds its variable to the candidate with a given id, if that is on
offer. -/
def pickEdit (e : Editor) (id : String) : Bool × Editor :=
  match e.edit with
  | none => (false, e)
  | some box =>
    match Candidate.find? e.candidates id with
    | none => (false, e)
    | some c =>
      let e := e.closeEdit
      match (e.token? box.id).map Token.content with
      | some (.variable name category value source) =>
        e.replace box.id ((Content.variable name category value source).rebind c)
      | _ => (false, e)

end FormulaBar.Editor
