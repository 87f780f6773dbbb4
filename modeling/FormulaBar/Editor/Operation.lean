import FormulaBar.Editor.EditBox
import FormulaBar.Editor.Typing

/-!
# The operations of an editor

1. **Lookups**: a waiting request is taken, and an answer is accepted only if it is still wanted.
2. **Events** from the surface.
3. **Operations**: everything that can be done to an editor, as data, and runs of operations.
-/

namespace FormulaBar

open Lookup (Request Response)

namespace Editor

/-! ## Lookups -/

/-- Takes the waiting request, if there is one. -/
def takeRequest (e : Editor) : Option Request × Editor := (e.pending, { e with pending := none })

/-- Whether the input that an answer is for is open and still holds the text that was asked for. -/
def wants (e : Editor) (r : Response) : Bool :=
  match r.target with
  | .buffer => e.active && r.query == e.buffer
  | .edit id => e.edit.any fun box => box.id = id && box.text == r.query

/-- Accepts the answer to the latest lookup if it is still wanted, and says whether it did. -/
def receive (e : Editor) (r : Response) : Bool × Editor :=
  if r.seq = e.seq ∧ e.wants r then (true, { e with candidates := r.candidates }) else (false, e)

/-- Switches autocomplete. Switching it off stops offering candidates for the buffer. -/
def setOptions (e : Editor) (options : EditorOptions) : Editor :=
  let e := { e with options }
  if options.autocomplete then e else e.dismiss

/-! ## Events -/

/-- Reacts to an event. A pick goes to the edit box while it is open. -/
def react (e : Editor) : InputEvent → Editor
  | .key k => e.press k
  | .click index => e.placeCursor index
  | .pick id => if e.edit.isSome then (e.pickEdit id).2 else (e.pick id).2

/-! ## Operations -/

/-- What can be done to an editor. -/
inductive Operation where
  | press (k : Key)
  | react (ev : InputEvent)
  | setBuffer (text : String)
  /-- Inserts a new token. -/
  | insertNew (index : Nat) (content : Content)
  /-- Inserts a token that was made before. -/
  | insert (index : Nat) (t : Token)
  | remove (id : TokenId)
  | delete (id : TokenId)
  | replace (id : TokenId) (content : Content)
  | moveCursor (delta : Int)
  | placeCursor (index : Nat)
  | pick (candidate : String)
  | setOptions (options : EditorOptions)
  | takeRequest
  | receive (r : Response)
  | openEdit (id : TokenId)
  | typeEdit (text : String)
  | commitEdit
  | pickEdit (candidate : String)
  | closeEdit
  | reset
deriving Repr, DecidableEq

/-- What an operation answers. -/
inductive Reply where
  | none
  /-- Whether the operation did something. -/
  | flag (b : Bool)
  | request (r : Option Request)
deriving Repr, DecidableEq

/-- The outcome of an operation that says whether it did something. -/
def flagged (result : Bool × Editor) : Reply × Editor := (.flag result.1, result.2)

/-- The outcome of an operation that has nothing to say. -/
def silent (e : Editor) : Reply × Editor := (.none, e)

/-- Carries out an operation. -/
def apply (e : Editor) : Operation → Reply × Editor
  | .press k => silent (e.press k)
  | .react ev => silent (e.react ev)
  | .setBuffer text => silent (Editor.setBuffer e text)
  | .insertNew index content => silent (e.insertNew index content)
  | .insert index t => silent (e.insert index t)
  | .remove id => flagged (e.remove id)
  | .delete id => flagged (e.delete id)
  | .replace id content => flagged (e.replaceNew id content)
  | .moveCursor delta => silent (e.moveCursor delta)
  | .placeCursor index => silent (e.placeCursor index)
  | .pick candidate => flagged (e.pick candidate)
  | .setOptions options => silent (Editor.setOptions e options)
  | .takeRequest => (.request (Editor.takeRequest e).1, (Editor.takeRequest e).2)
  | .receive r => flagged (e.receive r)
  | .openEdit id => flagged (e.openEdit id)
  | .typeEdit text => silent (e.typeEdit text)
  | .commitEdit => flagged (Editor.commitEdit e)
  | .pickEdit candidate => flagged (e.pickEdit candidate)
  | .closeEdit => silent (Editor.closeEdit e)
  | .reset => silent (Editor.reset e)

/-- Carries out operations one after the other. -/
def run (e : Editor) (ops : List Operation) : Editor := ops.foldl (fun e op => (e.apply op).2) e

end Editor

end FormulaBar
