import FormulaBar.Editor.Basic

/-!
# Operations on the token stream

1. **Inserting**: the cursor lands behind the new token.
2. **Removing** a token, with or without the cursor following it.
3. **Replacing** what a token stands for, under the same id.
4. **Moving** the cursor.
-/

namespace FormulaBar.Editor

/-! ## Inserting -/

/-- Puts a token before the one at `index`, at the end if there is none. The buffer is emptied. A
token whose id is in use gets a fresh one. -/
def insert (e : Editor) (index : Nat) (t : Token) : Editor :=
  let i := min index e.tokens.length
  let (id, e) := if (e.position? t.id).isSome then e.mint else (t.id, e)
  { e with
    tokens := e.tokens.take i ++ Token.mk id t.content :: e.tokens.drop i
    cursor := i + 1
    buffer := "" }.dismiss.reevaluate

/-- Puts a new token with the given content before the one at `index`. -/
def insertNew (e : Editor) (index : Nat) (content : Content) : Editor :=
  let (id, e) := e.mint
  e.insert index ⟨id, content⟩

/-! ## Removing -/

/-- Takes the token at `index` out. An edit box open on it is closed. -/
def removeIndex (e : Editor) (index : Nat) : Editor :=
  let removed := e.tokens[index]?.map Token.id
  let e := { e with tokens := e.tokens.eraseIdx index }
  if e.edit.isSome && e.edit.map EditBox.id == removed then e.closeEdit else e

/-- Removes the token with a given id, if there is one. The cursor stays where it is unless it would
stand behind the end. -/
def remove (e : Editor) (id : TokenId) : Bool × Editor :=
  match e.position? id with
  | none => (false, e)
  | some index =>
    let e := e.removeIndex index
    (true, { e with cursor := min e.cursor e.tokens.length }.reevaluate)

/-- Removes the token with a given id, if there is one. A cursor behind it moves along. -/
def delete (e : Editor) (id : TokenId) : Bool × Editor :=
  match e.position? id with
  | none => (false, e)
  | some index =>
    let e := e.removeIndex index
    let cursor := if index < e.cursor then e.cursor - 1 else min e.cursor e.tokens.length
    (true, { e with cursor }.reevaluate)

/-! ## Replacing -/

/-- Replaces what the token with a given id stands for, if there is one. -/
def replace (e : Editor) (id : TokenId) (content : Content) : Bool × Editor :=
  match e.position? id with
  | none => (false, e)
  | some index => (true, { e with tokens := e.tokens.set index ⟨id, content⟩ }.reevaluate)

/-- Replaces what a token stands for by a content for which an id has been spent. -/
def replaceNew (e : Editor) (id : TokenId) (content : Content) : Bool × Editor :=
  e.mint.2.replace id content

/-! ## Moving -/

/-- Moves the cursor, as far as there are tokens. -/
def moveCursor (e : Editor) (delta : Int) : Editor :=
  { e with cursor := min (e.cursor + delta).toNat e.tokens.length }

/-- Puts the cursor before the token at `index`, or at the end. The buffer travels with it. -/
def placeCursor (e : Editor) (index : Nat) : Editor :=
  { e with cursor := min index e.tokens.length }

/-- Empties the editor. The lookup numbers go on counting, so that answers to earlier lookups are
still recognised as late. -/
def reset (e : Editor) : Editor := { seq := e.seq, options := e.options, supply := e.supply }

end FormulaBar.Editor
