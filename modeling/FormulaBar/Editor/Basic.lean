import FormulaBar.Formula.Evaluation
import FormulaBar.Lookup

/-!
# The state of a formula editor

1. **State**: the tokens with a cursor between them, the text that is being typed at the cursor, the
   candidates on offer, the lookup that waits to be run, and the edit box that is open on a token.
2. **Reading**: what a renderer shows beside the plain fields.
3. **Parts of operations**: evaluation, ids, lookups, and the closing of what is on offer.

The buffer and the edit box share one list of candidates: at most one of the two is searched for at
a time.
-/

namespace FormulaBar

open Lookup (Request Target)

/-! ## State -/

/-- The switches of an editor. -/
structure EditorOptions where
  /-- Whether names are looked up while they are typed. -/
  autocomplete : Bool := true
deriving Repr, DecidableEq

/-- The text that is typed into the edit box of a token. -/
structure EditBox where
  id : TokenId
  text : String
deriving Repr, DecidableEq

/-- The state of an editor. -/
structure Editor where
  tokens : List Token := []
  /-- The insertion point: how many tokens stand before it. -/
  cursor : Nat := 0
  buffer : String := ""
  /-- Whether candidates for the buffer may be shown. -/
  active : Bool := false
  /-- Candidates for the edit box while it is open, else for the buffer. -/
  candidates : List Candidate := []
  /-- The number of the latest lookup that was asked for. -/
  seq : Nat := 0
  /-- The lookup that waits to be taken. -/
  pending : Option Request := none
  edit : Option EditBox := none
  /-- The result of the tokens. -/
  evaluation : Formula.Evaluation := .blank
  options : EditorOptions := {}
  supply : IdSupply := .initial
deriving Repr, DecidableEq

namespace Editor

/-- An editor in which nothing has happened yet. -/
def new (options : EditorOptions) : Editor := { options }

/-! ## Reading -/

/-- Whether a list of candidates is to be shown. -/
def candidatesVisible (e : Editor) : Bool := (e.active || e.edit.isSome) && !e.candidates.isEmpty

/-- Whether the result line is to be shown. -/
def showResult (e : Editor) : Bool := !e.tokens.isEmpty

/-- What the input shows in place of tokens when there are none. -/
def placeholder? (e : Editor) : Option String :=
  if e.tokens.isEmpty then some "Enter formula..." else none

/-- The token of the stream with a given id. -/
def token? (e : Editor) (id : TokenId) : Option Token := Token.find? e.tokens id

/-- The place in the stream of the token with a given id. -/
def position? (e : Editor) (id : TokenId) : Option Nat := Token.position? e.tokens id

/-! ## Parts of operations -/

/-- Brings the result up to date with the tokens. -/
def reevaluate (e : Editor) : Editor := { e with evaluation := Formula.evaluate e.tokens }

/-- Takes an id from the supply that the editor draws on. -/
def mint (e : Editor) : TokenId × Editor :=
  (e.supply.fresh.1, { e with supply := e.supply.fresh.2 })

/-- Asks for a lookup. Candidates shown so far belong to an earlier query. -/
def ask (e : Editor) (target : Target) (query : String) : Editor :=
  { e with
    seq := e.seq + 1
    candidates := []
    pending := some { seq := e.seq + 1, query, target } }

/-- Stops offering candidates for the buffer. -/
def dismiss (e : Editor) : Editor :=
  { e with
    active := false
    candidates := if e.edit.isNone then [] else e.candidates
    pending := e.pending.filter fun r => r.target.isEdit }

/-- Closes the edit box, with its candidates and its lookup. -/
def closeEdit (e : Editor) : Editor :=
  match e.edit with
  | none => e
  | some _ =>
    { e with
      edit := none
      candidates := []
      pending := e.pending.filter fun r => !r.target.isEdit }

end Editor

end FormulaBar
