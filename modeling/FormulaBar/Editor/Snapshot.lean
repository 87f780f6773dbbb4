import FormulaBar.Candidate.Json
import FormulaBar.Editor.Basic

/-!
# Snapshots

A snapshot is what a renderer behind a process or thread boundary is given of an editor: only the
candidates that are on screen, and each token by the fields that all kinds share.

1. **Snapshot** of an editor.
2. **Written form**.
-/

namespace FormulaBar

/-! ## Snapshot -/

/-- What a renderer is given. -/
structure Snapshot where
  tokens : List Token
  cursor : Nat
  buffer : String
  candidates : List Candidate
  result : Formula.Evaluation
  /-- The token whose edit box is open. -/
  editing : Option TokenId
deriving Repr, DecidableEq

/-- The snapshot of an editor. -/
def Editor.snapshot (e : Editor) : Snapshot where
  tokens := e.tokens
  cursor := e.cursor
  buffer := e.buffer
  candidates := if e.candidatesVisible then e.candidates else []
  result := e.evaluation
  editing := e.edit.map EditBox.id

/-! ## Written form -/

/-- An id as a number. -/
def TokenId.toJson (id : TokenId) : Json := .ofNat id.number

/-- The fields of a token that all kinds share. -/
def Token.toJson (t : Token) : Json :=
  Json.ofMembers [("id", t.id.toJson), ("kind", .ofText t.content.kind.text),
    ("display_name", .ofText t.content.displayName), ("category", .ofText t.content.category),
    ("value", .ofFloat t.content.value)]

/-- A result by its state, with its number or its message. -/
def Formula.Evaluation.toJson : Formula.Evaluation → Json
  | .blank => Json.ofMembers [("state", .ofText "empty")]
  | .value v => Json.ofMembers [("state", .ofText "value"), ("value", .ofFloat v)]
  | .invalid cause =>
    Json.ofMembers [("state", .ofText "invalid"), ("message", .ofText cause.message)]

/-- A snapshot as an object. -/
def Snapshot.toJson (s : Snapshot) : Json :=
  Json.ofMembers [("tokens", .array (s.tokens.map Token.toJson)), ("cursor", .ofNat s.cursor),
    ("buffer", .ofText s.buffer), ("candidates", .array (s.candidates.map Candidate.toJson)),
    ("result", s.result.toJson),
    ("editing", match s.editing with
      | some id => id.toJson
      | none => .null)]

/-- A snapshot as a compact text. -/
def Snapshot.text (s : Snapshot) : String := s.toJson.text .compact

end FormulaBar
