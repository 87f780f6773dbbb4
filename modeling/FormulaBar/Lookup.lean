import FormulaBar.Candidate
import FormulaBar.Token

/-!
# Lookups

The editor does not search by itself. It asks for a lookup under a sequence number and accepts an
answer only if no later lookup has been asked for.

1. **Targets**: the input that a lookup belongs to.
2. **Requests and responses**.
-/

namespace FormulaBar.Lookup

/-! ## Targets -/

/-- The input that a lookup is for. -/
inductive Target where
  /-- The text buffer at the cursor. -/
  | buffer
  /-- The edit box of a token. -/
  | edit (id : TokenId)
deriving Repr, DecidableEq

/-- Whether a lookup is for an edit box. -/
def Target.isEdit : Target → Bool
  | .buffer => false
  | .edit _ => true

/-! ## Requests and responses -/

/-- A lookup that is to be run. -/
structure Request where
  seq : Nat
  query : String
  target : Target
deriving Repr, DecidableEq

/-- The answer to a request, which repeats what was asked. -/
structure Response where
  seq : Nat
  query : String
  target : Target
  candidates : List Candidate
deriving Repr, DecidableEq

/-- The answer with given candidates. -/
def Request.respond (r : Request) (candidates : List Candidate) : Response :=
  { seq := r.seq, query := r.query, target := r.target, candidates }

/-- The answer that a source gives. -/
def Request.run (r : Request) (source : String → List Candidate) : Response :=
  r.respond (source r.query)

end FormulaBar.Lookup
