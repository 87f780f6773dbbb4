/-!
# Candidates

A candidate is a named value that a catalog offers for a formula. The same candidate may be picked
any number of times.
-/

namespace FormulaBar

/-- A named value on offer. -/
structure Candidate where
  id : String
  name : String
  category : String
  value : Float
deriving Repr, DecidableEq

/-- The first candidate with a given id. -/
def Candidate.find? (candidates : List Candidate) (id : String) : Option Candidate :=
  candidates.find? fun c => c.id = id

end FormulaBar
