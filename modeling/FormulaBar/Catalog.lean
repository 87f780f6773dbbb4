import FormulaBar.Candidate
import FormulaBar.Text.Class
import FormulaBar.Text.Lowercase

/-!
# Searching a catalog

A query finds the candidates whose name or category contains it, letter case aside. Blanks around a
query do not count, and a blank query finds nothing.
-/

namespace FormulaBar.Catalog

open FormulaBar.Text (contains lower trimChars)

/-- Whether a query that is already lowercase occurs in the name or category of a candidate. -/
def isHit (query : List Char) (c : Candidate) : Bool :=
  contains query (lower c.name.toList) || contains query (lower c.category.toList)

/-- The candidates of a catalog that a query finds, in their order. -/
def search (catalog : List Candidate) (query : String) : List Candidate :=
  match trimChars query.toList with
  | [] => []
  | q => catalog.filter (isHit (lower q))

end FormulaBar.Catalog
