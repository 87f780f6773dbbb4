import FormulaBar.Numeral.Decimal

/-!
# Why a lookup fails
-/

namespace FormulaBar.Service

/-- A cause for which the service gave no candidates. -/
inductive Error where
  /-- No client could be made. -/
  | client (cause : String)
  /-- The service could not be reached, or the connection broke off. -/
  | network (cause : String)
  /-- The service answered with a status that is no success. -/
  | http (status : Nat) (body : String)
  /-- The body is no list of candidates. -/
  | parse (cause : String)
  /-- No lookup worker could be started. -/
  | worker (cause : String)
deriving Repr, DecidableEq

/-- The message of a cause. -/
def Error.message : Error → String
  | .client cause => "HTTP client error: " ++ cause
  | .network cause => "Network error: " ++ cause
  | .http status body => "HTTP " ++ Numeral.natText status ++ ": " ++ body
  | .parse cause => "Parse error: " ++ cause
  | .worker cause => "Lookup worker error: " ++ cause

end FormulaBar.Service
