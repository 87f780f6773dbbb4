import FormulaBar.Settings.Basic

/-!
# The address of the service
-/

namespace FormulaBar.Service

/-- The address of a service: a base and a path below it. -/
structure Endpoint where
  baseUrl : String
  path : String
deriving Repr, DecidableEq

/-- The address that settings name. -/
def Endpoint.ofSettings (s : Settings) : Endpoint := ⟨s.baseUrl, s.path⟩

/-- The base without slashes at its end. -/
def Endpoint.base (e : Endpoint) : List Char :=
  (e.baseUrl.toList.reverse.dropWhile (· == '/')).reverse

/-- The path with at least one slash at its front. -/
def Endpoint.rootedPath (e : Endpoint) : List Char :=
  match e.path.toList with
  | '/' :: cs => '/' :: cs
  | cs => '/' :: cs

/-- The URL of a service: base and path with a slash between them. Slashes at the end of the base
are dropped, those at the front of the path are kept. -/
def Endpoint.url (e : Endpoint) : String := String.ofList (e.base ++ e.rootedPath)

end FormulaBar.Service
