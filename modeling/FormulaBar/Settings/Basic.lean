import FormulaBar.Json.Parser
import FormulaBar.Json.Record
import FormulaBar.Text.Lines

/-!
# Settings

1. **Settings** and their defaults.
2. **Reading**: comment lines are dropped, and the rest is a JSON record whose missing fields take
   their defaults.
3. **Writing**.
4. **Default file**: a text with comments that says the defaults.
-/

namespace FormulaBar

/-! ## Settings -/

/-- The service that is asked for candidates by default. -/
def defaultBaseUrl : String := "https://652f91320b8d8ddac0b2b62b.mockapi.io"

/-- The settings of an editor and of the service it asks for candidates. -/
structure Settings where
  baseUrl : String := defaultBaseUrl
  path : String := "/autocomplete"
  timeoutSecs : UInt64 := 10
  /-- For how many seconds an answer to the same query is used again; zero for not at all. -/
  cacheTtlSecs : UInt64 := 60
  autocomplete : Bool := true
deriving Repr, DecidableEq

namespace Settings

/-! ## Reading -/

/-- The names of the fields, in order. -/
def fieldNames : List String :=
  ["lookup.baseUrl", "lookup.path", "lookup.timeoutSecs", "lookup.cacheTtlSecs",
    "editor.autocomplete"]

/-- The settings that a value describes. -/
def ofJson? (v : Json) : Option Settings := do
  let fields ← v.fields? fieldNames
  let standard : Settings := {}
  let baseUrl ← fields.optional "lookup.baseUrl" standard.baseUrl Json.text?
  let path ← fields.optional "lookup.path" standard.path Json.text?
  let timeoutSecs ← fields.optional "lookup.timeoutSecs" standard.timeoutSecs Json.uint64?
  let cacheTtlSecs ← fields.optional "lookup.cacheTtlSecs" standard.cacheTtlSecs Json.uint64?
  let autocomplete ← fields.optional "editor.autocomplete" standard.autocomplete Json.bool?
  return { baseUrl, path, timeoutSecs, cacheTtlSecs, autocomplete }

/-- The settings that a text describes, comment lines aside. -/
def parse? (contents : String) : Option Settings :=
  Json.parse? (String.ofList (Text.stripComments contents.toList)) >>= ofJson?

/-! ## Writing -/

/-- Settings as an object. -/
def toJson (s : Settings) : Json :=
  Json.ofMembers [("lookup.baseUrl", .ofText s.baseUrl), ("lookup.path", .ofText s.path),
    ("lookup.timeoutSecs", .ofNat s.timeoutSecs.toNat),
    ("lookup.cacheTtlSecs", .ofNat s.cacheTtlSecs.toNat),
    ("editor.autocomplete", .bool s.autocomplete)]

/-- Settings as they are saved. -/
def text (s : Settings) : String := s.toJson.text .indented

/-! ## Default file -/

/-- The file that says the defaults, with a comment on each group of settings. -/
def defaultFile : String :=
  "\x7b\n" ++
  "    // Suggestion lookup service\n" ++
  "    \"lookup.baseUrl\": \"" ++ defaultBaseUrl ++ "\",\n" ++
  "    \"lookup.path\": \"/autocomplete\",\n" ++
  "    \"lookup.timeoutSecs\": 10,\n" ++
  "\n" ++
  "    // Reuse answers for the same query for this many seconds (0 = off)\n" ++
  "    \"lookup.cacheTtlSecs\": 60,\n" ++
  "\n" ++
  "    // Query the lookup service while typing names\n" ++
  "    \"editor.autocomplete\": true\n" ++
  "\x7d\n"

end Settings

end FormulaBar
