import FormulaBar.Settings.Basic

/-!
# The settings file

1. **Places**: what may stand where the directory and the file of the settings belong.
2. **Files**: writing, removing and reading.
3. **Loading**, which falls back to the defaults and leaves a default file behind when there is
   none, and **saving**.
4. **Operations** on a store that holds the file and the current settings.
-/

namespace FormulaBar

/-! ## Places -/

/-- What stands where the settings file belongs. -/
inductive Entry where
  | missing
  /-- A regular file, with its text unless its bytes are no UTF-8. -/
  | file (contents : Option String)
  | directory
  /-- A link that points to nowhere: there is no file, and none can be written. -/
  | danglingLink
deriving Repr, DecidableEq

/-- What stands where the directory of the settings file belongs. -/
inductive Place where
  | missing
  /-- A regular file in the directory's place. -/
  | blocked
  | directory (entry : Entry)
deriving Repr, DecidableEq

namespace Place

/-- The path of the file below the directory for configurations. -/
def path : String := "/formulatag/settings.json"

/-! ## Files -/

/-- What stands in the file's place once its directory has been made, if that is possible. -/
def entry? : Place → Option Entry
  | .missing => some .missing
  | .blocked => none
  | .directory entry => some entry

/-- Makes the directory and writes the file, if that is possible. The directory remains even if
the file cannot be written. -/
def write (p : Place) (contents : Option String) : Bool × Place :=
  match p.entry? with
  | none => (false, p)
  | some .directory => (false, .directory .directory)
  | some .danglingLink => (false, .directory .danglingLink)
  | some _ => (true, .directory (.file contents))

/-- Removes the file or the link in its place. -/
def remove (p : Place) : Bool × Place :=
  match p with
  | .directory (.file _) => (true, .directory .missing)
  | .directory .danglingLink => (true, .directory .missing)
  | p => (false, p)

/-- The text of the file. -/
def read? : Place → Option String
  | .directory (.file contents) => contents
  | _ => none

/-- Whether there is something to be read, if only a directory. -/
def exists? : Place → Bool
  | .directory (.file _) => true
  | .directory .directory => true
  | _ => false

/-- Puts a regular file in the directory's place. -/
def blockDirectory (p : Place) : Bool × Place :=
  match p with
  | .directory _ => (false, p)
  | _ => (true, .blocked)

/-- Makes the directory, and another one in the file's place if nothing is there. -/
def blockFile (p : Place) : Place :=
  match p.entry? with
  | some .missing => .directory .directory
  | _ => p

/-- Makes the directory and puts a link to nowhere in the file's place, unless something is
there. -/
def blockLink (p : Place) : Bool × Place :=
  match p.entry? with
  | some .missing => (true, .directory .danglingLink)
  | _ => (false, p)

/-! ## Loading and saving -/

/-- The settings that the file says, or the defaults. -/
def loadFrom (p : Place) : Settings := (p.read? >>= Settings.parse?).getD {}

/-- The settings that the file says, or the defaults; when there is no file, the default file is
written if that is possible. -/
def load (p : Place) : Settings × Place :=
  if p.exists? then (p.loadFrom, p) else ({}, (p.write (some Settings.defaultFile)).2)

/-- Writes settings into the file, if that is possible. -/
def save (p : Place) (s : Settings) : Bool × Place := p.write (some s.text)

end Place

/-! ## Operations -/

/-- The settings file and the current settings. -/
structure Store where
  place : Place := .missing
  current : Settings := {}
deriving Repr, DecidableEq

namespace Store

/-- What can be done to a store, by a user of the settings or from outside. -/
inductive Operation where
  /-- Writes the file from outside; bytes that are no UTF-8 have no text. -/
  | write (contents : Option String)
  | remove
  | blockDirectory
  | blockFile
  | blockLink
  | load
  /-- Loads from the file as it is. -/
  | reload
  /-- Makes other settings current. -/
  | set (settings : Settings)
  | save
deriving Repr, DecidableEq

/-- The outcome of an operation on the file that says whether it worked. -/
def placed (s : Store) (result : Bool × Place) : Bool × Store :=
  (result.1, { s with place := result.2 })

/-- Carries out an operation, and says whether it worked. -/
def apply (s : Store) : Operation → Bool × Store
  | .write contents => s.placed (s.place.write contents)
  | .remove => s.placed s.place.remove
  | .blockDirectory => s.placed s.place.blockDirectory
  | .blockFile => (true, { s with place := s.place.blockFile })
  | .blockLink => s.placed s.place.blockLink
  | .load => (true, { place := s.place.load.2, current := s.place.load.1 })
  | .reload => (true, { s with current := s.place.loadFrom })
  | .set settings => (true, { s with current := settings })
  | .save => s.placed (s.place.save s.current)

end Store

end FormulaBar
