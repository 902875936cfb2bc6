/-
  Handout.Store.Memory — a store that is nothing but a table of its files.
-/

import Handout.Path
import Handout.Store.Basic
import Handout.Table

namespace Handout.Store.Memory

/-- The files by their stems. -/
abbrev Files := List (String × TestFile)

def empty : Files := []

/-- Where a file would be in the usual directory of tests. -/
def pathOf (stem : String) : Path := Path.join "tests" (TestFile.nameOf stem)

def save (f : TestFile) : Action Files Unit := modify (Table.insert f.stem f)

def delete (stem : String) : Action Files Unit := do
  if (Table.find? stem (← get)).isSome then modify (Table.erase stem)
  else throw (.testFile (pathOf stem) "no such test file")

end Memory

/-- The store of a table. A file that is not there cannot be deleted. -/
def memory : Store (Action Memory.Files) := ⟨Memory.save, get, Memory.delete, Memory.pathOf⟩

end Handout.Store
