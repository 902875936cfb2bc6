/-
  Handout.Test.Basic — a test as its author wrote it: a code cell whose first line marks it.
  The other lines are what to run, and what the cell has printed is what to expect.
-/

import Handout.Cell.Marker
import Handout.Notebook.Output

namespace Handout

structure Test where
  input : String
  output : String
  hidden : Bool
  deriving DecidableEq, Repr, Inhabited

/-- The test of a test cell. -/
def Test.ofCell (c : Cell) : Test :=
  ⟨Text.textOf (c.source.drop 1), String.join (c.outputs.map outputText), c.firstLine Marker.isHidden⟩

end Handout
