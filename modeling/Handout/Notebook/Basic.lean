/-
  Handout.Notebook.Basic — a notebook: its cells, and the version of the format it is
  written in.
-/

import Handout.Cell.Marker

namespace Handout

structure Notebook where
  cells : List Cell
  metadata : List (String × Json)
  format : Nat
  minor : Nat
  deriving Inhabited

namespace Notebook

/-- From this minor version of format 4 on every cell has an id. -/
def idMinor : Nat := 5

def needsIds (nb : Notebook) : Bool := 4 < nb.format || idMinor ≤ nb.minor

/-- Without the solutions, which are the author's alone. -/
def stripSolutions (nb : Notebook) : Notebook := { nb with cells := nb.cells.filter fun c => ! c.isSolution }

def solutionCount (nb : Notebook) : Nat := nb.cells.countP Cell.isSolution

end Notebook
end Handout
