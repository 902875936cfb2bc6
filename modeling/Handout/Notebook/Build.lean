/-
  Handout.Notebook.Build — the notebook that is graded, made from a master: the segmented
  cells between the cells that are always there, without outputs, every cell with an id
  where the format asks for one.
-/

import Handout.Config.Basic
import Handout.Notebook.Format
import Handout.Segment.Reading

namespace Handout

/-- A notebook made from a master. -/
structure Built where
  notebook : Notebook
  manual : List String
  stems : List String
  deriving Inhabited

namespace Notebook

/-- The cells of a view: what a run adds, and the segmented cells between. -/
def around (name : String) (o : Options) (cells : List Cell) : List Cell :=
  (if o.initCell then [Cell.init] else []) ++ cells ++ (if o.checkAllCell then Cell.checkAll else []) ++
    (if o.exportCell then Cell.submit name o.instructions o.filterOnExport else [])

def takenIds (cells : List Cell) : List String := cells.filterMap Cell.id

variable {m : Type → Type} [Monad m]

/-- Gives every cell without an id a new one; `newId` answers one that is not taken. -/
def assignIds (newId : List String → m String) (taken : List String) : List Cell → m (List Cell)
  | [] => return []
  | c :: rest =>
    match c.id with
    | some _ => return c :: (← assignIds newId taken rest)
    | none => do
      let id ← newId taken
      return { c with id := some id } :: (← assignIds newId (id :: taken) rest)

/-- The notebook of a view before its cells have ids. -/
def draft (master : Notebook) (name : String) (o : Options) (cells : List Cell) : Notebook :=
  { master with cells := (around name o cells).map Cell.clearOutputs }

/-- Gives the cells ids where the format asks for them. -/
def identify (newId : List String → m String) (nb : Notebook) : m Notebook := do
  let cells ← if nb.needsIds then assignIds newId (takenIds nb.cells) nb.cells else pure nb.cells
  return { nb with cells }

/-- Makes the notebook of a view and saves its tests. -/
def build [MonadExceptOf Failure m] (store : Store m) (newId : List String → m String) (master : Notebook)
    (name : String) (o : Options) : m Built := do
  let s ← segment store master.cells
  let notebook ← (master.draft name o s.cells).identify newId
  return ⟨notebook, s.manual, s.stems⟩

end Notebook
end Handout
