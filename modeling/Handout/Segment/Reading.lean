/-
  Handout.Segment.Reading — a whole list of cells read from left to right: the test files
  to save, in order, and the cells for the notebook or the failure of the first cell
  that is refused. Saving them in a store is one thing (`segment`), reading another.
-/

import Handout.Segment.State
import Handout.Store.Basic

namespace Handout.Segment

/-- What a list of cells comes to. -/
structure Reading where
  saved : List TestFile
  result : Except Failure Output

/-- The steps from a state on, up to the one that fails, or to the end. -/
def trace (s : State) : List Cell → List Step
  | [] => [s.finish]
  | c :: rest =>
    let step := s.feed c
    step :: match step.result with
      | .error _ => []
      | .ok (t, _) => trace t rest

/-- The reading from a state on. -/
def readFrom (s : State) : List Cell → Reading
  | [] => ⟨s.finish.saved, s.finish.result.map Prod.snd⟩
  | c :: rest =>
    let step := s.feed c
    match step.result with
    | .error f => ⟨step.saved, .error f⟩
    | .ok (t, out) =>
      let tail := readFrom t rest
      ⟨step.saved ++ tail.saved, tail.result.map out.append⟩

def read (cells : List Cell) : Reading := readFrom .idle cells

end Segment

/-- The cells of a notebook made from a master, the questions to grade by hand, and the
    stems of the test files saved. -/
structure Segmented where
  cells : List Cell
  manual : List String
  stems : List String
  deriving Inhabited

/-- Reads the cells of a master and saves its tests. -/
def segment {m : Type → Type} [Monad m] [MonadExceptOf Failure m] (store : Store m) (cells : List Cell) :
    m Segmented := do
  let reading := Segment.read cells
  store.saveAll reading.saved
  let out ← answered reading.result
  return ⟨out.cells, out.manual, reading.saved.map TestFile.stem⟩

end Handout
