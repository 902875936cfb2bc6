/-
  Handout.Segment.State — how the cells of a master are taken one by one. A question cell
  opens a question, the next cell is its response, and the tests and solutions after
  that belong to it; any other cell closes it. What a cell leads to is a `Step`: the
  test files to save, which happens even when the cell is refused, and then the cells
  for the notebook or a failure.
-/

import Handout.Question.Prompt
import Handout.Test.Compile

namespace Handout.Segment

/-- A question and the tests found for it so far. `hasPrompt` says that the author has
    written a place for the answer. -/
structure OpenQuestion where
  question : Question
  tests : List Test
  hiddenTests : List Test
  hasPrompt : Bool
  deriving Repr, Inhabited

inductive State where
  | idle
  /-- A question is open and its response comes next. -/
  | awaiting (q : OpenQuestion)
  | responding (q : OpenQuestion)
  deriving Repr, Inhabited

/-- What is written: cells, and the names of questions to grade by hand. -/
structure Output where
  cells : List Cell
  manual : List String
  deriving Inhabited

/-- What a cell leads to. -/
structure Step where
  saved : List TestFile
  result : Except Failure (State × Output)

namespace Output

def empty : Output := ⟨[], []⟩
def ofCells (cells : List Cell) : Output := ⟨cells, []⟩

def append (a b : Output) : Output := ⟨a.cells ++ b.cells, a.manual ++ b.manual⟩

end Output

namespace OpenQuestion

def ofQuestion (q : Question) : OpenQuestion := ⟨q, [], [], false⟩

/-- Keeps a test for its tier. -/
def add (q : OpenQuestion) (t : Test) : OpenQuestion :=
  if t.hidden then { q with hiddenTests := q.hiddenTests ++ [t] } else { q with tests := q.tests ++ [t] }

/-- The test files of the tiers that have tests, the public tier first. -/
def files (q : OpenQuestion) : List TestFile :=
  (if q.tests.isEmpty then [] else [TestFile.compile q.question q.tests false]) ++
    (if q.hiddenTests.isEmpty then [] else [TestFile.compile q.question q.hiddenTests true])

/-- The cells at the end of a question. Hidden tests have no cell that runs them. -/
def closing (q : OpenQuestion) : List Cell :=
  (if q.tests.isEmpty then [] else [Cell.grading q.question.name]) ++
    (if q.question.manual then [Cell.endQuestion] else [])

end OpenQuestion

/-- A markdown solution with a place for the learner's answer before it, unless there is
    one. -/
def withPlaceholder (hasPrompt : Bool) (c : Cell) : List Cell :=
  if c.isMarkdownSolution && ! hasPrompt then [Cell.placeholder, c] else [c]

/-- A cell outside of any question. -/
def atIdle (c : Cell) : Except Failure (State × Output) :=
  match c.isQuestion with
  | .error f => .error (.markup f c.text)
  | .ok true => do
    let q ← Question.ofCell c
    let prompt ← c.prompt q.manual
    return (.awaiting (.ofQuestion q), ⟨[prompt], if q.manual then [q.name] else []⟩)
  | .ok false =>
    if c.isSolution then .ok (.idle, .ofCells (withPlaceholder false c))
    else if c.isTest then .error (.markup .testOutside c.text)
    else .ok (.idle, .ofCells [c])

/-- The cell after the prompt of a question. -/
def atAwaiting (q : OpenQuestion) (c : Cell) : Except Failure (State × Output) :=
  match c.isQuestion with
  | .error f => .error (.markup f c.text)
  | .ok true => .error (.markup (.noResponse q.question.name) c.text)
  | .ok false =>
    if c.isTest then .error (.markup (.testAfterPrompt q.question.name) c.text)
    else if c.isSolution && ! c.isMarkdownSolution then
      .error (.markup (.solutionAfterPrompt q.question.name) c.text)
    else if ! c.isSolution && q.question.manual then
      .ok (.responding { q with hasPrompt := true }, .ofCells [c])
    else .ok (.responding q, .ofCells (withPlaceholder q.hasPrompt c))

/-- Takes one cell. -/
def State.feed (s : State) (c : Cell) : Step :=
  match s with
  | .idle => ⟨[], atIdle c⟩
  | .awaiting q => ⟨[], atAwaiting q c⟩
  | .responding q =>
    if c.isTest then ⟨[], .ok (.responding (q.add (Test.ofCell c)), .empty)⟩
    else if c.isSolution then ⟨[], .ok (.responding q, .ofCells (withPlaceholder q.hasPrompt c))⟩
    else ⟨q.files, (atIdle c).map fun (t, out) => (t, (Output.ofCells q.closing).append out)⟩

/-- Closes the question that is open when the cells are over. -/
def State.finish : State → Step
  | .idle => ⟨[], .ok (.idle, .empty)⟩
  | .awaiting q | .responding q => ⟨q.files, .ok (.idle, .ofCells q.closing)⟩

end Handout.Segment
