/-
  Handout.Cell.Generated — the cells that are added to a notebook. All are locked but the
  place for an answer and the empty cell at the end.
-/

import Handout.Cell.Basic

namespace Handout.Cell

/-- Where a learner writes an answer. -/
def placeholder : Cell := markdown "_Type your answer here, replacing this text._"

def beginQuestionLine : String := "<!-- BEGIN QUESTION -->"
def endQuestionLine : String := "<!-- END QUESTION -->"

/-- Ends a question that is graded by hand. -/
def endQuestion : Cell := (markdown endQuestionLine).lock

/-- Runs the tests stored under a stem. -/
def grading (stem : String) : Cell := (code ("grader.check(\"" ++ stem ++ "\")")).lock

/-- Sets up the grader. -/
def init : Cell := (code "# Initialize Otter\nimport otter\ngrader = otter.Notebook()").lock

/-- Runs all tests again. -/
def checkAll : List Cell :=
  [(markdown "To double-check your work, the cell below will rerun all of the autograder tests.").lock,
    (code "grader.check_all()").lock]

def submission : String :=
  "## Submission\n\nMake sure you have run all cells in your notebook in order before running " ++
    "the cell below, so that all images/graphs appear in the output. **Please save before submitting!**"

/-- The submission instructions, with the author's own text under them. -/
def instructionText (extra : Option String) : String :=
  match extra with
  | none => submission
  | some t => if t.isEmpty then submission else submission ++ "\n\n" ++ t

def exportCall (name : String) (filtering : Bool) : String :=
  "grader.export(\"" ++ name ++ "\"" ++ if filtering then ")" else ", filtering=False)"

/-- How to submit: the instructions, the call that exports the notebook of this name, and
    an empty cell. -/
def submit (name : String) (instructions : Option String) (filtering : Bool) : List Cell :=
  [(markdown (instructionText instructions)).lock,
    (code ("# Save your notebook first, then run this cell to export.\n" ++ exportCall name filtering)).lock,
    markdown " "]

end Handout.Cell
