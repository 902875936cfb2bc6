/-
  Handout.Grading.Basic — running the tests of a notebook. A notebook passes with full marks
  only.
-/

import Handout.Action
import Handout.Files.Workspace
import Handout.Summary

namespace Handout

/-- Grades a notebook against the tests of a directory. -/
abbrev Grader (m : Type → Type) := (notebook tests : Path) → m Report

namespace Grader

/-- A grader that knows its answer and notes what it is asked. -/
def fixed (answer : Except Failure Report) : Grader (Action Workspace) := fun notebook tests => do
  modify fun w => { w with graded := w.graded ++ [(notebook, tests)] }
  answered answer

end Grader

def passedMessage (r : Report) : Message :=
  ⟨.success, "All autograder tests passed (" ++ String.ofList r.total.plainText ++ " / " ++
    String.ofList r.possible.plainText ++ " points)"⟩

/-- Grades a notebook; less than full marks is a failure. -/
def verify {m : Type → Type} [Monad m] [MonadExceptOf Failure m] (grade : Grader m) (notebook tests : Path) :
    m Summary := do
  let report ← grade notebook tests
  if report.isFullMarks then return ⟨[], [], [], some report, [passedMessage report]⟩
  else throw (.verification report.total report.possible report.breakdown)

end Handout
