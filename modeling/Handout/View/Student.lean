/-
  Handout.View.Student — the view that learners get: a copy of the graded view without
  solutions and without the tests of the hidden tier.
-/

import Handout.View.Autograder

namespace Handout.View

variable {m : Type → Type} [Monad m] [MonadExceptOf Failure m]

def studentMessage (path : Path) (solutions hidden : Nat) : Message :=
  ⟨.info, "Student notebook written to " ++ path ++ " (" ++ toString solutions ++ " solution cell(s) removed, " ++
    toString hidden ++ " hidden test file(s) removed)"⟩

/-- Makes the view `dest` of the view `source`, in place of what is there. -/
def student (fs : Files m) (source dest : Path) (name : String) : m Summary := do
  if ← fs.isPresent dest then fs.removeAll dest
  fs.copyTree source dest
  let path := Path.join dest name
  let nb ← fs.readNotebook path
  fs.writeNotebook path nb.stripSolutions
  let hidden ← (Store.disk fs (testsIn dest)).removeHidden
  return ⟨[path], [], [], none, [studentMessage path nb.solutionCount hidden.length]⟩

end Handout.View
