/-
  Handout.Assignment — a whole run: both views of a master, checked by grading the one that
  is graded. Everything is made in a staging directory within the result and takes its
  place only when all has succeeded. The views that were there move aside first and
  come back should a new one not find its place.
-/

import Handout.Grading.Basic
import Handout.View.Student

namespace Handout

structure Assignment where
  master : Path
  /-- The directory that gets the views. -/
  result : Path
  /-- Files and directories for both views. -/
  files : List Path
  options : Options
  deriving Inhabited

namespace Assignment

def autograderName : String := "autograder"
def studentName : String := "student"
def viewNames : List String := [autograderName, studentName]

/-- Where views are kept while new ones take their place. -/
def asideName : String := "previous"

def stagingName (tag : String) : String := ".nbassign-" ++ tag

variable {m : Type → Type} [Monad m] [MonadExceptOf Failure m]

/-! ## Making the views -/

/-- Makes both views in a directory and has the graded one graded. -/
def buildViews (fs : Files m) (grade : Grader m) (a : Assignment) (name : String) (staging : Path) :
    m Summary := do
  let graded := Path.join staging autograderName
  let first ← View.autograder fs a.master a.files graded a.options
  let second ← View.student fs graded (Path.join staging studentName) name
  let views := first.append second
  if a.options.runTests then
    return views.append (← verify grade (Path.join graded name) (View.testsIn graded))
  else return views.say .warning "Skipped running autograder tests"

/-! ## Putting them in place -/

def removeAllOf (fs : Files m) (dir : Path) : List String → m Unit
  | [] => pure ()
  | v :: rest => do
    Files.attempt (fs.removeAll (Path.join dir v))
    removeAllOf fs dir rest

def bringBack (fs : Files m) (aside result : Path) : List String → m Unit
  | [] => pure ()
  | v :: rest => do
    Files.attempt (fs.rename (Path.join aside v) (Path.join result v))
    bringBack fs aside result rest

/-- Takes away the views placed and brings back those moved aside. -/
def rollBack (fs : Files m) (aside result : Path) (moved placed : List String) : m Unit := do
  removeAllOf fs result placed
  bringBack fs aside result moved

/-- Moves aside the views that are there, after those in `moved`, and answers which. -/
def moveAside (fs : Files m) (aside result : Path) (moved : List String) : List String → m (List String)
  | [] => return moved
  | v :: rest => do
    let target := Path.join result v
    if ← fs.isPresent target then
      Files.orUndo (fs.rename target (Path.join aside v)) (rollBack fs aside result moved [])
      moveAside fs aside result (moved ++ [v]) rest
    else moveAside fs aside result moved rest

/-- Puts the new views in place, after those in `placed`. -/
def place (fs : Files m) (staging aside result : Path) (moved placed : List String) : List String → m Unit
  | [] => pure ()
  | v :: rest => do
    Files.orUndo (fs.rename (Path.join staging v) (Path.join result v)) (rollBack fs aside result moved placed)
    place fs staging aside result moved (placed ++ [v]) rest

def commit (fs : Files m) (staging result : Path) : m Unit := do
  let aside := Path.join staging asideName
  fs.makeDirectories aside
  let moved ← moveAside fs aside result [] viewNames
  place fs staging aside result moved [] viewNames

def discard (fs : Files m) (staging : Path) : m Unit := do
  if ← fs.isPresent staging then Files.attempt (fs.removeAll staging)

/-! ## The run -/

def run (fs : Files m) (grade : Grader m) (a : Assignment) : m Summary := do
  let name ← answered (notebookName a.master)
  fs.makeDirectories a.result
  let staging ← fs.unused fun tag => Path.join a.result (stagingName tag)
  let views ← Files.orUndo (buildViews fs grade a name staging) (discard fs staging)
  Files.orUndo (commit fs staging a.result) (discard fs staging)
  discard fs staging
  let done := { views with notebooks := viewNames.map fun v => Path.join (Path.join a.result v) name }
  return done.say .success ("Assignment generated in " ++ a.result)

end Assignment
end Handout
