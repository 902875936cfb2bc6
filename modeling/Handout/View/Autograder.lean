/-
  Handout.View.Autograder — the view that is graded: a directory with the auxiliary files,
  the notebook made from a master and, under `tests`, the tests of both tiers.
-/

import Handout.Files.Atomic
import Handout.Files.Copy
import Handout.Notebook.Build
import Handout.Store.Disk
import Handout.Summary

namespace Handout

/-- The name of a notebook. -/
def notebookName (path : Path) : Except Failure String :=
  match Path.fileName? path with
  | some n => .ok n
  | none => .error (.config (.notFile path))

variable {m : Type → Type} [Monad m] [MonadExceptOf Failure m]

namespace Files

def readNotebook (fs : Files m) (path : Path) : m Notebook := do
  answered (Notebook.ofText (← fs.read path))

def writeNotebook (fs : Files m) (path : Path) (nb : Notebook) : m Unit := fs.writeAtomic path nb.toText

def copyAll (fs : Files m) (dest : Path) : List Path → m Unit
  | [] => pure ()
  | f :: rest => do
    fs.copyInto f dest
    copyAll fs dest rest

end Files

namespace View

/-- Where a view keeps its tests. -/
def testsIn (view : Path) : Path := Path.join view "tests"

def autograderMessages (path : Path) (tests files : Nat) : List Message :=
  ⟨.info, "Autograder notebook written to " ++ path ++ " (" ++ toString tests ++ " test file(s))"⟩ ::
    if files = 0 then [] else [⟨.info, "Copied " ++ toString files ++ " auxiliary file(s)"⟩]

/-- Makes the view in `dest`. -/
def autograder (fs : Files m) (master : Path) (files : List Path) (dest : Path) (o : Options) : m Summary := do
  let name ← answered (notebookName master)
  fs.makeDirectories dest
  fs.copyAll dest files
  let nb ← fs.readNotebook master
  let built ← Notebook.build (Store.disk fs (testsIn dest)) fs.newId nb name o
  let path := Path.join dest name
  fs.writeNotebook path built.notebook
  return ⟨[path], built.stems, built.manual, none, autograderMessages path built.stems.length files.length⟩

end View
end Handout
