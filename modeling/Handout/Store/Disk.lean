/-
  Handout.Store.Disk — a store that is a directory of files: each test file is one file,
  replaced as a whole. What is found is listed under the name it has, whatever name is
  written in it.
-/

import Handout.Files.Atomic
import Handout.Store.Basic
import Handout.Table
import Handout.TestFile.Encoding

namespace Handout.Store.Disk

/-- The name by which a directory is a package. -/
def packageName : String := "__init__.py"

/-- Whether a file of this name holds tests. -/
def isTestName (name : String) : Bool := Path.extension? name == some TestFile.extension && name ≠ packageName

def pathOf (root : Path) (stem : String) : Path := Path.join root (TestFile.nameOf stem)

variable {m : Type → Type} [Monad m]

/-- The names of the test files, each once, in order. -/
def testNames (fs : Files m) (root : Path) : m (List String) := do
  if ← fs.isPresent root then
    let names ← (← fs.names root).filterM fun n => fs.isFile (Path.join root n)
    return Table.keys (Table.ofEntries ((names.filter isTestName).map fun n => (n, ())))
  else return []

/-- The paths of the test files, in the order of their names. -/
def testPaths (fs : Files m) (root : Path) : m (List Path) :=
  return (← testNames fs root).map (Path.join root)

def save [MonadExceptOf Failure m] (fs : Files m) (root : Path) (f : TestFile) : m Unit := do
  unless ← fs.isPresent root do fs.makeDirectories root
  fs.writeAtomic (Path.join root f.fileName) f.encode

variable [MonadExceptOf Failure m]

def readTest (fs : Files m) (path : Path) : m TestFile := do
  match TestFile.decode (← fs.read path) with
  | .ok f => return f
  | .error r => throw (.testFile path r.message)

def list (fs : Files m) (root : Path) : m (List (String × TestFile)) := do
  (← testNames fs root).mapM fun n => return (Path.stem n, ← readTest fs (Path.join root n))

/-- A file that is gone already is passed over. -/
def delete (fs : Files m) (root : Path) (stem : String) : m Unit := do
  if ← fs.isPresent (pathOf root stem) then fs.remove (pathOf root stem)

end Disk

/-- The store of the directory `root`, which is made when the first file is saved. -/
def disk {m : Type → Type} [Monad m] [MonadExceptOf Failure m] (fs : Files m) (root : Path) : Store m :=
  ⟨Disk.save fs root, Disk.list fs root, Disk.delete fs root, Disk.pathOf root⟩

end Handout.Store
