/-
  Handout.Config.File — the file of settings, and the auxiliary files it names, which are
  seen from the directory of the master.
-/

import Handout.Config.Basic
import Handout.Files.Basic

namespace Handout.Config

variable {m : Type → Type} [Monad m] [MonadExceptOf Failure m]

/-- Reads a file of settings, which has to be there. -/
def load (fs : Files m) (path : Path) : m Config := do
  let text ← tryCatchThe Failure (fs.read path) fun _ => throw (.config (.unreadable path))
  match ofText? text with
  | some c => return c
  | none => throw (.config (.unreadable path))

/-- Reads the settings of a directory; without a file they are the default ones. -/
def loadIn (fs : Files m) (dir : Path) : m Config := do
  let path := Path.join dir fileName
  if ← fs.isPresent path then load fs path else return default

def resolvedFiles (c : Config) (base : Path) : List Path := c.files.map (Path.join base)

end Handout.Config
