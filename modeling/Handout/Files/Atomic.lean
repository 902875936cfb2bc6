/-
  Handout.Files.Atomic — replacing a file as a whole: the new text is written beside it under
  a name nothing else has and then takes its place. A failure leaves nothing behind.
-/

import Handout.Files.Basic

namespace Handout.Files

variable {m : Type → Type} [Monad m] [MonadExceptOf Failure m]

/-- Tries something and passes over its failure. -/
def attempt (x : m Unit) : m Unit := tryCatchThe Failure x fun _ => pure ()

/-- Does `x`; should it fail, does `undo` before it fails. -/
def orUndo {α : Type} (x : m α) (undo : m Unit) : m α :=
  tryCatchThe Failure x fun f => do
    attempt undo
    throw f

/-- The name beside `path` under which its new text is written. -/
def temporary (path : Path) (tag : String) : Path :=
  Path.join ((Path.parent? path).getD ".") ("." ++ (Path.fileName? path).getD "" ++ "-" ++ tag ++ ".tmp")

def writeAtomic (fs : Files m) (path : Path) (text : String) : m Unit := do
  let tmp ← fs.unused (temporary path)
  orUndo (fs.write tmp text) (fs.remove tmp)
  orUndo (fs.rename tmp path) (fs.remove tmp)

end Handout.Files
