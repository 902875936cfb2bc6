/-
  Handout.Files.Copy — copying files and whole directories. Links are followed; a link that
  leads back to a directory around it is refused, as is one that leads nowhere.
-/

import Handout.Files.Basic

namespace Handout.Files

variable {m : Type → Type} [Monad m] [MonadExceptOf Failure m]

/-- How deep directories are followed; a path of that many names is too long for any file. -/
def maxDepth : Nat := 4096

/-- The path of an entry relative to where the copy began. -/
def relative (base name : String) : String := if base.isEmpty then name else base ++ "/" ++ name

/-- Copies what `source` leads to. `around` are the directories it lies in and `base` its
    path from where the copy began; it goes to that path under `dest`. -/
def copyEntry (fs : Files m) (dest : Path) : Nat → List String → String → Path → m Unit
  | 0, _, _, _ => throw .refused
  | depth + 1, around, base, source => do
    let linked ← fs.isLink source
    let target := Path.join dest base
    if ← fs.isDirectory source then
      let here ← fs.identity source
      if linked && around.contains here then throw .refused
      fs.makeDirectories target
      for name in ← fs.names source do
        copyEntry fs dest depth (here :: around) (relative base name) (Path.join source name)
    else fs.copy source target

/-- Copies what a directory holds into `dest`. -/
def copyTree (fs : Files m) (source dest : Path) : m Unit := copyEntry fs dest maxDepth [] "" source

/-- Copies a file or a directory into a directory, under its own name. -/
def copyInto (fs : Files m) (source dest : Path) : m Unit := do
  match Path.fileName? source with
  | none => throw (.file (.noName source))
  | some name =>
    let target := Path.join dest name
    if ← fs.isDirectory source then fs.copyTree source target
    else if ← fs.isFile source then
      fs.makeDirectories dest
      fs.copy source target
    else throw (.file (.notFound source))

end Handout.Files
