/-
  Handout.Files.Basic — what can be done with files, whatever keeps them. All of it follows
  links, except where an entry itself is meant: to remove or rename a link does nothing
  to what it leads to. What is refused fails with `FileFault.system`.
-/

import Handout.Action
import Handout.Path

namespace Handout

structure Files (m : Type → Type) where
  /-- Whether a path leads to anything. -/
  isPresent : Path → m Bool
  isDirectory : Path → m Bool
  isFile : Path → m Bool
  /-- Whether the entry itself is a link. -/
  isLink : Path → m Bool
  /-- The text of a file. -/
  read : Path → m String
  /-- Makes a file or replaces what it holds. -/
  write : Path → String → m Unit
  /-- Writes what one file holds into another. -/
  copy : (source target : Path) → m Unit
  /-- Makes a directory and those it lacks above it. -/
  makeDirectories : Path → m Unit
  /-- Removes a directory with all it holds, or a link. -/
  removeAll : Path → m Unit
  /-- Removes a file or a link. -/
  remove : Path → m Unit
  /-- Moves an entry, in place of a file, a link or an empty directory. -/
  rename : (source target : Path) → m Unit
  /-- The names in a directory. -/
  names : Path → m (List String)
  /-- The same answer for two paths that lead to the same directory, and for no others. -/
  identity : Path → m String
  /-- A path made with some tag at which nothing is. -/
  unused : (make : String → Path) → m Path
  /-- An id for a cell, none of those taken. -/
  newId : (taken : List String) → m String

/-- The failure of all that files refuse. -/
def Failure.refused : Failure := .file .system

end Handout
