/-
  Handout.Store.Basic — where test files are kept: each under the stem of its name. What a
  store does, and where, is up to the store.
-/

import Handout.Action
import Handout.TestFile.Basic

namespace Handout

structure Store (m : Type → Type) where
  /-- Keeps a file under its stem, in place of one that is there. -/
  save : TestFile → m Unit
  /-- The files with the stems they are found under, ordered by stem. -/
  list : m (List (String × TestFile))
  delete : (stem : String) → m Unit
  /-- Where the file of a stem is. -/
  pathOf : (stem : String) → String

namespace Store

variable {m : Type → Type} [Monad m]

def saveAll (store : Store m) : List TestFile → m Unit
  | [] => pure ()
  | f :: rest => do
    store.save f
    saveAll store rest

def deleteAll (store : Store m) : List String → m Unit
  | [] => pure ()
  | s :: rest => do
    store.delete s
    deleteAll store rest

/-- Deletes the files of the hidden tier and answers their stems, as stored. -/
def removeHidden (store : Store m) : m (List String) := do
  let files ← store.list
  let stems := (files.filter fun e => e.2.hidden).map Prod.fst
  store.deleteAll stems
  return stems

end Store

def TestFile.extension : String := "py"

/-- The name of the file that a stem is kept in. -/
def TestFile.nameOf (stem : String) : String := stem ++ "." ++ TestFile.extension

end Handout
