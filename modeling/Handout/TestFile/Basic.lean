/-
  Handout.TestFile.Basic — a test file: the tests of one question at one tier, with the
  points they are worth. The public tier of a question `q` is stored under the stem
  `q`, the hidden tier under `qH`.
-/

import Handout.Number.Double

namespace Handout

/-- One transcript to run. -/
structure TestCase where
  code : String
  hidden : Bool
  locked : Bool
  deriving DecidableEq, Repr, Inhabited

structure TestSuite where
  cases : List TestCase
  scored : Bool
  setup : String
  teardown : String
  kind : String
  deriving DecidableEq, Repr, Inhabited

/-- A scored suite of transcripts without setup. -/
def TestSuite.doctest (cases : List TestCase) : TestSuite := ⟨cases, true, "", "", "doctest"⟩

structure TestFile where
  name : String
  points : Double
  hidden : Bool
  suites : List TestSuite
  deriving DecidableEq, Repr, Inhabited

namespace TestFile

/-- The key of a question's tier. -/
def stemOf (name : String) (hidden : Bool) : String := if hidden then name ++ "H" else name

def stem (f : TestFile) : String := stemOf f.name f.hidden

def fileName (f : TestFile) : String := f.stem ++ ".py"

/-- Equal files, points compared as numbers. -/
def Same (f g : TestFile) : Prop :=
  f.name = g.name ∧ f.points.eqv g.points = true ∧ f.hidden = g.hidden ∧ f.suites = g.suites

end TestFile
end Handout
