/-
  Handout.Test.Compile — the test file of a question's tier: one suite with a transcript
  for each test, and the points that the question gives to the tier.
-/

import Handout.Question.Metadata
import Handout.Test.Basic
import Handout.Test.Transcript
import Handout.TestFile.Basic

namespace Handout

/-- The points of a tier. Points given to one tier only also say what the other is worth:
    the hidden tier as much as the public one, the public tier nothing. -/
def Question.pointsOf (q : Question) (hidden : Bool) : Double :=
  match q.publicPoints, q.privatePoints with
  | some pub, some priv => if hidden then priv else pub
  | some pub, none => pub
  | none, some priv => if hidden then priv else .zero
  | none, none => q.points.getD .one

def Test.toCase (t : Test) : TestCase :=
  ⟨String.ofList (Transcript.render t.input.toList t.output.toList), t.hidden, false⟩

def TestFile.compile (q : Question) (tests : List Test) (hidden : Bool) : TestFile :=
  ⟨q.name, q.pointsOf hidden, hidden, [.doctest (tests.map Test.toCase)]⟩

end Handout
