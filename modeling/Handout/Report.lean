/-
  Handout.Report — what a grader reports: the points reached, the points there are, and
  whatever else it has to say.
-/

import Handout.Json.Printer
import Handout.Json.Reader
import Handout.Number.Decimal

namespace Handout

structure Report where
  total : Double
  possible : Double
  /-- All other members of the report. -/
  details : List (String × Json)
  deriving Inhabited

namespace Report

def totalName : String := "total"
def possibleName : String := "possible"

/-- Scores closer than this are the same. -/
def tolerance : Nat := Decimal.toRank ⟨1, -9⟩

def isFullMarks (r : Report) : Bool :=
  match r.total.sub r.possible with
  | .nan => false
  | .signed _ d => d < tolerance

/-! ## Reading -/

/-- The score of a name, which has to be given once. -/
def score? (name : String) (es : List (String × Json)) : Option Double :=
  match es.filter (·.1 = name) with
  | [(_, .number n)] => some n.toDouble
  | _ => none

open Json.Raw in
/-- Reads a report, which has to be an object. -/
def asReport : FieldReader Report := fun depth r =>
  match r with
  | .object ms => do
    let es ← toMembers (← Json.inside? depth) ms
    let total ← score? totalName es
    let possible ← score? possibleName es
    return ⟨total, possible, Table.ofEntries (es.filter fun e => e.1 ≠ totalName ∧ e.1 ≠ possibleName)⟩
  | _ => none

def ofText? (text : String) : Option Report := Json.read? asReport text.toList

/-! ## Writing -/

/-- The report for a reader, with the scores first. -/
def breakdown (r : Report) : String :=
  String.ofList (Json.write 2 0 (.object
    ((totalName, .number (.float r.total)) :: (possibleName, .number (.float r.possible)) :: r.details)))

end Report
end Handout
