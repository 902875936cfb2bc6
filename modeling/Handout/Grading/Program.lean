/-
  Handout.Grading.Program — grading with a program: it gets the notebook and the directory
  of the tests as its last arguments and prints its report. How a program is started is not
  said here; a `Launcher` does it.
-/

import Handout.Grading.Basic
import Handout.Text.Blank
import Handout.Text.Utf8

namespace Handout

/-- What is left of a program that has ended. -/
structure Ended where
  succeeded : Bool
  /-- How it ended, in words. -/
  status : String
  /-- What it printed. -/
  printed : ByteArray
  /-- What it said of its errors. -/
  errors : ByteArray

/-- Starts a program with its arguments and waits for its end, or says why it does not start. -/
abbrev Launcher (m : Type → Type) := (program : String) → (args : List String) → m (Except String Ended)

namespace Grader

variable {m : Type → Type} [Monad m] [MonadExceptOf Failure m]

/-- The report that a program printed. -/
def reportOf (program : String) (e : Ended) : Except Failure Report :=
  if e.succeeded then
    match (String.fromUTF8? e.printed).bind Report.ofText? with
    | some r => .ok r
    | none => .error (.runner (.unreadable program))
  else .error (.runner (.exited program e.status (String.ofList (Text.trim (Text.Utf8.lossy e.errors).toList))))

/-- The grader that runs a program with its first arguments. -/
def program (launch : Launcher m) (name : String) (args : List String) : Grader m := fun notebook tests => do
  match ← launch name (args ++ [notebook, tests]) with
  | .error why => throw (.runner (.notStarted name why))
  | .ok e => answered (reportOf name e)

/-- The grader of a command, which has to name a program. -/
def ofCommand (launch : Launcher m) : List String → Except Failure (Grader m)
  | [] => .error (.config .noCommand)
  | name :: args => .ok (program launch name args)

end Grader
end Handout
