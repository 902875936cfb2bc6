/-
  Handout.Failure — why something was not done, and the text that says so. Faults in the
  author's markup carry the text of the cell they were found in.
-/

import Handout.Number.Shortest
import Handout.Question.Metadata

namespace Handout

/-- Why the grader gave no report. -/
inductive RunnerFault where
  | notStarted (program reason : String)
  | unreadable (program : String)
  | exited (program status errors : String)
  | other (text : String)
  deriving DecidableEq, Repr, Inhabited

def RunnerFault.message : RunnerFault → String
  | .notStarted p reason => "Failed to spawn " ++ p ++ ": " ++ reason
  | .unreadable p => p ++ " printed an unreadable report: " ++ elided
  | .exited p status errors => p ++ " exited with " ++ status ++ ": " ++ errors
  | .other text => text

/-- What is wrong with the settings of a run. -/
inductive ConfigFault where
  | noCommand
  | notFile (path : String)
  | unreadable (path : String)
  deriving DecidableEq, Repr, Inhabited

def ConfigFault.message : ConfigFault → String
  | .noCommand => "runner_command must not be empty"
  | .notFile p => p ++ " is not a file"
  | .unreadable p => p ++ ": " ++ elided

/-- What went wrong with a file; `system` is what the file tree itself refuses. -/
inductive FileFault where
  | notFound (path : String)
  | noName (path : String)
  | system
  deriving DecidableEq, Repr, Inhabited

def FileFault.message : FileFault → String
  | .notFound p => p ++ " not found"
  | .noName p => p ++ " has no file name"
  | .system => elided

inductive Failure where
  | markup (fault : MarkupFault) (cell : String)
  | metadata (fault : MetadataFault) (cell : String)
  | verification (total possible : Double) (report : String)
  | testFile (path reason : String)
  | runner (fault : RunnerFault)
  | config (fault : ConfigFault)
  | file (fault : FileFault)
  | encoding
  deriving DecidableEq, Repr, Inhabited

namespace Failure

/-- A reason, and the cell it was found in. -/
def inCell (reason cell : String) : String := reason ++ "\n--- offending cell ---\n" ++ cell

def message : Failure → String
  | .markup fault cell => "Malformed markup: " ++ inCell fault.message cell
  | .metadata fault cell => "Invalid question metadata: " ++ inCell fault.message cell
  | .verification total possible report =>
    "Some autograder tests failed (" ++ String.ofList total.plainText ++ " of " ++
      String.ofList possible.plainText ++ " points):\n\n" ++ report
  | .testFile path reason => "Cannot read test file " ++ path ++ ": " ++ reason
  | .runner fault => "Test runner error: " ++ fault.message
  | .config fault => "Config error: " ++ fault.message
  | .file fault => "IO error: " ++ fault.message
  | .encoding => "Serialization error: " ++ elided

end Failure
end Handout
