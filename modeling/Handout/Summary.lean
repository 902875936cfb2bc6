/-
  Handout.Summary — what a command has done, and what it has to say about it.
-/

import Handout.Path
import Handout.Report

namespace Handout

inductive Level where
  | info
  | success
  | warning
  deriving DecidableEq, Repr, Inhabited

def Level.name : Level → String
  | .info => "info"
  | .success => "success"
  | .warning => "warning"

structure Message where
  level : Level
  text : String
  deriving DecidableEq, Repr, Inhabited

structure Summary where
  /-- The notebooks written. -/
  notebooks : List Path
  /-- The stems of the test files written. -/
  stems : List String
  /-- The questions to grade by hand. -/
  manual : List String
  report : Option Report
  messages : List Message
  deriving Inhabited

namespace Summary

/-- One command after another; the later report counts. -/
def append (a b : Summary) : Summary :=
  ⟨a.notebooks ++ b.notebooks, a.stems ++ b.stems, a.manual ++ b.manual, b.report.or a.report,
    a.messages ++ b.messages⟩

def say (s : Summary) (level : Level) (text : String) : Summary :=
  { s with messages := s.messages ++ [⟨level, text⟩] }

end Summary
end Handout
