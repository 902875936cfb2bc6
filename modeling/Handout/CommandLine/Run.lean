/-
  Handout.CommandLine.Run — the program: settings are read, what the command line says is
  put on top of them, the assignment is made, and its messages are followed by what was
  written. Graders are programs, which a `Launcher` starts.
-/

import Handout.Assignment
import Handout.CommandLine.Arguments
import Handout.Config.File
import Handout.Grading.Program

namespace Handout

/-- How the program ends: its exit code, what it prints, and the failure it reports. -/
structure Ending where
  code : Nat
  printed : String
  failure : Option Failure
  deriving Inhabited

namespace Ending

/-- The text of a failure at the end of the program. -/
def failureText (f : Failure) : String := "Error: " ++ f.message ++ "\n"

end Ending

namespace CommandLine

variable {m : Type → Type} [Monad m] [MonadExceptOf Failure m]

/-- The directory of a master. -/
def directoryOf (master : Path) : Path :=
  match Path.parent? master with
  | some p => if p = "" then "." else p
  | none => "."

def listed (names : List String) : String := ", ".intercalate names

/-- What is printed after a run. -/
def summaryLines (s : Summary) : List String :=
  s.messages.map Message.text ++ (s.notebooks.map fun p => "Notebook: " ++ p) ++
    ["Test files: " ++ if s.stems.isEmpty then "none" else listed s.stems] ++
    if s.manual.isEmpty then [] else ["Manually graded: " ++ listed s.manual]

def assign (fs : Files m) (launch : Launcher m) (master result : Path) (files : List Path) (a : Arguments) : m Summary := do
  let dir := directoryOf master
  let config ← match a.config with
    | some path => Config.load fs path
    | none => Config.loadIn fs dir
  let grade ← answered (Grader.ofCommand launch config.runnerCommand)
  Assignment.run fs grade ⟨master, result, config.resolvedFiles dir ++ files, .merge config a.overrides⟩

def usage : String :=
  "Usage: handout [OPTIONS] <MASTER> <RESULT> [FILES]...\n\nOptions: --no-init-cell, --no-check-all, " ++
    "--no-export-cell, --no-run-tests, --no-filter, --instructions <TEXT>, --config <PATH>, -v, -h, -V\n"

def versionText : String := "handout 1.0\n"

/-- Runs the program with its arguments. -/
def run (fs : Files m) (launch : Launcher m) (args : List String) : m Ending := do
  match Invocation.ofArguments args with
  | .misused => return ⟨2, "", none⟩
  | .help => return ⟨0, usage, none⟩
  | .version => return ⟨0, versionText, none⟩
  | .run master result files a =>
    tryCatchThe Failure
      (do
        let s ← assign fs launch master result files a
        return ⟨0, String.join ((summaryLines s).map (· ++ "\n")), none⟩)
      fun f => return ⟨1, "", some f⟩

end CommandLine
end Handout
