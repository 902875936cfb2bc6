/-
  Handout.Config.Basic — the settings of an assignment, and the options of one run: the settings
  with what the command line says on top of them.
-/

import Handout.Json.Reader

namespace Handout

/-- What a run adds to the notebook and whether it runs the tests. -/
structure Options where
  initCell : Bool
  checkAllCell : Bool
  exportCell : Bool
  runTests : Bool
  /-- Export the questions graded by hand only. -/
  filterOnExport : Bool
  instructions : Option String
  deriving DecidableEq, Repr, Inhabited

/-- The settings kept beside a master. -/
structure Config where
  initCell : Bool
  checkAllCell : Bool
  exportCell : Bool
  runTests : Bool
  filterOnExport : Bool
  instructions : Option String
  /-- Files for both views, seen from the master. -/
  files : List String
  /-- The grading program and its first arguments. -/
  runnerCommand : List String
  deriving DecidableEq, Repr, Inhabited

/-- What the command line takes away, and the instructions it gives. -/
structure Overrides where
  noInitCell : Bool
  noCheckAll : Bool
  noExportCell : Bool
  noRunTests : Bool
  noFilter : Bool
  instructions : Option String
  deriving DecidableEq, Repr, Inhabited

def Overrides.none : Overrides := ⟨false, false, false, false, false, .none⟩

namespace Config

/-- The name of the file of settings. -/
def fileName : String := "nbassign.json"

def defaultRunner : List String := ["otter-grade-json"]

def default : Config := ⟨true, true, true, true, true, none, [], defaultRunner⟩

def fields : List String :=
  ["init_cell", "check_all_cell", "export_cell", "run_tests", "filter_on_export", "instructions", "files",
    "runner_command"]

open Json.Raw in
def asConfig : FieldReader Config := fun depth r => do
  let found ← record fields depth r
  let initCell ← found.optional "init_cell" true asBool
  let checkAllCell ← found.optional "check_all_cell" true asBool
  let exportCell ← found.optional "export_cell" true asBool
  let runTests ← found.optional "run_tests" true asBool
  let filterOnExport ← found.optional "filter_on_export" true asBool
  let instructions ← found.optional "instructions" none (orNull asText)
  let files ← found.optional "files" [] (asList asText)
  let runnerCommand ← found.optional "runner_command" defaultRunner (asList asText)
  return ⟨initCell, checkAllCell, exportCell, runTests, filterOnExport, instructions, files, runnerCommand⟩

def ofText? (text : String) : Option Config := Json.read? asConfig text.toList

end Config

namespace Options

/-- A flag of the command line wins over the settings. -/
def merge (c : Config) (o : Overrides) : Options where
  initCell := c.initCell && ! o.noInitCell
  checkAllCell := c.checkAllCell && ! o.noCheckAll
  exportCell := c.exportCell && ! o.noExportCell
  runTests := c.runTests && ! o.noRunTests
  filterOnExport := c.filterOnExport && ! o.noFilter
  instructions := o.instructions.or c.instructions

/-- The options of a run without settings and flags. -/
def default : Options := merge .default .none

end Options
end Handout
