/-
  Handout.CommandLine.Arguments — what a command line asks for. Options may stand anywhere
  before `--`; but for `-v` none may be given twice.
-/

import Handout.Config.Basic
import Handout.Path

namespace Handout

structure Arguments where
  /-- The master, the directory for the result, and auxiliary files. -/
  positional : List Path
  overrides : Overrides
  config : Option Path
  verbosity : Nat
  deriving DecidableEq, Repr, Inhabited

/-- What a command line comes to. -/
inductive Invocation where
  | run (master result : Path) (files : List Path) (a : Arguments)
  | help
  | version
  | misused
  deriving DecidableEq, Repr, Inhabited

namespace Arguments

def none : Arguments := ⟨[], .none, .none, 0⟩

/-- Sets a flag that is not set yet. -/
def setFlag (a : Arguments) (name : String) : Option Arguments :=
  let o := a.overrides
  match name with
  | "no-init-cell" => if o.noInitCell then .none else some { a with overrides := { o with noInitCell := true } }
  | "no-check-all" => if o.noCheckAll then .none else some { a with overrides := { o with noCheckAll := true } }
  | "no-export-cell" => if o.noExportCell then .none else some { a with overrides := { o with noExportCell := true } }
  | "no-run-tests" => if o.noRunTests then .none else some { a with overrides := { o with noRunTests := true } }
  | "no-filter" => if o.noFilter then .none else some { a with overrides := { o with noFilter := true } }
  | "verbose" => some { a with verbosity := a.verbosity + 1 }
  | _ => .none

/-- Options that take a value. -/
def takesValue (name : String) : Bool := name == "instructions" || name == "config"

/-- Gives a value to an option that has none yet; a path may not be empty. -/
def setValue (a : Arguments) (name value : String) : Option Arguments :=
  match name with
  | "instructions" =>
    if a.overrides.instructions.isSome then .none
    else some { a with overrides := { a.overrides with instructions := some value } }
  | "config" => if a.config.isSome || value = "" then .none else some { a with config := some value }
  | _ => .none

def addPositional (a : Arguments) (p : String) : Option Arguments :=
  if p = "" then .none else some { a with positional := a.positional ++ [p] }

end Arguments

namespace Invocation

/-- A name and the value after an equals sign. -/
def splitEquals : List Char → List Char × Option (List Char)
  | [] => ([], none)
  | '=' :: r => ([], some r)
  | c :: r => ((c :: (splitEquals r).1), (splitEquals r).2)

/-- Whether an argument can be the value of the option before it. -/
def isValue (s : String) : Bool := s == "-" || s.toList.head? ≠ some '-'

/-- Short options in one argument: `v` counts. -/
def short (a : Arguments) : List Char → Arguments ⊕ Invocation
  | [] => .inl a
  | 'v' :: r => short { a with verbosity := a.verbosity + 1 } r
  | 'h' :: _ => .inr .help
  | 'V' :: _ => .inr .version
  | _ => .inr .misused

/-- What the arguments come to when all have been read. -/
def finish (a : Arguments) : Invocation :=
  match a.positional with
  | master :: result :: files => .run master result files a
  | _ => .misused

/-- Goes on with `next` unless something was refused. -/
def orMisused (a : Option Arguments) (next : Arguments → Invocation) : Invocation :=
  match a with
  | some a => next a
  | none => .misused

/-- After `--` every argument is a path. -/
def readPaths (a : Arguments) : List String → Invocation
  | [] => finish a
  | p :: rest => orMisused (a.addPositional p) fun a => readPaths a rest

def read (a : Arguments) : List String → Invocation
  | [] => finish a
  | arg :: rest =>
    match arg.toList with
    | ['-', '-'] => readPaths a rest
    | '-' :: '-' :: body =>
      let (name, value) := splitEquals body
      let name := String.ofList name
      if name = "help" ∧ value.isNone then .help
      else if name = "version" ∧ value.isNone then .version
      else if Arguments.takesValue name then
        match value, rest with
        | some v, rest => orMisused (a.setValue name (String.ofList v)) fun a => read a rest
        | none, v :: rest => if isValue v then orMisused (a.setValue name v) fun a => read a rest else .misused
        | none, [] => .misused
      else if value.isSome then .misused
      else orMisused (a.setFlag name) fun a => read a rest
    | ['-'] => orMisused (a.addPositional arg) fun a => read a rest
    | '-' :: letters =>
      match short a letters with
      | .inl a => read a rest
      | .inr i => i
    | _ => orMisused (a.addPositional arg) fun a => read a rest

/-- What the arguments of a command line ask for. -/
def ofArguments (args : List String) : Invocation := read .none args

end Invocation
end Handout
