/-
  Handout.Cell.Basic — notebook cells. The source is kept as lines without their ends; an
  empty list of lines is a cell that was written without a source.
-/

import Handout.Json.Basic
import Handout.Text.Lines

namespace Handout

inductive CellKind where
  | markdown
  | code
  | raw
  deriving DecidableEq, Repr, Inhabited

def CellKind.name : CellKind → String
  | .markdown => "markdown"
  | .code => "code"
  | .raw => "raw"

def CellKind.ofName? (s : String) : Option CellKind :=
  if s = "markdown" then some .markdown
  else if s = "code" then some .code
  else if s = "raw" then some .raw
  else none

/-- A cell. Outputs are read while tests are compiled and appear in no generated view. -/
structure Cell where
  kind : CellKind
  id : Option String
  source : List String
  outputs : List Json
  executionCount : Option Int
  metadata : List (String × Json)
  attachments : Option Json
  deriving Inhabited

namespace Cell

/-- A new cell with a text. -/
def ofText (kind : CellKind) (text : String) : Cell := ⟨kind, none, Text.linesOf text, [], none, [], none⟩

def markdown (text : String) : Cell := ofText .markdown text
def code (text : String) : Cell := ofText .code text

def isMarkdown (c : Cell) : Bool := c.kind == .markdown
def isCode (c : Cell) : Bool := c.kind == .code

/-- The source as one text. -/
def text (c : Cell) : String := Text.textOf c.source

/-- Makes a cell neither editable nor deletable. -/
def lock (c : Cell) : Cell :=
  { c with metadata := Table.insert "deletable" (.bool false) (Table.insert "editable" (.bool false) c.metadata) }

def isFalse : Option Json → Bool
  | some (.bool false) => true
  | _ => false

def isLocked (c : Cell) : Bool :=
  isFalse (Table.find? "editable" c.metadata) && isFalse (Table.find? "deletable" c.metadata)

def clearOutputs (c : Cell) : Cell := { c with outputs := [], executionCount := none }

end Cell
end Handout
