/-
  Handout.Notebook.Format — the text of a notebook. A source may be given as one string or
  as a list of strings and is written as a list of lines, each but the last with its
  end. Outputs and the execution count are written for code cells only.
-/

import Handout.Failure
import Handout.Json.Printer
import Handout.Json.Reader
import Handout.Notebook.Basic
import Handout.Notebook.Output

namespace Handout

open Json.Raw

/-! ## Reading -/

namespace Cell

def fields : List String :=
  ["cell_type", "id", "metadata", "source", "attachments", "outputs", "execution_count"]

def asMultiline : FieldReader Multiline := fun depth r => (asJson depth r).bind Multiline.ofJson?

def asCell : FieldReader Cell := fun depth r => do
  let found ← record fields depth r
  let kind ← found.required "cell_type" (asWordOf CellKind.ofName?)
  let id ← found.optional "id" none (orNull asText)
  let metadata ← found.optional "metadata" [] asMembers
  let source ← found.optional "source" none (orNull asMultiline)
  let attachments ← found.optional "attachments" none (orNull asJson)
  let outputs ← found.optional "outputs" none (orNull (asList asJson))
  let count ← found.optional "execution_count" none (orNull asJson)
  return ⟨kind, id, (source.map Multiline.toLines).getD [], outputs.getD [], count.bind Json.int?, metadata,
    attachments⟩

end Cell

namespace Notebook

def fields : List String := ["cells", "metadata", "nbformat", "nbformat_minor"]

/-- The format of a notebook that does not say. -/
def defaultFormat : Nat := 4

def asNotebook : FieldReader Notebook := fun depth r => do
  let found ← record fields depth r
  let cells ← found.required "cells" (asList Cell.asCell)
  let metadata ← found.optional "metadata" [] asMembers
  let format ← found.optional "nbformat" defaultFormat asWord
  let minor ← found.optional "nbformat_minor" 0 asWord
  return ⟨cells, metadata, format, minor⟩

def ofText (text : String) : Except Failure Notebook :=
  match Json.read? asNotebook text.toList with
  | some nb => .ok nb
  | none => .error .encoding

end Notebook

/-! ## Writing -/

namespace Cell

/-- The lines of a source, each but the last with its end. -/
def withBreaks : List String → List String
  | [] => []
  | [l] => [l]
  | l :: rest => (l ++ "\n") :: withBreaks rest

/-- A member that is written when it has a value. -/
def given (name : String) (v : Option Json) : List (String × Json) := v.toList.map fun j => (name, j)

def toJson (c : Cell) : Json :=
  .object (("cell_type", .text c.kind.name) :: given "id" (c.id.map .text) ++
    [("metadata", .object c.metadata), ("source", .array ((withBreaks c.source).map .text))] ++
    given "attachments" c.attachments ++
    if c.isCode then
      [("outputs", .array c.outputs),
        ("execution_count", (c.executionCount.map fun n => .number (.int n)).getD .null)]
    else [])

end Cell

namespace Notebook

def toJson (nb : Notebook) : Json :=
  .object [("cells", .array (nb.cells.map Cell.toJson)), ("metadata", .object nb.metadata),
    ("nbformat", .ofNat nb.format), ("nbformat_minor", .ofNat nb.minor)]

/-- How many blanks a level is indented by. -/
def indentWidth : Nat := 1

def toText (nb : Notebook) : String := String.ofList (nb.toJson.write indentWidth 0 ++ ['\n'])

end Notebook
end Handout
