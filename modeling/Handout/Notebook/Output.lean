/-
  Handout.Notebook.Output — text in a notebook, which may be written as one string or as a
  list of strings, and the text that a cell has printed.
-/

import Handout.Json.Basic
import Handout.Text.Lines

namespace Handout

/-- A text as a notebook writes it. -/
inductive Multiline where
  | text (s : String)
  | lines (ls : List String)
  deriving DecidableEq, Repr, Inhabited

namespace Multiline

/-- A string without the line ends at its start and end. -/
def trimBreaks (s : String) : String :=
  String.ofList (((s.toList.dropWhile (· == '\n')).reverse.dropWhile (· == '\n')).reverse)

/-- The lines without their ends: those of the string, or one for each string of the list. -/
def toLines : Multiline → List String
  | .text s => Text.linesOf s
  | .lines ls => ls.map trimBreaks

/-- The whole text. -/
def joined : Multiline → String
  | .text s => s
  | .lines ls => String.join ls

def ofJson? (v : Json) : Option Multiline :=
  match v with
  | .text s => some (.text s)
  | v => v.texts?.map .lines

end Multiline

/-- The text of one output record: what a stream printed, and of a shown value its first line. -/
def outputText (output : Json) : String :=
  let stream := ((output.member? "text").bind Multiline.ofJson?).map Multiline.joined
  let shown := ((output.member? "data").bind (·.member? "text/plain")).bind Multiline.ofJson?
  stream.getD "" ++
    match shown with
    | some (.lines (l :: _)) => l
    | some (.text s) => s
    | _ => ""

end Handout
