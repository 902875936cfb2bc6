/-
  Handout.Test.Transcript — a test as an interactive transcript. A line that starts with
  white space, or follows a line that ends in a backslash, goes on with the statement
  before it (`... `); every other line begins one (`>>> `). Where the next line begins a
  statement, a semicolon keeps the value of this one from being shown, unless the line
  is too short to have one or goes on. What is expected is the last line.
-/

import Handout.Text.Blank
import Handout.Text.Lines

namespace Handout.Transcript

def statementPrompt : List Char := ">>> ".toList
def continuationPrompt : List Char := "... ".toList

def isEscaped (line : List Char) : Bool := line.getLast? == some '\\'

/-- Whether a line goes on with the statement before it; `escaped` says that the line
    before it ends in a backslash. -/
def continues (escaped : Bool) (line : List Char) : Bool := escaped || line.head?.any Text.isBlank

def prompt (escaped : Bool) (line : List Char) : List Char :=
  if continues escaped line then continuationPrompt else statementPrompt

/-- Lines of at most this many characters, without white space at their ends, show nothing. -/
def shortLine : Nat := 3

/-- Whether `line` gets a semicolon before `next`. -/
def isSuppressed (line next : List Char) : Bool :=
  ! continues (isEscaped line) next && (Text.trim line).length > shortLine && ! isEscaped line

/-- The lines of a transcript, the first of them after a line that `escaped` speaks of. -/
def renderLines (escaped : Bool) : List (List Char) → List (List Char)
  | [] => []
  | [l] => [prompt escaped l ++ l]
  | l :: next :: rest =>
    (prompt escaped l ++ l ++ if isSuppressed l next then [';'] else []) ::
      renderLines (isEscaped l) (next :: rest)

/-- The transcript that runs `input` and expects `output`. -/
def render (input output : List Char) : List Char :=
  Text.join (renderLines false (Text.split input) ++ [output])

end Handout.Transcript
