/-
  Handout.Question.Block — the fenced block that makes a markdown cell a question: its
  first line is `BEGIN QUESTION`. Fences come in pairs and at most one block may begin so.
-/

import Handout.Cell.Basic
import Handout.Text.Blank

namespace Handout

/-- What is wrong with the markup of a cell. -/
inductive MarkupFault where
  | unbalancedFences (count : Nat)
  | severalQuestions
  | noQuestion
  | unterminated
  | testOutside
  | noResponse (question : String)
  | testAfterPrompt (question : String)
  | solutionAfterPrompt (question : String)
  deriving DecidableEq, Repr, Inhabited

namespace Question

def fence : String := "\x60\x60\x60"
def beginLine : String := "BEGIN QUESTION"

end Question

def MarkupFault.message : MarkupFault → String
  | .unbalancedFences n => "unbalanced " ++ Question.fence ++ " fences (" ++ toString n ++ " found)"
  | .severalQuestions => "multiple questions defined in one cell"
  | .noQuestion => "expected a BEGIN QUESTION block"
  | .unterminated => "unterminated question block"
  | .testOutside => "test cell outside of a question"
  | .noResponse q => "question " ++ q ++ " has no response before the next question"
  | .testAfterPrompt q => "test cell directly after the prompt of question " ++ q
  | .solutionAfterPrompt q => "code solution directly after the prompt of question " ++ q

namespace Question

def isFence (line : String) : Bool := line == fence

/-- A closing fence may have white space around it. -/
def isClosingFence (line : String) : Bool := Text.trim line.toList == fence.toList

/-- A begin line may have blanks around it. -/
def isBegin (line : String) : Bool :=
  ((line.toList.dropWhile (· == ' ')).reverse.dropWhile (· == ' ')).reverse == beginLine.toList

/-- The positions of the fences from `i` on. -/
def fencesFrom (i : Nat) : List String → List Nat
  | [] => []
  | l :: rest => if isFence l then i :: fencesFrom (i + 1) rest else fencesFrom (i + 1) rest

/-- Every other fence opens a block. -/
def openings : List Nat → List Nat
  | [] => []
  | [i] => [i]
  | i :: _ :: rest => i :: openings rest

/-- The positions of the begin lines. -/
def begins (source : List String) : List Nat :=
  ((openings (fencesFrom 0 source)).map (· + 1)).filter fun i => (source[i]?).any isBegin

/-- The position of the begin line, when the source declares a question. -/
def find? (source : List String) : Except MarkupFault (Option Nat) :=
  let fences := fencesFrom 0 source
  if fences.length % 2 ≠ 0 then .error (.unbalancedFences fences.length)
  else
    match begins source with
    | [] => .ok none
    | [i] => .ok (some i)
    | _ => .error .severalQuestions

/-- The lines of the block after its begin line. -/
def blockLines (source : List String) (begin : Nat) : List String :=
  (source.drop (begin + 1)).takeWhile fun l => ! isClosingFence l

end Question

/-- Whether a cell is a question; only markdown cells are looked at. -/
def Cell.isQuestion (c : Cell) : Except MarkupFault Bool :=
  if c.isMarkdown then (Question.find? c.source).map Option.isSome else .ok false

end Handout
