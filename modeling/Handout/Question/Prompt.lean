/-
  Handout.Question.Prompt — what learners see of a question cell: its text with the block
  made a comment by two changed lines, the opening fence and the closing one.
-/

import Handout.Cell.Generated
import Handout.Question.Block
import Handout.Failure

namespace Handout

/-- Reads the metadata of a question cell. -/
def Question.ofCell (c : Cell) : Except Failure Question :=
  match Question.find? c.source with
  | .error f => .error (.markup f c.text)
  | .ok none => .error (.markup .noQuestion c.text)
  | .ok (some i) => (Question.ofLines (Question.blockLines c.source i)).mapError fun f => .metadata f c.text

namespace Question

def commentOpening : String := "<!--"
def commentClosing : String := "-->"

/-- The position of the closing fence of a block whose begin line is at `begin`. -/
def closing? (source : List String) (begin : Nat) : Option Nat :=
  ((source.drop begin).findIdx? isClosingFence).map (begin + ·)

/-- A question graded by hand is announced by a comment and an empty line. -/
def announced (manual : Bool) (source : List String) : List String :=
  if manual then Cell.beginQuestionLine :: "" :: source else source

end Question

/-- The locked prompt of a question cell. -/
def Cell.prompt (c : Cell) (manual : Bool) : Except Failure Cell :=
  let source := Question.announced manual c.source
  match Question.find? source with
  | .error f => .error (.markup f (Text.textOf source))
  | .ok none => .error (.markup .noQuestion c.text)
  | .ok (some i) =>
    match Question.closing? source i with
    | none => .error (.markup .unterminated c.text)
    | some j =>
      .ok { c with source := (source.set (i - 1) Question.commentOpening).set j Question.commentClosing }.lock

end Handout
