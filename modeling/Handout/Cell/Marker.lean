/-
  Handout.Cell.Marker — the markers by which an author says what a cell is for. A test or
  a code solution is marked on its first line, a markdown solution on any line; letters
  are compared by simple case folding and white space is White_Space.
-/

import Handout.Cell.Basic
import Handout.Text.Blank

namespace Handout

namespace Marker

/-- Folds the characters whose simple case folding is an ASCII letter: the capitals, the long s
    and the Kelvin sign. -/
def fold (c : Char) : Char :=
  if c.toNat = 0x17f then 's' else if c.toNat = 0x212a then 'k' else c.toLower

/-- What follows `word`, which is given in folded letters. -/
def afterWord? : (word : List Char) → List Char → Option (List Char)
  | [], s => some s
  | _ :: _, [] => none
  | w :: ws, c :: s => if fold c = w then afterWord? ws s else none

/-- What follows `word` and the white space after it. -/
def afterPart? (word : List Char) (s : List Char) : Option (List Char) :=
  (afterWord? word s).map Text.trimStart

def hashes : List Char := ['#', '#']

/-- `##`, optionally `hidden`, `test`, `##`, with any white space between them. -/
def isTest (line : String) : Bool :=
  ((do
    let s ← afterPart? hashes line.toList
    let s := (afterPart? "hidden".toList s).getD s
    afterWord? hashes (← afterPart? "test".toList s)) : Option (List Char)).isSome

/-- `##`, `solution`, `##`, with any white space between them. -/
def isSolution (line : String) : Bool :=
  ((do
    let s ← afterPart? hashes line.toList
    afterWord? hashes (← afterPart? "solution".toList s)) : Option (List Char)).isSome

/-- What follows one of the two ways to be bold. -/
def afterBold? (tag : List Char) (s : List Char) : Option (List Char) :=
  (afterWord? tag s).or (afterWord? ['*', '*'] s)

/-- `solution` in bold, with an optional colon. -/
def isBoldSolution (line : String) : Bool :=
  ((do
    let s ← afterBold? "<strong>".toList line.toList
    let s ← afterWord? "solution".toList s
    let s := (afterWord? [':'] s).getD s
    afterBold? "</strong>".toList s) : Option (List Char)).isSome

/-- Whether a text occurs in another. -/
def occurs (part : List Char) : List Char → Bool
  | [] => part.isEmpty
  | c :: s => part.isPrefixOf (c :: s) || occurs part s

/-- Whether a test's first line says that it is hidden: by the word `hidden` anywhere in it.
    Lower-casing brings in no further letter of that word: a dotted capital I becomes an i
    with a mark after it. -/
def isHidden (line : String) : Bool := occurs "hidden".toList (line.toList.map Char.toLower)

end Marker

namespace Cell

def firstLine (p : String → Bool) (c : Cell) : Bool := (c.source.head?).any p

def isMarkdownSolution (c : Cell) : Bool := c.isMarkdown && c.source.any Marker.isBoldSolution

def isSolution (c : Cell) : Bool :=
  match c.kind with
  | .markdown => c.isMarkdownSolution
  | .code => c.firstLine Marker.isSolution
  | .raw => false

def isTest (c : Cell) : Bool := c.isCode && c.firstLine Marker.isTest

end Cell
end Handout
