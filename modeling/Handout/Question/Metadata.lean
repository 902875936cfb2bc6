/-
  Handout.Question.Metadata — what an author says about a question: a YAML mapping in its
  block with the name, the points and whether it is graded by hand.
-/

import Handout.Question.Block
import Handout.Text.Printable
import Handout.Yaml.Document

namespace Handout

structure Question where
  name : String
  manual : Bool
  format : String
  points : Option Double
  publicPoints : Option Double
  privatePoints : Option Double
  deriving DecidableEq, Repr, Inhabited

/-- What is wrong with the metadata of a question. -/
inductive MetadataFault where
  | unreadable
  | notMapping
  | illFitting
  | illegalName (name : String)
  | notFinite (key : String)
  deriving DecidableEq, Repr, Inhabited

/-- The place of what a foreign reader would say about a text. -/
def elided : String := "*"

def MetadataFault.message : MetadataFault → String
  | .unreadable => "bad YAML: " ++ elided
  | .notMapping => "question metadata must be a mapping with a \x60name\x60"
  | .illFitting => elided
  | .illegalName n => "illegal question name " ++ String.ofList (Text.inspect n.toList)
  | .notFinite k => "\x60" ++ k ++ "\x60 must be a finite number"

namespace Question

def empty : Question := ⟨"", false, "", none, none, none⟩

/-! ## Names and points -/

def isNameLetter (c : Char) : Bool := c.isAlpha
def isNameChar (c : Char) : Bool := c.isAlphanum || c == '_'

/-- A letter, then letters, digits and underscores, all ASCII. -/
def isName (s : String) : Bool :=
  match s.toList with
  | [] => false
  | c :: r => isNameLetter c && r.all isNameChar

def textOf? (v : Yaml) : Option String :=
  match v.untagged with
  | .text s => some s
  | _ => none

def boolOf? (v : Yaml) : Option Bool :=
  match v.untagged with
  | .bool b => some b
  | _ => none

/-- Points are a number, or nothing. -/
def pointsOf? (v : Yaml) : Option (Option Double) :=
  match v with
  | .null => some none
  | v =>
    match v.untagged with
    | .int n => some (some (.ofInt n))
    | .float d => some (some d)
    | _ => none

/-! ## The record -/

def fields : List String := ["name", "manual", "format", "points", "public_points", "private_points"]

/-- Puts one entry of the mapping into the record; a key that is no field is passed over. -/
def setField (q : Question) (key : String) (v : Yaml) : Option Question :=
  match key with
  | "name" => (textOf? v).map fun s => { q with name := s }
  | "manual" => (boolOf? v).map fun b => { q with manual := b }
  | "format" => (textOf? v).map fun s => { q with format := s }
  | "points" => (pointsOf? v).map fun p => { q with points := p }
  | "public_points" => (pointsOf? v).map fun p => { q with publicPoints := p }
  | "private_points" => (pointsOf? v).map fun p => { q with privatePoints := p }
  | _ => some q

/-- Reads the entries in order; keys are texts, and a field may be given once. -/
def ofEntries? (q : Question) (seen : List String) : List (Yaml × Yaml) → Option Question
  | [] => some q
  | (k, v) :: rest => do
    let key ← textOf? k
    if fields.contains key && seen.contains key then none
    else ofEntries? (← q.setField key v) (key :: seen) rest

/-- The first of the points that is given and not finite. -/
def notFinite? (q : Question) : Option String :=
  ([("points", q.points), ("public_points", q.publicPoints), ("private_points", q.privatePoints)].find?
    fun p => p.2.any fun d => ! d.isFinite).map Prod.fst

/-- Reads the metadata from the lines of a block. -/
def ofLines (lines : List String) : Except MetadataFault Question :=
  match Yaml.ofText? (Text.join (lines.map String.toList)) with
  | none => .error .unreadable
  | some v =>
    match v.untagged with
    | .map es =>
      match ofEntries? empty [] es with
      | none => .error .illFitting
      | some q =>
        if ! isName q.name then .error (.illegalName q.name)
        else
          match q.notFinite? with
          | some k => .error (.notFinite k)
          | none => .ok q
    | _ => .error .notMapping

end Question
end Handout
