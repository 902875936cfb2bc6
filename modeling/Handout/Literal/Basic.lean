/-
  Handout.Literal.Basic — the values of a test file: what the right-hand side of its one
  assignment spells.
-/

import Handout.Table
import Handout.Number.Shortest
import Handout.Text.Printable

namespace Handout

/-- A literal value. The entries of a dict are a table, sorted by key. -/
inductive Literal where
  | null
  | bool (b : Bool)
  | int (n : Int64)
  | float (d : Double)
  | text (s : String)
  | list (items : List Literal)
  | dict (entries : List (String × Literal))
  deriving Inhabited

namespace Literal

/-- Between neighbours of a list. -/
def spaced : List (List Char) → List Char
  | [] => []
  | [x] => x
  | x :: rest => x ++ ',' :: ' ' :: spaced rest

mutual

/-- A value shown with its kind, as messages show it. -/
def inspect : Literal → List Char
  | .null => "None".toList
  | .bool true => "Bool(true)".toList
  | .bool false => "Bool(false)".toList
  | .int n => "Int(".toList ++ Decimal.writeInt n.toInt ++ [')']
  | .float d => "Float(".toList ++ d.inspectText ++ [')']
  | .text s => "Str(".toList ++ Text.inspect s.toList ++ [')']
  | .list items => "List([".toList ++ spaced (inspectItems items) ++ "])".toList
  | .dict entries => "Dict(".toList ++ '\x7b' :: spaced (inspectEntries entries) ++ ['\x7d', ')']

def inspectItems : List Literal → List (List Char)
  | [] => []
  | v :: rest => inspect v :: inspectItems rest

def inspectEntries : List (String × Literal) → List (List Char)
  | [] => []
  | (k, v) :: rest => (Text.inspect k.toList ++ ':' :: ' ' :: inspect v) :: inspectEntries rest

end

/-! ## Reading a value as something narrower -/

def text? : Literal → Option String
  | .text s => some s
  | _ => none

def bool? : Literal → Option Bool
  | .bool b => some b
  | _ => none

/-- An int counts as the double closest to it. -/
def number? : Literal → Option Double
  | .int n => some (Double.ofInt n.toInt)
  | .float d => some d
  | _ => none

/-- A whole number below 9·10^15 in size as an int, every other one as a float. -/
def ofDouble (d : Double) : Literal :=
  let n := d.truncate
  if d.isWhole && n.natAbs < 9000000000000000 then .int (Int64.ofInt n) else .float d

end Literal
end Handout
