/-
  Handout.Json.Basic — JSON values. The members of an object that was read are a table:
  sorted by name, and no name occurs twice. A record is written in the order of its
  fields.
-/

import Handout.Table
import Handout.Number.Double

namespace Handout

namespace Json

/-- A number is an integer of 64 bits, signed or not, or a double. -/
inductive Number where
  | int (n : Int)
  | float (d : Double)
  deriving DecidableEq, Repr, Inhabited

def Number.toDouble : Number → Double
  | .int n => .ofInt n
  | .float d => d

end Json

inductive Json where
  | null
  | bool (b : Bool)
  | number (n : Json.Number)
  | text (s : String)
  | array (items : List Json)
  | object (members : List (String × Json))
  deriving Inhabited, BEq

namespace Json

def ofNat (n : Nat) : Json := .number (.int n)

/-- A member of an object; other values have none. -/
def member? (name : String) : Json → Option Json
  | .object ms => Table.find? name ms
  | _ => none

def text? : Json → Option String
  | .text s => some s
  | _ => none

/-- An integer within the signed range. -/
def int? : Json → Option Int
  | .number (.int n) => if n ≤ 9223372036854775807 then some n else none
  | _ => none

/-- A list of texts. -/
def texts? : Json → Option (List String)
  | .array vs => vs.mapM text?
  | _ => none

end Json
end Handout
