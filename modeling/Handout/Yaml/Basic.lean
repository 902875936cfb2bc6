/-
  Handout.Yaml.Basic — YAML values, and when two of them are the same key.
-/

import Handout.Number.Double

namespace Handout

inductive Yaml where
  | null
  | bool (b : Bool)
  | int (n : Int)
  | float (d : Double)
  | text (s : String)
  | seq (items : List Yaml)
  | map (entries : List (Yaml × Yaml))
  | tagged (tag : String) (v : Yaml)
  deriving Inhabited

namespace Yaml

/-- The value under its tags. -/
def untagged : Yaml → Yaml
  | .tagged _ v => v.untagged
  | v => v

/-- Floats as keys: the zeros are one key, and so are the NaNs. -/
def sameFloat (a b : Double) : Bool := (a.isNaN && b.isNaN) || a.eqv b

mutual

/-- Whether two values are one key. The order of entries does not matter; an integer and a
    float are different even where they are equal as numbers. -/
def same : Yaml → Yaml → Bool
  | .null, .null => true
  | .bool a, .bool b => a == b
  | .int a, .int b => a == b
  | .float a, .float b => sameFloat a b
  | .text a, .text b => a == b
  | .seq as, .seq bs => sameItems as bs
  | .map as, .map bs => as.length == bs.length && subsetOf as bs
  | .tagged s a, .tagged t b => s == t && same a b
  | _, _ => false

def sameItems : List Yaml → List Yaml → Bool
  | [], [] => true
  | a :: as, b :: bs => same a b && sameItems as bs
  | _, _ => false

/-- Every entry of the first list is in the second. -/
def subsetOf : List (Yaml × Yaml) → List (Yaml × Yaml) → Bool
  | [], _ => true
  | (k, v) :: rest, bs => hasEntry k v bs && subsetOf rest bs

def hasEntry (k v : Yaml) : List (Yaml × Yaml) → Bool
  | [] => false
  | (k', v') :: bs => (same k k' && same v v') || hasEntry k v bs

end

end Yaml
end Handout
