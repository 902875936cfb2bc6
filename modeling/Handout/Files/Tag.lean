/-
  Handout.Files.Tag — the tags that make names unlike all others, and the ids of cells:
  hexadecimal digits of a number.
-/

import Handout.Text.Hex

namespace Handout

/-- Thirty-two digits in groups of eight, four, four, four and twelve. The last group is
    longer for a number that needs more digits. -/
def tagOf (n : Nat) : String :=
  let ds := Text.Hex.digits (32 + n >>> 128) n
  String.ofList (ds.take 8 ++ '-' :: (ds.drop 8).take 4 ++ '-' :: (ds.drop 12).take 4 ++ '-' :: (ds.drop 16).take 4 ++
    '-' :: ds.drop 20)

/-- The ids that are tried from a seed on: eight digits, no two alike for a long while. -/
def idOf (seed attempt : Nat) : String := String.ofList (Text.Hex.digits 8 (seed + attempt * 0x9e3779b1))

/-- The first id from a seed on that is not taken. One more are tried than are taken. -/
def freshId (seed : Nat) (taken : List String) : String :=
  (((List.range (taken.length + 1)).map (idOf seed)).find? fun i => ! taken.contains i).getD (idOf seed 0)

end Handout
