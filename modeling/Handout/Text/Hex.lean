/-
  Handout.Text.Hex — hexadecimal digits, read in either case and written in lower case, and
  the characters that code points name.
-/

namespace Handout.Text.Hex

/-- The value of a digit. -/
def digit? (c : Char) : Option Nat :=
  if '0' ≤ c ∧ c ≤ '9' then some (c.toNat - '0'.toNat)
  else if 'a' ≤ c ∧ c ≤ 'f' then some (c.toNat - 'a'.toNat + 10)
  else if 'A' ≤ c ∧ c ≤ 'F' then some (c.toNat - 'A'.toNat + 10)
  else none

/-- The number that digits spell. -/
def number? (ds : List Char) : Option Nat :=
  (ds.mapM digit?).map fun vs => vs.foldl (fun n v => n * 16 + v) 0

/-- The last `width` digits of a number. -/
def digits : (width : Nat) → Nat → List Char
  | 0, _ => []
  | w + 1, n => digits w (n / 16) ++ [Nat.digitChar (n % 16)]

/-- The character with a code point; surrogates and what is above U+10FFFF have none. -/
def charOfCode? (n : Nat) : Option Char := if h : n.isValidChar then some (Char.ofNatAux n h) else none

end Handout.Text.Hex
