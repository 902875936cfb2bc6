/-
  Handout.Literal.Printer — the written form of a literal: four blanks a level, one item
  or entry a line, a comma after each, entries in key order, and texts in single quotes.
-/

import Handout.Literal.Basic
import Handout.Text.Hex

namespace Handout.Literal

/-! ## Texts and numbers -/

/-- A character between single quotes. -/
def quoteChar (c : Char) : List Char :=
  match c with
  | '\\' => ['\\', '\\']
  | '\'' => ['\\', '\'']
  | '\n' => ['\\', 'n']
  | '\r' => ['\\', 'r']
  | '\t' => ['\\', 't']
  | c => if c.toNat < 0x20 ∨ c.toNat = 0x7f then '\\' :: 'x' :: Text.Hex.digits 2 c.toNat else [c]

/-- A text in single quotes on one line. -/
def quote (cs : List Char) : List Char := '\'' :: cs.flatMap quoteChar ++ ['\'']

/-- A float. A whole number shows every digit and one place; the NaN and the infinities
    have no literal and are written as calls. -/
def writeFloat (d : Double) : List Char :=
  match d with
  | .nan => "float('nan')".toList
  | .signed s r =>
    (if s then ['-'] else []) ++
      if r ≥ Double.infinityRank then "float('inf')".toList
      else if d.isWhole then
        Decimal.writePositional true (Nat.toDigits 10 (Double.units r / Double.unitsOfOne)) 0
      else Double.plainLayout.write (Decimal.shortest r)

/-! ## Values -/

def indent (depth : Nat) : List Char := List.replicate (4 * depth) ' '

mutual

/-- A value whose first line is already indented to `depth`. -/
def write (depth : Nat) : Literal → List Char
  | .null => "None".toList
  | .bool true => "True".toList
  | .bool false => "False".toList
  | .int n => Decimal.writeInt n.toInt
  | .float d => writeFloat d
  | .text s => quote s.toList
  | .list [] => ['[', ']']
  | .list (v :: rest) => '[' :: '\n' :: writeItems depth (v :: rest) ++ indent depth ++ [']']
  | .dict [] => ['\x7b', '\x7d']
  | .dict (e :: rest) => '\x7b' :: '\n' :: writeEntries depth (e :: rest) ++ indent depth ++ ['\x7d']

def writeItems (depth : Nat) : List Literal → List Char
  | [] => []
  | v :: rest => indent (depth + 1) ++ write (depth + 1) v ++ ',' :: '\n' :: writeItems depth rest

def writeEntries (depth : Nat) : List (String × Literal) → List Char
  | [] => []
  | (k, v) :: rest =>
    indent (depth + 1) ++ quote k.toList ++ ':' :: ' ' :: write (depth + 1) v ++
      ',' :: '\n' :: writeEntries depth rest

end

def render (v : Literal) : List Char := write 0 v

/-- The name that a test file assigns to. -/
def target : List Char := "test".toList

/-- The whole text of a test file that holds `v`. -/
def renderAssignment (v : Literal) : List Char := target ++ " = ".toList ++ render v ++ ['\n']

end Handout.Literal
