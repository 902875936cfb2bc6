/-
  Handout.Json.Printer — the indented text of a JSON value: one item or member a line, and
  an empty container without a line of its own.
-/

import Handout.Json.Basic
import Handout.Number.Shortest
import Handout.Text.Hex

namespace Handout.Json

/-- Positional from 1e-5 to below 1e16, whole numbers ending in `.0`, a sign on every exponent. -/
def floatLayout : Decimal.Layout := ⟨some (-5, 16), true, true⟩

def Number.write : Number → List Char
  | .int n => Decimal.writeInt n
  | .float d => if d.isFinite then d.write floatLayout [] [] else "null".toList

def escapeChar (c : Char) : List Char :=
  match c with
  | '"' => ['\\', '"']
  | '\\' => ['\\', '\\']
  | '\x08' => ['\\', 'b']
  | '\x0c' => ['\\', 'f']
  | '\n' => ['\\', 'n']
  | '\r' => ['\\', 'r']
  | '\t' => ['\\', 't']
  | c => if c.toNat < 0x20 then '\\' :: 'u' :: Text.Hex.digits 4 c.toNat else [c]

def writeText (s : String) : List Char := '"' :: s.toList.flatMap escapeChar ++ ['"']

def margin (width depth : Nat) : List Char := List.replicate (width * depth) ' '

mutual

/-- A value with `width` blanks a level, its first line at `depth`. -/
def write (width depth : Nat) : Json → List Char
  | .null => "null".toList
  | .bool true => "true".toList
  | .bool false => "false".toList
  | .number n => n.write
  | .text s => writeText s
  | .array [] => ['[', ']']
  | .array (v :: rest) =>
    '[' :: '\n' :: margin width (depth + 1) ++ write width (depth + 1) v ++
      writeItems width depth rest ++ '\n' :: margin width depth ++ [']']
  | .object [] => ['\x7b', '\x7d']
  | .object ((k, v) :: rest) =>
    '\x7b' :: '\n' :: margin width (depth + 1) ++ writeText k ++ ':' :: ' ' :: write width (depth + 1) v ++
      writeMembers width depth rest ++ '\n' :: margin width depth ++ ['\x7d']

/-- The items after the first. -/
def writeItems (width depth : Nat) : List Json → List Char
  | [] => []
  | v :: rest =>
    ',' :: '\n' :: margin width (depth + 1) ++ write width (depth + 1) v ++ writeItems width depth rest

/-- The members after the first. -/
def writeMembers (width depth : Nat) : List (String × Json) → List Char
  | [] => []
  | (k, v) :: rest =>
    ',' :: '\n' :: margin width (depth + 1) ++ writeText k ++ ':' :: ' ' :: write width (depth + 1) v ++
      writeMembers width depth rest

end

end Handout.Json
