/-
  Handout.Yaml.Core — what a plain scalar stands for: nothing, a boolean, an integer in
  base ten, sixteen, eight or two, a float, or a text. Zeros in front of further digits
  make a text.
-/

import Handout.Number.Decimal
import Handout.Text.Hex
import Handout.Yaml.Basic

namespace Handout.Yaml

def isNullText (s : String) : Bool := s == "null" || s == "Null" || s == "NULL" || s == "~"

def boolOf? (s : String) : Option Bool :=
  if s == "true" || s == "True" || s == "TRUE" then some true
  else if s == "false" || s == "False" || s == "FALSE" then some false
  else none

/-- The value of a digit in a base of at most sixteen. -/
def digitOf? (base : Nat) (c : Char) : Option Nat := (Text.Hex.digit? c).filter (· < base)

/-- The natural number that some digits spell, at least one of them. -/
def natOf? (base : Nat) (cs : List Char) : Option Nat :=
  if cs = [] then none
  else cs.foldl (fun n c => do return (← n) * base + (← digitOf? base c)) (some 0)

/-- The base that a prefix names. -/
def basePrefix? : List Char → Option (Nat × List Char)
  | '0' :: 'x' :: r => some (16, r)
  | '0' :: 'o' :: r => some (8, r)
  | '0' :: 'b' :: r => some (2, r)
  | _ => none

/-- Digits in the base of their prefix, base ten without one. -/
def magnitudeOf? (cs : List Char) : Option Nat :=
  match (basePrefix? cs).bind fun p => natOf? p.1 p.2 with
  | some n => some n
  | none => natOf? 10 cs

/-- Zeros followed by digits, after an optional sign. -/
def hasLeadingZero (cs : List Char) : Bool :=
  let ds := match cs with
    | '-' :: r => r
    | '+' :: r => r
    | r => r
  match ds with
  | '0' :: d :: r => (d :: r).all Char.isDigit
  | _ => false

def intOf? (cs : List Char) : Option Int :=
  if hasLeadingZero cs then none
  else
    match cs with
    | '-' :: r => (magnitudeOf? r).map fun n => -(n : Int)
    | '+' :: r => (magnitudeOf? r).map fun n => (n : Int)
    | r => (magnitudeOf? r).map fun n => (n : Int)

/-- Whether an integer fits into some bits, as a signed or as a natural number. -/
def fits (bits : Nat) (n : Int) : Bool := -(Nat.pow 2 (bits - 1) : Nat) ≤ n && n < (Nat.pow 2 bits : Nat)

/-- Integers that a value holds. -/
def isHeld (n : Int) : Bool := fits 64 n

/-- Integers of up to 128 bits are read as integers, those outside 64 bits in vain. -/
def isWide (n : Int) : Bool := fits 128 n

def floatOf? (cs : List Char) : Option Double :=
  let s := String.ofList cs
  let unsigned := match cs with
    | '+' :: r => r
    | r => r
  let u := String.ofList unsigned
  if cs.head? == some '+' && (unsigned.head? == some '+' || unsigned.head? == some '-') then none
  else if u == ".inf" || u == ".Inf" || u == ".INF" then some (.infinity false)
  else if s == "-.inf" || s == "-.Inf" || s == "-.INF" then some (.infinity true)
  else if s == ".nan" || s == ".NaN" || s == ".NAN" then some .nan
  else (Double.ofText? unsigned).filter Double.isFinite

/-- An integer within 128 bits: `none` for other texts, refused when it is outside 64 bits. -/
def heldInt? (cs : List Char) : Option (Option Yaml) :=
  match intOf? cs with
  | some n => if isWide n then some (if isHeld n then some (.int n) else none) else none
  | none => none

/-- The value of a plain scalar without a tag; `none` when it is an integer too wide. -/
def plain? (cs : List Char) : Option Yaml :=
  let s := String.ofList cs
  if cs = [] ∨ isNullText s then some .null
  else
    match boolOf? s with
    | some b => some (.bool b)
    | none =>
      match heldInt? cs with
      | some r => r
      | none =>
        if hasLeadingZero cs then some (.text s)
        else
          match floatOf? cs with
          | some d => some (.float d)
          | none => some (.text s)

/-! ## Tags -/

def coreTag (name : String) : String := "tag:yaml.org,2002:" ++ name

/-- A local tag without its mark. -/
def localTag? (tag : String) : Option String :=
  match tag.toList with
  | ['!'] => some "!"
  | '!' :: r => some (String.ofList r)
  | _ => none

/-- The value of a scalar under a tag. -/
def taggedScalar? (tag : String) (isPlain : Bool) (cs : List Char) : Option Yaml :=
  match localTag? tag with
  | some t => do
    let v ← if isPlain then plain? cs else some (.text (String.ofList cs))
    return .tagged t v
  | none =>
    let s := String.ofList cs
    if tag == coreTag "bool" then (boolOf? s).map Yaml.bool
    else if tag == coreTag "int" then (heldInt? cs).join
    else if tag == coreTag "float" then (floatOf? cs).map Yaml.float
    else if tag == coreTag "null" then (if isNullText s then some .null else none)
    else some (.text s)

end Handout.Yaml
