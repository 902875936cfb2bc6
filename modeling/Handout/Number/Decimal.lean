/-
  Handout.Number.Decimal — decimal numbers `digits · 10^exponent`, their text, and
  the double each one names.

  `ofText?` reads the plain grammar (digits with at most one point, then an optional
  exponent; at least one digit before the exponent), `toRank` rounds to the closest
  double, and `Layout.write` writes a decimal positionally or with an exponent.
-/

import Handout.Number.Double

namespace Handout

/-- The number `digits · 10^exponent`. -/
structure Decimal where
  digits : Nat
  exponent : Int
  deriving DecidableEq, Repr, Inhabited

namespace Decimal

/-! ## Reading -/

/-- The digits at the start of a text, and what follows them. -/
def spanDigits (cs : List Char) : List Char × List Char :=
  (cs.takeWhile Char.isDigit, cs.dropWhile Char.isDigit)

/-- The exponent at the end of a number: nothing, or a mark, an optional sign and digits. -/
def exponentOf? : List Char → Option Int
  | [] => some 0
  | c :: r =>
    if c = 'e' ∨ c = 'E' then
      let (negative, ds) := match r with
        | '-' :: ds => (true, ds)
        | '+' :: ds => (false, ds)
        | ds => (false, ds)
      if ds ≠ [] ∧ ds.all Char.isDigit then
        let n : Int := Nat.ofDigitChars 10 ds 0
        some (if negative then -n else n)
      else none
    else none

/-- Reads an unsigned decimal number that is the whole text. -/
def ofText? (cs : List Char) : Option Decimal :=
  let (whole, afterWhole) := spanDigits cs
  let (part, rest) := match afterWhole with
    | '.' :: r => spanDigits r
    | r => ([], r)
  if whole = [] ∧ part = [] then none
  else (exponentOf? rest).map fun e => ⟨Nat.ofDigitChars 10 (whole ++ part) 0, e - part.length⟩

/-! ## Rounding to a double -/

/-- From this exponent on every positive decimal is above the largest double. -/
def hugeExponent : Int := 400

/-- A decimal whose exponent is further below zero than this and its digits
    together is nearer to zero than to the least positive double. -/
def tinyExponent : Int := 1100

/-- The rank of the double closest to a decimal. -/
def toRank (d : Decimal) : Nat :=
  if d.digits = 0 then 0
  else if d.exponent > hugeExponent then Double.infinityRank
  else if 0 ≤ d.exponent then
    Double.nearest (d.digits * Nat.pow 10 d.exponent.toNat * Double.unitsOfOne) 1
  else if d.exponent < -(tinyExponent + d.digits.log2) then 0
  else Double.nearest (d.digits * Double.unitsOfOne) (Nat.pow 10 (-d.exponent).toNat)

/-! ## Writing -/

/-- Where an exponent mark is used and how it looks. -/
structure Layout where
  /-- Leading-digit exponents written positionally: from the first, below the second.
      Without bounds every number is written positionally. -/
  positional : Option (Int × Int)
  /-- Whether a whole number written positionally ends in `.0`. -/
  wholeMark : Bool
  /-- Whether a positive exponent has a sign. -/
  plusSign : Bool

def zeros (n : Nat) : List Char := List.replicate n '0'

/-- The digits with a point at its place. -/
def writePositional (wholeMark : Bool) (ds : List Char) (exponent : Int) : List Char :=
  if 0 ≤ exponent then
    ds ++ zeros exponent.toNat ++ (if wholeMark then ['.', '0'] else [])
  else
    let places := (-exponent).toNat
    if places < ds.length then
      ds.take (ds.length - places) ++ '.' :: ds.drop (ds.length - places)
    else ['0', '.'] ++ zeros (places - ds.length) ++ ds

/-- An integer in decimal, with a sign when it is negative. -/
def writeInt (n : Int) : List Char :=
  if n < 0 then '-' :: Nat.toDigits 10 n.natAbs else Nat.toDigits 10 n.natAbs

/-- One digit, a point before further ones, and the exponent of the first. -/
def writeExponent (plusSign : Bool) (ds : List Char) (lead : Int) : List Char :=
  (match ds with
    | c :: d :: r => c :: '.' :: d :: r
    | short => short)
    ++ 'e' :: (if plusSign ∧ 0 ≤ lead then ['+'] else []) ++ writeInt lead

def Layout.write (l : Layout) (d : Decimal) : List Char :=
  let ds := Nat.toDigits 10 d.digits
  let lead := d.exponent + ds.length - 1
  match l.positional with
  | none => writePositional l.wholeMark ds d.exponent
  | some (low, high) =>
    if d.digits = 0 ∨ (low ≤ lead ∧ lead < high) then writePositional l.wholeMark ds d.exponent
    else writeExponent l.plusSign ds lead

end Decimal

/-- The double a signed decimal text names, `none` when it is not a number. -/
def Double.ofText? (cs : List Char) : Option Double :=
  let (negative, body) := match cs with
    | '-' :: r => (true, r)
    | '+' :: r => (false, r)
    | r => (false, r)
  (Decimal.ofText? body).map fun d => .signed negative d.toRank

end Handout
