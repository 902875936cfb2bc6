/-
  Handout.Json.Numeral — number tokens and what they stand for. Digits are taken into a
  64-bit significand for as long as it holds them, further ones before the point only
  raise the exponent and further ones after it are dropped; the double is the
  significand times or divided by a power of ten, rounded at each of these steps.
-/

import Handout.Json.Basic
import Handout.Number.Decimal

namespace Handout.Json

/-- A number token: the digits before the point, those after it, and the exponent. -/
structure Numeral where
  negative : Bool
  whole : List Char
  fraction : Option (List Char)
  exponent : Option (Bool × List Char)
  deriving Repr, Inhabited

def maxSignificand : Nat := 18446744073709551615

/-- Takes digits into a significand while it stays within 64 bits, and counts them. -/
def absorb (significand : Nat) : List Char → Nat × Nat
  | [] => (significand, 0)
  | c :: r =>
    let next := significand * 10 + (c.toNat - '0'.toNat)
    if next ≤ maxSignificand then
      let (s, n) := absorb next r
      (s, n + 1)
    else (significand, 0)

/-- The double closest to a power of ten. -/
def powerOfTen (e : Nat) : Double := .signed false (Decimal.toRank ⟨1, e⟩)

/-- The largest power of ten that is a double. -/
def topPower : Nat := 308

/-- Divides by `10^e`, in steps of the largest power. -/
def scaleDown (f : Double) (e : Nat) : Double :=
  if e ≤ topPower then f.div (powerOfTen e)
  else if f == .zero then f
  else scaleDown (f.div (powerOfTen topPower)) (e - topPower)
termination_by e
decreasing_by simp only [topPower] at *; omega

/-- `significand · 10^e`; `none` when it is beyond the doubles. -/
def scale (significand : Nat) (e : Int) : Option Double :=
  let f := Double.ofNat significand
  if 0 ≤ e then
    if e.toNat ≤ topPower then
      let g := f.mul (powerOfTen e.toNat)
      if g.isInfinite then none else some g
    else if significand = 0 then some f
    else none
  else some (scaleDown f (-e).toNat)

def withSign (negative : Bool) (d : Double) : Double := if negative then d.neg else d

/-- The exponents that a token may have; a larger one is infinite or makes a zero. -/
def maxExponent : Nat := 2147483647

namespace Numeral

/-- The number of a token; `none` when it is beyond the doubles. -/
def value? (t : Numeral) : Option Number :=
  let (whole, taken) := absorb 0 t.whole
  let excess := t.whole.length - taken
  if t.fraction.isNone && t.exponent.isNone && excess == 0 then
    if t.negative then
      if 0 < whole ∧ whole ≤ 9223372036854775808 then some (.int (-whole))
      else some (.float (Double.ofNat whole).neg)
    else some (.int whole)
  else
    let (significand, places) := absorb whole (t.fraction.getD [])
    let start : Int := excess - places
    match t.exponent with
    | none => (scale significand start).map fun d => .float (withSign t.negative d)
    | some (down, ds) =>
      let e := Nat.ofDigitChars 10 ds 0
      if e > maxExponent then
        if significand ≠ 0 ∧ ¬ down then none else some (.float (withSign t.negative .zero))
      else
        (scale significand (if down then start - e else start + e)).map fun d =>
          .float (withSign t.negative d)

end Numeral
end Handout.Json
