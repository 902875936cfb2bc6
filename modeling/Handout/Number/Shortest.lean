/-
  Handout.Number.Shortest — the text of a double: the fewest digits that read back.

  For one digit, then two, up to seventeen, the two decimals next to the number on
  the grid of that many digits are tried, and one that rounds to the number's rank is
  taken, the closer of two. Should no grid hold one, every digit of the exact value
  is given, so what is written always reads back.
-/

import Handout.Number.Decimal

namespace Handout

namespace Decimal

/-- The exact value of a finite rank: a unit is `5^1074 · 10^-1074`. -/
def exact (rank : Nat) : Decimal := ⟨Double.units rank * Nat.pow 5 1074, -1074⟩

/-- Moves zeros at the end of the digits into the exponent. -/
def trim (d : Decimal) : Decimal :=
  let ds := Nat.toDigits 10 d.digits
  let dropped := (ds.reverse.takeWhile (· == '0')).length
  if d.digits = 0 then d else ⟨d.digits / Nat.pow 10 dropped, d.exponent + dropped⟩

/-- The number of decimal digits. -/
def width (n : Nat) : Nat := (Nat.toDigits 10 n).length

/-- The decimal of at most `places` digits next to the exact value of `rank` that
    rounds to it: the closer of the two neighbours when both do. -/
def onGrid (rank places : Nat) : Option Decimal :=
  let e := exact rank
  let scale := width e.digits - places
  let step := Nat.pow 10 scale
  let below : Decimal := ⟨e.digits / step, e.exponent + scale⟩
  let above : Decimal := ⟨e.digits / step + 1, e.exponent + scale⟩
  let candidates := if 2 * (e.digits % step) ≤ step then [below, above] else [above, below]
  (candidates.map trim).find? fun d => d.toRank == rank

/-- The decimal with the fewest digits that names the double of a finite rank. -/
def shortest (rank : Nat) : Decimal :=
  if rank = 0 then ⟨0, 0⟩
  else
    match (List.range 17).findSome? fun n => onGrid rank (n + 1) with
    | some d => d
    | none => exact rank

end Decimal

namespace Double

/-- A double written in a layout, with the given words for the NaN and infinity. -/
def write (l : Decimal.Layout) (nanText infinityText : List Char) : Double → List Char
  | .nan => nanText
  | .signed s r =>
    (if s then ['-'] else []) ++
      if r ≥ infinityRank then infinityText else l.write (Decimal.shortest r)

/-- Every digit positionally, whole numbers without a point. -/
def plainLayout : Decimal.Layout := ⟨none, false, false⟩

/-- Positional from 1e-4 to below 1e16, whole numbers ending in `.0`. -/
def inspectLayout : Decimal.Layout := ⟨some (-4, 16), true, false⟩

/-- The text used in messages. -/
def plainText (d : Double) : List Char := d.write plainLayout "NaN".toList "inf".toList

/-- The text used where a value is shown with its type. -/
def inspectText (d : Double) : List Char := d.write inspectLayout "NaN".toList "inf".toList

end Double
end Handout
