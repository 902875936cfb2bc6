/-
  Handout.Number.Double — double-precision numbers as exact data. Point values and
  scores are doubles; they are held as a sign and a rank so that every statement
  about them is one about natural numbers.

  The rank of a magnitude is how many doubles lie below it and not below zero, which
  is also its bit pattern without the sign. Every finite magnitude is a whole number
  of units of 2^-1074 (`units`), and `nearest` takes a quotient of such units to the
  closest rank, a tie going to the even one.
-/

namespace Handout

/-- A double: not a number, or a sign and a rank. -/
inductive Double where
  | nan
  | signed (negative : Bool) (rank : Nat)
  deriving DecidableEq, Repr, Inhabited

namespace Double

/-- The ranks of one binade. -/
def binade : Nat := Nat.pow 2 52

/-- The rank of infinity; every finite rank is below it. -/
def infinityRank : Nat := 2047 * binade

/-- How many units of 2^-1074 the magnitude of a finite rank is. -/
def units (rank : Nat) : Nat :=
  if rank < binade then rank else (binade + rank % binade) * Nat.pow 2 (rank / binade - 1)

/-- `num / den` rounded to the nearest natural number, a tie to the even one. -/
def roundEven (num den : Nat) : Nat :=
  let q := num / den
  let r := num % den
  if 2 * r < den then q else if den < 2 * r then q + 1 else q + q % 2

/-- The rank closest to `num / den` units, a tie to the even rank; from half a step
    above the largest finite magnitude on it is infinity. -/
def nearest (num den : Nat) : Nat :=
  let shift := (num / den).log2 - 52
  min infinityRank (shift * binade + roundEven num (den * Nat.pow 2 shift))

/-- How many units make 1. -/
def unitsOfOne : Nat := Nat.pow 2 1074

def zero : Double := .signed false 0

def infinity (negative : Bool) : Double := .signed negative infinityRank

/-- The double closest to an integer. -/
def ofInt (n : Int) : Double := .signed (n < 0) (nearest (n.natAbs * unitsOfOne) 1)

def ofNat (n : Nat) : Double := ofInt n

def one : Double := ofNat 1

def isNaN : Double → Bool
  | .nan => true
  | .signed .. => false

def isInfinite : Double → Bool
  | .nan => false
  | .signed _ r => r ≥ infinityRank

def isFinite (d : Double) : Bool := !d.isNaN && !d.isInfinite

/-- Whether a double is a whole number. -/
def isWhole : Double → Bool
  | .nan => false
  | .signed _ r => r < infinityRank && units r % unitsOfOne == 0

def neg : Double → Double
  | .nan => .nan
  | .signed s r => .signed (!s) r

/-- The integer left when the part after the point is dropped. -/
def truncate : Double → Int
  | .nan => 0
  | .signed s r => if s then -(units r / unitsOfOne : Nat) else (units r / unitsOfOne : Nat)

/-! ## Order -/

/-- The position of a signed rank on the line; both zeros stand at 0. -/
def position (negative : Bool) (rank : Nat) : Int := if negative then -rank else rank

/-- Numeric equality: the two zeros are equal and a NaN equals nothing. -/
def eqv : Double → Double → Bool
  | .signed s r, .signed t q => position s r == position t q
  | _, _ => false

/-! ## Arithmetic, each result rounded once -/

/-- A finite double as a signed number of units. -/
def signedUnits (negative : Bool) (rank : Nat) : Int :=
  if negative then -(units rank : Nat) else (units rank : Nat)

def add : Double → Double → Double
  | .signed s r, .signed t q =>
    if r ≥ infinityRank then
      if q ≥ infinityRank ∧ s ≠ t then .nan else .signed s infinityRank
    else if q ≥ infinityRank then .signed t infinityRank
    else
      let sum := signedUnits s r + signedUnits t q
      if sum = 0 then .signed (s && t) 0 else .signed (sum < 0) (nearest sum.natAbs 1)
  | _, _ => .nan

def sub (a b : Double) : Double := add a b.neg

def mul : Double → Double → Double
  | .signed s r, .signed t q =>
    if r ≥ infinityRank ∨ q ≥ infinityRank then
      if r = 0 ∨ q = 0 then .nan else .signed (s != t) infinityRank
    else .signed (s != t) (nearest (units r * units q) unitsOfOne)
  | _, _ => .nan

def div : Double → Double → Double
  | .signed s r, .signed t q =>
    if r ≥ infinityRank then
      if q ≥ infinityRank then .nan else .signed (s != t) infinityRank
    else if q ≥ infinityRank then .signed (s != t) 0
    else if q = 0 then (if r = 0 then .nan else .signed (s != t) infinityRank)
    else .signed (s != t) (nearest (units r * unitsOfOne) (units q))
  | _, _ => .nan

/-! ## Interchange bits -/

/-- The bit that is set for negative numbers. -/
def signBit : Nat := Nat.pow 2 63

/-- The double of an interchange bit pattern; every NaN pattern is the one NaN. -/
def ofBits (bits : Nat) : Double :=
  let rank := bits % signBit
  if rank > infinityRank then .nan else .signed (bits / signBit % 2 == 1) rank

/-- The interchange bit pattern, with the quiet pattern for the NaN. -/
def toBits : Double → Nat
  | .nan => 2047 * binade + binade / 2
  | .signed s r => (if s then signBit else 0) + r

end Double
end Handout
