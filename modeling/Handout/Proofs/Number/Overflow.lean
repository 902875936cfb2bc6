/-
  Handout.Proofs.Number.Overflow — which decimals round to infinity.

  Infinity has the first rank of a binade. Half a step below it lies a tie, which goes to the even
  side and so to infinity (`le_roundEven_iff`). A shorter shift than that of the binade before
  does not reach it and a longer one is past it (`le_rounded_iff`). The tie is at `overflow`, and
  the exponents at which a decimal is no longer looked at lie on the right sides of it.

  Proved:
  - `toRank_eq_infinityRank_iff`: a decimal rounds to infinity exactly from `overflow` on.
-/

import Mathlib.Tactic.Ring
import Handout.Number.Decimal
import Handout.Proofs.Number.Rounding

namespace Handout

namespace Double

/-! ## The tie below infinity -/

/-- An even number is reached from half a step below it on. -/
theorem le_roundEven_iff {q num den : Nat} (hden : 0 < den) (heven : q % 2 = 0) (hq : 0 < q) :
    q ≤ roundEven num den ↔ (2 * q - 1) * den ≤ 2 * num := by
  have hnum : num = den * (num / den) + num % den := (Nat.div_add_mod num den).symm
  have hrest : num % den < den := Nat.mod_lt num hden
  rcases Nat.lt_trichotomy (num / den + 1) q with hfar | hnext | hnear
  · have hround := roundEven_le num den
    have hmul : den * (num / den + 2) ≤ den * q := Nat.mul_le_mul_left den hfar
    rw [Nat.mul_add] at hmul
    rw [Nat.sub_mul, Nat.mul_assoc, Nat.mul_comm q den]
    omega
  · have hodd : num / den % 2 = 1 := by omega
    have hmul : (2 * q - 1) * den = 2 * (den * (num / den)) + den := by
      rw [← hnext, show 2 * (num / den + 1) - 1 = 2 * (num / den) + 1 by omega, Nat.add_mul, Nat.one_mul, Nat.mul_assoc,
        Nat.mul_comm (num / den) den]
    unfold roundEven
    simp only
    rw [hmul]
    split
    · omega
    · split <;> omega
  · have hround := le_roundEven num den
    have hmul : den * q ≤ den * (num / den) := Nat.mul_le_mul_left den (by omega)
    rw [Nat.sub_mul, Nat.mul_assoc, Nat.mul_comm q den]
    omega

theorem nearest_le (num den : Nat) : nearest num den ≤ infinityRank := Nat.min_le_left _ _

theorem lt_of_shiftOf (n : Nat) : n < 2 ^ 53 * 2 ^ shiftOf n := by
  by_cases hn : 2 ^ 52 ≤ n
  · exact (Nat.div_lt_iff_lt_mul (Nat.two_pow_pos _)).mp (shifted_bounds hn).2
  · rw [shiftOf_small (by omega)]
    omega

theorem le_of_shiftOf {n : Nat} (h : 0 < shiftOf n) : 2 ^ 52 * 2 ^ shiftOf n ≤ n := by
  have hn : 2 ^ 52 ≤ n := by
    by_contra hsmall
    rw [shiftOf_small (by omega)] at h
    exact Nat.lt_irrefl 0 h
  exact (Nat.le_div_iff_mul_le (Nat.two_pow_pos _)).mp (shifted_bounds hn).1

/-- A number of units is rounded to the first rank of a binade or past it from half a step of the
    binade before on. -/
theorem le_rounded_iff {num den : Nat} (hden : 0 < den) (shift : Nat) :
    (shift + 2) * binade ≤ shiftOf (num / den) * binade + roundEven num (den * 2 ^ shiftOf (num / den)) ↔
      (2 ^ 54 - 1) * (den * 2 ^ shift) ≤ 2 * num := by
  rw [binade_eq]
  rcases Nat.lt_trichotomy (shiftOf (num / den)) shift with hshift | hshift | hshift
  · have hround := roundEven_le num (den * 2 ^ shiftOf (num / den))
    have hsmall : num < 2 ^ 53 * (den * 2 ^ shiftOf (num / den)) := by
      have h := (Nat.div_lt_iff_lt_mul hden).mp (lt_of_shiftOf (num / den))
      rwa [Nat.mul_assoc, Nat.mul_comm _ den] at h
    have hquotient : num / (den * 2 ^ shiftOf (num / den)) < 2 ^ 53 :=
      (Nat.div_lt_iff_lt_mul (Nat.mul_pos hden (Nat.two_pow_pos _))).mpr hsmall
    have hpow : den * 2 ^ (shiftOf (num / den) + 1) ≤ den * 2 ^ shift :=
      Nat.mul_le_mul_left den (Nat.pow_le_pow_right (by decide) hshift)
    rw [Nat.pow_succ, ← Nat.mul_assoc] at hpow
    constructor <;> intro h <;> omega
  · have htie := @le_roundEven_iff (2 ^ 53) num _ (Nat.mul_pos hden (Nat.two_pow_pos shift)) (by decide) (by decide)
    rw [hshift]
    omega
  · have hlarge : 2 ^ 52 * (den * 2 ^ shiftOf (num / den)) ≤ num := by
      have h := (Nat.le_div_iff_mul_le hden).mp (le_of_shiftOf (by omega : 0 < shiftOf (num / den)))
      rwa [Nat.mul_assoc, Nat.mul_comm _ den] at h
    have hquotient : 2 ^ 52 ≤ num / (den * 2 ^ shiftOf (num / den)) :=
      (Nat.le_div_iff_mul_le (Nat.mul_pos hden (Nat.two_pow_pos _))).mpr hlarge
    have hround := le_roundEven num (den * 2 ^ shiftOf (num / den))
    have hpow : den * 2 ^ (shift + 1) ≤ den * 2 ^ shiftOf (num / den) :=
      Nat.mul_le_mul_left den (Nat.pow_le_pow_right (by decide) hshift)
    rw [Nat.pow_succ, ← Nat.mul_assoc] at hpow
    constructor <;> intro h <;> omega

/-- Half a step at the largest double is this power of two. -/
def halfStepBits : Nat := 970

/-- Half a step above the largest double. -/
def overflow : Nat := (2 ^ 54 - 1) * 2 ^ halfStepBits

theorem overflow_pos : 0 < overflow := Nat.mul_pos (by decide) (Nat.two_pow_pos _)

theorem overflow_mul (den : Nat) :
    (2 ^ 54 - 1) * (den * 2 ^ (halfStepBits + oneBits + 1)) = 2 * (overflow * den * 2 ^ oneBits) := by
  rw [overflow, Nat.pow_succ, Nat.pow_add]
  ring

/-- A quotient is rounded to infinity from half a step above the largest double on. -/
theorem nearest_eq_infinityRank_iff {num den : Nat} (hden : 0 < den) :
    nearest (num * unitsOfOne) den = infinityRank ↔ overflow * den ≤ num := by
  have htop : infinityRank = (halfStepBits + oneBits + 1 + 2) * binade := rfl
  have hrounded : nearest (num * unitsOfOne) den = infinityRank ↔
      (2 ^ 54 - 1) * (den * 2 ^ (halfStepBits + oneBits + 1)) ≤ 2 * (num * unitsOfOne) := by
    rw [← le_rounded_iff hden, nearest_eq, htop]
    omega
  rw [hrounded, overflow_mul, unitsOfOne_eq]
  constructor
  · intro h
    exact Nat.le_of_mul_le_mul_right (by omega : overflow * den * 2 ^ oneBits ≤ num * 2 ^ oneBits) (Nat.two_pow_pos _)
  · intro h
    have hmul := Nat.mul_le_mul_right (2 ^ oneBits) h
    omega

theorem isFinite_signed_iff {negative : Bool} {r : Nat} :
    (Double.signed negative r).isFinite = true ↔ r < infinityRank := by
  simp [isFinite, isNaN, isInfinite]

/-- Every integer of 64 bits is below that. -/
theorem isFinite_ofInt {n : Int} (h : n.natAbs ≤ 2 ^ 63) : (ofInt n).isFinite = true := by
  have hlarge : 2 ^ 63 < overflow := by
    have hpow : 2 ^ 64 ≤ 2 ^ halfStepBits := Nat.pow_le_pow_right (by decide) (by decide)
    rw [overflow]
    omega
  have hne : nearest (n.natAbs * unitsOfOne) 1 ≠ infinityRank := by
    rw [Ne, nearest_eq_infinityRank_iff Nat.one_pos]
    omega
  rw [ofInt, isFinite_signed_iff]
  exact Nat.lt_of_le_of_ne (nearest_le _ _) hne

end Double

namespace Decimal

open Double (infinityRank overflow overflow_pos)

/-- The number is at least a whole number. -/
def AtLeast (n : Nat) (d : Decimal) : Prop := n * 10 ^ (-d.exponent).toNat ≤ d.digits * 10 ^ d.exponent.toNat

theorem toRank_le (d : Decimal) : d.toRank ≤ infinityRank := by
  unfold toRank
  split
  · exact Nat.zero_le _
  split
  · exact Nat.le_refl _
  split
  · exact Double.nearest_le _ _
  split
  · exact Nat.zero_le _
  · exact Double.nearest_le _ _

theorem overflow_le_ten_pow {k : Nat} (h : 400 < k) : overflow ≤ 10 ^ k := by
  have hbits : 54 + Double.halfStepBits ≤ 3 * k := by
    rw [Double.halfStepBits]
    omega
  rw [overflow]
  generalize Double.halfStepBits = bits at hbits
  calc (2 ^ 54 - 1) * 2 ^ bits
      ≤ 2 ^ 54 * 2 ^ bits := Nat.mul_le_mul_right _ (by decide)
    _ = 2 ^ (54 + bits) := (Nat.pow_add 2 54 bits).symm
    _ ≤ 2 ^ (3 * k) := Nat.pow_le_pow_right (by decide) hbits
    _ = 8 ^ k := by rw [Nat.pow_mul]
    _ ≤ 10 ^ k := Nat.pow_le_pow_left (by decide) k

/-- A decimal is rounded to infinity exactly from half a step above the largest double on. -/
theorem toRank_eq_infinityRank_iff (d : Decimal) : d.toRank = infinityRank ↔ d.AtLeast overflow := by
  have hzero : (0 : Nat) ≠ infinityRank := by decide
  unfold toRank AtLeast
  split
  · rename_i hdigits
    have hpos : 0 < overflow * 10 ^ (-d.exponent).toNat := Nat.mul_pos overflow_pos (Nat.pow_pos (by decide))
    rw [hdigits, Nat.zero_mul]
    simp only [hzero, false_iff]
    omega
  rename_i hdigits
  split
  · rename_i hhuge
    rw [hugeExponent] at hhuge
    rw [show (-d.exponent).toNat = 0 by omega, Nat.pow_zero, Nat.mul_one]
    simp only [true_iff]
    exact Nat.le_trans (overflow_le_ten_pow (by omega)) (Nat.le_mul_of_pos_left _ (by omega))
  split
  · rename_i hwhole
    rw [Double.nearest_eq_infinityRank_iff Nat.one_pos, show (-d.exponent).toNat = 0 by omega, Nat.pow_zero]
    rfl
  rename_i hneg
  rw [show d.exponent.toNat = 0 by omega, Nat.pow_zero, Nat.mul_one]
  split
  · rename_i htiny
    rw [tinyExponent] at htiny
    have hlog : d.digits < 2 ^ (-d.exponent).toNat :=
      Nat.lt_of_lt_of_le Nat.lt_log2_self (Nat.pow_le_pow_right (by decide) (by omega))
    have hten : 2 ^ (-d.exponent).toNat ≤ 10 ^ (-d.exponent).toNat := Nat.pow_le_pow_left (by decide) _
    have hmul : 10 ^ (-d.exponent).toNat ≤ overflow * 10 ^ (-d.exponent).toNat := Nat.le_mul_of_pos_left _ overflow_pos
    simp only [hzero, false_iff]
    omega
  · exact Double.nearest_eq_infinityRank_iff (Nat.pow_pos (by decide))

end Decimal

end Handout
