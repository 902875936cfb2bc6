/-
  Handout.Proofs.Number.Rounding — rounding to the closest rank, and the ranks that it hits.

  A rank is `shift` whole binades and a significand `q` from `2^52` to `2^53`, both
  included, and names `q · 2^shift` units (`units_binades`); below that a rank is its
  own number of units. So the units of a rank round back to it, whatever scale they
  are given in (`nearest_units`), and a whole number rounds to a whole number
  (`whole_of_nearest`).
-/

import Mathlib.Algebra.Ring.Nat
import Handout.Number.Double

namespace Handout.Double

/-! ## Ranks and their units -/

theorem binade_eq : binade = 2 ^ 52 := rfl

theorem units_small {r : Nat} (h : r ≤ 2 ^ 52) : units r = r := by
  unfold units
  rw [binade_eq]
  split
  · rfl
  · obtain rfl : r = 2 ^ 52 := by omega
    rfl

/-- The significand may be the first one of the next binade. -/
theorem units_binades (shift : Nat) {q : Nat} (hlow : 2 ^ 52 ≤ q) (hhigh : q ≤ 2 ^ 53) :
    units (shift * binade + q) = q * 2 ^ shift := by
  unfold units
  rw [binade_eq, if_neg (by omega)]
  rcases Nat.lt_or_eq_of_le hhigh with hlt | rfl
  · have hdiv : (shift * 2 ^ 52 + q) / 2 ^ 52 - 1 = shift := by omega
    have hmod : 2 ^ 52 + (shift * 2 ^ 52 + q) % 2 ^ 52 = q := by omega
    rw [hdiv, hmod]
    rfl
  · have hdiv : (shift * 2 ^ 52 + 2 ^ 53) / 2 ^ 52 - 1 = shift + 1 := by omega
    have hmod : 2 ^ 52 + (shift * 2 ^ 52 + 2 ^ 53) % 2 ^ 52 = 2 ^ 52 := by omega
    rw [hdiv, hmod, Nat.pow_eq, Nat.pow_succ 2 shift]
    omega

/-- Every rank from the first binade on is made of binades and a significand. -/
theorem exists_binades {r : Nat} (h : 2 ^ 52 ≤ r) :
    ∃ shift q, r = shift * binade + q ∧ 2 ^ 52 ≤ q ∧ q < 2 ^ 53 := by
  refine ⟨r / 2 ^ 52 - 1, 2 ^ 52 + r % 2 ^ 52, ?_, by omega, by omega⟩
  rw [binade_eq]
  omega

theorem units_pos {r : Nat} (h : 0 < r) : 0 < units r := by
  by_cases hr : r ≤ 2 ^ 52
  · rw [units_small hr]
    exact h
  · obtain ⟨shift, q, rfl, hlow, hhigh⟩ := exists_binades (by omega : 2 ^ 52 ≤ r)
    rw [units_binades shift hlow (by omega)]
    exact Nat.mul_pos (by omega) (Nat.two_pow_pos shift)

/-! ## Rounding -/

theorem roundEven_of_mul {q d : Nat} (hd : 0 < d) : roundEven (q * d) d = q := by
  simp only [roundEven, Nat.mul_div_cancel q hd, Nat.mul_mod_left, Nat.mul_zero, if_pos hd]

theorem le_roundEven (n d : Nat) : n / d ≤ roundEven n d := by
  unfold roundEven
  simp only
  split
  · exact Nat.le_refl _
  · split <;> omega

theorem roundEven_le (n d : Nat) : roundEven n d ≤ n / d + 1 := by
  unfold roundEven
  simp only
  split
  · omega
  · split
    · exact Nat.le_refl _
    · have hmod := Nat.mod_lt (n / d) (by decide : 0 < 2)
      omega

/-- How far a number of units is shifted before it is rounded. -/
def shiftOf (n : Nat) : Nat := n.log2 - 52

theorem nearest_eq (num den : Nat) :
    nearest num den = min infinityRank
      (shiftOf (num / den) * binade + roundEven num (den * 2 ^ shiftOf (num / den))) := rfl

theorem shiftOf_small {n : Nat} (h : n < 2 ^ 53) : shiftOf n = 0 := by
  by_cases hn : n = 0
  · rw [hn, shiftOf, Nat.log2_zero]
  · have hlog := (Nat.log2_lt hn).mpr h
    rw [shiftOf]
    omega

theorem shiftOf_binades (shift : Nat) {q : Nat} (hlow : 2 ^ 52 ≤ q) (hhigh : q < 2 ^ 53) :
    shiftOf (q * 2 ^ shift) = shift := by
  have hpos : 0 < 2 ^ shift := Nat.two_pow_pos shift
  have hne : q * 2 ^ shift ≠ 0 := Nat.mul_ne_zero (by omega) (by omega)
  have hlog : (q * 2 ^ shift).log2 = 52 + shift := by
    rw [Nat.log2_eq_iff hne, Nat.pow_add, show 52 + shift + 1 = 53 + shift by omega, Nat.pow_add]
    exact ⟨Nat.mul_le_mul_right _ hlow, (Nat.mul_lt_mul_right hpos).mpr hhigh⟩
  rw [shiftOf, hlog]
  omega

/-- After the shift a number of more than 53 bits is left with just as many. -/
theorem shifted_bounds {n : Nat} (h : 2 ^ 52 ≤ n) : 2 ^ 52 ≤ n / 2 ^ shiftOf n ∧ n / 2 ^ shiftOf n < 2 ^ 53 := by
  have hne : n ≠ 0 := by omega
  have hlog : 52 ≤ n.log2 := (Nat.le_log2 hne).mpr h
  have hpos : 0 < 2 ^ shiftOf n := Nat.two_pow_pos _
  constructor
  · rw [Nat.le_div_iff_mul_le hpos, ← Nat.pow_add, shiftOf, Nat.add_sub_of_le hlog]
    exact Nat.log2_self_le hne
  · rw [Nat.div_lt_iff_lt_mul hpos, ← Nat.pow_add, shiftOf, show 53 + (n.log2 - 52) = n.log2 + 1 by omega]
    exact Nat.lt_log2_self

/-- The units of a finite rank, in any scale, round to the rank. -/
theorem nearest_units {r k : Nat} (hr : r < infinityRank) (hk : 0 < k) : nearest (units r * k) k = r := by
  rw [nearest_eq, Nat.mul_div_cancel _ hk]
  by_cases hsmall : r < 2 ^ 52
  · rw [units_small (by omega), shiftOf_small (by omega), Nat.zero_mul, Nat.zero_add, Nat.pow_zero, Nat.mul_one,
      roundEven_of_mul hk]
    omega
  · obtain ⟨shift, q, rfl, hlow, hhigh⟩ := exists_binades (by omega : 2 ^ 52 ≤ r)
    rw [units_binades shift hlow (by omega), shiftOf_binades shift hlow hhigh, Nat.mul_assoc,
      Nat.mul_comm (2 ^ shift) k, roundEven_of_mul (Nat.mul_pos hk (Nat.two_pow_pos shift))]
    omega

/-! ## Whole numbers -/

/-- The units of 1 are this power of two. -/
def oneBits : Nat := 1074

theorem unitsOfOne_eq : unitsOfOne = 2 ^ oneBits := by
  delta unitsOfOne oneBits
  generalize 1074 = k
  exact Nat.pow_eq

theorem le_unitsOfOne : 2 ^ 52 ≤ unitsOfOne := by
  rw [unitsOfOne_eq]
  exact Nat.pow_le_pow_right (by decide) (by decide)

/-- What rounds a whole number to a finite rank gives a whole number: either the shift is so large
    that every significand is whole, or nothing is rounded away. -/
theorem whole_of_nearest {n : Nat} (h : nearest (n * unitsOfOne) 1 < infinityRank) :
    units (nearest (n * unitsOfOne) 1) % unitsOfOne = 0 := by
  rw [nearest_eq, Nat.div_one, Nat.one_mul] at h ⊢
  rw [Nat.min_eq_right (by omega)]
  rcases Nat.eq_zero_or_pos n with rfl | hn
  · have hround : roundEven 0 1 = 0 := rfl
    rw [Nat.zero_mul, shiftOf_small (by omega), Nat.zero_mul, Nat.zero_add, Nat.pow_zero, hround,
      units_small (by omega), Nat.zero_mod]
  · have hx : 2 ^ 52 ≤ n * unitsOfOne := Nat.le_trans le_unitsOfOne (Nat.le_mul_of_pos_left _ hn)
    have hwhole : unitsOfOne ∣ n * unitsOfOne := Nat.dvd_mul_left _ _
    generalize n * unitsOfOne = x at hx hwhole
    obtain ⟨hlow, hhigh⟩ := shifted_bounds hx
    have hround := le_roundEven x (2 ^ shiftOf x)
    have hround' := roundEven_le x (2 ^ shiftOf x)
    rw [units_binades _ (by omega) (by omega)]
    refine Nat.mod_eq_zero_of_dvd ?_
    rw [unitsOfOne_eq] at hwhole ⊢
    by_cases hshift : oneBits ≤ shiftOf x
    · exact Nat.dvd_trans (Nat.pow_dvd_pow 2 hshift) (Nat.dvd_mul_left _ _)
    · obtain ⟨q, hq⟩ := Nat.dvd_trans (Nat.pow_dvd_pow 2 (by omega : shiftOf x ≤ oneBits)) hwhole
      have hexact : roundEven x (2 ^ shiftOf x) * 2 ^ shiftOf x = x := by
        rw [Nat.mul_comm] at hq
        rw [congrArg (roundEven · (2 ^ shiftOf x)) hq, roundEven_of_mul (Nat.two_pow_pos _), ← hq]
      rw [hexact]
      exact hwhole

end Handout.Double
