/-
  Handout.Proofs.Number.Shortest — the shortest decimal of a double names that double.

  A candidate of a grid is taken only when it rounds to the rank, and the exact value
  rounds to it because its units do. So `shortest` reads back (`toRank_shortest`). A
  decimal without a fraction names a whole number (`whole_of_toRank`), which is why the
  shortest decimal of any other number has a negative exponent.
-/

import Handout.Number.Shortest
import Handout.Proofs.Number.Rounding

namespace Handout.Decimal

open Double (nearest units unitsOfOne infinityRank)

/-- A number below 1 that is not too small is rounded as a quotient. -/
theorem toRank_of_neg (digits : Nat) {places : Nat} (hplaces : 0 < places) (htiny : (places : Int) ≤ tinyExponent) :
    toRank ⟨digits, -places⟩ = nearest (digits * unitsOfOne) (Nat.pow 10 places) := by
  have hneg : (-(-(places : Int))).toNat = places := by omega
  rcases Nat.eq_zero_or_pos digits with rfl | hdigits
  · have hzero := Double.nearest_units (r := 0) (by decide) (Nat.pow_pos (by decide : 0 < 10) : 0 < Nat.pow 10 places)
    rw [Double.units_small (by omega), Nat.zero_mul] at hzero
    rw [Nat.zero_mul]
    exact hzero.symm
  · simp only [toRank, hugeExponent, tinyExponent, hneg] at htiny ⊢
    rw [if_neg (by omega), if_neg (by omega), if_neg (by omega), if_neg (by omega)]

/-- A decimal that is exactly the value of a finite rank rounds to the rank. -/
theorem toRank_of_units {digits places r : Nat} (hr : r < infinityRank) (hplaces : 0 < places)
    (htiny : (places : Int) ≤ tinyExponent) (h : digits * unitsOfOne = units r * Nat.pow 10 places) :
    toRank ⟨digits, -places⟩ = r := by
  rw [toRank_of_neg digits hplaces htiny, h]
  exact Double.nearest_units hr (Nat.pow_pos (by decide))

theorem toRank_of_scale {r k : Nat} (hr : r < infinityRank) (hk : 0 < k) (htiny : (k : Int) ≤ tinyExponent)
    (hscale : unitsOfOne = Nat.pow 2 k) : toRank ⟨units r * Nat.pow 5 k, -k⟩ = r := by
  have hten : Nat.pow 5 k * Nat.pow 2 k = Nat.pow 10 k := by rw [Nat.pow_eq, Nat.pow_eq, Nat.pow_eq, ← Nat.mul_pow]
  exact toRank_of_units hr hk htiny (by rw [hscale, Nat.mul_assoc, hten])

theorem toRank_exact {r : Nat} (hr : r < infinityRank) : (exact r).toRank = r := by
  have hscale := @toRank_of_scale r 1074 hr (by decide) (by decide)
  exact hscale rfl

theorem toRank_of_onGrid {r places : Nat} {d : Decimal} (h : onGrid r places = some d) : d.toRank = r := by
  unfold onGrid at h
  extract_lets e scale step below above candidates at h
  have hfound := List.find?_some h
  exact beq_iff_eq.mp hfound

/-- What is written for a finite rank reads back as the rank. -/
theorem toRank_shortest {r : Nat} (hr : r < infinityRank) : (shortest r).toRank = r := by
  unfold shortest
  split
  · rename_i h
    rw [h]
    rfl
  · split
    · rename_i d hd
      obtain ⟨n, -, hgrid⟩ := List.exists_of_findSome?_eq_some hd
      exact toRank_of_onGrid hgrid
    · exact toRank_exact hr

/-- A decimal that has no fraction rounds to a whole number. -/
theorem whole_of_toRank {d : Decimal} (h : d.toRank < infinityRank) (he : 0 ≤ d.exponent) :
    units d.toRank % unitsOfOne = 0 := by
  by_cases hdigits : d.digits = 0
  · have hzero : d.toRank = 0 := by rw [toRank, if_pos hdigits]
    rw [hzero, Double.units_small (by omega), Nat.zero_mod]
  · by_cases hhuge : d.exponent > hugeExponent
    · rw [toRank, if_neg hdigits, if_pos hhuge] at h
      exact absurd h (Nat.lt_irrefl _)
    · rw [toRank, if_neg hdigits, if_neg hhuge, if_pos he] at h ⊢
      exact Double.whole_of_nearest h

end Handout.Decimal
