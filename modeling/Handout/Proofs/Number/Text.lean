/-
  Handout.Proofs.Number.Text — decimal numbers as texts.

  A number with a point is digits, the point and digits (`Pointed`); it is read as all
  its digits over a power of ten (`ofText?_pointed`). A decimal below 1 in its last
  place is written so (`writePositional_of_neg`), and a sign in front of a text is the
  sign of the double that it names (`ofText?_signed`).
-/

import Handout.Proofs.Number.Shortest

namespace Handout

namespace Decimal

def IsDigits (ds : List Char) : Prop := ∀ c ∈ ds, c.isDigit = true

/-- A minus or nothing. -/
def sign (negative : Bool) : List Char := if negative then ['-'] else []

/-- Digits with a point among them, and at least one before it. -/
structure Pointed (cs : List Char) (whole part : List Char) : Prop where
  text : cs = whole ++ '.' :: part
  isWhole : IsDigits whole
  isPart : IsDigits part
  nonempty : whole ≠ []

theorem ne_of_isDigit {c d : Char} (h : c.isDigit = true) (hd : d.isDigit = false) : c ≠ d := by
  rintro rfl
  rw [hd] at h
  cases h

theorem isDigits_toDigits (n : Nat) : IsDigits (Nat.toDigits 10 n) := fun _ hc =>
  Nat.isDigit_of_mem_toDigits (by decide) (by decide) hc

theorem isDigits_zeros (n : Nat) : IsDigits (zeros n) := by
  intro c hc
  rw [List.eq_of_mem_replicate hc]
  rfl

theorem isDigits_append {a b : List Char} (ha : IsDigits a) (hb : IsDigits b) : IsDigits (a ++ b) := by
  intro c hc
  rcases List.mem_append.mp hc with hc | hc
  · exact ha c hc
  · exact hb c hc

theorem spanDigits_append {ds rest : List Char} (h : IsDigits ds) (hrest : ∀ c ∈ rest.head?, c.isDigit = false) :
    spanDigits (ds ++ rest) = (ds, rest) := by
  rw [spanDigits, List.takeWhile_append_of_pos h, List.dropWhile_append_of_pos h]
  cases rest with
  | nil => simp
  | cons c r => simp [hrest c rfl]

/-! ## Reading -/

theorem ofText?_pointed {cs whole part : List Char} (h : Pointed cs whole part) :
    ofText? cs = some ⟨Nat.ofDigitChars 10 (whole ++ part) 0, -(part.length : Int)⟩ := by
  obtain ⟨rfl, hwhole, hpart, hne⟩ := h
  have hspan : spanDigits (whole ++ '.' :: part) = (whole, '.' :: part) :=
    spanDigits_append hwhole (by simp)
  have hspanPart : spanDigits part = (part, []) := by
    have hnil : ∀ c ∈ ([] : List Char).head?, c.isDigit = false := by simp
    simpa using spanDigits_append hpart hnil
  simp only [ofText?, hspan, hspanPart, hne, false_and, if_false, exponentOf?, Option.map_some, Int.zero_sub]

theorem ofText?_signed {cs : List Char} {c : Char} {r : List Char} (hcs : cs = c :: r) (hc : c ≠ '-') (hc' : c ≠ '+')
    (negative : Bool) :
    Double.ofText? (sign negative ++ cs) = (ofText? cs).map fun d => .signed negative d.toRank := by
  subst hcs
  cases negative with
  | true => rfl
  | false =>
    show Double.ofText? (c :: r) = _
    unfold Double.ofText?
    split
    rename_i negative body hsplit
    split at hsplit <;> simp_all

/-! ## Writing -/

theorem writeInt_eq (n : Int) : writeInt n = sign (n < 0) ++ Nat.toDigits 10 n.natAbs := by
  by_cases hn : n < 0 <;> simp [writeInt, sign, hn]

/-- The digits of a decimal with a negative exponent, with the point at its place. -/
theorem writePositional_of_neg {ds : List Char} {e : Int} (hds : IsDigits ds) (he : e < 0) (wholeMark : Bool) :
    ∃ whole part, Pointed (writePositional wholeMark ds e) whole part ∧ (part.length : Int) = -e ∧
      Nat.ofDigitChars 10 (whole ++ part) 0 = Nat.ofDigitChars 10 ds 0 := by
  unfold writePositional
  rw [if_neg (by omega)]
  by_cases hplaces : (-e).toNat < ds.length
  · simp only [if_pos hplaces]
    refine ⟨ds.take (ds.length - (-e).toNat), ds.drop (ds.length - (-e).toNat), ⟨rfl, ?_, ?_, ?_⟩, ?_, ?_⟩
    · exact fun c hc => hds c (List.mem_of_mem_take hc)
    · exact fun c hc => hds c (List.mem_of_mem_drop hc)
    · intro hnil
      have hlength := congrArg List.length hnil
      rw [List.length_take, List.length_nil] at hlength
      omega
    · rw [List.length_drop]
      omega
    · rw [List.take_append_drop]
  · simp only [if_neg hplaces]
    refine ⟨['0'], zeros ((-e).toNat - ds.length) ++ ds, ⟨by simp, ?_, ?_, by simp⟩, ?_, ?_⟩
    · exact isDigits_zeros 1
    · exact isDigits_append (isDigits_zeros _) hds
    · rw [List.length_append, zeros, List.length_replicate]
      omega
    · have hzeros : ['0'] ++ (zeros ((-e).toNat - ds.length) ++ ds) = zeros (1 + ((-e).toNat - ds.length)) ++ ds := by
        rw [zeros, zeros, ← List.append_assoc, ← List.replicate_append_replicate]
        rfl
      rw [hzeros, Nat.ofDigitChars_append, zeros, Nat.ofDigitChars_replicate_zero, Nat.mul_zero]

end Decimal
end Handout
