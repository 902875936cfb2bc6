/-
  Handout.Proofs.Text.Blank — what trimming takes away is white space, and what it leaves
  does not become less when the text goes on with something else.
-/

import Mathlib.Data.List.TakeWhile
import Handout.Text.Blank

namespace Handout.Text

theorem or_mem_dropWhile {p : Char → Bool} {cs : List Char} {c : Char} (h : c ∈ cs) :
    p c = true ∨ c ∈ cs.dropWhile p := by
  rw [← List.takeWhile_append_dropWhile (p := p) (l := cs)] at h
  exact (List.mem_append.mp h).imp_left List.mem_takeWhile_imp

theorem isBlank_or_mem_trimStart {cs : List Char} {c : Char} (h : c ∈ cs) : isBlank c = true ∨ c ∈ trimStart cs :=
  or_mem_dropWhile h

theorem isBlank_or_mem_trim {cs : List Char} {c : Char} (h : c ∈ cs) : isBlank c = true ∨ c ∈ trim cs := by
  rcases isBlank_or_mem_trimStart h with hblank | hmem
  · exact Or.inl hblank
  · rw [← List.mem_reverse] at hmem
    exact (isBlank_or_mem_trimStart hmem).imp_right List.mem_reverse.mpr

/-- A character that is not white space ends what is trimmed. -/
theorem trimEnd_append {c : Char} (hc : isBlank c = false) (cs : List Char) : trimEnd (cs ++ [c]) = cs ++ [c] := by
  simp [trimEnd, hc]

/-- A text does not become shorter by such a character at its end. -/
theorem length_trim_le_append {c : Char} (hc : isBlank c = false) (cs : List Char) :
    (trim cs).length ≤ (trim (cs ++ [c])).length := by
  have hstart : (trimEnd (trimStart cs)).length ≤ (trimStart cs).length := by
    simpa [trimEnd] using List.length_dropWhile_le isBlank (trimStart cs).reverse
  by_cases hempty : (cs.dropWhile isBlank).isEmpty
  · rw [trim, trimStart, List.isEmpty_iff.mp hempty]
    exact Nat.zero_le _
  · have happend : trimStart (cs ++ [c]) = trimStart cs ++ [c] := by
      rw [trimStart, List.dropWhile_append, if_neg hempty]
      rfl
    rw [trim, trim, happend, trimEnd_append hc, List.length_append]
    exact Nat.le_trans hstart (Nat.le_add_right _ _)

end Handout.Text
