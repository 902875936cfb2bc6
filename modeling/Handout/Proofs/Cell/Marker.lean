/-
  Handout.Proofs.Cell.Marker — what a cell is marked as.

  A first line cannot be the marker of a test and of a solution: after the hashes the one
  goes on with an h or a t and the other with an s. So no cell is both
  (`not_isSolution_of_isTest`).
-/

import Handout.Cell.Marker

namespace Handout

namespace Marker

theorem exists_head_of_afterWord? {w : Char} {ws s r : List Char} (h : afterWord? (w :: ws) s = some r) :
    ∃ c s', s = c :: s' ∧ fold c = w := by
  cases s with
  | nil => cases h
  | cons c s' =>
    simp only [afterWord?] at h
    split at h
    · exact ⟨c, s', rfl, ‹_›⟩
    · cases h

theorem exists_head_of_afterPart? {w : Char} {ws s r : List Char} (h : afterPart? (w :: ws) s = some r) :
    ∃ c s', s = c :: s' ∧ fold c = w := by
  obtain ⟨r', hr, -⟩ := Option.map_eq_some_iff.mp h
  exact exists_head_of_afterWord? hr

/-- The letter after the hashes of a test. -/
theorem head_of_isTest {line : String} (h : isTest line = true) :
    ∃ c s, afterPart? hashes line.toList = some (c :: s) ∧ (fold c = 'h' ∨ fold c = 't') := by
  obtain ⟨_, h⟩ := Option.isSome_iff_exists.mp h
  obtain ⟨r, hr, h⟩ := Option.bind_eq_some_iff.mp h
  obtain ⟨r', htest, -⟩ := Option.bind_eq_some_iff.mp h
  cases hhidden : afterPart? "hidden".toList r with
  | some x =>
    obtain ⟨c, s, rfl, hc⟩ := exists_head_of_afterPart? hhidden
    exact ⟨c, s, hr, Or.inl hc⟩
  | none =>
    rw [hhidden, Option.getD_none] at htest
    obtain ⟨c, s, rfl, hc⟩ := exists_head_of_afterPart? htest
    exact ⟨c, s, hr, Or.inr hc⟩

/-- The letter after the hashes of a solution. -/
theorem head_of_isSolution {line : String} (h : isSolution line = true) :
    ∃ c s, afterPart? hashes line.toList = some (c :: s) ∧ fold c = 's' := by
  obtain ⟨_, h⟩ := Option.isSome_iff_exists.mp h
  obtain ⟨r, hr, h⟩ := Option.bind_eq_some_iff.mp h
  obtain ⟨r', hsolution, -⟩ := Option.bind_eq_some_iff.mp h
  obtain ⟨c, s, rfl, hc⟩ := exists_head_of_afterPart? hsolution
  exact ⟨c, s, hr, hc⟩

theorem not_isSolution_of_isTest {line : String} (h : isTest line = true) : isSolution line = false := by
  cases hs : isSolution line with
  | false => rfl
  | true =>
    obtain ⟨c, s, hc, hletter⟩ := head_of_isTest h
    obtain ⟨d, t, hd, hletter'⟩ := head_of_isSolution hs
    obtain ⟨rfl, rfl⟩ : c = d ∧ s = t := by simpa [hc] using hd
    rw [hletter'] at hletter
    exact absurd hletter (by decide)

end Marker

namespace Cell

theorem isCode_of_isTest {c : Cell} (h : c.isTest = true) : c.isCode = true := (Bool.and_eq_true_iff.mp h).1

theorem kind_of_isTest {c : Cell} (h : c.isTest = true) : c.kind = .code := by
  simpa [isCode] using isCode_of_isTest h

/-- No cell is a test and a solution. -/
theorem not_isSolution_of_isTest {c : Cell} (h : c.isTest = true) : c.isSolution = false := by
  have hfirst : c.firstLine Marker.isTest = true := (Bool.and_eq_true_iff.mp h).2
  simp only [isSolution, kind_of_isTest h]
  unfold firstLine at hfirst ⊢
  cases hl : c.source.head? with
  | none => rfl
  | some l =>
    rw [hl, Option.any_some] at hfirst
    exact Marker.not_isSolution_of_isTest hfirst

theorem isTest_of_isSolution {c : Cell} (h : c.isSolution = true) : c.isTest = false := by
  cases ht : c.isTest with
  | false => rfl
  | true => rw [not_isSolution_of_isTest ht] at h; cases h

theorem isSolution_of_isMarkdownSolution {c : Cell} (h : c.isMarkdownSolution = true) : c.isSolution = true := by
  have hkind : c.kind = .markdown := by simpa [isMarkdown] using (Bool.and_eq_true_iff.mp h).1
  simpa [isSolution, hkind] using h

theorem isMarkdownSolution_of_isCode {c : Cell} (h : c.isCode = true) : c.isMarkdownSolution = false := by
  have hkind : c.kind = .code := by simpa [isCode] using h
  simp [isMarkdownSolution, isMarkdown, hkind]

theorem isCode_of_isMarkdownSolution {c : Cell} (h : c.isMarkdownSolution = true) : c.isCode = false := by
  cases hc : c.isCode with
  | false => rfl
  | true => rw [isMarkdownSolution_of_isCode hc] at h; cases h

/-- A solution that is not a markdown one is a code one. -/
theorem isCode_and_isSolution (c : Cell) : (c.isCode && c.isSolution) = (c.isSolution && ! c.isMarkdownSolution) := by
  cases hk : c.kind <;> simp [isSolution, isMarkdownSolution, isCode, isMarkdown, hk]

end Cell
end Handout
