/-
  Handout.Proofs.Cell.Alike — cells that learners may not tell apart.

  Two cells are alike when they agree in all that learners get of them: they differ in
  what running them has printed, or both are solutions, or both are hidden tests. What
  a cell is for is then the same (`isTest_eq`, `isSolution_eq`, `isQuestion_eq`), what
  stays of it for learners is (`forLearners_eq`), and so is a public test (`test`).
-/

import Handout.Proofs.Segment.Step

namespace Handout

/-- Tests that are one, or are both hidden. -/
def Test.Alike (t t' : Test) : Prop := t.hidden = t'.hidden ∧ (t.hidden = false → t = t')

namespace Cell

inductive Alike : Cell → Cell → Prop
  /-- All is the same but what was captured when the cells were run. A public test prints its
      expected output, which is then the same too. -/
  | captured {c c' : Cell} : c.clearOutputs = c'.clearOutputs →
      (c.isTest = true → c.firstLine Marker.isHidden = false → c.outputs = c'.outputs) → Alike c c'
  | codeSolutions {c c' : Cell} : c.isCode = true → c.isSolution = true → c'.isCode = true → c'.isSolution = true →
      Alike c c'
  | markdownSolutions {c c' : Cell} : c.isMarkdownSolution = true → c.isQuestion = .ok false →
      c'.isMarkdownSolution = true → c'.isQuestion = .ok false → Alike c c'
  | hiddenTests {c c' : Cell} : c.isTest = true → c.firstLine Marker.isHidden = true →
      c'.isTest = true → c'.firstLine Marker.isHidden = true → Alike c c'

/-- The cells of a list that learners get, as they get them. -/
def forLearners (cells : List Cell) : List Cell := (cells.map clearOutputs).filter fun c => ! c.isSolution

theorem forLearners_append (a b : List Cell) : forLearners (a ++ b) = forLearners a ++ forLearners b := by
  simp [forLearners]

theorem forLearners_of_isSolution {c : Cell} (h : c.isSolution = true) : forLearners [c] = [] := by
  have hclear : c.clearOutputs.isSolution = true := h
  simp [forLearners, hclear]

namespace Alike

variable {c c' : Cell}

/-! ## What alike cells are for -/

theorem isTest_eq (h : c.Alike c') : c.isTest = c'.isTest := by
  cases h with
  | captured h _ => exact (congrArg Cell.isTest h :)
  | codeSolutions _ hs _ hs' => rw [isTest_of_isSolution hs, isTest_of_isSolution hs']
  | markdownSolutions hs _ hs' _ =>
    rw [isTest_of_isSolution (isSolution_of_isMarkdownSolution hs),
      isTest_of_isSolution (isSolution_of_isMarkdownSolution hs')]
  | hiddenTests ht _ ht' _ => rw [ht, ht']

theorem isSolution_eq (h : c.Alike c') : c.isSolution = c'.isSolution := by
  cases h with
  | captured h _ => exact (congrArg Cell.isSolution h :)
  | codeSolutions _ hs _ hs' => rw [hs, hs']
  | markdownSolutions hs _ hs' _ =>
    rw [isSolution_of_isMarkdownSolution hs, isSolution_of_isMarkdownSolution hs']
  | hiddenTests ht _ ht' _ => rw [not_isSolution_of_isTest ht, not_isSolution_of_isTest ht']

theorem isCode_eq (h : c.Alike c') : c.isCode = c'.isCode := by
  cases h with
  | captured h _ => exact (congrArg Cell.isCode h :)
  | codeSolutions hc _ hc' _ => rw [hc, hc']
  | markdownSolutions hs _ hs' _ => rw [isCode_of_isMarkdownSolution hs, isCode_of_isMarkdownSolution hs']
  | hiddenTests ht _ ht' _ => rw [isCode_of_isTest ht, isCode_of_isTest ht']

theorem isMarkdownSolution_eq (h : c.Alike c') : c.isMarkdownSolution = c'.isMarkdownSolution := by
  cases h with
  | captured h _ => exact (congrArg Cell.isMarkdownSolution h :)
  | codeSolutions hc _ hc' _ => rw [isMarkdownSolution_of_isCode hc, isMarkdownSolution_of_isCode hc']
  | markdownSolutions hs _ hs' _ => rw [hs, hs']
  | hiddenTests ht _ ht' _ =>
    rw [isMarkdownSolution_of_isCode (isCode_of_isTest ht), isMarkdownSolution_of_isCode (isCode_of_isTest ht')]

theorem isQuestion_eq (h : c.Alike c') : c.isQuestion = c'.isQuestion := by
  cases h with
  | captured h _ => exact (congrArg Cell.isQuestion h :)
  | codeSolutions hc _ hc' _ => rw [isQuestion_of_isCode hc, isQuestion_of_isCode hc']
  | markdownSolutions _ hq _ hq' => rw [hq, hq']
  | hiddenTests ht _ ht' _ => rw [isQuestion_of_isCode (isCode_of_isTest ht), isQuestion_of_isCode (isCode_of_isTest ht')]

theorem isFree (h : c.Alike c') (hc : c.IsFree) : c'.IsFree :=
  ⟨h.isQuestion_eq ▸ hc.1, h.isTest_eq ▸ hc.2⟩

theorem isResponse (h : c.Alike c') (hc : c.IsResponse) : c'.IsResponse := by
  refine ⟨h.isQuestion_eq ▸ hc.1, h.isTest_eq ▸ hc.2.1, ?_⟩
  rw [← h.isCode_eq, ← h.isSolution_eq]
  exact hc.2.2

theorem goesOn_eq (h : c.Alike c') : c.goesOn = c'.goesOn := by
  rw [goesOn, goesOn, h.isTest_eq, h.isSolution_eq]

/-! ## What learners get of them -/

/-- A question is read from its source, so its cell may differ only in what was captured. -/
theorem clearOutputs_eq_of_isQuestion (h : c.Alike c') (hc : c.isQuestion = .ok true) :
    c.clearOutputs = c'.clearOutputs := by
  cases h with
  | captured h _ => exact h
  | codeSolutions hcode _ _ _ => rw [isQuestion_of_isCode hcode] at hc; cases hc
  | markdownSolutions _ hq _ _ => rw [hq] at hc; cases hc
  | hiddenTests ht _ _ _ => rw [isQuestion_of_isCode (isCode_of_isTest ht)] at hc; cases hc

theorem forLearners_eq (h : c.Alike c') (ht : c.isTest = false) : forLearners [c] = forLearners [c'] := by
  cases h with
  | captured h _ => rw [forLearners, List.map_singleton, h]; rfl
  | codeSolutions _ hs _ hs' => rw [forLearners_of_isSolution hs, forLearners_of_isSolution hs']
  | markdownSolutions hs _ hs' _ =>
    rw [forLearners_of_isSolution (isSolution_of_isMarkdownSolution hs),
      forLearners_of_isSolution (isSolution_of_isMarkdownSolution hs')]
  | hiddenTests ht' _ _ _ => rw [ht'] at ht; cases ht

theorem test (h : c.Alike c') (ht : c.isTest = true) : (Test.ofCell c).Alike (Test.ofCell c') := by
  cases h with
  | captured h hout =>
    have hsource : c.source = c'.source := (congrArg Cell.source h :)
    refine ⟨(congrArg (Cell.firstLine Marker.isHidden) h :), fun hpublic => ?_⟩
    rw [Test.ofCell, Test.ofCell, Cell.firstLine, Cell.firstLine, hsource, hout ht hpublic]
  | codeSolutions _ hs _ _ => rw [isTest_of_isSolution hs] at ht; cases ht
  | markdownSolutions hs _ _ _ =>
    rw [isTest_of_isSolution (isSolution_of_isMarkdownSolution hs)] at ht
    cases ht
  | hiddenTests _ hh _ hh' =>
    have hhidden : (Test.ofCell c).hidden = true := hh
    refine ⟨hh.trans hh'.symm, fun hpublic => ?_⟩
    rw [hhidden] at hpublic
    cases hpublic

end Alike
end Cell
end Handout
