/-
  Handout.Proofs.Segment.Alike — masters that learners may not tell apart are laid out in
  the same way.

  Where one of two alike masters is laid out the other is, piece by piece (`Layout.alike`).
  Alike pieces come to the same cells for learners (`Piece.Alike.forLearners_eq`). The
  files they save have the same stems and tiers, and are the same where they are public
  (`Piece.Alike.files`).
-/

import Handout.Proofs.Cell.Alike
import Handout.Proofs.Segment.Layout

namespace Handout

/-- Files of one stem and tier, which are one file where they are public. -/
def TestFile.Alike (f f' : TestFile) : Prop :=
  f.stem = f'.stem ∧ f.hidden = f'.hidden ∧ (f.hidden = false → f = f')

namespace Segment

open Cell (forLearners forLearners_append isTest_of_isSolution)

/-- Two answers to a question, cell by cell. -/
structure Answer.Alike (a a' : Answer) : Prop where
  response : a.response.Alike a'.response
  run : List.Forall₂ Cell.Alike a.run a'.run

/-- Two questions that are one but for what was captured in the opener, and their answers. -/
structure Block.Alike (b b' : Block) : Prop where
  opener : b.opener.clearOutputs = b'.opener.clearOutputs
  question : b.question = b'.question
  answer : Option.Rel Answer.Alike b.answer b'.answer

inductive Piece.Alike : Piece → Piece → Prop
  | free {c c' : Cell} : c.IsFree → c.Alike c' → Alike (.free c) (.free c')
  | block {b b' : Block} : (∀ a ∈ b.answer, a.response.IsResponse) → b.Alike b' → Alike (.block b) (.block b')

/-! ## Laying out -/

theorem exists_append_of_forall₂ {α β : Type} {R : α → β → Prop} {l₁ l₂ : List α} {l : List β}
    (h : List.Forall₂ R (l₁ ++ l₂) l) :
    ∃ l₁' l₂', l = l₁' ++ l₂' ∧ List.Forall₂ R l₁ l₁' ∧ List.Forall₂ R l₂ l₂' := by
  induction l₁ generalizing l with
  | nil => exact ⟨[], l, rfl, .nil, h⟩
  | cons a l₁ ih =>
    cases h with
    | cons hab hrest =>
      obtain ⟨l₁', l₂', rfl, h₁, h₂⟩ := ih hrest
      exact ⟨_ :: l₁', l₂', rfl, .cons hab h₁, h₂⟩

theorem goesOn_of_forall₂ {run run' : List Cell} (h : List.Forall₂ Cell.Alike run run')
    (hrun : ∀ x ∈ run, x.goesOn = true) : ∀ x ∈ run', x.goesOn = true := by
  induction h with
  | nil => simp
  | cons halike _ ih =>
    obtain ⟨hc, hrest⟩ := List.forall_mem_cons.mp hrun
    exact List.forall_mem_cons.mpr ⟨halike.goesOn_eq ▸ hc, ih hrest⟩

theorem head_goesOn_of_forall₂ {rest rest' : List Cell} (h : List.Forall₂ Cell.Alike rest rest')
    (hrest : ∀ x ∈ rest.head?, x.goesOn = false) : ∀ x ∈ rest'.head?, x.goesOn = false := by
  cases h with
  | nil => simp
  | cons halike _ =>
    intro x hx
    cases hx
    rw [← halike.goesOn_eq]
    exact hrest _ rfl

theorem ofCell_of_clearOutputs_eq {c c' : Cell} (h : c.clearOutputs = c'.clearOutputs) :
    Question.ofCell c = Question.ofCell c' := (congrArg Question.ofCell h :)

theorem Layout.alike {ps : List Piece} {cells cells' : List Cell} (h : Layout ps cells)
    (hcells : List.Forall₂ Cell.Alike cells cells') :
    ∃ ps', Layout ps' cells' ∧ List.Forall₂ Piece.Alike ps ps' := by
  induction h generalizing cells' with
  | nil =>
    cases hcells
    exact ⟨[], .nil, .nil⟩
  | free hc _ ih =>
    cases hcells with
    | cons halike hrest =>
      obtain ⟨ps', hps', hpieces⟩ := ih hrest
      exact ⟨_, .free (halike.isFree hc) hps', .cons (.free hc halike) hpieces⟩
  | @bare c q hc hq =>
    cases hcells with
    | @cons _ c' _ _ halike hrest =>
      cases hrest
      have hclear := halike.clearOutputs_eq_of_isQuestion hc
      have hq' : Question.ofCell c' = .ok q := (ofCell_of_clearOutputs_eq hclear).symm.trans hq
      have hpiece : Piece.Alike (.block ⟨c, q, none⟩) (.block ⟨c', q, none⟩) :=
        .block (by simp) ⟨hclear, rfl, .none⟩
      exact ⟨_, .bare (halike.isQuestion_eq.symm.trans hc) hq', .cons hpiece .nil⟩
  | @block c r q run rest ps hc hq hr hrun hrest _ ih =>
    cases hcells with
    | @cons _ c' _ _ halike hcells =>
      cases hcells with
      | @cons _ r' _ _ halikeResponse hcells =>
        have hclear := halike.clearOutputs_eq_of_isQuestion hc
        have hq' : Question.ofCell c' = .ok q := (ofCell_of_clearOutputs_eq hclear).symm.trans hq
        obtain ⟨run', rest', rfl, hrunAlike, hrestAlike⟩ := exists_append_of_forall₂ hcells
        obtain ⟨ps', hps', hpieces⟩ := ih hrestAlike
        have hpiece : Piece.Alike (.block ⟨c, q, some ⟨r, run⟩⟩) (.block ⟨c', q, some ⟨r', run'⟩⟩) :=
          .block (by simpa using hr) ⟨hclear, rfl, .some ⟨halikeResponse, hrunAlike⟩⟩
        exact ⟨_, .block (halike.isQuestion_eq.symm.trans hc) hq' (halikeResponse.isResponse hr)
          (goesOn_of_forall₂ hrunAlike hrun) (head_goesOn_of_forall₂ hrestAlike hrest) hps', .cons hpiece hpieces⟩

/-! ## Tests -/

theorem forall₂_tests {run run' : List Cell} (h : List.Forall₂ Cell.Alike run run') :
    List.Forall₂ Test.Alike ((run.filter Cell.isTest).map Test.ofCell) ((run'.filter Cell.isTest).map Test.ofCell) := by
  induction h with
  | nil => exact .nil
  | @cons c c' run run' halike _ ih =>
    cases ht : c.isTest with
    | true =>
      rw [List.filter_cons_of_pos ht, List.filter_cons_of_pos (halike.isTest_eq ▸ ht)]
      exact .cons (halike.test ht) ih
    | false =>
      rw [List.filter_cons_of_neg (by simp [ht]), List.filter_cons_of_neg (by simp [← halike.isTest_eq, ht])]
      exact ih

theorem publicTests_eq {ts ts' : List Test} (h : List.Forall₂ Test.Alike ts ts') :
    (ts.filter fun t => t.hidden == false) = ts'.filter fun t => t.hidden == false := by
  induction h with
  | nil => rfl
  | @cons t t' ts ts' halike _ ih =>
    cases ht : t.hidden with
    | true =>
      have ht' : t'.hidden = true := halike.1 ▸ ht
      rw [List.filter_cons_of_neg (by simp [ht]), List.filter_cons_of_neg (by simp [ht']), ih]
    | false =>
      obtain rfl := halike.2 ht
      rw [List.filter_cons_of_pos (by simp [ht]), List.filter_cons_of_pos (by simp [ht]), ih]

theorem isEmpty_eq_of_forall₂ {α β : Type} {R : α → β → Prop} {l : List α} {l' : List β} (h : List.Forall₂ R l l') :
    l.isEmpty = l'.isEmpty := by
  cases h <;> rfl

theorem isEmpty_tests_eq {ts ts' : List Test} (h : List.Forall₂ Test.Alike ts ts') (hidden : Bool) :
    (ts.filter fun t => t.hidden == hidden).isEmpty = (ts'.filter fun t => t.hidden == hidden).isEmpty := by
  refine isEmpty_eq_of_forall₂ (List.rel_filter ?_ h)
  intro t t' halike
  simp only [halike.1]

namespace Block.Alike

variable {b b' : Block}

theorem run (h : b.Alike b') : List.Forall₂ Cell.Alike b.run b'.run := by
  obtain ⟨c, q, a⟩ := b
  obtain ⟨c', q', a'⟩ := b'
  cases h.answer with
  | none => exact .nil
  | some ha => exact ha.run

theorem publicTests (h : b.Alike b') : b.tests false = b'.tests false := publicTests_eq (forall₂_tests h.run)

theorem tiers_eq (h : b.Alike b') : b.tiers = b'.tiers := by
  have hempty : ∀ hidden, (b.tests hidden).isEmpty = (b'.tests hidden).isEmpty :=
    fun hidden => isEmpty_tests_eq (forall₂_tests h.run) hidden
  simp only [Block.tiers, hempty]

theorem files (h : b.Alike b') : List.Forall₂ TestFile.Alike b.files b'.files := by
  rw [Block.files, Block.files, h.tiers_eq, h.question, List.forall₂_map_left_iff, List.forall₂_map_right_iff,
    List.forall₂_same]
  intro hidden _
  refine ⟨rfl, rfl, fun hpublic => ?_⟩
  obtain rfl : hidden = false := hpublic
  rw [h.publicTests]

end Block.Alike

/-! ## Cells -/

theorem prompt_clearOutputs (c : Cell) (manual : Bool) :
    (c.prompt manual).map Cell.clearOutputs = c.clearOutputs.prompt manual := by
  have hsource : c.clearOutputs.source = c.source := rfl
  have htext : c.clearOutputs.text = c.text := rfl
  cases hfind : Question.find? (Question.announced manual c.source) with
  | error f =>
    simp only [Cell.prompt, hsource, hfind]
    rfl
  | ok found =>
    cases found with
    | none =>
      simp only [Cell.prompt, hsource, htext, hfind]
      rfl
    | some i =>
      cases hclosing : Question.closing? (Question.announced manual c.source) i <;>
        simp only [Cell.prompt, hsource, htext, hfind, hclosing] <;> rfl

theorem forLearners_prompts {b b' : Block} (h : b.Alike b') : forLearners b.prompts = forLearners b'.prompts := by
  have hprompt : (b.opener.prompt b.question.manual).map Cell.clearOutputs =
      (b'.opener.prompt b'.question.manual).map Cell.clearOutputs := by
    rw [prompt_clearOutputs, prompt_clearOutputs, h.opener, h.question]
  unfold Block.prompts
  cases hp : b.opener.prompt b.question.manual with
  | error f =>
    cases hp' : b'.opener.prompt b'.question.manual with
    | error f' => rfl
    | ok p' => rw [hp, hp'] at hprompt; cases hprompt
  | ok p =>
    cases hp' : b'.opener.prompt b'.question.manual with
    | error f' => rw [hp, hp'] at hprompt; cases hprompt
    | ok p' =>
      rw [hp, hp'] at hprompt
      have hclear : p.clearOutputs = p'.clearOutputs := Except.ok.inj hprompt
      show forLearners [p] = forLearners [p']
      rw [forLearners, forLearners, List.map_singleton, List.map_singleton, hclear]

theorem forLearners_withPlaceholder {c c' : Cell} (h : c.Alike c') (ht : c.isTest = false) (hasPrompt : Bool) :
    forLearners (withPlaceholder hasPrompt c) = forLearners (withPlaceholder hasPrompt c') := by
  unfold withPlaceholder
  rw [← h.isMarkdownSolution_eq]
  split
  · show forLearners ([Cell.placeholder] ++ [c]) = forLearners ([Cell.placeholder] ++ [c'])
    rw [forLearners_append, forLearners_append, h.forLearners_eq ht]
  · exact h.forLearners_eq ht

theorem forLearners_solutions {run run' : List Cell} (h : List.Forall₂ Cell.Alike run run') (hasPrompt : Bool) :
    forLearners ((run.filter Cell.isSolution).flatMap (withPlaceholder hasPrompt)) =
      forLearners ((run'.filter Cell.isSolution).flatMap (withPlaceholder hasPrompt)) := by
  induction h with
  | nil => rfl
  | @cons c c' run run' halike _ ih =>
    cases hs : c.isSolution with
    | true =>
      rw [List.filter_cons_of_pos hs, List.filter_cons_of_pos (halike.isSolution_eq ▸ hs), List.flatMap_cons,
        List.flatMap_cons, forLearners_append, forLearners_append, ih,
        forLearners_withPlaceholder halike (isTest_of_isSolution hs)]
    | false =>
      rw [List.filter_cons_of_neg (by simp [hs]), List.filter_cons_of_neg (by simp [← halike.isSolution_eq, hs])]
      exact ih

theorem forLearners_answers {b b' : Block} (h : b.Alike b') (hresponse : ∀ a ∈ b.answer, a.response.IsResponse) :
    forLearners b.answers = forLearners b'.answers := by
  obtain ⟨c, q, a⟩ := b
  obtain ⟨c', q', a'⟩ := b'
  obtain rfl : q = q' := h.question
  cases h.answer with
  | none => rfl
  | @some a a' ha =>
    have htest : a.response.isTest = false := (hresponse a rfl).2.1
    have hprompt : promptedBy q a.response = promptedBy q a'.response := by
      rw [promptedBy, promptedBy, ha.response.isSolution_eq]
    show forLearners (_ ++ _) = forLearners (_ ++ _)
    rw [forLearners_append, forLearners_append, forLearners_withPlaceholder ha.response htest, hprompt,
      forLearners_solutions ha.run]

theorem Block.Alike.closing_eq {b b' : Block} (h : b.Alike b') : b.closing = b'.closing := by
  rw [Block.closing, Block.closing, h.publicTests, h.question]

/-! ## Pieces -/

namespace Piece.Alike

variable {p p' : Piece}

theorem forLearners_eq (h : p.Alike p') : forLearners p.cells = forLearners p'.cells := by
  cases h with
  | free hc halike => exact forLearners_withPlaceholder halike hc.2 false
  | @block b b' hresponse halike =>
    show forLearners (_ ++ _ ++ _) = forLearners (_ ++ _ ++ _)
    rw [forLearners_append, forLearners_append, forLearners_append, forLearners_append, forLearners_prompts halike,
      forLearners_answers halike hresponse, halike.closing_eq]

theorem files (h : p.Alike p') : List.Forall₂ TestFile.Alike p.files p'.files := by
  cases h with
  | free _ _ => exact .nil
  | block _ halike => exact halike.files

end Piece.Alike

theorem forLearners_flatMap {ps ps' : List Piece} (h : List.Forall₂ Piece.Alike ps ps') :
    forLearners (ps.flatMap Piece.cells) = forLearners (ps'.flatMap Piece.cells) := by
  induction h with
  | nil => rfl
  | cons halike _ ih =>
    rw [List.flatMap_cons, List.flatMap_cons, forLearners_append, forLearners_append, halike.forLearners_eq, ih]

end Segment
end Handout
