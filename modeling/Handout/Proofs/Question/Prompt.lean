/-
  Handout.Proofs.Question.Prompt — the prompt that learners see of a question.

  Reading a question and rewriting its cell agree on where its block is, so a cell that
  is a question always has a prompt (`prompt_of_isQuestion`): its block has a closing
  fence, and the announcement put in front of it hides nothing.
-/

import Handout.Proofs.Question.Block
import Handout.Question.Prompt

namespace Handout

namespace Question

/-- What is put in front of the source of a question that is announced. -/
def announcement (manual : Bool) : List String := if manual then [Cell.beginQuestionLine, ""] else []

theorem announced_eq (manual : Bool) (source : List String) :
    announced manual source = announcement manual ++ source := by
  cases manual <;> rfl

theorem not_isFence_of_mem_announcement {manual : Bool} : ∀ l ∈ announcement manual, isFence l = false := by
  cases manual <;> decide

theorem find?_announced (manual : Bool) (source : List String) :
    find? (announced manual source) = (find? source).map (Option.map (· + (announcement manual).length)) := by
  rw [announced_eq, find?_append_front not_isFence_of_mem_announcement]

theorem closing?_isSome {source : List String} {b : Nat} (h : find? source = .ok (some b)) :
    (closing? source b).isSome = true := by
  obtain ⟨-, c, -, hlt, -, -, hfence⟩ := find?_eq_some h
  have hline : (source.drop b)[c - b]? = some fence := by
    rw [List.getElem?_drop, ← hfence]
    congr 1
    omega
  rw [closing?, Option.isSome_map, List.findIdx?_isSome, List.any_eq_true]
  exact ⟨fence, List.mem_of_getElem? hline, isClosingFence_of_isFence (isFence_iff.mpr rfl)⟩

end Question

namespace Cell

theorem isQuestion_of_isCode {c : Cell} (h : c.isCode = true) : c.isQuestion = .ok false := by
  have hkind : c.kind = .code := by simpa [isCode] using h
  simp [isQuestion, isMarkdown, hkind]

theorem isQuestion_eq_true {c : Cell} (h : c.isQuestion = .ok true) :
    c.isMarkdown = true ∧ ∃ b, Question.find? c.source = .ok (some b) := by
  unfold isQuestion at h
  split at h
  · rename_i hm
    refine ⟨hm, ?_⟩
    cases hf : Question.find? c.source with
    | error f => rw [hf] at h; cases h
    | ok o =>
      cases o with
      | none => rw [hf] at h; cases h
      | some b => exact ⟨b, rfl⟩
  · cases h

/-- The prompt of a question is the cell itself, announced and locked, with the two fences of
    its block replaced. -/
theorem prompt_of_isQuestion {c : Cell} (h : c.isQuestion = .ok true) (manual : Bool) :
    ∃ b j, Question.find? (Question.announced manual c.source) = .ok (some b) ∧
      Question.closing? (Question.announced manual c.source) b = some j ∧
      c.prompt manual = .ok { c with
        source := ((Question.announced manual c.source).set (b - 1) Question.commentOpening).set j
          Question.commentClosing }.lock := by
  obtain ⟨-, b, hb⟩ := isQuestion_eq_true h
  have hfound : Question.find? (Question.announced manual c.source) =
      .ok (some (b + (Question.announcement manual).length)) := by
    rw [Question.find?_announced, hb]
    rfl
  obtain ⟨j, hj⟩ := Option.isSome_iff_exists.mp (Question.closing?_isSome hfound)
  refine ⟨_, j, hfound, hj, ?_⟩
  simp only [prompt, hfound, hj]

end Cell
end Handout
