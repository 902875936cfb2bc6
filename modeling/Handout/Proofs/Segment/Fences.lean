/-
  Handout.Proofs.Segment.Fences — which cells with an odd number of fences are refused.

  Whether a cell is a question cannot be said when its fences do not come in pairs, and
  asking is an error (`isQuestion_of_unbalanced`). Outside of any question and after a
  prompt every cell is asked first. After a response, tests and solutions are taken
  unasked, so a markdown solution with an odd number of fences is accepted there and
  nowhere else (`feed_unbalanced`).

  Proved:
  - `balanced_iff_not_overlooked`: the cells of an accepted list are balanced exactly when
    none stands so; otherwise a list with such a cell fails with the fault of the first,
    or of a cell before it that is refused.
-/

import Mathlib
import Handout.Proofs.Segment.Progress

namespace Handout

namespace Cell

def fenceCount (c : Cell) : Nat := c.source.countP Question.isFence

/-- A markdown cell with an odd number of fences. -/
structure Unbalanced (c : Cell) : Prop where
  isMarkdown : c.isMarkdown = true
  odd : c.fenceCount % 2 = 1

instance (c : Cell) : Decidable c.Unbalanced :=
  decidable_of_iff (c.isMarkdown = true ∧ c.fenceCount % 2 = 1) ⟨fun h => ⟨h.1, h.2⟩, fun h => ⟨h.1, h.2⟩⟩

variable {c : Cell}

theorem isQuestion_of_unbalanced (h : c.Unbalanced) : c.isQuestion = .error (.unbalancedFences c.fenceCount) := by
  have hlength : (Question.fencesFrom 0 c.source).length = c.fenceCount := Question.length_fencesFrom 0 c.source
  have hodd : c.fenceCount % 2 ≠ 0 := by
    rw [h.odd]
    decide
  rw [isQuestion, if_pos h.isMarkdown, Question.find?]
  simp only [hlength]
  rw [if_pos hodd]
  rfl

theorem isTest_of_unbalanced (h : c.Unbalanced) : c.isTest = false := by
  cases ht : c.isTest with
  | false => rfl
  | true =>
    have hmarkdown := h.isMarkdown
    rw [Cell.isMarkdown, kind_of_isTest ht] at hmarkdown
    cases hmarkdown

end Cell

namespace Segment

variable {cells front rest : List Cell} {c : Cell} {s : State}

/-- What a cell with an odd number of fences fails with. -/
def oddFences (c : Cell) : Failure := .markup (.unbalancedFences c.fenceCount) c.text

theorem atIdle_unbalanced (h : c.Unbalanced) : atIdle c = .error (oddFences c) := by
  rw [atIdle, Cell.isQuestion_of_unbalanced h]
  rfl

theorem atAwaiting_unbalanced (h : c.Unbalanced) (q : OpenQuestion) : atAwaiting q c = .error (oddFences c) := by
  rw [atAwaiting, Cell.isQuestion_of_unbalanced h]
  rfl

/-- Every state refuses such a cell, but for the one that takes it as a solution. -/
theorem feed_unbalanced (h : c.Unbalanced) (s : State) :
    (s.feed c).result = .error (oddFences c) ∨ (c.isSolution = true ∧ ∃ q, s = .responding q) := by
  cases s with
  | idle => exact Or.inl (atIdle_unbalanced h)
  | awaiting q => exact Or.inl (atAwaiting_unbalanced h q)
  | responding q =>
    cases hs : c.isSolution with
    | true => exact Or.inr ⟨rfl, q, rfl⟩
    | false =>
      refine Or.inl ?_
      rw [State.feed, Cell.isTest_of_unbalanced h, hs]
      exact congrArg (Except.map _) (atIdle_unbalanced h)

/-- Among the cells is a solution with an odd number of fences, at a place where the response of a
    question has been read. -/
def Overlooked (cells : List Cell) : Prop :=
  ∃ front c rest q, cells = front ++ c :: rest ∧ State.idle.after front = .ok (.responding q) ∧ c.isSolution = true ∧
    c.Unbalanced

/-- Any other such cell is refused, unless a cell before it is. -/
theorem after_unbalanced (hnot : ¬ Overlooked (front ++ c :: rest)) (h : c.Unbalanced)
    (hfront : State.idle.after front = .ok s) : State.idle.after (front ++ c :: rest) = .error (oddFences c) := by
  rw [State.after_append_ok hfront]
  refine State.after_cons_error ?_ rest
  refine (feed_unbalanced h s).resolve_right ?_
  rintro ⟨hsolution, q, rfl⟩
  exact hnot ⟨front, c, rest, q, rfl, hfront, hsolution, h⟩

/-- Over a table of any files: the markdown cells of an accepted list all have an even number of
    fences exactly when none with an odd number stands as a solution after a response. Where
    none stands so, a list with such a cell fails, and unless a cell before it is refused, it
    fails with the fault of that cell. -/
theorem balanced_iff_not_overlooked (cells : List Cell) (files : Store.Memory.Files) :
    ((∃ s files', (segment Store.memory cells).outcome files = (.ok s, files')) →
      ((∀ c ∈ cells, ¬ c.Unbalanced) ↔ ¬ Overlooked cells)) ∧
    (¬ Overlooked cells → ∀ front c rest, cells = front ++ c :: rest → c.Unbalanced →
      ∃ f, ((segment Store.memory cells).outcome files).1 = .error f ∧
        ∀ s, State.idle.after front = .ok s → f = .markup (.unbalancedFences c.fenceCount) c.text) := by
  have hrefused : ¬ Overlooked cells → ∀ front c rest, cells = front ++ c :: rest → c.Unbalanced →
      ∃ f, State.idle.after cells = .error f ∧ ∀ s, State.idle.after front = .ok s → f = oddFences c := by
    rintro hnot front c rest rfl hodd
    cases hfront : State.idle.after front with
    | error f => exact ⟨f, State.after_append_error hfront _, fun s hs => by cases hs⟩
    | ok s => exact ⟨_, after_unbalanced hnot hodd hfront, fun _ _ => rfl⟩
  refine ⟨fun haccepted => ⟨?_, fun hnot c hc hodd => ?_⟩, fun hnot front c rest hcells hodd => ?_⟩
  · rintro hall ⟨front, c, rest, q, rfl, -, -, hodd⟩
    exact hall c (by simp) hodd
  · obtain ⟨front, rest, hcells⟩ := List.append_of_mem hc
    obtain ⟨f, hf, -⟩ := hrefused hnot front c rest hcells hodd
    obtain ⟨t, ht⟩ := (accepted_iff_after cells files).mp haccepted
    rw [hf] at ht
    cases ht
  · obtain ⟨f, hf, hfirst⟩ := hrefused hnot front c rest hcells hodd
    exact ⟨f, outcome_of_after_error hf files, hfirst⟩

theorem not_overlooked (h : ∀ c ∈ cells, c.isSolution = true → ¬ c.Unbalanced) : ¬ Overlooked cells := by
  rintro ⟨front, c, rest, q, rfl, -, hsolution, hodd⟩
  exact h c (by simp) hsolution hodd

/-! ## A solution with one fence -/

theorem isResponse_empty : (Cell.code "").IsResponse := ⟨rfl, by cbv, by cbv⟩

def questionA : Cell := Cell.markdown "\x60\x60\x60\nBEGIN QUESTION\nname: a\n\x60\x60\x60"

theorem declares_questionA :
    questionA.isQuestion = .ok true ∧ Question.ofCell questionA = .ok ⟨"a", false, "", none, none, none⟩ := by
  decide +kernel

/-- A question with an empty answer, and a cell after it. -/
def answeredThen (c : Cell) : List Cell := [questionA, Cell.code "", c]

/-- A cell that goes on with the question before it is accepted. -/
theorem layout_answeredThen (h : c.goesOn = true) :
    ∃ q, Layout [.block ⟨questionA, q, some ⟨Cell.code "", [c]⟩⟩] (answeredThen c) := by
  have hrun : ∀ x ∈ [c], x.goesOn = true := by simpa using h
  exact ⟨⟨"a", false, "", none, none, none⟩,
    .block declares_questionA.1 declares_questionA.2 isResponse_empty hrun (by simp) .nil⟩

theorem after_answer : ∃ s, State.idle.after [questionA, Cell.code ""] = .ok s := by
  obtain ⟨q, hlayout⟩ := layout_answeredThen (c := Cell.code "## test ##") (by cbv)
  obtain ⟨t, ht⟩ := (accepted_iff_after _ Store.Memory.empty).mp ⟨_, _, segment_of_layout hlayout _⟩
  obtain ⟨s, hs, -⟩ := State.after_of_append (show State.idle.after ([questionA, Cell.code ""] ++ _) = _ from ht)
  exact ⟨s, hs⟩

/-- A lone fence is refused after the response of a question. -/
theorem lone_fence_is_refused :
    ((segment Store.memory (answeredThen (Cell.markdown "\x60\x60\x60"))).outcome Store.Memory.empty).1 =
      .error (.markup (.unbalancedFences 1) "\x60\x60\x60") := by
  have hnot : ¬ Overlooked (answeredThen (Cell.markdown "\x60\x60\x60")) := not_overlooked (by decide +kernel)
  obtain ⟨f, hf, hfirst⟩ := (balanced_iff_not_overlooked _ Store.Memory.empty).2 hnot [_, _] _ [] rfl (by decide +kernel)
  obtain ⟨s, hs⟩ := after_answer
  have hcount : (Cell.markdown "\x60\x60\x60").fenceCount = 1 := by cbv
  have htext : (Cell.markdown "\x60\x60\x60").text = "\x60\x60\x60" := by cbv
  rw [hf, hfirst s hs, hcount, htext]

/-- As the line of a solution it is not. -/
theorem lone_fence_of_solution_is_accepted :
    (∃ s files, (segment Store.memory (answeredThen (Cell.markdown "**Solution:**\n\x60\x60\x60"))).outcome
      Store.Memory.empty = (.ok s, files)) ∧
    ∃ c ∈ answeredThen (Cell.markdown "**Solution:**\n\x60\x60\x60"), c.isMarkdown = true ∧ c.fenceCount = 1 := by
  obtain ⟨q, hlayout⟩ := layout_answeredThen (c := Cell.markdown "**Solution:**\n\x60\x60\x60") (by cbv)
  exact ⟨⟨_, _, segment_of_layout hlayout _⟩, Cell.markdown "**Solution:**\n\x60\x60\x60", by simp [answeredThen],
    by cbv⟩

end Segment
end Handout
