/-
  Handout.Proofs.Segment.Step — what one cell does to a reading, said once for each state.

  Each state has the cells it takes and what it writes for them (`atIdle_cases`,
  `atAwaiting_cases`, `readFrom_responding_*`). A reading is the first step's output in
  front of the reading of the rest (`readFrom_cons_ok`), and a question that is closed
  leaves the cell that closed it to be read outside of any question
  (`readFrom_responding_close`).
-/

import Handout.Proofs.Cell.Marker
import Handout.Proofs.Question.Prompt
import Handout.Segment.Reading

namespace Handout

namespace Cell

theorem isTest_of_isQuestion {c : Cell} (h : c.isQuestion = .ok true) : c.isTest = false := by
  cases ht : c.isTest with
  | false => rfl
  | true => rw [isQuestion_of_isCode (isCode_of_isTest ht)] at h; cases h

/-- A cell that may stand outside of any question and does not open one. -/
def IsFree (c : Cell) : Prop := c.isQuestion = .ok false ∧ c.isTest = false

/-- A cell that may follow the prompt of a question. -/
def IsResponse (c : Cell) : Prop :=
  c.isQuestion = .ok false ∧ c.isTest = false ∧ (c.isCode && c.isSolution) = false

/-- Whether a cell goes on with the question whose response is before it. -/
def goesOn (c : Cell) : Bool := c.isTest || c.isSolution

end Cell

namespace Segment

/-! ## Outputs -/

namespace Output

@[simp] theorem empty_append (o : Output) : empty.append o = o := by simp [append, empty]

theorem append_assoc (a b c : Output) : (a.append b).append c = a.append (b.append c) := by simp [append]

end Output

/-- A reading with files and output in front of it. -/
def Reading.after (saved : List TestFile) (out : Output) (r : Reading) : Reading :=
  ⟨saved ++ r.saved, r.result.map out.append⟩

namespace Reading

theorem after_after (saved more : List TestFile) (out next : Output) (r : Reading) :
    (r.after more next).after saved out = r.after (saved ++ more) (out.append next) := by
  obtain ⟨files, result⟩ := r
  cases result <;> simp [after, Except.map, Output.append_assoc]

@[simp] theorem after_nil_empty (r : Reading) : r.after [] .empty = r := by
  obtain ⟨files, result⟩ := r
  cases result <;> simp [after, Except.map]

theorem after_result_ok {saved : List TestFile} {out o : Output} {r : Reading} (h : (r.after saved out).result = .ok o) :
    ∃ o', r.result = .ok o' ∧ o = out.append o' := by
  obtain ⟨files, result⟩ := r
  cases result with
  | error f => cases h
  | ok o' => exact ⟨o', rfl, (Except.ok.inj h).symm⟩

end Reading

theorem readFrom_cons_ok {s t : State} {c : Cell} {saved : List TestFile} {out : Output}
    (h : s.feed c = ⟨saved, .ok (t, out)⟩) (rest : List Cell) :
    readFrom s (c :: rest) = (readFrom t rest).after saved out := by
  simp only [readFrom, h, Reading.after]

theorem readFrom_cons_error {s : State} {c : Cell} {saved : List TestFile} {f : Failure}
    (h : s.feed c = ⟨saved, .error f⟩) (rest : List Cell) : readFrom s (c :: rest) = ⟨saved, .error f⟩ := by
  simp only [readFrom, h]

/-! ## Outside of any question -/

theorem withPlaceholder_of_not_isSolution {c : Cell} (h : c.isSolution = false) (hasPrompt : Bool) :
    withPlaceholder hasPrompt c = [c] := by
  have hmd : c.isMarkdownSolution = false := by
    cases hm : c.isMarkdownSolution with
    | false => rfl
    | true => rw [Cell.isSolution_of_isMarkdownSolution hm] at h; cases h
  simp [withPlaceholder, hmd]

theorem atIdle_of_isFree {c : Cell} (h : c.IsFree) : atIdle c = .ok (.idle, .ofCells (withPlaceholder false c)) := by
  simp only [atIdle, h.1, h.2]
  cases hs : c.isSolution with
  | true => rfl
  | false => rw [withPlaceholder_of_not_isSolution hs]; rfl

theorem atIdle_of_isQuestion {c : Cell} {q : Question} (h : c.isQuestion = .ok true) (hq : Question.ofCell c = .ok q) :
    ∃ p, c.prompt q.manual = .ok p ∧
      atIdle c = .ok (.awaiting (.ofQuestion q), ⟨[p], if q.manual then [q.name] else []⟩) := by
  obtain ⟨b, j, -, -, hp⟩ := Cell.prompt_of_isQuestion h q.manual
  refine ⟨_, hp, ?_⟩
  simp only [atIdle, h, hq, hp, bind, Except.bind, pure, Except.pure]

/-- Outside of any question a cell is taken when it is free or opens a question. -/
theorem atIdle_cases {c : Cell} {t : State} {out : Output} (h : atIdle c = .ok (t, out)) :
    c.IsFree ∨ (c.isQuestion = .ok true ∧ ∃ q, Question.ofCell c = .ok q) := by
  unfold atIdle at h
  split at h
  · cases h
  · rename_i hquestion
    refine Or.inr ⟨hquestion, ?_⟩
    cases hq : Question.ofCell c with
    | error f => rw [hq] at h; cases h
    | ok q => exact ⟨q, rfl⟩
  · rename_i hquestion
    refine Or.inl ⟨hquestion, ?_⟩
    cases ht : c.isTest with
    | false => rfl
    | true => simp [ht, Cell.not_isSolution_of_isTest ht] at h

/-! ## After a prompt -/

/-- Whether an open question has a place for the answer once its response is there. -/
def promptedBy (q : Question) (response : Cell) : Bool := q.manual && ! response.isSolution

theorem atAwaiting_of_isResponse {c : Cell} (h : c.IsResponse) (q : Question) :
    atAwaiting (.ofQuestion q) c =
      .ok (.responding { OpenQuestion.ofQuestion q with hasPrompt := promptedBy q c },
        .ofCells (withPlaceholder false c)) := by
  obtain ⟨hquestion, htest, hcode⟩ := h
  rw [Cell.isCode_and_isSolution] at hcode
  simp only [atAwaiting, hquestion, htest, hcode, Bool.false_eq_true, if_false, promptedBy]
  cases hs : c.isSolution with
  | true => simp [OpenQuestion.ofQuestion]
  | false =>
    rw [withPlaceholder_of_not_isSolution hs, withPlaceholder_of_not_isSolution hs]
    cases hm : q.manual <;> simp [OpenQuestion.ofQuestion, hm]

/-- After a prompt only a response is taken, and what belongs to the question comes next. -/
theorem atAwaiting_cases {c : Cell} {q : OpenQuestion} {t : State} {out : Output}
    (h : atAwaiting q c = .ok (t, out)) : c.IsResponse ∧ ∃ q', t = .responding q' := by
  unfold atAwaiting at h
  split at h
  · cases h
  · cases h
  · rename_i hquestion
    split at h
    · cases h
    · rename_i htest
      split at h
      · cases h
      · rename_i hcode
        refine ⟨⟨hquestion, by simpa using htest, ?_⟩, ?_⟩
        · rw [Cell.isCode_and_isSolution]
          simpa using hcode
        · split at h <;> cases h <;> exact ⟨_, rfl⟩

/-! ## After a response -/

theorem readFrom_responding_test {c : Cell} (h : c.isTest = true) (q : OpenQuestion) (rest : List Cell) :
    readFrom (.responding q) (c :: rest) = readFrom (.responding (q.add (Test.ofCell c))) rest := by
  have hfeed : (State.responding q).feed c = ⟨[], .ok (.responding (q.add (Test.ofCell c)), .empty)⟩ := by
    simp [State.feed, h]
  rw [readFrom_cons_ok hfeed, Reading.after_nil_empty]

theorem readFrom_responding_solution {c : Cell} (h : c.isSolution = true) (q : OpenQuestion) (rest : List Cell) :
    readFrom (.responding q) (c :: rest) =
      (readFrom (.responding q) rest).after [] (.ofCells (withPlaceholder q.hasPrompt c)) := by
  have htest := Cell.isTest_of_isSolution h
  exact readFrom_cons_ok (by simp [State.feed, h, htest]) rest

/-- What does not go on with an open question closes it and is read outside of it. -/
theorem readFrom_responding_close {cells : List Cell} (h : ∀ c ∈ cells.head?, c.goesOn = false) (q : OpenQuestion) :
    readFrom (.responding q) cells = (readFrom .idle cells).after q.files (.ofCells q.closing) := by
  cases cells with
  | nil => simp [readFrom, State.finish, Reading.after, Except.map, Output.append, Output.ofCells, Output.empty]
  | cons c rest =>
    obtain ⟨htest, hsolution⟩ := Bool.or_eq_false_iff.mp (h c rfl)
    have hfeed : (State.responding q).feed c =
        ⟨q.files, (atIdle c).map fun r => (r.1, (Output.ofCells q.closing).append r.2)⟩ := by
      rw [State.feed, htest, hsolution]
      rfl
    have hfeedIdle : State.idle.feed c = ⟨[], atIdle c⟩ := rfl
    cases hidle : atIdle c with
    | error f =>
      rw [hidle] at hfeed hfeedIdle
      rw [readFrom_cons_error hfeed, readFrom_cons_error hfeedIdle]
      simp [Reading.after, Except.map]
    | ok r =>
      rw [hidle] at hfeed hfeedIdle
      rw [readFrom_cons_ok hfeed, readFrom_cons_ok hfeedIdle, Reading.after_after, List.append_nil]

end Segment
end Handout
