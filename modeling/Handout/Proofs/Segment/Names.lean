/-
  Handout.Proofs.Segment.Names — every test file that is saved has the name of a question, a
  letter and then letters, digits and underscores. This holds of every reading, those that
  fail included: each state keeps the question it has read (`State.Named`).
-/

import Handout.Proofs.Segment.Step

namespace Handout

/-! ## Names of questions -/

namespace Question

theorem isName_of_ofLines {lines : List String} {q : Question} (h : ofLines lines = .ok q) : isName q.name = true := by
  unfold ofLines at h
  split at h
  · cases h
  · split at h
    · split at h
      · cases h
      · split at h
        · cases h
        · rename_i hname
          split at h
          · cases h
          · cases h
            simpa using hname
    · cases h

theorem isName_of_ofCell {c : Cell} {q : Question} (h : ofCell c = .ok q) : isName q.name = true := by
  unfold ofCell at h
  split at h
  · cases h
  · cases h
  · rename_i i _
    cases hlines : ofLines (blockLines c.source i) with
    | error f =>
      rw [hlines] at h
      cases h
    | ok q' =>
      rw [hlines] at h
      cases h
      exact isName_of_ofLines hlines

theorem noSlash_of_isName {s : String} (h : isName s = true) : '/' ∉ s.toList := by
  rw [isName] at h
  cases hs : s.toList with
  | nil => simp
  | cons c r =>
    simp only [hs, Bool.and_eq_true, List.all_eq_true] at h
    intro hmem
    rcases List.mem_cons.mp hmem with rfl | hmem
    · exact absurd h.1 (by decide)
    · exact absurd (h.2 _ hmem) (by decide)

end Question

namespace Segment

/-- The question that a state has read has a name. -/
def State.Named : State → Prop
  | .idle => True
  | .awaiting q | .responding q => Question.isName q.question.name = true

theorem atIdle_named {c : Cell} {t : State} {out : Output} (h : atIdle c = .ok (t, out)) : t.Named := by
  unfold atIdle at h
  split at h
  · cases h
  · cases hq : Question.ofCell c with
    | error f =>
      rw [hq] at h
      cases h
    | ok q =>
      cases hprompt : c.prompt q.manual with
      | error f =>
        simp only [hq, hprompt, bind, Except.bind] at h
        cases h
      | ok prompt =>
        simp only [hq, hprompt, bind, Except.bind, pure, Except.pure] at h
        cases h
        exact Question.isName_of_ofCell hq
  · split at h
    · cases h
      trivial
    · split at h
      · cases h
      · cases h
        trivial

theorem atAwaiting_named {q : OpenQuestion} {c : Cell} {t : State} {out : Output}
    (hq : Question.isName q.question.name = true) (h : atAwaiting q c = .ok (t, out)) : t.Named := by
  unfold atAwaiting at h
  split at h
  · cases h
  · cases h
  · split at h
    · cases h
    · split at h
      · cases h
      · split at h <;> cases h <;> exact hq

theorem name_of_mem_files {q : OpenQuestion} {f : TestFile} (h : f ∈ q.files) : f.name = q.question.name := by
  rw [OpenQuestion.files, List.mem_append] at h
  rcases h with h | h <;> split at h
  · cases h
  · rw [List.mem_singleton.mp h]
    rfl
  · cases h
  · rw [List.mem_singleton.mp h]
    rfl

theorem question_add (q : OpenQuestion) (t : Test) : (q.add t).question = q.question := by
  rw [OpenQuestion.add]
  split <;> rfl

/-- What one cell saves has a name, and so has the question after it. -/
theorem feed_named {s : State} (hs : s.Named) (c : Cell) :
    (∀ f ∈ (s.feed c).saved, Question.isName f.name = true) ∧ ∀ t out, (s.feed c).result = .ok (t, out) → t.Named := by
  cases s with
  | idle => exact ⟨by simp [State.feed], fun t out h => atIdle_named h⟩
  | awaiting q => exact ⟨by simp [State.feed], fun t out h => atAwaiting_named hs h⟩
  | responding q =>
    unfold State.feed
    dsimp only
    split
    · refine ⟨by simp, fun t out h => ?_⟩
      cases h
      show Question.isName (q.add _).question.name = true
      rw [question_add]
      exact hs
    · split
      · refine ⟨by simp, fun t out h => ?_⟩
        cases h
        exact hs
      · refine ⟨fun f hf => name_of_mem_files hf ▸ hs, fun t out h => ?_⟩
        cases hidle : atIdle c with
        | error f =>
          rw [hidle] at h
          cases h
        | ok next =>
          rw [hidle] at h
          cases h
          exact atIdle_named hidle

theorem finish_named {s : State} (hs : s.Named) : ∀ f ∈ s.finish.saved, Question.isName f.name = true := by
  cases s with
  | idle => simp [State.finish]
  | awaiting q | responding q => exact fun f hf => name_of_mem_files hf ▸ hs

theorem readFrom_named {s : State} (hs : s.Named) (cells : List Cell) :
    ∀ f ∈ (readFrom s cells).saved, Question.isName f.name = true := by
  induction cells generalizing s with
  | nil => exact finish_named hs
  | cons c cells ih =>
    obtain ⟨hsaved, hnext⟩ := feed_named hs c
    rw [readFrom]
    dsimp only
    split
    · exact hsaved
    · rename_i t out hresult
      intro f hf
      rcases List.mem_append.mp hf with hf | hf
      · exact hsaved f hf
      · exact ih (hnext t out hresult) f hf

/-- Whatever is saved has the name of a question. -/
theorem isName_of_saved {cells : List Cell} {f : TestFile} (h : f ∈ (read cells).saved) : Question.isName f.name = true :=
  @readFrom_named .idle trivial cells f h

end Segment
end Handout
