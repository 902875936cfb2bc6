/-
  Handout.Proofs.Segment.Progress — where a reading stands after some of its cells.

  `s.after front` is the state that the cells `front` lead to from `s`, or the failure of
  the first of them that is refused. The cells behind are read from that state on
  (`readFrom_append`), and a list is accepted when no cell of it is refused
  (`accepted_iff_after`), as what is open at the end can always be closed.
-/

import Handout.Proofs.Segment.Layout

namespace Handout.Segment

/-- The state after some cells, or the failure of the first that is refused. -/
def State.after (s : State) : List Cell → Except Failure State
  | [] => .ok s
  | c :: rest =>
    match (s.feed c).result with
    | .ok (t, _) => t.after rest
    | .error f => .error f

variable {s t : State} {c : Cell} {front rest cells : List Cell} {f : Failure}

namespace State

theorem after_cons_ok {out : Output} (h : (s.feed c).result = .ok (t, out)) (rest : List Cell) :
    s.after (c :: rest) = t.after rest := by
  rw [after, h]

theorem after_cons_error (h : (s.feed c).result = .error f) (rest : List Cell) : s.after (c :: rest) = .error f := by
  rw [after, h]

/-- The first cell is taken when all are. -/
theorem after_cons_eq_ok (h : s.after (c :: rest) = .ok t) :
    ∃ u out, (s.feed c).result = .ok (u, out) ∧ u.after rest = .ok t := by
  cases hfeed : (s.feed c).result with
  | error f =>
    rw [after_cons_error hfeed] at h
    cases h
  | ok r =>
    obtain ⟨u, out⟩ := r
    rw [after_cons_ok hfeed] at h
    exact ⟨u, out, rfl, h⟩

theorem after_append_ok (h : s.after front = .ok t) (rest : List Cell) : s.after (front ++ rest) = t.after rest := by
  induction front generalizing s with
  | nil =>
    cases h
    rfl
  | cons c front ih =>
    obtain ⟨u, out, hfeed, hu⟩ := after_cons_eq_ok h
    rw [List.cons_append, after_cons_ok hfeed, ih hu]

theorem after_append_error (h : s.after front = .error f) (rest : List Cell) : s.after (front ++ rest) = .error f := by
  induction front generalizing s with
  | nil => cases h
  | cons c front ih =>
    rw [List.cons_append]
    cases hfeed : (s.feed c).result with
    | error g =>
      rw [after_cons_error hfeed] at h ⊢
      exact h
    | ok r =>
      obtain ⟨u, out⟩ := r
      rw [after_cons_ok hfeed] at h ⊢
      exact ih h

/-- Cells that are taken are taken up to each of them. -/
theorem after_of_append (h : s.after (front ++ rest) = .ok t) : ∃ u, s.after front = .ok u ∧ u.after rest = .ok t := by
  cases hfront : s.after front with
  | error f =>
    rw [after_append_error hfront] at h
    cases h
  | ok u =>
    rw [after_append_ok hfront] at h
    exact ⟨u, rfl, h⟩

end State

/-! ## Readings -/

theorem readFrom_cons_of_feed {out : Output} (h : (s.feed c).result = .ok (t, out)) (rest : List Cell) :
    readFrom s (c :: rest) = (readFrom t rest).after (s.feed c).saved out :=
  readFrom_cons_ok (by rw [← h]) rest

theorem result_of_after_error (h : s.after cells = .error f) : (readFrom s cells).result = .error f := by
  induction cells generalizing s with
  | nil => cases h
  | cons c cells ih =>
    cases hfeed : (s.feed c).result with
    | error g =>
      rw [State.after_cons_error hfeed] at h
      cases h
      have hstep : s.feed c = ⟨(s.feed c).saved, .error f⟩ := by rw [← hfeed]
      rw [readFrom_cons_error hstep]
    | ok r =>
      obtain ⟨u, out⟩ := r
      rw [State.after_cons_ok hfeed] at h
      rw [readFrom_cons_of_feed hfeed, Reading.after, ih h]
      rfl

/-- What is open at the end can be closed. -/
theorem result_of_after_ok (h : s.after cells = .ok t) : ∃ o, (readFrom s cells).result = .ok o := by
  induction cells generalizing s with
  | nil => cases s <;> exact ⟨_, rfl⟩
  | cons c cells ih =>
    obtain ⟨u, out, hfeed, hu⟩ := State.after_cons_eq_ok h
    obtain ⟨o, ho⟩ := ih hu
    refine ⟨out.append o, ?_⟩
    rw [readFrom_cons_of_feed hfeed, Reading.after, ho]
    rfl

/-- The cells behind others are read from the state that these lead to. -/
theorem readFrom_append (h : s.after front = .ok t) :
    ∃ saved out, ∀ rest, readFrom s (front ++ rest) = (readFrom t rest).after saved out := by
  induction front generalizing s with
  | nil =>
    cases h
    exact ⟨[], .empty, fun rest => (Reading.after_nil_empty _).symm⟩
  | cons c front ih =>
    obtain ⟨u, out, hfeed, hu⟩ := State.after_cons_eq_ok h
    obtain ⟨saved, more, hread⟩ := ih hu
    refine ⟨(s.feed c).saved ++ saved, out.append more, fun rest => ?_⟩
    rw [List.cons_append, readFrom_cons_of_feed hfeed, hread, Reading.after_after]

/-- Over a table of any files, cells are accepted when none is refused. -/
theorem accepted_iff_after (cells : List Cell) (files : Store.Memory.Files) :
    (∃ s files', (segment Store.memory cells).outcome files = (.ok s, files')) ↔ ∃ t, State.idle.after cells = .ok t := by
  rw [segment_memory_outcome]
  constructor
  · rintro ⟨s, files', h⟩
    cases hafter : State.idle.after cells with
    | ok t => exact ⟨t, rfl⟩
    | error f =>
      rw [read, result_of_after_error hafter] at h
      cases h
  · rintro ⟨t, ht⟩
    obtain ⟨o, ho⟩ := result_of_after_ok ht
    exact ⟨_, _, by rw [read, ho]; rfl⟩

/-- A cell that is refused is what the whole list fails with. -/
theorem outcome_of_after_error (h : State.idle.after cells = .error f) (files : Store.Memory.Files) :
    ((segment Store.memory cells).outcome files).1 = .error f := by
  rw [segment_memory_outcome, read, result_of_after_error h]
  rfl

end Handout.Segment
