/-
  Handout.Proofs.Segment.Refusal — what a list of cells that is refused comes to.

  The first cell that a state refuses ends the reading, and what is open at the end can
  always be closed, so a list fails at one of its cells or not at all. The failure is one
  of markup or metadata and carries the text of that cell, also where the cell was
  announced before it was looked at again (`blames_of_feed`). A question that the refused
  cell closes is saved before the cell is judged (`saved_of_feed`); with it, what is in the
  store is what the cells in front alone would have left there (`saved_of_refused`).

  Proved:
  - `refusal_is_immediate`: all of it for a table of files, whatever comes after the cell.
-/

import Handout.Proofs.Segment.Openers

namespace Handout

/-- A fault of the author's, found in this cell. -/
def Failure.Blames (f : Failure) (c : Cell) : Prop :=
  (∃ fault, f = .markup fault c.text) ∨ ∃ fault, f = .metadata fault c.text

theorem Question.blames_of_ofCell {c : Cell} {f : Failure} (h : Question.ofCell c = .error f) : f.Blames c := by
  unfold Question.ofCell at h
  split at h
  · cases h
    exact Or.inl ⟨_, rfl⟩
  · cases h
    exact Or.inl ⟨_, rfl⟩
  · rename_i i hi
    cases hread : Question.ofLines (Question.blockLines c.source i) with
    | ok q =>
      rw [hread] at h
      cases h
    | error fault =>
      rw [hread] at h
      cases h
      exact Or.inr ⟨_, rfl⟩

namespace Segment

variable {cells front rest : List Cell} {c : Cell} {s t : State} {f : Failure}

/-! ## Blame -/

theorem blames_of_atIdle (h : atIdle c = .error f) : f.Blames c := by
  unfold atIdle at h
  split at h
  · cases h
    exact Or.inl ⟨_, rfl⟩
  · rename_i hquestion
    cases hq : Question.ofCell c with
    | error g =>
      rw [hq] at h
      cases h
      exact Question.blames_of_ofCell hq
    | ok q =>
      -- a question cell has a prompt, so its announced source is never blamed
      obtain ⟨p, hp, -⟩ := atIdle_of_isQuestion hquestion hq
      simp only [hq, hp, bind, Except.bind] at h
      cases h
  · split at h
    · cases h
    · split at h
      · cases h
        exact Or.inl ⟨_, rfl⟩
      · cases h

theorem blames_of_atAwaiting {q : OpenQuestion} (h : atAwaiting q c = .error f) : f.Blames c := by
  unfold atAwaiting at h
  split at h
  · cases h
    exact Or.inl ⟨_, rfl⟩
  · cases h
    exact Or.inl ⟨_, rfl⟩
  · split at h
    · cases h
      exact Or.inl ⟨_, rfl⟩
    · split at h
      · cases h
        exact Or.inl ⟨_, rfl⟩
      · split at h <;> cases h

/-- What goes on with an open question is never refused. -/
theorem feed_responding_of_not_goesOn {q : OpenQuestion} (h : c.goesOn = false) :
    (State.responding q).feed c = ⟨q.files, (atIdle c).map fun r => (r.1, (Output.ofCells q.closing).append r.2)⟩ := by
  obtain ⟨htest, hsolution⟩ := Bool.or_eq_false_iff.mp h
  rw [State.feed, htest, hsolution]
  rfl

theorem feed_responding_of_goesOn {q : OpenQuestion} (h : c.goesOn = true) :
    ∃ q' out, (State.responding q).feed c = ⟨[], .ok (.responding q', out)⟩ := by
  cases htest : c.isTest with
  | true => exact ⟨_, _, by rw [State.feed, if_pos htest]⟩
  | false =>
    have hsolution : c.isSolution = true := by simpa [Cell.goesOn, htest] using h
    exact ⟨_, _, by rw [State.feed, htest, if_neg Bool.false_ne_true, if_pos hsolution]⟩

theorem blames_of_feed (h : (s.feed c).result = .error f) : f.Blames c := by
  cases s with
  | idle => exact blames_of_atIdle h
  | awaiting q => exact blames_of_atAwaiting h
  | responding q =>
    cases hgoesOn : c.goesOn with
    | true =>
      obtain ⟨q', out, hfeed⟩ := feed_responding_of_goesOn (q := q) hgoesOn
      rw [hfeed] at h
      cases h
    | false =>
      rw [feed_responding_of_not_goesOn hgoesOn] at h
      cases hidle : atIdle c with
      | ok r =>
        rw [hidle] at h
        cases h
      | error g =>
        rw [hidle] at h
        cases h
        exact blames_of_atIdle hidle

/-! ## The questions that are closed -/

/-- The question that a cell closes, whether the cell itself is taken or not. -/
def State.closedBy : State → Cell → List OpenQuestion
  | .responding q, c => if c.goesOn then [] else [q]
  | _, _ => []

/-- The questions that are closed from a state on, up to the first cell that is refused and with the
    one that this cell closes. -/
def closed (s : State) : List Cell → List OpenQuestion
  | [] => []
  | c :: rest =>
    s.closedBy c ++ match (s.feed c).result with
      | .ok (t, _) => closed t rest
      | .error _ => []

/-- A cell saves the question that it closes, and nothing else. -/
theorem saved_of_feed (s : State) (c : Cell) : (s.feed c).saved = (s.closedBy c).flatMap OpenQuestion.files := by
  cases s with
  | idle => rfl
  | awaiting q => rfl
  | responding q =>
    cases hgoesOn : c.goesOn with
    | true =>
      obtain ⟨q', out, hfeed⟩ := feed_responding_of_goesOn (q := q) hgoesOn
      rw [hfeed, State.closedBy, if_pos hgoesOn]
      rfl
    | false =>
      rw [feed_responding_of_not_goesOn hgoesOn, State.closedBy, hgoesOn]
      exact (List.append_nil _).symm

theorem closed_cons_ok {out : Output} (h : (s.feed c).result = .ok (t, out)) (rest : List Cell) :
    closed s (c :: rest) = s.closedBy c ++ closed t rest := by
  rw [closed, h]

theorem closed_cons_error (h : (s.feed c).result = .error f) (rest : List Cell) :
    closed s (c :: rest) = s.closedBy c := by
  rw [closed, h, List.append_nil]

/-- A refused list is read as the files of the questions closed in it, and the failure. -/
theorem readFrom_of_after_error (h : s.after cells = .error f) :
    readFrom s cells = ⟨(closed s cells).flatMap OpenQuestion.files, .error f⟩ := by
  induction cells generalizing s with
  | nil => cases h
  | cons c rest ih =>
    cases hfeed : (s.feed c).result with
    | error g =>
      rw [State.after_cons_error hfeed] at h
      cases h
      have hstep : s.feed c = ⟨(s.feed c).saved, .error f⟩ := by rw [← hfeed]
      rw [readFrom_cons_error hstep, closed_cons_error hfeed, saved_of_feed]
    | ok r =>
      obtain ⟨t, out⟩ := r
      rw [State.after_cons_ok hfeed] at h
      rw [readFrom_cons_of_feed hfeed, ih h, closed_cons_ok hfeed, List.flatMap_append, saved_of_feed]
      rfl

/-- Once a cell is refused, what follows closes nothing. -/
theorem closed_append (h : s.after front = .error f) (rest : List Cell) : closed s (front ++ rest) = closed s front := by
  induction front generalizing s with
  | nil => cases h
  | cons c front ih =>
    rw [List.cons_append]
    cases hfeed : (s.feed c).result with
    | error g => rw [closed_cons_error hfeed, closed_cons_error hfeed]
    | ok r =>
      obtain ⟨t, out⟩ := r
      rw [State.after_cons_ok hfeed] at h
      rw [closed_cons_ok hfeed, closed_cons_ok hfeed, ih h]

/-- A question whose response has not been read has no tests. -/
def State.Fresh (s : State) : Prop := ∀ q, s = .awaiting q → q.files = []

theorem Takes.fresh {saved : List TestFile} (h : Takes s c saved t) : t.Fresh := by
  induction h with
  | free _ => exact nofun
  | opener _ _ =>
    rintro q ⟨⟩
    rfl
  | response _ _ => exact nofun
  | test _ => exact nofun
  | solution _ => exact nofun
  | closer _ _ ih => exact ih

theorem fresh_idle : State.idle.Fresh := by
  rintro q ⟨⟩

theorem fresh_of_after (hs : s.Fresh) (h : s.after front = .ok t) : t.Fresh := by
  induction front generalizing s with
  | nil =>
    cases h
    exact hs
  | cons c front ih =>
    obtain ⟨u, out, hfeed, hu⟩ := State.after_cons_eq_ok h
    exact ih (takes_of_feed hfeed).fresh hu

/-- A refused cell saves what the end of the cells would have saved in its place. -/
theorem saved_of_refused (hs : s.Fresh) (h : (s.feed c).result = .error f) : (s.feed c).saved = s.finish.saved := by
  cases s with
  | idle => rfl
  | awaiting q => exact (hs q rfl).symm
  | responding q =>
    cases hgoesOn : c.goesOn with
    | true =>
      obtain ⟨q', out, hfeed⟩ := feed_responding_of_goesOn (q := q) hgoesOn
      rw [hfeed] at h
      cases h
    | false => rw [feed_responding_of_not_goesOn hgoesOn, State.finish]

/-- So the questions closed up to a refused cell are those that the cells in front of it hold. -/
theorem closed_files_of_refused (hfront : State.idle.after front = .ok s) (h : (s.feed c).result = .error f) :
    (closed .idle (front ++ [c])).flatMap OpenQuestion.files = (read front).saved := by
  obtain ⟨saved, out, hread⟩ := readFrom_append hfront
  have herror : State.idle.after (front ++ [c]) = .error f := by
    rw [State.after_append_ok hfront, State.after_cons_error h]
  have hstep : s.feed c = ⟨(s.feed c).saved, .error f⟩ := by rw [← h]
  have hsaved := congrArg Reading.saved (readFrom_of_after_error herror)
  rw [hread, readFrom_cons_error hstep, saved_of_refused (fresh_of_after fresh_idle hfront) h] at hsaved
  have hend := hread []
  rw [List.append_nil] at hend
  rw [read, hend]
  exact hsaved.symm

/-! ## Refusals -/

/-- The cell at `i` is refused with `f`, and none before it is. -/
def RefusedAt (cells : List Cell) (i : Nat) (f : Failure) : Prop :=
  ∃ s c, State.idle.after (cells.take i) = .ok s ∧ cells[i]? = some c ∧ (s.feed c).result = .error f

theorem take_succ_of_getElem? {i : Nat} (h : cells[i]? = some c) : cells.take (i + 1) = cells.take i ++ [c] := by
  rw [List.take_add_one, h, Option.toList_some]

theorem after_of_refusedAt {i : Nat} (h : RefusedAt cells i f) : State.idle.after (cells.take (i + 1)) = .error f := by
  obtain ⟨s, c, hfront, hc, hfeed⟩ := h
  rw [take_succ_of_getElem? hc, State.after_append_ok hfront, State.after_cons_error hfeed]

theorem exists_refusedAt (h : State.idle.after cells = .error f) : ∃ i, RefusedAt cells i f := by
  induction cells using List.reverseRecOn with
  | nil => cases h
  | append_singleton front c ih =>
    cases hfront : State.idle.after front with
    | error g =>
      rw [State.after_append_error hfront] at h
      cases h
      obtain ⟨i, s, d, hs, hd, hfeed⟩ := ih hfront
      have hi : i < front.length := (List.getElem?_eq_some_iff.mp hd).1
      exact ⟨i, s, d, by rw [List.take_append_of_le_length (Nat.le_of_lt hi), hs],
        by rw [List.getElem?_append_left hi, hd], hfeed⟩
    | ok s =>
      rw [State.after_append_ok hfront] at h
      refine ⟨front.length, s, c, by rw [List.take_left, hfront], by simp, ?_⟩
      cases hfeed : (s.feed c).result with
      | error g =>
        rw [State.after_cons_error hfeed] at h
        cases h
        rfl
      | ok r =>
        rw [State.after_cons_ok hfeed] at h
        cases h

/-- No list is refused at two cells. -/
theorem RefusedAt.not_lt {i j : Nat} {g : Failure} (h : RefusedAt cells i f) (h' : RefusedAt cells j g) : ¬ i < j := by
  intro hlt
  obtain ⟨s, -, hfront, -⟩ := h'
  rw [← List.take_append_drop (i + 1) (cells.take j), List.take_take, Nat.min_eq_left hlt] at hfront
  obtain ⟨u, hu, -⟩ := State.after_of_append hfront
  rw [after_of_refusedAt h] at hu
  cases hu

/-- Over a table of any files: what is open can be closed at the end, so a list fails exactly when one
    of its cells is refused after all before it were taken; there is one such cell then. The
    failure is of markup or metadata and carries the text of the cell. Whatever stands behind
    the cell, the list fails so, and leaves the files of the questions closed up to and with the
    cell, which are those laid out in the cells before it. -/
theorem refusal_is_immediate (cells : List Cell) (files : Store.Memory.Files) :
    (∀ s : State, ∃ r, s.finish.result = .ok r) ∧
    ((∃ f, ((segment Store.memory cells).outcome files).1 = .error f) ↔ ∃ i f, RefusedAt cells i f) ∧
    ∀ i f, RefusedAt cells i f →
      (∀ j g, RefusedAt cells j g → j = i ∧ g = f) ∧
      (∃ c, cells[i]? = some c ∧ f.Blames c) ∧
      (∀ rest, (segment Store.memory (cells.take (i + 1) ++ rest)).outcome files =
        (.error f, Store.Memory.savedIn ((closed .idle (cells.take (i + 1))).flatMap OpenQuestion.files) files)) ∧
      ∃ ps, Layout ps (cells.take i) ∧
        (closed .idle (cells.take (i + 1))).flatMap OpenQuestion.files = ps.flatMap Piece.files := by
  refine ⟨fun s => by cases s <;> exact ⟨_, rfl⟩, ⟨?_, ?_⟩, fun i f h => ⟨fun j g h' => ?_, ?_, fun rest => ?_, ?_⟩⟩
  · rintro ⟨f, hf⟩
    cases hafter : State.idle.after cells with
    | error g =>
      obtain ⟨i, hi⟩ := exists_refusedAt hafter
      exact ⟨i, g, hi⟩
    | ok t =>
      obtain ⟨r, files', houtcome⟩ := (accepted_iff_after cells files).mpr ⟨t, hafter⟩
      rw [houtcome] at hf
      cases hf
  · rintro ⟨i, f, h⟩
    refine ⟨f, outcome_of_after_error ?_ files⟩
    rw [← List.take_append_drop (i + 1) cells]
    exact State.after_append_error (after_of_refusedAt h) _
  · obtain rfl : j = i := by
      have := h.not_lt h'
      have := h'.not_lt h
      omega
    have heq := (after_of_refusedAt h).symm.trans (after_of_refusedAt h')
    cases heq
    exact ⟨rfl, rfl⟩
  · obtain ⟨s, c, -, hc, hfeed⟩ := h
    exact ⟨c, hc, blames_of_feed hfeed⟩
  · have herror := after_of_refusedAt h
    rw [segment_memory_outcome, read, readFrom_of_after_error (State.after_append_error herror rest),
      closed_append herror]
    rfl
  · obtain ⟨s, c, hfront, hc, hfeed⟩ := h
    obtain ⟨o, ho⟩ := result_of_after_ok hfront
    obtain ⟨ps, hps⟩ := (read_ok_iff_layout (cells.take i)).mp ⟨o, ho⟩
    refine ⟨ps, hps, ?_⟩
    rw [take_succ_of_getElem? hc, closed_files_of_refused hfront hfeed, read_of_layout hps]

/-! ## A misnamed question behind another -/

def misnamed : Cell := Cell.markdown "\x60\x60\x60\nBEGIN QUESTION\nname: 1b\n\x60\x60\x60"

theorem declares_misnamed : misnamed.isQuestion = .ok true ∧
    Question.ofCell misnamed = .error (.metadata (.illegalName "1b") misnamed.text) := by
  decide +kernel

def onlyQuestion : Question := ⟨"a", false, "", none, none, none⟩

theorem after_publicTest : State.idle.after [questionA, Cell.code "", publicTest] =
    .ok (.responding ⟨onlyQuestion, [Test.ofCell publicTest], [], false⟩) := by
  have hquestion : Question.ofCell questionA = .ok onlyQuestion := declares_questionA.2
  obtain ⟨p, -, hopener⟩ := feed_opener declares_questionA.1 hquestion
  have hanswer : ((State.awaiting (.ofQuestion onlyQuestion)).feed (Cell.code "")).result =
      .ok (.responding (.ofQuestion onlyQuestion), .ofCells [Cell.code ""]) := by
    cbv
  have htest : ((State.responding (.ofQuestion onlyQuestion)).feed publicTest).result =
      .ok (.responding ⟨onlyQuestion, [Test.ofCell publicTest], [], false⟩, .empty) := by
    cbv
  rw [State.after_cons_ok (congrArg Step.result hopener), State.after_cons_ok hanswer, State.after_cons_ok htest,
    State.after]

/-- The question before it has been closed with its test; what comes after is not looked at. -/
theorem misnamed_is_refused :
    RefusedAt [questionA, Cell.code "", publicTest, misnamed, publicTest] 3
      (.metadata (.illegalName "1b") misnamed.text) ∧
    ∃ files, (segment Store.memory [questionA, Cell.code "", publicTest, misnamed, publicTest]).outcome
        Store.Memory.empty = (.error (.metadata (.illegalName "1b") misnamed.text), files) ∧
      Table.keys files = ["a"] := by
  have hstays : misnamed.goesOn = false := by cbv
  have hidle : atIdle misnamed = .error (.metadata (.illegalName "1b") misnamed.text) := by
    simp only [atIdle, declares_misnamed, bind, Except.bind]
  have hrefused : RefusedAt [questionA, Cell.code "", publicTest, misnamed, publicTest] 3
      (.metadata (.illegalName "1b") misnamed.text) :=
    ⟨_, misnamed, after_publicTest, rfl, by rw [feed_responding_of_not_goesOn hstays, hidle]; rfl⟩
  obtain ⟨-, -, houtcome, -⟩ := (refusal_is_immediate _ Store.Memory.empty).2.2 3 _ hrefused
  exact ⟨hrefused, _, houtcome [publicTest], by decide +kernel⟩

end Segment
end Handout
