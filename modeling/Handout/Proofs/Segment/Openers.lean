/-
  Handout.Proofs.Segment.Openers — which question cells open a question, and whose tests a
  test cell is one of.

  `Takes` lists all ways in which a cell is taken. Of those only one leaves a question cell
  without its question: after a response a cell is looked at as a solution before it is
  asked whether it is a question (`Takes.opened?`). A question that is passed over so leaves
  the tests behind it to the question before.

  Proved:
  - `length_opened`: an accepted list opens as many questions as it has question cells
    exactly when none is passed over.
  - `saved_of_not_passedOver`: then what is saved is, for each question cell, the tests up to
    the next one.
  - `opened_iff_not_passedOver`: both for a table of files, with the nearest question cell of
    each test.
-/

import Handout.Proofs.Segment.Fences

namespace Handout

/-- Whether a cell is a question cell. -/
def Cell.asks (c : Cell) : Bool :=
  match c.isQuestion with
  | .ok b => b
  | .error _ => false

namespace Segment

variable {cells front rest : List Cell} {c : Cell} {s t : State}

theorem asks_iff : c.asks = true ↔ c.isQuestion = .ok true := by
  unfold Cell.asks
  split <;> simp [*]

theorem not_asks (h : c.isQuestion = .ok false) : c.asks = false := by
  rw [Cell.asks, h]

theorem not_asks_of_isTest (h : c.isTest = true) : c.asks = false :=
  not_asks (Cell.isQuestion_of_isCode (Cell.isCode_of_isTest h))

/-! ## How a cell is taken -/

/-- A cell that is taken in a state, with the test files it saves and the state after it. -/
inductive Takes : State → Cell → List TestFile → State → Prop
  | free {c : Cell} : c.IsFree → Takes .idle c [] .idle
  | opener {c : Cell} {q : Question} :
      c.isQuestion = .ok true → Question.ofCell c = .ok q → Takes .idle c [] (.awaiting (.ofQuestion q))
  | response {c : Cell} {q : OpenQuestion} (hasPrompt : Bool) :
      c.IsResponse → Takes (.awaiting q) c [] (.responding { q with hasPrompt := hasPrompt })
  | test {c : Cell} {q : OpenQuestion} :
      c.isTest = true → Takes (.responding q) c [] (.responding (q.add (Test.ofCell c)))
  | solution {c : Cell} {q : OpenQuestion} : c.isSolution = true → Takes (.responding q) c [] (.responding q)
  /-- What does not go on with a question closes it and is taken outside of it. -/
  | closer {c : Cell} {q : OpenQuestion} {t : State} :
      c.goesOn = false → Takes .idle c [] t → Takes (.responding q) c q.files t

theorem takes_of_atIdle {out : Output} (h : atIdle c = .ok (t, out)) : Takes .idle c [] t := by
  rcases atIdle_cases h with hfree | ⟨hc, q, hq⟩
  · rw [atIdle_of_isFree hfree] at h
    cases h
    exact .free hfree
  · obtain ⟨p, -, hidle⟩ := atIdle_of_isQuestion hc hq
    rw [hidle] at h
    cases h
    exact .opener hc hq

theorem atAwaiting_eq_ok {q : OpenQuestion} {out : Output} (h : atAwaiting q c = .ok (t, out)) :
    ∃ hasPrompt, t = .responding { q with hasPrompt := hasPrompt } := by
  unfold atAwaiting at h
  split at h
  · cases h
  · cases h
  · split at h
    · cases h
    · split at h
      · cases h
      · split at h <;> cases h
        · exact ⟨true, rfl⟩
        · exact ⟨q.hasPrompt, rfl⟩

/-- Nothing else is taken. -/
theorem takes_of_feed {out : Output} (h : (s.feed c).result = .ok (t, out)) : Takes s c (s.feed c).saved t := by
  cases s with
  | idle => exact takes_of_atIdle h
  | awaiting q =>
    obtain ⟨hresponse, -⟩ := atAwaiting_cases h
    obtain ⟨hasPrompt, rfl⟩ := atAwaiting_eq_ok h
    exact .response hasPrompt hresponse
  | responding q =>
    cases htest : c.isTest with
    | true =>
      simp only [State.feed, htest, if_true] at h ⊢
      cases h
      exact .test htest
    | false =>
      cases hsolution : c.isSolution with
      | true =>
        simp only [State.feed, htest, hsolution, Bool.false_eq_true, if_false, if_true] at h ⊢
        cases h
        exact .solution hsolution
      | false =>
        simp only [State.feed, htest, hsolution, Bool.false_eq_true, if_false] at h ⊢
        have hgoesOn : c.goesOn = false := by rw [Cell.goesOn, htest, hsolution]; rfl
        cases hidle : atIdle c with
        | error f => rw [hidle] at h; cases h
        | ok r =>
          rw [hidle] at h
          cases h
          exact .closer hgoesOn (takes_of_atIdle hidle)

/-- A question cell that is read as a solution of the question before it. -/
def State.PassesOver (s : State) (c : Cell) : Prop :=
  (∃ q, s = .responding q) ∧ c.isSolution = true ∧ c.isQuestion = .ok true

/-- There is such a cell among those read from a state on. -/
def PassedOver (s : State) (cells : List Cell) : Prop :=
  ∃ front c rest t, cells = front ++ c :: rest ∧ s.after front = .ok t ∧ t.PassesOver c

theorem passedOver_cons {out : Output} (h : (s.feed c).result = .ok (t, out)) :
    PassedOver s (c :: rest) ↔ s.PassesOver c ∨ PassedOver t rest := by
  constructor
  · rintro ⟨front, d, tail, u, hcells, hfront, hpasses⟩
    cases front with
    | nil =>
      cases hcells
      cases hfront
      exact Or.inl hpasses
    | cons e front =>
      cases hcells
      rw [State.after_cons_ok h] at hfront
      exact Or.inr ⟨front, d, tail, u, rfl, hfront, hpasses⟩
  · rintro (hpasses | ⟨front, d, tail, u, rfl, hfront, hpasses⟩)
    · exact ⟨[], c, rest, s, rfl, rfl, hpasses⟩
    · exact ⟨c :: front, d, tail, u, rfl, by rw [State.after_cons_ok h, hfront], hpasses⟩

theorem not_passedOver (h : ∀ c ∈ cells, c.isSolution = true → c.asks = false) (s : State) : ¬ PassedOver s cells := by
  rintro ⟨front, c, rest, t, rfl, -, -, hsolution, hquestion⟩
  have hc := h c (by simp) hsolution
  rw [asks_iff.mpr hquestion] at hc
  cases hc

/-! ## The questions that are opened -/

/-- The question that a step opens. -/
def Step.opened? (step : Step) : Option Question :=
  match step.result with
  | .ok (.awaiting q, _) => some q.question
  | _ => none

/-- The questions that are opened from a state on, in order. -/
def opened (s : State) (cells : List Cell) : List Question := (trace s cells).filterMap Step.opened?

def State.opened? : State → Option Question
  | .awaiting q => some q.question
  | _ => none

theorem opened_nil (s : State) : opened s [] = [] := by
  cases s <;> rfl

theorem opened_cons {out : Output} (h : (s.feed c).result = .ok (t, out)) (rest : List Cell) :
    opened s (c :: rest) = t.opened?.toList ++ opened t rest := by
  have hstep : (s.feed c).opened? = t.opened? := by
    rw [Step.opened?, h]
    cases t <;> rfl
  rw [opened, trace, h, List.filterMap_cons, hstep, opened]
  cases t.opened? <;> rfl

/-- A question cell opens its question unless it is passed over, and no other cell opens one. -/
theorem Takes.opened? {saved : List TestFile} (h : Takes s c saved t) :
    (¬ s.PassesOver c ∧ c.asks = true ∧ ∃ q, Question.ofCell c = .ok q ∧ t.opened? = some q) ∨
      (¬ s.PassesOver c ∧ c.asks = false ∧ t.opened? = none) ∨
      (s.PassesOver c ∧ c.asks = true ∧ t.opened? = none) := by
  have hnot : c.asks = false → ¬ s.PassesOver c := by
    rintro hc ⟨-, -, hquestion⟩
    rw [asks_iff.mpr hquestion] at hc
    cases hc
  cases h with
  | free hfree => exact Or.inr (Or.inl ⟨hnot (not_asks hfree.1), not_asks hfree.1, rfl⟩)
  | opener hc hq =>
    refine Or.inl ⟨?_, asks_iff.mpr hc, _, hq, rfl⟩
    rintro ⟨⟨q, hidle⟩, -⟩
    cases hidle
  | response _ hresponse => exact Or.inr (Or.inl ⟨hnot (not_asks hresponse.1), not_asks hresponse.1, rfl⟩)
  | test htest => exact Or.inr (Or.inl ⟨hnot (not_asks_of_isTest htest), not_asks_of_isTest htest, rfl⟩)
  | @solution c q hsolution =>
    cases hc : c.asks with
    | false => exact Or.inr (Or.inl ⟨hnot hc, rfl, rfl⟩)
    | true => exact Or.inr (Or.inr ⟨⟨⟨q, rfl⟩, hsolution, asks_iff.mp hc⟩, rfl, rfl⟩)
  | @closer c q t hgoesOn h =>
    have hpasses : ¬ (State.responding q).PassesOver c := by
      rintro ⟨-, hsolution, -⟩
      rw [(Bool.or_eq_false_iff.mp hgoesOn).2] at hsolution
      cases hsolution
    cases h with
    | free hfree => exact Or.inr (Or.inl ⟨hpasses, not_asks hfree.1, rfl⟩)
    | opener hc hq => exact Or.inl ⟨hpasses, asks_iff.mpr hc, _, hq, rfl⟩

/-- As many questions are opened as there are question cells, or fewer where one is passed over. -/
theorem length_opened (h : ∃ u, s.after cells = .ok u) :
    (opened s cells).length ≤ cells.countP Cell.asks ∧
      ((opened s cells).length = cells.countP Cell.asks ↔ ¬ PassedOver s cells) := by
  obtain ⟨u, hu⟩ := h
  induction cells generalizing s with
  | nil =>
    rw [opened_nil]
    exact ⟨Nat.le_refl _, iff_of_true rfl (not_passedOver (by simp) s)⟩
  | cons c rest ih =>
    obtain ⟨t, out, hfeed, ht⟩ := State.after_cons_eq_ok hu
    obtain ⟨hle, hiff⟩ := ih ht
    rw [opened_cons hfeed, passedOver_cons hfeed, List.length_append, List.countP_cons]
    rcases (takes_of_feed hfeed).opened? with ⟨hs, hc, q, -, hopened⟩ | ⟨hs, hc, hopened⟩ | ⟨hs, hc, hopened⟩
    · simp only [hopened, hc, hs, false_or, if_true, Option.toList_some, List.length_singleton, ← hiff]
      omega
    · simp only [hopened, hc, hs, false_or, Bool.false_eq_true, if_false, Option.toList_none, List.length_nil, ← hiff]
      omega
    · simp only [hopened, hc, hs, true_or, if_true, Option.toList_none, List.length_nil, not_true, iff_false]
      omega

/-- Each question cell opens the question it declares. -/
theorem map_opened (h : s.after cells = .ok t) (hnot : ¬ PassedOver s cells) :
    (cells.filter Cell.asks).map Question.ofCell = (opened s cells).map .ok := by
  induction cells generalizing s with
  | nil =>
    rw [opened_nil]
    rfl
  | cons c rest ih =>
    obtain ⟨u, out, hfeed, hu⟩ := State.after_cons_eq_ok h
    rw [passedOver_cons hfeed, not_or] at hnot
    have hrest := ih hu hnot.2
    rw [opened_cons hfeed, List.map_append, ← hrest]
    rcases (takes_of_feed hfeed).opened? with ⟨-, hc, q, hq, hopened⟩ | ⟨-, hc, hopened⟩ | ⟨hs, -⟩
    · rw [List.filter_cons_of_pos hc, List.map_cons, hq, hopened]
      rfl
    · rw [List.filter_cons_of_neg (by simp [hc]), hopened]
      rfl
    · exact absurd hs hnot.1

/-! ## The tests that are saved -/

/-- The test files of a question with these tests, the public tier first. -/
def filesFor (q : Question) (ts : List Test) : List TestFile := (ts.foldl OpenQuestion.add (.ofQuestion q)).files

/-- The tests up to the next question cell. -/
def testsAhead (cells : List Cell) : List Test :=
  ((cells.takeWhile fun c => ! c.asks).filter Cell.isTest).map Test.ofCell

/-- The files of the question that a cell declares, with the tests after it up to the next question
    cell. -/
def filesAt (c : Cell) (rest : List Cell) : List TestFile :=
  match Question.ofCell c with
  | .ok q => if c.asks then filesFor q (testsAhead rest) else []
  | .error _ => []

/-- All tests, each filed under the nearest question cell before it. -/
def filed : List Cell → List TestFile
  | [] => []
  | c :: rest => filesAt c rest ++ filed rest

theorem testsAhead_cons_of_asks (h : c.asks = true) (rest : List Cell) : testsAhead (c :: rest) = [] := by
  simp [testsAhead, h]

theorem testsAhead_cons_of_isTest (h : c.isTest = true) (rest : List Cell) :
    testsAhead (c :: rest) = Test.ofCell c :: testsAhead rest := by
  simp [testsAhead, h, not_asks_of_isTest h]

theorem testsAhead_cons (hc : c.asks = false) (ht : c.isTest = false) (rest : List Cell) :
    testsAhead (c :: rest) = testsAhead rest := by
  simp [testsAhead, hc, ht]

theorem filed_cons_of_asks {q : Question} (hc : c.asks = true) (hq : Question.ofCell c = .ok q) (rest : List Cell) :
    filed (c :: rest) = filesFor q (testsAhead rest) ++ filed rest := by
  rw [filed, filesAt, hq, hc]
  rfl

theorem filed_cons (hc : c.asks = false) (rest : List Cell) : filed (c :: rest) = filed rest := by
  rw [filed, filesAt, hc]
  cases Question.ofCell c <;> rfl

/-- The files that an open question comes to with some more tests. -/
def State.filesWith : State → List Test → List TestFile
  | .idle, _ => []
  | .awaiting q, ts | .responding q, ts => (ts.foldl OpenQuestion.add q).files

/-- Whether a place for the answer is made does not matter to the tests. -/
theorem files_hasPrompt (q : OpenQuestion) (hasPrompt : Bool) (ts : List Test) :
    (ts.foldl OpenQuestion.add { q with hasPrompt := hasPrompt }).files = (ts.foldl OpenQuestion.add q).files := by
  rw [addAll_tests, addAll_tests]
  rfl

/-- One cell: the files it saves and those that the state after it comes to are the files that the
    state before it comes to and those of the question that the cell opens. -/
theorem Takes.saved_eq {saved : List TestFile} (h : Takes s c saved t) (hnot : ¬ s.PassesOver c)
    (hrest : t = .idle → testsAhead rest = []) :
    (s = .idle → testsAhead (c :: rest) = []) ∧
      saved ++ (t.filesWith (testsAhead rest) ++ filed rest) =
        s.filesWith (testsAhead (c :: rest)) ++ filed (c :: rest) := by
  induction h with
  | free hfree =>
    have hc := not_asks hfree.1
    rw [testsAhead_cons hc hfree.2, filed_cons hc, hrest rfl]
    exact ⟨fun _ => rfl, rfl⟩
  | opener hc hq =>
    have hasks := asks_iff.mpr hc
    rw [testsAhead_cons_of_asks hasks, filed_cons_of_asks hasks hq]
    exact ⟨fun _ => rfl, rfl⟩
  | @response c q hasPrompt hresponse =>
    have hc := not_asks hresponse.1
    rw [testsAhead_cons hc hresponse.2.1, filed_cons hc]
    refine ⟨nofun, ?_⟩
    rw [State.filesWith, ← files_hasPrompt q hasPrompt]
    rfl
  | test htest =>
    rw [testsAhead_cons_of_isTest htest, filed_cons (not_asks_of_isTest htest)]
    exact ⟨nofun, rfl⟩
  | @solution c q hsolution =>
    have hc : c.asks = false := by
      cases hc : c.asks with
      | false => rfl
      | true => exact absurd ⟨⟨q, rfl⟩, hsolution, asks_iff.mp hc⟩ hnot
    rw [testsAhead_cons hc (Cell.isTest_of_isSolution hsolution), filed_cons hc]
    exact ⟨nofun, rfl⟩
  | @closer c q t _ _ ih =>
    have hidle : ¬ State.idle.PassesOver c := by
      rintro ⟨⟨q, hidle⟩, -⟩
      cases hidle
    obtain ⟨hnone, heq⟩ := ih hidle hrest
    rw [hnone rfl] at heq ⊢
    refine ⟨nofun, ?_⟩
    rw [← List.nil_append (t.filesWith _ ++ _), heq]
    rfl

/-- A whole reading saves the files that the state comes to with the tests up to the next question
    cell, and those of the question cells. Outside of any question there are no such tests. -/
theorem saved_eq (h : s.after cells = .ok t) (hnot : ¬ PassedOver s cells) :
    (s = .idle → testsAhead cells = []) ∧
      (readFrom s cells).saved = s.filesWith (testsAhead cells) ++ filed cells := by
  induction cells generalizing s with
  | nil => cases s <;> exact ⟨fun _ => rfl, (List.append_nil _).symm⟩
  | cons c rest ih =>
    obtain ⟨u, out, hfeed, hu⟩ := State.after_cons_eq_ok h
    rw [passedOver_cons hfeed, not_or] at hnot
    obtain ⟨hnone, hsaved⟩ := ih hu hnot.2
    obtain ⟨hidle, heq⟩ := (takes_of_feed hfeed).saved_eq hnot.1 hnone
    refine ⟨hidle, ?_⟩
    rw [readFrom_cons_of_feed hfeed, ← heq, ← hsaved]
    rfl

/-! ## The nearest question cell -/

theorem filed_append (front rest : List Cell) : ∃ files, filed (front ++ rest) = files ++ filed rest := by
  induction front with
  | nil => exact ⟨[], rfl⟩
  | cons c front ih =>
    obtain ⟨files, hfiles⟩ := ih
    exact ⟨filesAt c (front ++ rest) ++ files, by rw [List.cons_append, filed, hfiles, List.append_assoc]⟩

/-- The file of a tier that has tests. -/
theorem mem_filesFor (q : Question) {ts : List Test} {hidden : Bool} (h : (ts.filter fun t => t.hidden == hidden) ≠ []) :
    TestFile.compile q (ts.filter fun t => t.hidden == hidden) hidden ∈ filesFor q ts := by
  have hempty : (ts.filter fun t => t.hidden == hidden).isEmpty = false := List.isEmpty_eq_false_iff.mpr h
  rw [filesFor, addAll_tests, OpenQuestion.files]
  cases hidden with
  | false =>
    refine List.mem_append_left _ ?_
    simp only [OpenQuestion.ofQuestion, List.nil_append, hempty, Bool.false_eq_true, if_false, List.mem_singleton]
  | true =>
    refine List.mem_append_right _ ?_
    simp only [OpenQuestion.ofQuestion, List.nil_append, hempty, Bool.false_eq_true, if_false, List.mem_singleton]

/-- A test is in the file of its tier. -/
theorem exists_case {q : Question} {ts : List Test} {x : Test} (hx : x ∈ ts) :
    ∃ f ∈ filesFor q ts, f.name = q.name ∧ f.hidden = x.hidden ∧ ∃ suite ∈ f.suites, x.toCase ∈ suite.cases := by
  have htier : x ∈ ts.filter fun t => t.hidden == x.hidden := List.mem_filter.mpr ⟨hx, beq_self_eq_true _⟩
  exact ⟨_, mem_filesFor q (List.ne_nil_of_mem htier), rfl, rfl, _, List.mem_singleton.mpr rfl,
    List.mem_map.mpr ⟨_, htier, rfl⟩⟩

/-- The case of a test is filed under the nearest question cell before it. -/
theorem exists_case_of_nearest {o : Cell} {q : Question} (hnearest : front.reverse.find? Cell.asks = some o)
    (hq : Question.ofCell o = .ok q) (ht : c.isTest = true) :
    ∃ f ∈ filed (front ++ c :: rest), f.name = q.name ∧ f.hidden = (Test.ofCell c).hidden ∧
      ∃ suite ∈ f.suites, (Test.ofCell c).toCase ∈ suite.cases := by
  obtain ⟨ho, after, before, hfront, hafter⟩ := List.find?_eq_some_iff_append.mp hnearest
  obtain rfl : front = before.reverse ++ o :: after.reverse := by
    rw [← List.reverse_reverse front, hfront]
    simp
  have hmem : Test.ofCell c ∈ testsAhead (after.reverse ++ c :: rest) := by
    have hskip : ∀ x ∈ after.reverse, (! x.asks) = true := fun x hx => hafter x (List.mem_reverse.mp hx)
    rw [testsAhead, List.takeWhile_append_of_pos hskip]
    simp [not_asks_of_isTest ht, ht]
  obtain ⟨f, hf, hcase⟩ := exists_case (q := q) hmem
  obtain ⟨files, hfiles⟩ := filed_append before.reverse (o :: after.reverse ++ c :: rest)
  refine ⟨f, ?_, hcase⟩
  rw [List.append_assoc, hfiles, List.cons_append, filed_cons_of_asks ho hq]
  exact List.mem_append_right _ (List.mem_append_left _ hf)

/-- An accepted list opens as many questions as it has question cells exactly when none is passed
    over. Then each question cell opens the question it declares; the files saved are those of the
    question cells, each with the tests up to the next one; and every test cell has a question cell
    before it, and its case in a file of the nearest. -/
theorem opened_iff_not_passedOver {r : Segmented} {files files' : Store.Memory.Files}
    (h : (segment Store.memory cells).outcome files = (.ok r, files')) :
    ((opened .idle cells).length = cells.countP Cell.asks ↔ ¬ PassedOver .idle cells) ∧
    (¬ PassedOver .idle cells →
      (cells.filter Cell.asks).map Question.ofCell = (opened .idle cells).map .ok ∧
      r.stems = (filed cells).map TestFile.stem ∧ files' = Store.Memory.savedIn (filed cells) files ∧
      ∀ front c rest, cells = front ++ c :: rest → c.isTest = true →
        ∃ o q, front.reverse.find? Cell.asks = some o ∧ Question.ofCell o = .ok q ∧
          ∃ f ∈ filed cells, f.name = q.name ∧ f.hidden = (Test.ofCell c).hidden ∧
            ∃ suite ∈ f.suites, (Test.ofCell c).toCase ∈ suite.cases) := by
  obtain ⟨t, ht⟩ := (accepted_iff_after cells files).mp ⟨r, files', h⟩
  refine ⟨(length_opened ⟨t, ht⟩).2, fun hnot => ?_⟩
  have hopened := map_opened ht hnot
  obtain ⟨hahead, hsaved⟩ := saved_eq ht hnot
  replace hsaved : (read cells).saved = filed cells := hsaved
  rw [segment_memory_outcome, hsaved] at h
  obtain ⟨o, ho⟩ := result_of_after_ok ht
  rw [read, ho] at h
  cases h
  refine ⟨hopened, rfl, rfl, ?_⟩
  rintro front c rest rfl hc
  cases hnearest : front.reverse.find? Cell.asks with
  | none =>
    -- a test before the first question cell would be one outside of any question
    have hskip : ∀ x ∈ front, (! x.asks) = true := by simpa using hnearest
    rw [testsAhead, List.takeWhile_append_of_pos hskip] at hahead
    simp [not_asks_of_isTest hc, hc] at hahead
  | some o =>
    have hasks := List.find?_some hnearest
    have hmem : o ∈ (front ++ c :: rest).filter Cell.asks :=
      List.mem_filter.mpr ⟨List.mem_append_left _ (List.mem_reverse.mp (List.mem_of_find?_eq_some hnearest)), hasks⟩
    obtain ⟨q, -, hq⟩ := List.mem_map.mp (hopened ▸ List.mem_map.mpr ⟨o, hmem, rfl⟩)
    exact ⟨o, q, rfl, hq.symm, exists_case_of_nearest hnearest hq.symm hc⟩

/-! ## A question in the solution to another -/

def questionB (line : String) : Cell :=
  Cell.markdown (line ++ "\x60\x60\x60\nBEGIN QUESTION\nname: b\n\x60\x60\x60")

theorem declares_questionB : ∀ line ∈ ["", "**Solution:**\n"], (questionB line).isQuestion = .ok true ∧
    Question.ofCell (questionB line) = .ok ⟨"b", false, "", none, none, none⟩ := by
  decide +kernel

def publicTest : Cell := Cell.code "## test ##\n1 + 1"

/-- Where no question cell is a solution as well, the test after a second question is its own. -/
theorem second_question_has_its_test : ∃ r files,
    (segment Store.memory [questionA, Cell.code "", questionB "", Cell.markdown "**Solution:** 2", publicTest]).outcome
      Store.Memory.empty = (.ok r, files) ∧ r.stems = ["b"] := by
  have hsolution : (Cell.markdown "**Solution:** 2").IsResponse :=
    ⟨by cbv, by cbv, by cbv⟩
  have htest : publicTest.goesOn = true := by cbv
  have hstays : (questionB "").goesOn = false := by cbv
  have hlayout : Layout [.block ⟨questionA, ⟨"a", false, "", none, none, none⟩, some ⟨Cell.code "", []⟩⟩,
      .block ⟨questionB "", ⟨"b", false, "", none, none, none⟩, some ⟨Cell.markdown "**Solution:** 2", [publicTest]⟩⟩]
      (questionA :: Cell.code "" :: ([] ++ questionB "" :: Cell.markdown "**Solution:** 2" :: ([publicTest] ++ []))) :=
    have hb := declares_questionB "" (by simp)
    .block declares_questionA.1 declares_questionA.2 isResponse_empty (by simp) (by simpa using hstays)
      (.block hb.1 hb.2 hsolution (by simpa using htest) (by simp) .nil)
  have houtcome := segment_of_layout hlayout Store.Memory.empty
  have hnot : ¬ PassedOver .idle [questionA, Cell.code "", questionB "", Cell.markdown "**Solution:** 2", publicTest] :=
    not_passedOver (by decide +kernel) .idle
  obtain ⟨-, hstems, -⟩ := (opened_iff_not_passedOver houtcome).2 hnot
  exact ⟨_, _, houtcome, hstems.trans (by decide +kernel)⟩

def questionInSolution : List Cell :=
  [questionA, Cell.code "", questionB "**Solution:**\n", Cell.markdown "**Solution:** 2", publicTest]

/-- As a solution to the question before, the second question is not opened, and its test is filed
    under the first. -/
theorem second_question_loses_its_test :
    (questionInSolution.filter Cell.asks).map Cell.text = [questionA.text, (questionB "**Solution:**\n").text] ∧
    (opened .idle questionInSolution).map Question.name = ["a"] ∧
    ∃ r files, (segment Store.memory questionInSolution).outcome Store.Memory.empty = (.ok r, files) ∧
      r.stems = ["a"] := by
  have hlayout : Layout [.block ⟨questionA, ⟨"a", false, "", none, none, none⟩, some ⟨Cell.code "",
        [questionB "**Solution:**\n", Cell.markdown "**Solution:** 2", publicTest]⟩⟩]
      (questionA :: Cell.code "" ::
        ([questionB "**Solution:**\n", Cell.markdown "**Solution:** 2", publicTest] ++ [])) :=
    .block declares_questionA.1 declares_questionA.2 isResponse_empty (by decide +kernel) (by simp) .nil
  exact ⟨by decide +kernel, by decide +kernel, _, _, segment_of_layout hlayout Store.Memory.empty, by decide +kernel⟩

end Segment
end Handout
