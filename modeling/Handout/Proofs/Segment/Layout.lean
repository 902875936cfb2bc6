/-
  Handout.Proofs.Segment.Layout — a master as its author lays it out: free cells, and
  questions with all that belongs to them.

  `Layout ps cells` says that `cells` is the pieces `ps` one after the other. A question is
  its opener and, unless the master ends there, a response and the longest run of
  tests and solutions after it. What a piece comes to is read off the piece alone
  (`Piece.cells`, `Piece.files`, `Piece.manual`).

  Proved:
  - `Layout.unique`: a list of cells is laid out in at most one way.
  - `read_of_layout`, `read_ok_iff_layout`: the cells are accepted one by one exactly when
    they are laid out, and are read as what their pieces come to.
  - `accepted_iff_laidOut`: so it is for a store that is a table, with the files and
    stems of the pieces.
-/

import Handout.Proofs.Segment.Step
import Handout.Proofs.Store.Memory

namespace Handout.Segment

/-- The response of a question, and the tests and solutions after it. -/
structure Answer where
  response : Cell
  run : List Cell

/-- A question with its opener; without an answer it ends the master. -/
structure Block where
  opener : Cell
  question : Question
  answer : Option Answer

inductive Piece where
  | free (c : Cell)
  | block (b : Block)

/-! ## What a piece comes to -/

namespace Block

def run (b : Block) : List Cell := (b.answer.map Answer.run).getD []

/-- The tests of a tier, in order. -/
def tests (b : Block) (hidden : Bool) : List Test :=
  ((b.run.filter Cell.isTest).map Test.ofCell).filter fun t => t.hidden == hidden

/-- The tiers that have tests, the public one first. -/
def tiers (b : Block) : List Bool := [false, true].filter fun hidden => ! (b.tests hidden).isEmpty

def files (b : Block) : List TestFile :=
  b.tiers.map fun hidden => TestFile.compile b.question (b.tests hidden) hidden

def prompts (b : Block) : List Cell := (b.opener.prompt b.question.manual).toOption.toList

/-- The response and the solutions, each markdown solution with a place for the learner's answer
    before it; after the response none is added where the author has made one. -/
def answers (b : Block) : List Cell :=
  match b.answer with
  | none => []
  | some a =>
    withPlaceholder false a.response ++
      (a.run.filter Cell.isSolution).flatMap (withPlaceholder (promptedBy b.question a.response))

def closing (b : Block) : List Cell :=
  (if (b.tests false).isEmpty then [] else [Cell.grading b.question.name]) ++
    if b.question.manual then [Cell.endQuestion] else []

def cells (b : Block) : List Cell := b.prompts ++ b.answers ++ b.closing

end Block

namespace Piece

def cells : Piece → List Cell
  | free c => withPlaceholder false c
  | block b => b.cells

def files : Piece → List TestFile
  | free _ => []
  | block b => b.files

def manual : Piece → List String
  | free _ => []
  | block b => if b.question.manual then [b.question.name] else []

end Piece

/-! ## Laying out -/

/-- The cells are the pieces, in order. -/
inductive Layout : List Piece → List Cell → Prop
  | nil : Layout [] []
  | free {c : Cell} {ps : List Piece} {rest : List Cell} :
      c.IsFree → Layout ps rest → Layout (.free c :: ps) (c :: rest)
  /-- A question that ends the master. -/
  | bare {c : Cell} {q : Question} :
      c.isQuestion = .ok true → Question.ofCell c = .ok q → Layout [.block ⟨c, q, none⟩] [c]
  /-- The run is the longest one: the next cell does not go on with the question. -/
  | block {c r : Cell} {q : Question} {run rest : List Cell} {ps : List Piece} :
      c.isQuestion = .ok true → Question.ofCell c = .ok q → r.IsResponse → (∀ x ∈ run, x.goesOn = true) →
      (∀ x ∈ rest.head?, x.goesOn = false) → Layout ps rest →
      Layout (.block ⟨c, q, some ⟨r, run⟩⟩ :: ps) (c :: r :: (run ++ rest))

theorem run_eq_takeWhile {run rest : List Cell} (hrun : ∀ x ∈ run, x.goesOn = true)
    (hrest : ∀ x ∈ rest.head?, x.goesOn = false) :
    (run ++ rest).takeWhile Cell.goesOn = run ∧ (run ++ rest).dropWhile Cell.goesOn = rest := by
  rw [List.takeWhile_append_of_pos hrun, List.dropWhile_append_of_pos hrun]
  cases rest with
  | nil => simp
  | cons c rest => simp [hrest c rfl]

theorem Layout.unique {ps ps' : List Piece} {cells : List Cell} (h : Layout ps cells) (h' : Layout ps' cells) :
    ps = ps' := by
  induction h generalizing ps' with
  | nil => cases h'; rfl
  | free hc _ ih =>
    cases h' with
    | free _ h' => rw [ih h']
    | bare hq _ => rw [hc.1] at hq; cases hq
    | block hq _ _ _ _ _ => rw [hc.1] at hq; cases hq
  | bare hc hq =>
    cases h' with
    | free hc' _ => rw [hc'.1] at hc; cases hc
    | bare _ hq' => rw [hq] at hq'; cases hq'; rfl
  | @block c r q run rest ps hc hq _ hrun hrest _ ih =>
    generalize hcells : c :: r :: (run ++ rest) = cells at h'
    cases h' with
    | nil => cases hcells
    | free hc' _ => cases hcells; rw [hc'.1] at hc; cases hc
    | bare _ _ => cases hcells
    | @block c' r' q' run' rest' ps' _ hq' _ hrun' hrest' h' =>
      simp only [List.cons.injEq] at hcells
      obtain ⟨rfl, rfl, htail⟩ := hcells
      obtain ⟨htake, hdrop⟩ := run_eq_takeWhile hrun hrest
      obtain ⟨htake', hdrop'⟩ := run_eq_takeWhile hrun' hrest'
      obtain rfl : run = run' := by rw [← htake, ← htake', htail]
      obtain rfl : rest = rest' := by rw [← hdrop, ← hdrop', htail]
      rw [hq] at hq'
      cases hq'
      rw [ih h']

theorem Layout.block_of_mem {ps : List Piece} {cells : List Cell} (h : Layout ps cells) {b : Block}
    (hb : .block b ∈ ps) : b.opener.isQuestion = .ok true ∧ Question.ofCell b.opener = .ok b.question := by
  induction h with
  | nil => cases hb
  | free _ _ ih => exact ih (by simpa using hb)
  | bare hc hq =>
    obtain rfl : b = _ := by simpa using hb
    exact ⟨hc, hq⟩
  | block hc hq _ _ _ _ ih =>
    rcases List.mem_cons.mp hb with hb | hb
    · cases hb
      exact ⟨hc, hq⟩
    · exact ih hb

/-! ## Laid out cells are read as their pieces -/

theorem addAll_tests (q : OpenQuestion) (ts : List Test) :
    ts.foldl OpenQuestion.add q =
      { q with
        tests := q.tests ++ ts.filter fun t => t.hidden == false
        hiddenTests := q.hiddenTests ++ ts.filter fun t => t.hidden == true } := by
  induction ts generalizing q with
  | nil => simp
  | cons t rest ih =>
    rw [List.foldl_cons, ih]
    cases ht : t.hidden <;> simp [OpenQuestion.add, ht]

/-- A run is read into the tests and the solutions of the open question, which is then closed. -/
theorem readFrom_run {run rest : List Cell} (hrun : ∀ x ∈ run, x.goesOn = true)
    (hrest : ∀ x ∈ rest.head?, x.goesOn = false) (q : OpenQuestion) :
    readFrom (.responding q) (run ++ rest) =
      (readFrom .idle rest).after
        (((run.filter Cell.isTest).map Test.ofCell).foldl OpenQuestion.add q).files
        (.ofCells ((run.filter Cell.isSolution).flatMap (withPlaceholder q.hasPrompt) ++
          (((run.filter Cell.isTest).map Test.ofCell).foldl OpenQuestion.add q).closing)) := by
  induction run generalizing q with
  | nil => exact readFrom_responding_close hrest q
  | cons c run ih =>
    have hrun' : ∀ x ∈ run, x.goesOn = true := fun x hx => hrun x (List.mem_cons_of_mem _ hx)
    rcases Bool.or_eq_true_iff.mp (hrun c (List.mem_cons_self ..)) with ht | hs
    · have hprompt : (q.add (Test.ofCell c)).hasPrompt = q.hasPrompt := by
        unfold OpenQuestion.add
        split <;> rfl
      rw [List.cons_append, readFrom_responding_test ht, ih hrun', hprompt]
      simp [ht, Cell.not_isSolution_of_isTest ht]
    · have ht := Cell.isTest_of_isSolution hs
      rw [List.cons_append, readFrom_responding_solution hs, ih hrun', Reading.after_after]
      simp [hs, ht, Output.ofCells, Output.append]

/-- The question that is open once the response and the tests of a run are read. -/
theorem Block.foldl_add {b : Block} {a : Answer} (h : b.answer = some a) (hasPrompt : Bool) :
    ((a.run.filter Cell.isTest).map Test.ofCell).foldl OpenQuestion.add ⟨b.question, [], [], hasPrompt⟩ =
      ⟨b.question, b.tests false, b.tests true, hasPrompt⟩ := by
  rw [addAll_tests]
  simp [Block.tests, Block.run, h]

theorem Block.files_eq (b : Block) (hasPrompt : Bool) :
    OpenQuestion.files ⟨b.question, b.tests false, b.tests true, hasPrompt⟩ = b.files := by
  unfold OpenQuestion.files Block.files Block.tiers
  cases hp : (b.tests false).isEmpty <;> cases hh : (b.tests true).isEmpty <;> simp [hp, hh]

theorem feed_opener {c : Cell} {q : Question} (hc : c.isQuestion = .ok true) (hq : Question.ofCell c = .ok q) :
    ∃ p, c.prompt q.manual = .ok p ∧
      State.idle.feed c = ⟨[], .ok (.awaiting (.ofQuestion q), ⟨[p], if q.manual then [q.name] else []⟩)⟩ := by
  obtain ⟨p, hp, hidle⟩ := atIdle_of_isQuestion hc hq
  exact ⟨p, hp, by rw [State.feed, hidle]⟩

theorem readFrom_block {c r : Cell} {q : Question} {run rest : List Cell} (hc : c.isQuestion = .ok true)
    (hq : Question.ofCell c = .ok q) (hr : r.IsResponse) (hrun : ∀ x ∈ run, x.goesOn = true)
    (hrest : ∀ x ∈ rest.head?, x.goesOn = false) :
    let piece := Piece.block ⟨c, q, some ⟨r, run⟩⟩
    readFrom .idle (c :: r :: (run ++ rest)) =
      (readFrom .idle rest).after piece.files ⟨piece.cells, piece.manual⟩ := by
  intro piece
  obtain ⟨p, hp, hopener⟩ := feed_opener hc hq
  have hresponse : (State.awaiting (.ofQuestion q)).feed r =
      ⟨[], .ok (.responding ⟨q, [], [], promptedBy q r⟩, .ofCells (withPlaceholder false r))⟩ := by
    rw [State.feed, atAwaiting_of_isResponse hr]
    rfl
  have hadd := Block.foldl_add (b := ⟨c, q, some ⟨r, run⟩⟩) rfl (promptedBy q r)
  have hfiles := Block.files_eq ⟨c, q, some ⟨r, run⟩⟩ (promptedBy q r)
  rw [readFrom_cons_ok hopener, readFrom_cons_ok hresponse, readFrom_run hrun hrest, Reading.after_after,
    Reading.after_after, hadd, hfiles]
  simp [piece, Piece.files, Piece.cells, Piece.manual, Block.cells, Block.prompts, Block.answers, Block.closing,
    OpenQuestion.closing, hp, Output.append, Output.ofCells, Except.toOption]

theorem readFrom_bare {c : Cell} {q : Question} (hc : c.isQuestion = .ok true) (hq : Question.ofCell c = .ok q) :
    let piece := Piece.block ⟨c, q, none⟩
    readFrom .idle [c] = ⟨piece.files, .ok ⟨piece.cells, piece.manual⟩⟩ := by
  intro piece
  obtain ⟨p, hp, hopener⟩ := feed_opener hc hq
  have hfinish : readFrom (.awaiting (.ofQuestion q)) [] = ⟨[], .ok (.ofCells (Block.closing ⟨c, q, none⟩))⟩ := rfl
  rw [readFrom_cons_ok hopener, hfinish]
  simp [Reading.after, Except.map, piece, Piece.files, Piece.cells, Piece.manual, Block.files, Block.tiers,
    Block.tests, Block.run, Block.cells, Block.prompts, Block.answers, hp, Output.append, Output.ofCells,
    Except.toOption]

/-- Laid out cells are read as what their pieces come to. -/
theorem read_of_layout {ps : List Piece} {cells : List Cell} (h : Layout ps cells) :
    read cells = ⟨ps.flatMap Piece.files, .ok ⟨ps.flatMap Piece.cells, ps.flatMap Piece.manual⟩⟩ := by
  unfold read
  induction h with
  | nil => rfl
  | @free c ps rest hc _ ih =>
    have hfeed : State.idle.feed c = ⟨[], .ok (.idle, .ofCells (withPlaceholder false c))⟩ := by
      rw [State.feed, atIdle_of_isFree hc]
    rw [readFrom_cons_ok hfeed, ih]
    rfl
  | bare hc hq =>
    rw [readFrom_bare hc hq]
    simp
  | block hc hq hr hrun hrest _ ih =>
    rw [readFrom_block hc hq hr hrun hrest, ih]
    rfl

/-! ## Accepted cells are laid out -/

/-- How cells are laid out from a state on: with a question open, first what belongs to it. -/
def LaidOut : State → List Cell → Prop
  | .idle, cells => ∃ ps, Layout ps cells
  | .awaiting _, cells =>
    cells = [] ∨ ∃ r run rest ps, cells = r :: (run ++ rest) ∧ r.IsResponse ∧ (∀ x ∈ run, x.goesOn = true) ∧
      (∀ x ∈ rest.head?, x.goesOn = false) ∧ Layout ps rest
  | .responding _, cells =>
    ∃ run rest ps, cells = run ++ rest ∧ (∀ x ∈ run, x.goesOn = true) ∧ (∀ x ∈ rest.head?, x.goesOn = false) ∧
      Layout ps rest

theorem readFrom_cons_result_ok {s : State} {c : Cell} {rest : List Cell} {o : Output}
    (h : (readFrom s (c :: rest)).result = .ok o) :
    ∃ t out o', (s.feed c).result = .ok (t, out) ∧ (readFrom t rest).result = .ok o' := by
  cases hfeed : s.feed c with
  | mk saved result =>
    cases result with
    | error f => rw [readFrom_cons_error hfeed] at h; cases h
    | ok r =>
      rw [readFrom_cons_ok hfeed] at h
      obtain ⟨o', ho', -⟩ := Reading.after_result_ok h
      exact ⟨r.1, r.2, o', rfl, ho'⟩

/-- The step outside of any question. -/
theorem laidOut_idle_cons {c : Cell} {rest : List Cell} {o : Output}
    (ih : ∀ s o, (readFrom s rest).result = .ok o → LaidOut s rest)
    (h : (readFrom .idle (c :: rest)).result = .ok o) : LaidOut .idle (c :: rest) := by
  obtain ⟨t, out, o', hidle, ho'⟩ := readFrom_cons_result_ok h
  rcases atIdle_cases hidle with hfree | ⟨hc, q, hq⟩
  · obtain rfl : t = .idle := by
      rw [State.feed, atIdle_of_isFree hfree] at hidle
      cases hidle
      rfl
    obtain ⟨ps, hps⟩ := ih _ _ ho'
    exact ⟨_, .free hfree hps⟩
  · obtain ⟨p, -, hopener⟩ := feed_opener hc hq
    obtain rfl : t = .awaiting (.ofQuestion q) := by
      rw [hopener] at hidle
      cases hidle
      rfl
    rcases ih _ _ ho' with rfl | ⟨r, run, rest', ps, rfl, hr, hrun, hrest, hps⟩
    · exact ⟨_, .bare hc hq⟩
    · exact ⟨_, .block hc hq hr hrun hrest hps⟩

theorem laidOut_of_result_ok (cells : List Cell) :
    ∀ s o, (readFrom s cells).result = .ok o → LaidOut s cells := by
  induction cells with
  | nil =>
    intro s o _
    cases s with
    | idle => exact ⟨[], .nil⟩
    | awaiting q => exact Or.inl rfl
    | responding q => exact ⟨[], [], [], rfl, by simp, by simp, .nil⟩
  | cons c rest ih =>
    intro s o h
    cases s with
    | idle => exact laidOut_idle_cons ih h
    | awaiting q =>
      obtain ⟨t, out, o', hfeed, ho'⟩ := readFrom_cons_result_ok h
      obtain ⟨hresponse, q', rfl⟩ := atAwaiting_cases hfeed
      obtain ⟨run, rest', ps, rfl, hrun, hrest, hps⟩ := ih _ _ ho'
      exact Or.inr ⟨c, run, rest', ps, rfl, hresponse, hrun, hrest, hps⟩
    | responding q =>
      cases hc : c.goesOn with
      | true =>
        obtain ⟨q', o', ho'⟩ : ∃ q' o', (readFrom (.responding q') rest).result = .ok o' := by
          rcases Bool.or_eq_true_iff.mp hc with ht | hs
          · rw [readFrom_responding_test ht] at h
            exact ⟨_, _, h⟩
          · rw [readFrom_responding_solution hs] at h
            obtain ⟨o', ho', -⟩ := Reading.after_result_ok h
            exact ⟨_, _, ho'⟩
        obtain ⟨run, rest', ps, rfl, hrun, hrest, hps⟩ := ih _ _ ho'
        refine ⟨c :: run, rest', ps, rfl, fun x hx => ?_, hrest, hps⟩
        rcases List.mem_cons.mp hx with rfl | hx
        · exact hc
        · exact hrun x hx
      | false =>
        -- the cell closes the question, so the reading goes on as outside of any question
        have hhead : ∀ x ∈ (c :: rest).head?, x.goesOn = false := by
          intro x hx
          cases hx
          exact hc
        rw [readFrom_responding_close hhead] at h
        obtain ⟨o', ho', -⟩ := Reading.after_result_ok h
        obtain ⟨ps, hps⟩ := laidOut_idle_cons ih ho'
        exact ⟨[], c :: rest, ps, rfl, by simp, hhead, hps⟩

/-- Cells are accepted one by one exactly when they are laid out. -/
theorem read_ok_iff_layout (cells : List Cell) : (∃ o, (read cells).result = .ok o) ↔ ∃ ps, Layout ps cells := by
  constructor
  · rintro ⟨o, ho⟩
    exact laidOut_of_result_ok cells .idle o ho
  · rintro ⟨ps, hps⟩
    exact ⟨_, by rw [read_of_layout hps]⟩

/-! ## With a store -/

/-- Segmenting over a table saves what is read, and then answers or fails as the reading does. -/
theorem segment_memory_outcome (cells : List Cell) (t : Store.Memory.Files) :
    (segment Store.memory cells).outcome t =
      ((read cells).result.map fun o => ⟨o.cells, o.manual, (read cells).saved.map TestFile.stem⟩,
        Store.Memory.savedIn (read cells).saved t) := by
  have hsave := Store.Memory.saveAll_memory (read cells).saved t
  simp only [Action.outcome, segment, bind, EStateM.bind, hsave]
  cases (read cells).result <;> rfl

theorem segment_of_layout {ps : List Piece} {cells : List Cell} (h : Layout ps cells) (t : Store.Memory.Files) :
    (segment Store.memory cells).outcome t =
      (.ok ⟨ps.flatMap Piece.cells, ps.flatMap Piece.manual, (ps.flatMap Piece.files).map TestFile.stem⟩,
        Store.Memory.savedIn (ps.flatMap Piece.files) t) := by
  rw [segment_memory_outcome, read_of_layout h]
  rfl

/-- Over a table of any files, a master is segmented exactly when it is laid out, which is then so
    in one way; the notebook, the questions to grade by hand, the stems and the table are
    what its pieces come to, each question having a prompt. -/
theorem accepted_iff_laidOut (cells : List Cell) (t : Store.Memory.Files) :
    ((∃ s files, (segment Store.memory cells).outcome t = (.ok s, files)) ↔ ∃ ps, Layout ps cells) ∧
    ∀ ps, Layout ps cells →
      (∀ ps', Layout ps' cells → ps' = ps) ∧
      (∀ b, Piece.block b ∈ ps → ∃ p, b.opener.prompt b.question.manual = .ok p ∧ b.prompts = [p]) ∧
      (segment Store.memory cells).outcome t =
        (.ok ⟨ps.flatMap Piece.cells, ps.flatMap Piece.manual, (ps.flatMap Piece.files).map TestFile.stem⟩,
          Store.Memory.savedIn (ps.flatMap Piece.files) t) := by
  refine ⟨?_, fun ps hps => ⟨fun ps' hps' => hps'.unique hps, fun b hb => ?_, segment_of_layout hps t⟩⟩
  · rw [← read_ok_iff_layout]
    constructor
    · rintro ⟨s, files, h⟩
      rw [segment_memory_outcome] at h
      cases hr : (read cells).result with
      | error f => rw [hr] at h; cases h
      | ok o => exact ⟨o, rfl⟩
    · rintro ⟨o, ho⟩
      exact ⟨_, _, by rw [segment_memory_outcome, ho]; rfl⟩
  · obtain ⟨hc, -⟩ := hps.block_of_mem hb
    obtain ⟨k, j, -, -, hp⟩ := Cell.prompt_of_isQuestion hc b.question.manual
    exact ⟨_, hp, by rw [Block.prompts, hp]; rfl⟩

end Handout.Segment
