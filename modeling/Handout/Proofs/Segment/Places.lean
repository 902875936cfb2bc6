/-
  Handout.Proofs.Segment.Places — how many places for an answer a question is given.

  A markdown solution has a place for the learner's answer put in front of it, unless the
  author has made one. Whether the author has is decided once, by the response of the
  question; that a place has been put in is not remembered, so each further markdown
  solution is given one of its own.

  `Placed n own out` says that `out` is the author's cells `own` with `n` places put in.
  The author may have written cells that look like one; these are not counted.

  Proved:
  - `Block.placed_answers`: how many places are put in between the prompt and the end of a
    question.
  - `opened_of_layout`: the questions of a master's pieces are those that are opened.
  - `places_le_one_iff`: an opened question is given at most one place exactly when the author
    has made one, or there is at most one markdown solution (`Block.Crowded`).
-/

import Handout.Proofs.Segment.Refusal

namespace Handout.Segment

variable {cells own own' out out' rest : List Cell} {c : Cell} {m n : Nat} {s : State} {f : Failure}

/-! ## Places among cells -/

/-- The cells `own` with `n` places for an answer put in. -/
inductive Placed : Nat → List Cell → List Cell → Prop
  | nil : Placed 0 [] []
  | own {n : Nat} {c : Cell} {own out : List Cell} : Placed n own out → Placed n (c :: own) (c :: out)
  | place {n : Nat} {own out : List Cell} : Placed n own out → Placed (n + 1) own (Cell.placeholder :: out)

namespace Placed

theorem length_eq (h : Placed n own out) : out.length = own.length + n := by
  induction h with
  | nil => rfl
  | own _ ih => rw [List.length_cons, List.length_cons, ih, Nat.add_right_comm]
  | place _ ih => rw [List.length_cons, ih, Nat.add_assoc]

/-- The places can be counted. -/
theorem iff_eq (h : Placed n own out) : Placed m own out ↔ m = n := by
  constructor
  · intro hm
    have hlength := h.length_eq
    have hlength' := hm.length_eq
    omega
  · rintro rfl
    exact h

theorem append (h : Placed m own out) (h' : Placed n own' out') : Placed (m + n) (own ++ own') (out ++ out') := by
  induction h with
  | nil => rwa [Nat.zero_add]
  | own _ ih => exact .own ih
  | place _ ih =>
    rw [Nat.add_right_comm]
    exact .place ih

end Placed

/-- The places that a cell is given. -/
def placesFor (hasPrompt : Bool) (c : Cell) : Nat := if c.isMarkdownSolution && ! hasPrompt then 1 else 0

theorem placed_withPlaceholder (hasPrompt : Bool) (c : Cell) :
    Placed (placesFor hasPrompt c) [c] (withPlaceholder hasPrompt c) := by
  unfold placesFor withPlaceholder
  split
  · exact .place (.own .nil)
  · exact .own .nil

theorem placed_flatMap (hasPrompt : Bool) (cs : List Cell) :
    Placed ((cs.map (placesFor hasPrompt)).sum) cs (cs.flatMap (withPlaceholder hasPrompt)) := by
  induction cs with
  | nil => exact .nil
  | cons c cs ih => exact (placed_withPlaceholder hasPrompt c).append ih

theorem sum_placesFor (hasPrompt : Bool) (cs : List Cell) :
    (cs.map (placesFor hasPrompt)).sum = if hasPrompt then 0 else cs.countP Cell.isMarkdownSolution := by
  induction cs with
  | nil => cases hasPrompt <;> rfl
  | cons c cs ih =>
    rw [List.map_cons, List.sum_cons, ih, placesFor, List.countP_cons]
    cases hasPrompt <;> cases c.isMarkdownSolution <;> simp [Nat.add_comm]

/-! ## Questions -/

namespace Block

/-- The author's cells that stand between the prompt and the end of the question. -/
def written (b : Block) : List Cell :=
  match b.answer with
  | none => []
  | some a => a.response :: a.run.filter Cell.isSolution

/-- Whether the author has made a place for the answer. -/
def isPrompted (b : Block) : Bool := b.answer.any fun a => promptedBy b.question a.response

/-- Several markdown solutions, and no place for the answer that the author has made. -/
def Crowded (b : Block) : Prop := b.isPrompted = false ∧ 1 < b.written.countP Cell.isMarkdownSolution

instance (b : Block) : Decidable b.Crowded := inferInstanceAs (Decidable (_ ∧ _))

def places (b : Block) : Nat := if b.isPrompted then 0 else b.written.countP Cell.isMarkdownSolution

/-- A response that is the author's place for the answer is no solution, so it is given none. -/
theorem placesFor_response (q : Question) (r : Cell) : placesFor false r = placesFor (promptedBy q r) r := by
  unfold placesFor
  cases hm : r.isMarkdownSolution with
  | false => rfl
  | true => rw [promptedBy, Cell.isSolution_of_isMarkdownSolution hm, Bool.not_true, Bool.and_false]

theorem placed_answers (b : Block) : Placed b.places b.written b.answers := by
  obtain ⟨opener, q, _ | ⟨r, run⟩⟩ := b
  · exact .nil
  · have hplaced := (placed_withPlaceholder false r).append
      (placed_flatMap (promptedBy q r) (run.filter Cell.isSolution))
    rw [placesFor_response q, ← List.sum_cons, ← List.map_cons, sum_placesFor] at hplaced
    exact hplaced

theorem places_le_one_iff_not_crowded (b : Block) : b.places ≤ 1 ↔ ¬ b.Crowded := by
  unfold places Crowded
  cases b.isPrompted <;> simp

end Block

/-! ## The questions that are opened -/

/-- The questions among the pieces of a master. -/
def blocksOf (ps : List Piece) : List Block :=
  ps.filterMap fun
    | .free _ => none
    | .block b => some b

theorem mem_blocksOf {ps : List Piece} {b : Block} : b ∈ blocksOf ps ↔ .block b ∈ ps := by
  rw [blocksOf, List.mem_filterMap]
  constructor
  · rintro ⟨_ | b', hmem, heq⟩
    · cases heq
    · cases heq
      exact hmem
  · exact fun h => ⟨_, h, rfl⟩

theorem opened_cons_error (h : (s.feed c).result = .error f) (rest : List Cell) : opened s (c :: rest) = [] := by
  rw [opened, trace, h, List.filterMap_cons, Step.opened?, h]
  rfl

/-- What belongs to a question opens none. -/
theorem opened_run {run : List Cell} (hrun : ∀ x ∈ run, x.goesOn = true) (hrest : ∀ x ∈ rest.head?, x.goesOn = false)
    (q : OpenQuestion) : opened (.responding q) (run ++ rest) = opened .idle rest := by
  induction run generalizing q with
  | nil =>
    cases rest with
    | nil => rfl
    | cons c rest =>
      have hfeed := congrArg Step.result (feed_responding_of_not_goesOn (q := q) (hrest c rfl))
      rw [List.nil_append]
      cases hidle : atIdle c with
      | error f =>
        rw [hidle] at hfeed
        rw [opened_cons_error hfeed, opened_cons_error (s := .idle) hidle]
      | ok r =>
        rw [hidle] at hfeed
        rw [opened_cons hfeed, opened_cons (s := .idle) hidle]
  | cons c run ih =>
    obtain ⟨hc, hrun⟩ := List.forall_mem_cons.mp hrun
    obtain ⟨q', out, hfeed⟩ := feed_responding_of_goesOn (q := q) hc
    rw [List.cons_append, opened_cons (congrArg Step.result hfeed), ih hrun]
    rfl

/-- The questions that are opened are those of the pieces. -/
theorem opened_of_layout {ps : List Piece} (h : Layout ps cells) :
    opened .idle cells = (blocksOf ps).map Block.question := by
  induction h with
  | nil => rfl
  | free hc _ ih =>
    rw [opened_cons (s := .idle) (atIdle_of_isFree hc), ih]
    rfl
  | bare hc hq =>
    obtain ⟨p, -, hopener⟩ := atIdle_of_isQuestion hc hq
    rw [opened_cons (s := .idle) hopener, opened_nil]
    rfl
  | @block c r q run rest ps hc hq hr hrun hrest _ ih =>
    obtain ⟨p, -, hopener⟩ := atIdle_of_isQuestion hc hq
    rw [opened_cons (s := .idle) hopener, opened_cons (s := .awaiting _) (atAwaiting_of_isResponse hr q),
      opened_run hrun hrest, ih]
    rfl

/-- Over a table of any files, every question that is opened in an accepted list has its prompt, then
    the author's cells with the places that are put in, and then its end. It is given at most one
    place exactly when the author has made one or there is at most one markdown solution;
    otherwise it is given as many as there are markdown solutions. -/
theorem places_le_one_iff {r : Segmented} {files files' : Store.Memory.Files}
    (h : (segment Store.memory cells).outcome files = (.ok r, files')) :
    ∃ ps, Layout ps cells ∧ r.cells = ps.flatMap Piece.cells ∧
      opened .idle cells = (blocksOf ps).map Block.question ∧
      ∀ b ∈ blocksOf ps, ∃ prompt, b.opener.prompt b.question.manual = .ok prompt ∧
        b.cells = prompt :: (b.answers ++ b.closing) ∧
        ((∃ n ≤ 1, Placed n b.written b.answers) ↔ ¬ b.Crowded) ∧
        (b.Crowded → Placed (b.written.countP Cell.isMarkdownSolution) b.written b.answers) := by
  rw [segment_memory_outcome] at h
  obtain ⟨ps, hps⟩ : ∃ ps, Layout ps cells := by
    rw [← read_ok_iff_layout]
    cases hr : (read cells).result with
    | ok o => exact ⟨o, rfl⟩
    | error f =>
      rw [hr] at h
      cases h
  rw [read_of_layout hps] at h
  cases h
  refine ⟨ps, hps, rfl, opened_of_layout hps, fun b hb => ?_⟩
  obtain ⟨hquestion, -⟩ := hps.block_of_mem (mem_blocksOf.mp hb)
  obtain ⟨k, j, -, -, hp⟩ := Cell.prompt_of_isQuestion hquestion b.question.manual
  refine ⟨_, hp, by simp [Block.cells, Block.prompts, hp, Except.toOption], ?_, fun hcrowded => ?_⟩
  · rw [← b.places_le_one_iff_not_crowded]
    constructor
    · rintro ⟨n, hn, hplaced⟩
      rwa [← b.placed_answers.iff_eq.mp hplaced]
    · exact fun hle => ⟨_, hle, b.placed_answers⟩
  · have hplaced := b.placed_answers
    rwa [Block.places, hcrowded.1, if_neg Bool.false_ne_true] at hplaced

/-! ## Two solutions -/

def firstSolution : Cell := Cell.markdown "**Solution:** 1"
def secondSolution : Cell := Cell.markdown "**Solution:** 2"

theorem isMarkdownSolution_solutions : ∀ c ∈ [firstSolution, secondSolution], c.isMarkdownSolution = true := by
  simp only [List.forall_mem_cons, List.not_mem_nil, false_implies, implies_true, and_true]
  exact ⟨by cbv, by cbv⟩

/-- The question that is answered with the first solution. -/
def solvedThen (run : List Cell) : Block := ⟨questionA, onlyQuestion, some ⟨firstSolution, run⟩⟩

theorem layout_solvedThen (run : List Cell) (hrun : ∀ x ∈ run, x.goesOn = true) :
    Layout [.block (solvedThen run)] (questionA :: firstSolution :: run) := by
  have hresponse : firstSolution.IsResponse := ⟨by cbv, by cbv, by cbv⟩
  have hlayout : Layout [.block (solvedThen run)] (questionA :: firstSolution :: (run ++ [])) :=
    .block declares_questionA.1 declares_questionA.2 hresponse hrun (by simp) .nil
  rwa [List.append_nil] at hlayout

/-- One solution is given one place at most, with a test behind it. -/
theorem one_solution_has_one_place : ∃ r files,
    (segment Store.memory [questionA, firstSolution, publicTest]).outcome Store.Memory.empty = (.ok r, files) ∧
      r.cells = (solvedThen [publicTest]).cells ∧ (solvedThen [publicTest]).written = [firstSolution] ∧
      ∃ n ≤ 1, Placed n [firstSolution] (solvedThen [publicTest]).answers := by
  have htest : publicTest.goesOn = true := by cbv
  have hlayout := layout_solvedThen [publicTest] (by simpa using htest)
  have houtcome := segment_of_layout hlayout Store.Memory.empty
  have hwritten : (solvedThen [publicTest]).written = [firstSolution] := by
    have hnot : publicTest.isSolution = false := by cbv
    simp [Block.written, solvedThen, hnot]
  have hnot : ¬ (solvedThen [publicTest]).Crowded := by
    simp [Block.Crowded, hwritten, isMarkdownSolution_solutions]
  obtain ⟨ps, hps, hcells, -, hblocks⟩ := places_le_one_iff houtcome
  obtain rfl := hps.unique hlayout
  obtain ⟨p, -, -, hplaces, -⟩ := hblocks _ (List.mem_singleton_self _)
  rw [hwritten] at hplaces
  exact ⟨_, _, houtcome, by rw [hcells]; simp [Piece.cells], hwritten, hplaces.mpr hnot⟩

/-- Of two solutions each is given one. -/
theorem second_solution_has_second_place : ∃ p r files, questionA.prompt false = .ok p ∧
    (segment Store.memory [questionA, firstSolution, secondSolution]).outcome Store.Memory.empty = (.ok r, files) ∧
      opened .idle [questionA, firstSolution, secondSolution] = [onlyQuestion] ∧
      r.cells = [p, Cell.placeholder, firstSolution, Cell.placeholder, secondSolution] := by
  have hgoes : secondSolution.goesOn = true := by cbv
  have hlayout := layout_solvedThen [secondSolution] (by simpa using hgoes)
  obtain ⟨p, hp, -⟩ := atIdle_of_isQuestion declares_questionA.1 declares_questionA.2
  refine ⟨p, _, _, hp, segment_of_layout hlayout Store.Memory.empty, opened_of_layout hlayout, ?_⟩
  have hprompts : (solvedThen [secondSolution]).prompts = [p] := by
    have hopener : (solvedThen [secondSolution]).opener.prompt (solvedThen [secondSolution]).question.manual = .ok p :=
      hp
    rw [Block.prompts, hopener]
    rfl
  have hanswers : (solvedThen [secondSolution]).answers =
      [Cell.placeholder, firstSolution, Cell.placeholder, secondSolution] := by
    have hsecond : secondSolution.isSolution = true :=
      Cell.isSolution_of_isMarkdownSolution (isMarkdownSolution_solutions _ (by simp))
    simp [Block.answers, solvedThen, hsecond, withPlaceholder, isMarkdownSolution_solutions, promptedBy, onlyQuestion]
  have hclosing : (solvedThen [secondSolution]).closing = [] := by
    have htest : secondSolution.isTest = false := by cbv
    simp [Block.closing, Block.tests, Block.run, solvedThen, htest, onlyQuestion]
  simp [Piece.cells, Block.cells, hprompts, hanswers, hclosing]

end Handout.Segment
