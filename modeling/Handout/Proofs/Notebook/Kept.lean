/-
  Handout.Proofs.Notebook.Kept — what is left of a built notebook for learners, cell by cell.

  Solutions are known by their lines alone, and so are the solutions to strip. Of the cells that
  a run makes, two hold text of the author: a prompt is marked as a solution when its question
  cell is (`isSolution_prompt`), and the submission instructions when the author's own text in
  them is (`isSolution_instructions`). All others are kept whatever the names in them are.

  Proved:
  - `filter_cells`: what is left of the cells of a piece.
  - `kept_of_build`: what is left of a notebook, in order, and that a question that is not marked
    keeps its prompt before its end.
-/

import Handout.Proofs.Notebook.Stripping
import Handout.Proofs.Notebook.SelfContained
import Handout.Proofs.Segment.Openers

open Handout.Action

namespace Handout

namespace Segment

/-! ## What is left of the pieces -/

/-- What is left of a free cell or of a response. -/
def leftOf (c : Cell) : List Cell :=
  if c.isMarkdownSolution then [Cell.placeholder] else if c.isSolution then [] else [c]

/-- What is left of the response and the solutions of a question: of these the places for answers. -/
def Block.answersLeft (b : Block) : List Cell :=
  match b.answer with
  | none => []
  | some a =>
    leftOf a.response ++
      if promptedBy b.question a.response then [] else (a.run.filter Cell.isMarkdownSolution).map fun _ => Cell.placeholder

/-- What is left of a question; its prompt goes when its cell is marked as a solution. -/
def Block.left (b : Block) : List Cell := (if b.opener.isSolution then [] else b.prompts) ++ b.answersLeft ++ b.closing

def Piece.left : Piece → List Cell
  | free c => leftOf c
  | block b => b.left

/-- A question leaves its prompt before all else. If it is graded by hand, its prompt begins with the announcement of
    that and the cell that says so is its last. -/
structure Block.KeepsPrompt (b : Block) (prompt : Cell) : Prop where
  isPrompt : b.opener.prompt b.question.manual = .ok prompt
  left : b.left = prompt :: (b.answersLeft ++ b.closing)
  announced : b.question.manual = true →
    prompt.source.head? = some Cell.beginQuestionLine ∧ b.closing.getLast? = some Cell.endQuestion

end Segment

namespace Cell

/-- Whether a text brings in a line that is marked as a solution. -/
def marks (text : String) : Bool := (Text.linesOf text).any Marker.isBoldSolution

theorem isSolution_markdown (text : String) : (markdown text).lock.isSolution = marks text := rfl

/-! ## Cells with fixed text -/

theorem isSolution_placeholder : placeholder.isSolution = false := by cbv

theorem isSolution_endQuestion : endQuestion.isSolution = false := by cbv

theorem isSolution_init : init.isSolution = false := by cbv

theorem isSolution_of_mem_checkAll : ∀ c ∈ checkAll, c.isSolution = false := by
  have hall : (checkAll.all fun c => ! c.isSolution) = true := by cbv
  simpa using hall

/-! ## Cells with the author's text -/

/-- A prompt is marked as a solution when the cell of its question is. -/
theorem isSolution_prompt {c p : Cell} {manual : Bool} (hc : c.isQuestion = .ok true) (hp : c.prompt manual = .ok p) :
    p.isSolution = c.isSolution := by
  have hkind : c.kind = .markdown := by simpa [isMarkdown] using (isQuestion_eq_true hc).1
  obtain ⟨b, j, -, -, hprompt⟩ := prompt_of_isQuestion hc manual
  have hkindp : p.kind = .markdown := by
    rw [hp] at hprompt
    cases hprompt
    exact hkind
  rw [isSolution_of_isMarkdown hkind, isSolution_of_isMarkdown hkindp,
    any_source_prompt hc hp (fun _ hl => Marker.not_isBoldSolution_of_isClosingFence hl) (by decide)]

theorem marks_append_break (a b : String) : marks (a ++ "\n" ++ b) = (marks a || marks b) := by
  have hchars : (a ++ "\n" ++ b).toList = a.toList ++ '\n' :: b.toList := by simp [String.toList_append]
  rw [marks, Text.linesOf, hchars, Text.split_append_break, List.map_append, List.any_append]
  rfl

/-- The characters of a text that is known by its characters. On a long literal this is checked much faster than
    evaluating `toList`, which reads it byte by byte. -/
theorem toList_of_eq {s : String} {cs : List Char} (h : s = String.ofList cs) : s.toList = cs := by
  rw [h, String.toList_ofList]

set_option maxRecDepth 4000 in
theorem marks_submission : marks submission = false := by
  have hchars : submission.toList = _ :=
    (String.toList_append).trans (congrArg₂ (· ++ ·) (toList_of_eq rfl) (toList_of_eq rfl))
  unfold marks Text.linesOf
  rw [hchars]
  simp only [List.any_map, Function.comp_def, Marker.isBoldSolution, String.toList_ofList]
  cbv

/-- Whether the author's text in the submission instructions is marked as a solution. -/
def instructionsMark (instructions : Option String) : Bool := instructions.any marks

theorem isSolution_instructions (instructions : Option String) :
    (markdown (instructionText instructions)).lock.isSolution = instructionsMark instructions := by
  have hempty : marks "" = false := by cbv
  rw [isSolution_markdown]
  cases instructions with
  | none => exact marks_submission
  | some text =>
    rw [instructionText, instructionsMark, Option.any_some]
    split
    · rename_i hnone
      obtain rfl : text = "" := by simpa using hnone
      rw [marks_submission, hempty]
    · have hbreaks : submission ++ "\n\n" ++ text = submission ++ "\n" ++ "" ++ "\n" ++ text := by
        rw [← String.toList_inj]
        simp [String.toList_append]
      rw [hbreaks, marks_append_break, marks_append_break, marks_submission, hempty]
      rfl

/-- A code cell is a solution by its first line, which is not looked at beyond a line end. -/
theorem isSolution_code_append (first rest : String) (hfirst : '\n' ∉ first.toList) :
    (code (first ++ "\n" ++ rest)).lock.isSolution = Marker.isSolution first := by
  have hchars : (first ++ "\n" ++ rest).toList = first.toList ++ '\n' :: rest.toList := by simp [String.toList_append]
  have hsource : (code (first ++ "\n" ++ rest)).lock.source = first :: (Text.split rest.toList).map String.ofList := by
    have hlines : (code (first ++ "\n" ++ rest)).lock.source = Text.linesOf (first ++ "\n" ++ rest) := rfl
    rw [hlines, Text.linesOf, hchars, Text.split_append_break, Text.split_of_notMem hfirst]
    simp
  have hunfold : (code (first ++ "\n" ++ rest)).lock.isSolution =
      (code (first ++ "\n" ++ rest)).lock.source.head?.any Marker.isSolution := rfl
  rw [hunfold, hsource]
  rfl

theorem isSolution_exportCall (name : String) (filtering : Bool) :
    (code ("# Save your notebook first, then run this cell to export.\n" ++ exportCall name filtering)).lock.isSolution =
      false := by
  have hbreak : "# Save your notebook first, then run this cell to export.\n" =
      "# Save your notebook first, then run this cell to export." ++ "\n" := by cbv
  rw [hbreak, isSolution_code_append _ _ (by simp)]
  cbv

/-- What is left of the submission cells: the instructions go when the author's text in them is
    marked; the export call and the empty cell stay, whatever the name of the notebook is. -/
def submitLeft (name : String) (instructions : Option String) (filtering : Bool) : List Cell :=
  if instructionsMark instructions then (submit name instructions filtering).tail else submit name instructions filtering

theorem filter_submit (name : String) (instructions : Option String) (filtering : Bool) :
    (submit name instructions filtering).filter (fun c => ! c.isSolution) = submitLeft name instructions filtering := by
  have hempty : (markdown " ").isSolution = false := by cbv
  unfold submitLeft submit
  cases hmark : instructionsMark instructions <;>
    simp [isSolution_instructions, isSolution_exportCall, hempty, hmark]

end Cell

namespace Segment

/-! ## Solutions among the cells of the pieces -/

theorem filter_withPlaceholder (c : Cell) : (withPlaceholder false c).filter (fun c => ! c.isSolution) = leftOf c := by
  unfold withPlaceholder leftOf
  cases hm : c.isMarkdownSolution with
  | true => simp [Cell.isSolution_placeholder, Cell.isSolution_of_isMarkdownSolution hm]
  | false => cases hs : c.isSolution <;> simp [hs]

/-- Of the solutions in a run only the places for answers are left. -/
theorem filter_run (run : List Cell) (hasPrompt : Bool) :
    ((run.filter Cell.isSolution).flatMap (withPlaceholder hasPrompt)).filter (fun c => ! c.isSolution) =
      if hasPrompt then [] else (run.filter Cell.isMarkdownSolution).map fun _ => Cell.placeholder := by
  induction run with
  | nil => cases hasPrompt <;> rfl
  | cons c run ih =>
    cases hs : c.isSolution with
    | false =>
      have hm : c.isMarkdownSolution = false := by
        cases hm : c.isMarkdownSolution with
        | false => rfl
        | true => rw [Cell.isSolution_of_isMarkdownSolution hm] at hs; cases hs
      rw [List.filter_cons_of_neg (by simp [hs]), ih, List.filter_cons_of_neg (by simp [hm])]
    | true =>
      rw [List.filter_cons_of_pos hs, List.flatMap_cons, List.filter_append, ih, withPlaceholder]
      cases hm : c.isMarkdownSolution <;> cases hasPrompt <;> simp [hs, hm, Cell.isSolution_placeholder]

theorem filter_closing (b : Block) : b.closing.filter (fun c => ! c.isSolution) = b.closing := by
  rw [List.filter_eq_self]
  intro c hc
  rcases Block.mem_closing hc with ⟨rfl, -⟩ | rfl
  · rw [Cell.isSolution_grading]
    rfl
  · rw [Cell.isSolution_endQuestion]
    rfl

theorem filter_prompts {b : Block} (h : b.opener.isQuestion = .ok true) :
    b.prompts.filter (fun c => ! c.isSolution) = if b.opener.isSolution then [] else b.prompts := by
  obtain ⟨_, _, -, -, hp⟩ := Cell.prompt_of_isQuestion h b.question.manual
  have hmarked := Cell.isSolution_prompt h hp
  rw [Block.prompts, hp, Except.toOption, Option.toList_some, List.filter_singleton, hmarked]
  cases b.opener.isSolution <;> rfl

theorem filter_cells {b : Block} (h : b.opener.isQuestion = .ok true) :
    b.cells.filter (fun c => ! c.isSolution) = b.left := by
  rw [Block.cells, List.filter_append, List.filter_append, filter_prompts h, filter_closing, Block.left]
  congr 2
  unfold Block.answers Block.answersLeft
  cases b.answer with
  | none => rfl
  | some a => rw [List.filter_append, filter_withPlaceholder, filter_run]

theorem filter_pieces {ps : List Piece} {cells : List Cell} (h : Layout ps cells) :
    (ps.flatMap Piece.cells).filter (fun c => ! c.isSolution) = ps.flatMap Piece.left := by
  rw [List.filter_flatMap]
  refine List.flatMap_congr fun p hp => ?_
  cases p with
  | free c => exact filter_withPlaceholder c
  | block b => exact filter_cells (h.block_of_mem hp).1

end Segment

/-! ## What is left of a notebook -/

namespace Notebook

/-- The cells that are left for learners: what a run adds, and what is left of the pieces between. -/
def leftAround (name : String) (o : Options) (cells : List Cell) : List Cell :=
  (if o.initCell then [Cell.init] else []) ++ cells ++ (if o.checkAllCell then Cell.checkAll else []) ++
    (if o.exportCell then Cell.submitLeft name o.instructions o.filterOnExport else [])

theorem filter_around {ps : List Segment.Piece} {cells : List Cell} (h : Segment.Layout ps cells) (name : String)
    (o : Options) :
    (around name o (ps.flatMap Segment.Piece.cells)).filter (fun c => ! c.isSolution) =
      leftAround name o (ps.flatMap Segment.Piece.left) := by
  have hinit : (if o.initCell then [Cell.init] else []).filter (fun c => ! c.isSolution) =
      if o.initCell then [Cell.init] else [] := by
    split <;> simp [Cell.isSolution_init]
  have hcheck : (if o.checkAllCell then Cell.checkAll else []).filter (fun c => ! c.isSolution) =
      if o.checkAllCell then Cell.checkAll else [] := by
    split
    · exact List.filter_eq_self.mpr fun c hc => by rw [Cell.isSolution_of_mem_checkAll c hc]; rfl
    · rfl
  have hsubmit : (if o.exportCell then Cell.submit name o.instructions o.filterOnExport else []).filter
      (fun c => ! c.isSolution) = if o.exportCell then Cell.submitLeft name o.instructions o.filterOnExport else [] := by
    split
    · exact Cell.filter_submit ..
    · rfl
  rw [around, List.filter_append, List.filter_append, List.filter_append, hinit, hcheck, hsubmit,
    Segment.filter_pieces h, leftAround]

/-- The prompt of a question that is graded by hand begins with its announcement. -/
theorem head?_source_prompt {c p : Cell} (hc : c.isQuestion = .ok true) (hp : c.prompt true = .ok p) :
    p.source.head? = some Cell.beginQuestionLine := by
  obtain ⟨b, j, hb, hj, hprompt⟩ := Cell.prompt_of_isQuestion hc true
  rw [hp] at hprompt
  cases hprompt
  obtain ⟨o, -, rfl, -, ho, -, -⟩ := Question.find?_eq_some hb
  obtain ⟨k, -, rfl⟩ := Option.map_eq_some_iff.mp hj
  have hne : o ≠ 0 := by
    rintro rfl
    have hfirst : (Question.announced true c.source)[0]? = some Cell.beginQuestionLine := rfl
    rw [hfirst] at ho
    exact absurd ho (by decide)
  have hhead : ∀ source : List String, ({ c with source := source } : Cell).lock.source.head? = source[0]? :=
    fun _ => List.head?_eq_getElem?
  rw [hhead, List.getElem?_set_ne (by omega), List.getElem?_set_ne (by omega)]
  rfl

theorem map_source_of_identified {needsId : Bool} {cells cells' : List Cell}
    (h : List.Forall₂ (Cell.Identified needsId) cells cells') : cells'.map Cell.source = cells.map Cell.source := by
  induction h with
  | nil => rfl
  | cons hhead _ ih =>
    rw [List.map_cons, List.map_cons, ih]
    congr 1
    unfold Cell.Identified at hhead
    split at hhead
    · obtain ⟨i, rfl⟩ := hhead
      rfl
    · rw [hhead]

/-- Of a master that is built, over any store and with any ids: what is left for learners is, but
    for ids and outputs, what a run adds and what is left of each piece. All cells that are made
    are among it but the prompts whose question cells are marked as solutions, and submission
    instructions with a marked text. A question that is not marked and is graded by hand has the
    announcement in its prompt and ends with the cell that says so. -/
theorem kept_of_build {σ : Type} {store : Store (Action σ)} {newId : List String → Action σ String} {m : Notebook}
    {name : String} {o : Options} {s t : σ} {b : Built} (h : (build store newId m name o).outcome s = (.ok b, t)) :
    ∃ ps, Segment.Layout ps m.cells ∧
      List.Forall₂ (Cell.Identified m.needsIds)
        ((leftAround name o (ps.flatMap Segment.Piece.left)).map Cell.clearOutputs) b.notebook.stripSolutions.cells ∧
      ∀ q, .block q ∈ ps → q.opener.isSolution = false → ∃ p, q.KeepsPrompt p := by
  obtain ⟨ps, hps, hnb⟩ := (build_ends store newId m name o s).of_ok h
  refine ⟨ps, hps, ?_, fun q hq hmark => ?_⟩
  · obtain ⟨-, hcells⟩ := hnb.stripSolutions
    have hleft : (m.draft name o (ps.flatMap Segment.Piece.cells)).stripSolutions.cells =
        (leftAround name o (ps.flatMap Segment.Piece.left)).map Cell.clearOutputs := by
      rw [← filter_around hps]
      exact List.filter_map
    rw [hleft] at hcells
    exact hcells
  · obtain ⟨hc, -⟩ := hps.block_of_mem hq
    obtain ⟨p, hp⟩ : ∃ p, q.opener.prompt q.question.manual = .ok p := by
      obtain ⟨_, _, -, -, hp⟩ := Cell.prompt_of_isQuestion hc q.question.manual
      exact ⟨_, hp⟩
    refine ⟨p, hp, ?_, fun hmanual => ⟨?_, ?_⟩⟩
    · rw [Segment.Block.left, hmark, Segment.Block.prompts, hp, List.append_assoc]
      rfl
    · rw [hmanual] at hp
      exact head?_source_prompt hc hp
    · rw [Segment.Block.closing, hmanual, if_pos rfl]
      exact List.getLast?_concat ..

/-! ## A question with an empty answer -/

/-- A master of one question, with this text in front of its metadata. -/
def oneQuestion (text : String) : Notebook := ⟨[Segment.questionB text, Cell.code ""], [], 4, 4⟩

def oneBlock (text : String) : Segment.Block :=
  ⟨Segment.questionB text, ⟨"b", false, "", none, none, none⟩, some ⟨Cell.code "", []⟩⟩

theorem layout_oneQuestion {text : String} (h : text ∈ ["", "**Solution:**\n"]) :
    Segment.Layout [.block (oneBlock text)] (oneQuestion text).cells := by
  obtain ⟨hc, hq⟩ := Segment.declares_questionB text h
  exact .block hc hq Segment.isResponse_empty (by simp) (by simp) .nil

theorem sources_oneBlock :
    (oneBlock "").left.map Cell.source = [["<!--", "BEGIN QUESTION", "name: b", "-->"], [""]] ∧
    (oneBlock "**Solution:**\n").left.map Cell.source = [[""]] ∧
    (oneBlock "**Solution:**\n").cells.map Cell.source =
      [["**Solution:**", "<!--", "BEGIN QUESTION", "name: b", "-->"], [""]] := by
  decide +kernel

theorem sources_around {cells cells' : List Cell}
    (h : List.Forall₂ (Cell.Identified false) (cells.map Cell.clearOutputs) cells') :
    cells'.map Cell.source = cells.map Cell.source := by
  rw [map_source_of_identified h, List.map_map]
  rfl

theorem around_default (name : String) (cells : List Cell) : around name default cells = cells := by
  show [] ++ cells ++ [] ++ [] = cells
  simp

theorem leftAround_default (name : String) (cells : List Cell) : leftAround name default cells = cells := by
  show [] ++ cells ++ [] ++ [] = cells
  simp

/-- The prompt of a question is left. -/
theorem prompt_is_kept : ∃ b files,
    (build Store.memory (drawing fun _ => "") (oneQuestion "") "a.ipynb" default).outcome Store.Memory.empty =
      (.ok b, files) ∧
    b.notebook.stripSolutions.cells.map Cell.source = [["<!--", "BEGIN QUESTION", "name: b", "-->"], [""]] := by
  have hlayout := @layout_oneQuestion "" (by simp)
  obtain ⟨nb, -, hbuild⟩ := build_of_layout hlayout "a.ipynb" default fun _ => ""
  obtain ⟨ps, hps, hleft, -⟩ := kept_of_build hbuild
  obtain rfl := hps.unique hlayout
  refine ⟨_, _, hbuild, ?_⟩
  rw [sources_around hleft, leftAround_default, List.flatMap_singleton]
  exact sources_oneBlock.1

/-- The prompt of a question whose cell is marked as a solution is not. -/
theorem marked_prompt_is_stripped : ∃ b files,
    (build Store.memory (drawing fun _ => "") (oneQuestion "**Solution:**\n") "a.ipynb" default).outcome
      Store.Memory.empty = (.ok b, files) ∧
    b.notebook.cells.map Cell.source = [["**Solution:**", "<!--", "BEGIN QUESTION", "name: b", "-->"], [""]] ∧
    b.notebook.stripSolutions.cells.map Cell.source = [[""]] := by
  have hlayout := @layout_oneQuestion "**Solution:**\n" (by simp)
  obtain ⟨nb, hnb, hbuild⟩ := build_of_layout hlayout "a.ipynb" default fun _ => ""
  obtain ⟨ps, hps, hleft, -⟩ := kept_of_build hbuild
  obtain rfl := hps.unique hlayout
  refine ⟨_, _, hbuild, ?_, ?_⟩
  · rw [sources_around hnb.2, around_default, List.flatMap_singleton]
    exact sources_oneBlock.2.2
  · rw [sources_around hleft, leftAround_default, List.flatMap_singleton]
    exact sources_oneBlock.2.1

end Notebook
end Handout
