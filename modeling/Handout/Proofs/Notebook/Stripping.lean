/-
  Handout.Proofs.Notebook.Stripping — whether solutions stay in the notebook of learners.

  A solution goes when its stored lines show it. A master whose source is a list of
  strings may keep a line end inside one of them, and then a reader sees a markdown
  solution where no stored line begins with one (`Cell.leaks`). Building a
  notebook neither makes such a cell nor mends one, so the notebook of learners shows a
  solution exactly when a cell of the master leaks.

  Proved:
  - `any_leaks_of_layout`: the pieces of a master leak when its cells do.
  - `any_leaks_of_build`: so does the notebook that is built, whatever the store does.
  - `source_of_ofText`: how a cell that was read is written, and when it can leak.
  - `shows_no_solution_iff`: what learners see.
-/

import Handout.Proofs.Action
import Handout.Proofs.Cell.Shown
import Handout.Proofs.Notebook.Secrecy

open Handout.Action

namespace Handout

/-! ## Pieces -/

namespace Segment

theorem any_leaks_withPlaceholder (hasPrompt : Bool) (c : Cell) :
    (withPlaceholder hasPrompt c).any Cell.leaks = c.leaks := by
  have hplaceholder : Cell.placeholder.leaks = false := by rw [Cell.placeholder, Cell.markdown, Cell.leaks_ofText]
  unfold withPlaceholder
  split <;> simp [hplaceholder]

theorem any_leaks_closing (b : Block) : b.closing.any Cell.leaks = false := by
  have hgrading : (Cell.grading b.question.name).leaks = false := by
    rw [Cell.grading, Cell.code, Cell.leaks_lock_ofText]
  have hend : Cell.endQuestion.leaks = false := by rw [Cell.endQuestion, Cell.markdown, Cell.leaks_lock_ofText]
  unfold Block.closing
  split <;> split <;> simp [hgrading, hend]

theorem any_leaks_prompts {b : Block} (h : b.opener.isQuestion = .ok true) : b.prompts.any Cell.leaks = b.opener.leaks := by
  obtain ⟨_, _, -, -, hp⟩ := Cell.prompt_of_isQuestion h b.question.manual
  have hleaks := Cell.leaks_prompt h hp
  rw [Block.prompts, hp]
  simpa [Except.toOption] using hleaks

/-- Tests and solutions are known by their stored lines. -/
theorem leaks_of_goesOn {c : Cell} (h : c.goesOn = true) : c.leaks = false := by
  rcases Bool.or_eq_true_iff.mp h with ht | hs
  · exact Cell.leaks_of_isTest ht
  · exact Cell.leaks_of_isSolution hs

theorem any_leaks_run {run : List Cell} (h : ∀ c ∈ run, c.goesOn = true) (hasPrompt : Bool) :
    run.any Cell.leaks = false ∧
      ((run.filter Cell.isSolution).flatMap (withPlaceholder hasPrompt)).any Cell.leaks = false := by
  have hrun : ∀ c ∈ run, c.leaks = false := fun c hc => leaks_of_goesOn (h c hc)
  refine ⟨by simpa using hrun, ?_⟩
  rw [List.any_flatMap]
  simp only [any_leaks_withPlaceholder]
  simpa using fun c hc _ => hrun c hc

/-- The pieces of a master leak when its cells do. -/
theorem any_leaks_of_layout {ps : List Piece} {cells : List Cell} (h : Layout ps cells) :
    (ps.flatMap Piece.cells).any Cell.leaks = cells.any Cell.leaks := by
  induction h with
  | nil => rfl
  | free _ _ ih =>
    rw [List.flatMap_cons, List.any_append, ih, List.any_cons]
    exact congrArg (· || _) (any_leaks_withPlaceholder ..)
  | bare hc _ =>
    rw [List.flatMap_singleton, Piece.cells, Block.cells, Block.answers, List.append_nil, List.any_append,
      any_leaks_prompts hc, any_leaks_closing]
    rfl
  | @block c r q run rest ps hc _ _ hrun _ _ ih =>
    obtain ⟨hsource, hanswers⟩ := any_leaks_run hrun (promptedBy q r)
    rw [List.flatMap_cons, List.any_append, ih, Piece.cells, Block.cells, Block.answers, List.any_append,
      List.any_append, List.any_append, any_leaks_prompts hc, any_leaks_closing, any_leaks_withPlaceholder, hanswers,
      List.any_cons, List.any_cons, List.any_append, hsource]
    simp [Bool.or_assoc]

end Segment

/-! ## Notebooks -/

namespace Notebook

theorem any_leaks_draft (m : Notebook) (name : String) (o : Options) (cells : List Cell) :
    (m.draft name o cells).cells.any Cell.leaks = cells.any Cell.leaks := by
  have hclear : Cell.leaks ∘ Cell.clearOutputs = Cell.leaks := rfl
  have hinit : (if o.initCell then [Cell.init] else []).any Cell.leaks = false := by
    split <;> simp [Cell.init, Cell.code, Cell.leaks_lock_ofText]
  have hcheck : (if o.checkAllCell then Cell.checkAll else []).any Cell.leaks = false := by
    split <;> simp [Cell.checkAll, Cell.code, Cell.markdown, Cell.leaks_lock_ofText]
  have hsubmit : (if o.exportCell then Cell.submit name o.instructions o.filterOnExport else []).any Cell.leaks =
      false := by
    split <;> simp [Cell.submit, Cell.code, Cell.markdown, Cell.leaks_lock_ofText, Cell.leaks_ofText]
  rw [draft, List.any_map, hclear, around, List.any_append, List.any_append, List.any_append, hinit, hcheck, hsubmit,
    Bool.false_or, Bool.or_false, Bool.or_false]

theorem leaks_of_identified {needsId : Bool} {c d : Cell} (h : Cell.Identified needsId c d) : d.leaks = c.leaks := by
  unfold Cell.Identified at h
  split at h
  · obtain ⟨i, rfl⟩ := h
    rfl
  · rw [h]

theorem Identified.any_leaks {nb nb' : Notebook} (h : nb.Identified nb') :
    nb'.cells.any Cell.leaks = nb.cells.any Cell.leaks := by
  obtain ⟨-, hcells⟩ := h
  generalize nb.cells = cells, nb'.cells = cells' at hcells ⊢
  induction hcells with
  | nil => rfl
  | cons hhead _ ih => rw [List.any_cons, List.any_cons, leaks_of_identified hhead, ih]

/-- Whatever draws the ids, they are all that is given to the cells. -/
theorem assignIds_ends {σ : Type} (newId : List String → Action σ String) (cells : List Cell) :
    ∀ taken (s : σ), Ends (assignIds newId taken cells) s
      (fun cells' _ => List.Forall₂ (Cell.Identified true) cells cells') fun _ _ => True := by
  induction cells with
  | nil => exact fun _ _ => ends_pure.mpr .nil
  | cons c rest ih =>
    intro taken s
    unfold assignIds
    cases hid : c.id with
    | some i =>
      refine ends_bind.mpr ((ih taken s).mono (fun cells' t hrest => ends_pure.mpr ?_) fun _ _ _ => trivial)
      exact .cons (by simp [Cell.Identified, hid]) hrest
    | none =>
      refine ends_bind.mpr ((ends_true (newId taken) s).mono (fun i t _ => ?_) fun _ _ _ => trivial)
      refine ends_bind.mpr ((ih (i :: taken) t).mono (fun cells' t hrest => ends_pure.mpr ?_) fun _ _ _ => trivial)
      exact .cons (by simp [Cell.Identified, hid]) hrest

theorem identify_ends {σ : Type} (newId : List String → Action σ String) (nb : Notebook) (s : σ) :
    Ends (nb.identify newId) s (fun nb' _ => nb.Identified nb') fun _ _ => True := by
  unfold identify
  cases hneeds : nb.needsIds with
  | true =>
    refine ends_bind.mpr ((assignIds_ends newId nb.cells _ s).mono (fun cells' t hcells => ends_pure.mpr ?_) fun _ _ _ => trivial)
    exact ⟨rfl, hneeds ▸ hcells⟩
  | false =>
    refine ends_bind.mpr (ends_pure.mpr (ends_pure.mpr ⟨rfl, ?_⟩))
    rw [hneeds]
    exact List.forall₂_same.mpr fun _ _ => rfl

/-- What is built, whatever the store and the ids are, are the pieces of a master that is laid out. -/
theorem build_ends {σ : Type} (store : Store (Action σ)) (newId : List String → Action σ String) (m : Notebook)
    (name : String) (o : Options) (s : σ) :
    Ends (build store newId m name o) s
      (fun b _ => ∃ ps, Segment.Layout ps m.cells ∧
        (m.draft name o (ps.flatMap Segment.Piece.cells)).Identified b.notebook) fun _ _ => True := by
  unfold build segment
  refine ends_bind.mpr (ends_bind.mpr ?_)
  refine (ends_true _ s).mono (fun _ t _ => ?_) fun _ _ _ => trivial
  refine ends_bind.mpr (ends_answered.mpr ⟨fun out hout => ?_, fun _ _ => trivial⟩)
  obtain ⟨ps, hps⟩ := (Segment.read_ok_iff_layout m.cells).mp ⟨out, hout⟩
  rw [Segment.read_of_layout hps] at hout
  cases hout
  refine ends_pure.mpr (ends_bind.mpr ((identify_ends newId _ t).mono (fun nb t hnb => ends_pure.mpr ?_) fun _ _ _ => trivial))
  exact ⟨ps, hps, hnb⟩

theorem any_leaks_of_build {σ : Type} {store : Store (Action σ)} {newId : List String → Action σ String} {m : Notebook}
    {name : String} {o : Options} {s t : σ} {b : Built} (h : (build store newId m name o).outcome s = (.ok b, t)) :
    b.notebook.cells.any Cell.leaks = m.cells.any Cell.leaks := by
  obtain ⟨ps, hps, hnb⟩ := (build_ends store newId m name o s).of_ok h
  rw [hnb.any_leaks, any_leaks_draft, Segment.any_leaks_of_layout hps]

/-! ## What was read -/

/-- The lines of a cell come from its source, if it has one. -/
theorem source_of_asCell {depth : Nat} {r : Json.Raw} {c : Cell} (h : Cell.asCell depth r = some c) :
    ∃ source : Option Multiline, c.source = (source.map Multiline.toLines).getD [] := by
  simp only [Cell.asCell, Option.bind_eq_bind, Option.bind_eq_some_iff, Option.pure_def, Option.some.injEq] at h
  obtain ⟨_, -, _, -, _, -, _, -, source, -, _, -, _, -, _, -, rfl⟩ := h
  exact ⟨source, rfl⟩

theorem exists_of_mem_mapM {α β : Type} {f : α → Option β} {xs : List α} {ys : List β} (h : xs.mapM f = some ys) :
    ∀ y ∈ ys, ∃ x ∈ xs, f x = some y := by
  induction xs generalizing ys with
  | nil =>
    cases h
    simp
  | cons x xs ih =>
    simp only [List.mapM_cons, Option.bind_eq_bind, Option.bind_eq_some_iff, Option.pure_def, Option.some.injEq] at h
    obtain ⟨y, hy, rest, hrest, rfl⟩ := h
    intro z hz
    rcases List.mem_cons.mp hz with rfl | hz
    · exact ⟨x, List.mem_cons_self .., hy⟩
    · obtain ⟨x', hx', hz'⟩ := ih hrest z hz
      exact ⟨x', List.mem_cons_of_mem _ hx', hz'⟩

theorem source_of_ofText {text : String} {m : Notebook} (h : ofText text = .ok m) :
    ∀ c ∈ m.cells, ∃ source : Option Multiline, c.source = (source.map Multiline.toLines).getD [] := by
  obtain ⟨raw, hraw⟩ : ∃ raw, asNotebook Json.depthLimit raw = some m := by
    unfold ofText at h
    split at h
    · rename_i nb hread
      cases h
      obtain ⟨raw, -, hraw⟩ := Option.bind_eq_some_iff.mp hread
      exact ⟨raw, hraw⟩
    · cases h
  obtain ⟨found, -, hfound⟩ := Option.bind_eq_some_iff.mp hraw
  obtain ⟨cells, hcells, hrest⟩ := Option.bind_eq_some_iff.mp hfound
  obtain rfl : cells = m.cells := by
    simp only [Option.bind_eq_bind, Option.bind_eq_some_iff, Option.pure_def, Option.some.injEq] at hrest
    obtain ⟨_, -, _, -, _, -, rfl⟩ := hrest
    rfl
  obtain ⟨r, -, hlist⟩ := Option.bind_eq_some_iff.mp hcells
  unfold Json.Raw.asList at hlist
  split at hlist
  · obtain ⟨depth, -, hmap⟩ := Option.bind_eq_some_iff.mp hlist
    intro c hc
    obtain ⟨r', -, hcell⟩ := exists_of_mem_mapM hmap c hc
    exact source_of_asCell hcell
  · cases hlist

/-- A stored line that shows a solution and is none has one after a line end inside it. -/
theorem exists_bold_of_showsBold {line : String} (h : Marker.showsBold line = true)
    (hnot : Marker.isBoldSolution line = false) :
    ∃ shown ∈ (Text.linesOf line).tail, Marker.isBoldSolution shown = true := by
  obtain ⟨shown, hmem, hbold⟩ := List.any_eq_true.mp h
  obtain ⟨first, rest, hhead, hsplit, hrest⟩ := Text.head?_split line.toList
  have hlines : Text.linesOf line = String.ofList first :: (Text.linesOf line).tail := by
    rw [Text.linesOf, ← List.map_tail]
    cases hs : Text.split line.toList with
    | nil => rw [hs] at hhead; cases hhead
    | cons l ls =>
      rw [hs] at hhead
      cases hhead
      rfl
  rw [hlines] at hmem
  rcases List.mem_cons.mp hmem with rfl | hmem
  · -- the first line is marked exactly when the stored line is
    rw [← String.ofList_toList (s := line), hsplit] at hnot
    rcases hrest with rfl | ⟨r, rfl⟩
    · rw [List.append_nil, hbold] at hnot
      cases hnot
    · rw [Marker.isBoldSolution_break, hbold] at hnot
      cases hnot
  · exact ⟨shown, hmem, hbold⟩

/-- Only a markdown cell whose source is a list can leak, by a string of the list that has a
    solution after a line end inside it. -/
theorem exists_broken_of_leaks {c : Cell} {source : Option Multiline}
    (hsource : c.source = (source.map Multiline.toLines).getD []) (h : c.leaks = true) :
    c.isMarkdown = true ∧ ∃ ls, source = some (.lines ls) ∧ ∃ l ∈ ls,
      ∃ shown ∈ (Text.linesOf (Multiline.trimBreaks l)).tail, Marker.isBoldSolution shown = true := by
  have hkind : c.kind = .markdown := by
    by_contra hne
    rw [Cell.leaks_of_kind_ne_markdown hne] at h
    cases h
  refine ⟨by simp [Cell.isMarkdown, hkind], ?_⟩
  rw [Cell.leaks, Cell.isSolution_asShown_of_isMarkdown hkind, Cell.isSolution_of_isMarkdown hkind,
    Bool.and_eq_true_iff, Bool.not_eq_true', List.any_eq_true, List.any_eq_false] at h
  obtain ⟨⟨line, hline, hshown⟩, hnot⟩ := h
  obtain ⟨shown, hmem, hbold⟩ := exists_bold_of_showsBold hshown (Bool.eq_false_iff.mpr (hnot line hline))
  rw [hsource] at hline
  cases source with
  | none => cases hline
  | some src =>
    cases src with
    | text s =>
      rw [Text.linesOf_of_notMem (Text.notMem_of_mem_linesOf hline)] at hmem
      cases hmem
    | lines ls =>
      obtain ⟨l, hl, rfl⟩ := List.mem_map.mp hline
      exact ⟨ls, rfl, l, hl, shown, hmem, hbold⟩

/-! ## What learners see -/

theorem shows_no_solution_iff_leaks (nb : Notebook) :
    (∀ d ∈ nb.stripSolutions.cells, d.asShown.isSolution = false) ↔ nb.cells.any Cell.leaks = false := by
  rw [List.any_eq_false]
  constructor
  · intro h d hd hleaks
    obtain ⟨hshown, hstored⟩ := Bool.and_eq_true_iff.mp hleaks
    rw [h d (List.mem_filter.mpr ⟨hd, hstored⟩)] at hshown
    cases hshown
  · intro h d hd
    obtain ⟨hmem, hstored⟩ := List.mem_filter.mp hd
    cases hshown : d.asShown.isSolution with
    | false => rfl
    | true => exact absurd (by rw [Cell.leaks, hshown, hstored]; rfl) (h d hmem)

/-- Of a master that was read and built, over any store and with any ids: the notebook without its
    stored solutions shows none to a reader exactly when no cell of the master leaks; and of
    its cells only one that is markdown can leak, whose source is a list with a string that
    has a line end inside and a solution after it. -/
theorem shows_no_solution_iff {σ : Type} {store : Store (Action σ)} {newId : List String → Action σ String}
    {text : String} {m : Notebook} {name : String} {o : Options} {s t : σ} {b : Built}
    (hread : ofText text = .ok m) (hbuild : (build store newId m name o).outcome s = (.ok b, t)) :
    ((∀ d ∈ b.notebook.stripSolutions.cells, d.asShown.isSolution = false) ↔ ∀ c ∈ m.cells, c.leaks = false) ∧
    ∀ c ∈ m.cells, ∃ source : Option Multiline, c.source = (source.map Multiline.toLines).getD [] ∧
      (c.leaks = true → c.isMarkdown = true ∧ ∃ ls, source = some (.lines ls) ∧ ∃ l ∈ ls,
        ∃ shown ∈ (Text.linesOf (Multiline.trimBreaks l)).tail, Marker.isBoldSolution shown = true) := by
  constructor
  · rw [shows_no_solution_iff_leaks, any_leaks_of_build hbuild, List.any_eq_false]
    simp only [Bool.not_eq_true]
  · intro c hc
    obtain ⟨source, hsource⟩ := source_of_ofText hread c hc
    exact ⟨source, hsource, exists_broken_of_leaks hsource⟩

/-! ## A solution that a list of strings brings in -/

def piecesOf (s : String) : List Json.Piece := s.toList.map .char

/-- A master of one markdown cell with this source, as its JSON is parsed. -/
def oneCell (source : List String) : Json.Raw :=
  .object [(piecesOf "cells", .array [.object [(piecesOf "cell_type", .text (piecesOf "markdown")),
    (piecesOf "source", .array (source.map fun l => .text (piecesOf l)))]])]

/-- A master whose one cell shows a solution, as a second string of its source. -/
def separateText : String :=
  "\x7b\"cells\":[\x7b\"cell_type\":\"markdown\",\"source\":[\"intro\\n\",\"**Solution:** 42\"]\x7d]\x7d"

/-- The same text, but with the line end inside the one string of the source. -/
def brokenText : String :=
  "\x7b\"cells\":[\x7b\"cell_type\":\"markdown\",\"source\":[\"intro\\n**Solution:** 42\"]\x7d]\x7d"

theorem read_oneCell (text : String) (source lines : List String)
    (hparse : Json.Raw.parse? text.toList = some (oneCell source))
    (hlines : (asNotebook Json.depthLimit (oneCell source)).map (fun m => m.cells.map fun c => (c.kind, c.source)) =
      some [(.markdown, lines)])
    (hfree : Question.find? lines = .ok none) :
    ∃ m c, ofText text = .ok m ∧ m.cells = [c] ∧ c.kind = .markdown ∧ c.source = lines ∧
      Segment.Layout [.free c] m.cells := by
  obtain ⟨m, hm, hcells⟩ := Option.map_eq_some_iff.mp hlines
  obtain ⟨c, hc, hpair⟩ := List.map_eq_singleton_iff.mp hcells
  obtain ⟨hkind, hsource⟩ := Prod.mk.inj hpair
  refine ⟨m, c, ?_, hc, hkind, hsource, hc ▸ .free ⟨?_, ?_⟩ .nil⟩
  · rw [ofText, Json.read?, hparse]
    simp only [Option.bind_eq_bind, Option.bind_some, hm]
  · simp [Cell.isQuestion, Cell.isMarkdown, hkind, hsource, hfree, Except.map]
  · simp [Cell.isTest, Cell.isCode, hkind]

/-- A solution on a line of its own is not shown to learners. -/
theorem separate_solution_is_stripped : ∃ m b files, ofText separateText = .ok m ∧
    (build Store.memory (drawing fun _ => "") m "a.ipynb" default).outcome Store.Memory.empty = (.ok b, files) ∧
    ∀ d ∈ b.notebook.stripSolutions.cells, d.asShown.isSolution = false := by
  obtain ⟨m, c, hread, hcells, hkind, hsource, hlayout⟩ :=
    read_oneCell separateText ["intro\n", "**Solution:** 42"] ["intro", "**Solution:** 42"] (by cbv) (by decide +kernel)
      (by decide +kernel)
  obtain ⟨nb, -, hbuild⟩ := build_of_layout hlayout "a.ipynb" default fun _ => ""
  have hc : c.leaks = false := by
    rw [Cell.leaks, Cell.isSolution_asShown_of_isMarkdown hkind, Cell.isSolution_of_isMarkdown hkind, hsource]
    decide +kernel
  refine ⟨m, _, _, hread, hbuild, (shows_no_solution_iff hread hbuild).1.mpr fun d hd => ?_⟩
  rw [hcells, List.mem_singleton] at hd
  rw [hd, hc]

/-- A solution after a line end inside a string is shown to learners. -/
theorem broken_solution_is_shown : ∃ m b files, ofText brokenText = .ok m ∧
    (build Store.memory (drawing fun _ => "") m "a.ipynb" default).outcome Store.Memory.empty = (.ok b, files) ∧
    ∃ d ∈ b.notebook.stripSolutions.cells, d.asShown.isSolution = true := by
  obtain ⟨m, c, hread, hcells, hkind, hsource, hlayout⟩ :=
    read_oneCell brokenText ["intro\n**Solution:** 42"] ["intro\n**Solution:** 42"] (by cbv) (by decide +kernel)
      (by decide +kernel)
  obtain ⟨nb, -, hbuild⟩ := build_of_layout hlayout "a.ipynb" default fun _ => ""
  have hc : c.leaks = true := by
    rw [Cell.leaks, Cell.isSolution_asShown_of_isMarkdown hkind, Cell.isSolution_of_isMarkdown hkind, hsource]
    decide +kernel
  refine ⟨m, _, _, hread, hbuild, ?_⟩
  by_contra hnone
  have hleaks := (shows_no_solution_iff_leaks _).mp fun d hd => Bool.eq_false_iff.mpr fun hd' => hnone ⟨d, hd, hd'⟩
  rw [any_leaks_of_build hbuild, hcells, List.any_cons, hc] at hleaks
  cases hleaks

end Notebook
end Handout
