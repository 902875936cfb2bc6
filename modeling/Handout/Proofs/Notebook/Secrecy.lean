/-
  Handout.Proofs.Notebook.Secrecy — learners learn nothing of solutions, of hidden tests or
  of what was printed.

  Two masters that are alike cell by cell make the same view for learners
  (`learners_view_of_alike`): the same notebook, but for the ids that were drawn at
  random, and the same stems with the same test files. Both stores are followed file
  by file from the empty table, so it does not matter which files replace which.
-/

import Handout.Notebook.Build
import Handout.Proofs.Segment.Alike

namespace Handout

/-! ## Stores of alike files -/

namespace Store.Memory

/-- Two tables that hold alike files under the same stems. -/
def Alike (t t' : Files) : Prop := List.Forall₂ (Table.Related TestFile.Alike) t t'

theorem savedIn_alike {files files' : List TestFile} (h : List.Forall₂ TestFile.Alike files files') {t t' : Files}
    (ht : Alike t t') : Alike (savedIn files t) (savedIn files' t') := by
  induction h generalizing t t' with
  | nil => exact ht
  | @cons f f' _ _ hf _ ih =>
    have hinsert := Table.forall₂_insert ht f.stem hf
    rw [savedIn_cons, savedIn_cons, ← hf.1]
    exact ih hinsert

theorem hiddenStems_eq {t t' : Files} (h : Alike t t') :
    Table.keys (t.filter isHiddenEntry) = Table.keys (t'.filter isHiddenEntry) := by
  have hrel : List.Forall₂ (Table.Related TestFile.Alike) (t.filter isHiddenEntry) (t'.filter isHiddenEntry) := by
    refine List.rel_filter ?_ h
    intro e e' he
    simp only [isHiddenEntry, he.2.2.1]
  rw [Table.keys, Table.keys, ← List.forall₂_eq_eq_eq, List.forall₂_map_left_iff, List.forall₂_map_right_iff]
  exact hrel.imp fun _ _ he => he.1

theorem publicEntries_eq {t t' : Files} (h : Alike t t') :
    (t.filter fun e => ! isHiddenEntry e) = t'.filter fun e => ! isHiddenEntry e := by
  induction h with
  | nil => rfl
  | @cons e e' t t' he _ ih =>
    obtain ⟨hstem, -, hhidden, hfile⟩ := he
    cases hh : e.2.hidden with
    | true =>
      have hh' : e'.2.hidden = true := hhidden ▸ hh
      rw [List.filter_cons_of_neg (by simp [isHiddenEntry, hh]), List.filter_cons_of_neg (by simp [isHiddenEntry, hh']),
        ih]
    | false =>
      obtain rfl : e = e' := Prod.ext hstem (hfile hh)
      rw [List.filter_cons_of_pos (by simp [isHiddenEntry, hh]), List.filter_cons_of_pos (by simp [isHiddenEntry, hh]),
        ih]

/-- From two such tables the same stems are removed, and the same table is left. -/
theorem removeHidden_alike {t t' : Files} (h : Alike t t') (ht : Table.Sorted t) (ht' : Table.Sorted t') :
    ∃ stems left, memory.removeHidden.outcome t = (.ok stems, left) ∧
      memory.removeHidden.outcome t' = (.ok stems, left) := by
  have hremoved := removeHidden_memory ht'
  rw [← hiddenStems_eq h, ← publicEntries_eq h] at hremoved
  exact ⟨_, _, by rw [Action.outcome, removeHidden_memory ht], by rw [Action.outcome, hremoved]⟩

end Store.Memory

/-! ## Ids -/

/-- The same cell, but for an id that it was given if it needs one and had none. -/
def Cell.Identified (needsId : Bool) (c d : Cell) : Prop :=
  if needsId && c.id.isNone then ∃ i, d = { c with id := some i } else d = c

namespace Notebook

/-- The same notebook, but for ids that were given to its cells. -/
def Identified (nb nb' : Notebook) : Prop :=
  { nb' with cells := nb.cells } = nb ∧ List.Forall₂ (Cell.Identified nb.needsIds) nb.cells nb'.cells

/-- Draws ids beside a store, which stays as it is. The ids may be any. -/
def drawing (ids : List String → String) (taken : List String) : Action Store.Memory.Files String := pure (ids taken)

theorem assignIds_identified (ids : List String → String) (cells : List Cell) :
    ∀ taken (t : Store.Memory.Files), ∃ cells',
      assignIds (drawing ids) taken cells t = .ok cells' t ∧
        List.Forall₂ (Cell.Identified true) cells cells' := by
  induction cells with
  | nil => exact fun _ t => ⟨[], rfl, .nil⟩
  | cons c rest ih =>
    intro taken t
    cases hid : c.id with
    | some i =>
      obtain ⟨cells', hrest, hall⟩ := ih taken t
      refine ⟨c :: cells', ?_, .cons (by simp [Cell.Identified, hid]) hall⟩
      simp only [assignIds, hid, bind, EStateM.bind, hrest]
      rfl
    | none =>
      obtain ⟨cells', hrest, hall⟩ := ih (ids taken :: taken) t
      refine ⟨{ c with id := some (ids taken) } :: cells', ?_, .cons (by simp [Cell.Identified, hid]) hall⟩
      have hdraw : drawing ids taken t = .ok (ids taken) t := rfl
      simp only [assignIds, hid, bind, EStateM.bind, hdraw, hrest]
      rfl

theorem identify_identified (ids : List String → String) (nb : Notebook) (t : Store.Memory.Files) :
    ∃ nb', nb.identify (drawing ids) t = .ok nb' t ∧
      nb.Identified nb' := by
  unfold identify
  cases hneeds : nb.needsIds with
  | true =>
    obtain ⟨cells', hcells, hall⟩ := assignIds_identified ids nb.cells (takenIds nb.cells) t
    refine ⟨{ nb with cells := cells' }, ?_, rfl, hneeds ▸ hall⟩
    simp only [if_true, bind, EStateM.bind, hcells]
    rfl
  | false =>
    refine ⟨nb, rfl, rfl, ?_⟩
    rw [hneeds, List.forall₂_same]
    exact fun _ _ => rfl

theorem isSolution_of_identified {needsId : Bool} {c d : Cell} (h : Cell.Identified needsId c d) :
    c.isSolution = d.isSolution := by
  unfold Cell.Identified at h
  split at h
  · obtain ⟨i, rfl⟩ := h
    rfl
  · rw [h]

theorem Identified.stripSolutions {nb nb' : Notebook} (h : nb.Identified nb') :
    nb.stripSolutions.Identified nb'.stripSolutions := by
  obtain ⟨hsame, hcells⟩ := h
  obtain ⟨cells, metadata, format, minor⟩ := nb
  obtain ⟨cells', metadata', format', minor'⟩ := nb'
  cases hsame
  refine ⟨rfl, List.rel_filter ?_ hcells⟩
  intro c d hcd
  simp only [isSolution_of_identified hcd]

/-! ## Learners' views -/

theorem stripSolutions_draft_eq {m m' : Notebook} (hmetadata : m.metadata = m'.metadata) (hformat : m.format = m'.format)
    (hminor : m.minor = m'.minor) (name : String) (o : Options) {cells cells' : List Cell}
    (h : Cell.forLearners cells = Cell.forLearners cells') :
    (m.draft name o cells).stripSolutions = (m'.draft name o cells').stripSolutions := by
  have haround : Cell.forLearners (around name o cells) = Cell.forLearners (around name o cells') := by
    simp only [around, Cell.forLearners_append, h]
  obtain ⟨_, metadata, format, minor⟩ := m
  obtain ⟨_, metadata', format', minor'⟩ := m'
  cases hmetadata
  cases hformat
  cases hminor
  exact congrArg (Notebook.mk · metadata format minor) haround

/-- What a build over an empty table comes to when its cells are laid out. -/
theorem build_of_layout {m : Notebook} {ps : List Segment.Piece} (hps : Segment.Layout ps m.cells) (name : String)
    (o : Options) (ids : List String → String) :
    ∃ nb, (m.draft name o (ps.flatMap Segment.Piece.cells)).Identified nb ∧
      (build Store.memory (drawing ids) m name o).outcome Store.Memory.empty =
        (.ok ⟨nb, ps.flatMap Segment.Piece.manual, (ps.flatMap Segment.Piece.files).map TestFile.stem⟩,
          Store.Memory.savedIn (ps.flatMap Segment.Piece.files) Store.Memory.empty) := by
  have hsave := Store.Memory.saveAll_memory (ps.flatMap Segment.Piece.files) Store.Memory.empty
  obtain ⟨nb, hnb, hidentified⟩ := identify_identified ids (m.draft name o (ps.flatMap Segment.Piece.cells))
    (Store.Memory.savedIn (ps.flatMap Segment.Piece.files) Store.Memory.empty)
  refine ⟨nb, hidentified, ?_⟩
  simp only [Action.outcome, build, segment, Segment.read_of_layout hps, answered, bind, EStateM.bind, hsave, pure,
    EStateM.pure, hnb]

theorem layout_of_build_ok {m : Notebook} {name : String} {o : Options} {ids : List String → String} {b : Built}
    {files : Store.Memory.Files}
    (h : (build Store.memory (drawing ids) m name o).outcome Store.Memory.empty = (.ok b, files)) :
    ∃ ps, Segment.Layout ps m.cells := by
  rw [← Segment.read_ok_iff_layout]
  cases hr : (Segment.read m.cells).result with
  | ok out => exact ⟨out, rfl⟩
  | error f =>
    have hsave := Store.Memory.saveAll_memory (Segment.read m.cells).saved Store.Memory.empty
    have hrefused : ((build Store.memory (drawing ids) m name o).outcome Store.Memory.empty).1 = .error f := by
      simp only [Action.outcome, build, segment, bind, EStateM.bind, hsave, hr]
      rfl
    rw [h] at hrefused
    cases hrefused

/-- Masters that are alike cell by cell, and of one format and metadata, make one view for
    learners: without its solutions, and before ids are drawn, the notebook is the same, and
    without the hidden tier the stores are. -/
theorem learners_view_of_alike {m m' : Notebook} (hcells : List.Forall₂ Cell.Alike m.cells m'.cells)
    (hmetadata : m.metadata = m'.metadata) (hformat : m.format = m'.format) (hminor : m.minor = m'.minor)
    {name : String} {o : Options} {ids ids' : List String → String} {b b' : Built} {files files' : Store.Memory.Files}
    (h : (build Store.memory (drawing ids) m name o).outcome Store.Memory.empty = (.ok b, files))
    (h' : (build Store.memory (drawing ids') m' name o).outcome Store.Memory.empty = (.ok b', files')) :
    (∃ s s' : Segmented,
      (segment Store.memory m.cells).outcome Store.Memory.empty = (.ok s, files) ∧
      (segment Store.memory m'.cells).outcome Store.Memory.empty = (.ok s', files') ∧
      (m.draft name o s.cells).stripSolutions = (m'.draft name o s'.cells).stripSolutions ∧
      (m.draft name o s.cells).stripSolutions.Identified b.notebook.stripSolutions ∧
      (m'.draft name o s'.cells).stripSolutions.Identified b'.notebook.stripSolutions) ∧
    ∃ stems left,
      Store.memory.removeHidden.outcome files = (.ok stems, left) ∧
      Store.memory.removeHidden.outcome files' = (.ok stems, left) := by
  obtain ⟨ps, hps⟩ := layout_of_build_ok h
  obtain ⟨ps', hps', hpieces⟩ := hps.alike hcells
  -- both builds are what their pieces come to
  obtain ⟨nb, hnb, hbuild⟩ := build_of_layout hps name o ids
  obtain ⟨nb', hnb', hbuild'⟩ := build_of_layout hps' name o ids'
  rw [hbuild] at h
  rw [hbuild'] at h'
  cases h
  cases h'
  refine ⟨⟨_, _, Segment.segment_of_layout hps _, Segment.segment_of_layout hps' _, ?_, hnb.stripSolutions,
    hnb'.stripSolutions⟩, ?_⟩
  · exact stripSolutions_draft_eq hmetadata hformat hminor name o (Segment.forLearners_flatMap hpieces)
  · have hfiles : List.Forall₂ TestFile.Alike (ps.flatMap Segment.Piece.files) (ps'.flatMap Segment.Piece.files) :=
      List.rel_flatMap hpieces fun _ _ halike => halike.files
    exact Store.Memory.removeHidden_alike (Store.Memory.savedIn_alike hfiles .nil)
      (Store.Memory.sorted_savedIn _ Table.sorted_nil) (Store.Memory.sorted_savedIn _ Table.sorted_nil)

/-- A question whose hidden test and solution are both given by its answer. -/
def withAnswer (answer : String) : Notebook :=
  ⟨[Cell.markdown "\x60\x60\x60\nBEGIN QUESTION\nname: a\n\x60\x60\x60", Cell.code "",
    Cell.code ("## hidden test ##\n" ++ answer), Cell.code ("## solution ##\n" ++ answer)], [], 4, 5⟩

theorem alike_withAnswer : List.Forall₂ Cell.Alike (withAnswer "1").cells (withAnswer "2").cells :=
  .cons (.captured rfl fun _ _ => rfl) <| .cons (.captured rfl fun _ _ => rfl) <|
    .cons (.hiddenTests (by decide +kernel) (by decide +kernel) (by decide +kernel) (by decide +kernel)) <|
    .cons (.codeSolutions rfl (by decide +kernel) rfl (by decide +kernel)) .nil

theorem layout_withAnswer : ∃ ps, Segment.Layout ps (withAnswer "1").cells := by
  have hresponse : (Cell.code "").IsResponse := ⟨rfl, by decide +kernel, by decide +kernel⟩
  have hquestion : Question.ofCell (Cell.markdown "\x60\x60\x60\nBEGIN QUESTION\nname: a\n\x60\x60\x60") =
      .ok ⟨"a", false, "", none, none, none⟩ := by decide +kernel
  have hrun : ∀ x ∈ [Cell.code "## hidden test ##\n1", Cell.code "## solution ##\n1"], x.goesOn = true := by
    decide +kernel
  exact ⟨_, .block (by decide +kernel) hquestion hresponse hrun (by simp) .nil⟩

/-- Learners cannot tell one answer from another. -/
theorem answers_are_alike : ∃ b b' files files',
    (build Store.memory (drawing fun _ => "00000000") (withAnswer "1") "a.ipynb" default).outcome Store.Memory.empty =
      (.ok b, files) ∧
    (build Store.memory (drawing fun _ => "ffffffff") (withAnswer "2") "a.ipynb" default).outcome Store.Memory.empty =
      (.ok b', files') ∧
    (∃ view : Notebook, view.Identified b.notebook.stripSolutions ∧ view.Identified b'.notebook.stripSolutions) ∧
    ∃ stems left,
      Store.memory.removeHidden.outcome files = (.ok stems, left) ∧
      Store.memory.removeHidden.outcome files' = (.ok stems, left) := by
  obtain ⟨ps, hlayout⟩ := layout_withAnswer
  obtain ⟨ps', hlayout', -⟩ := hlayout.alike alike_withAnswer
  obtain ⟨nb, -, hbuild⟩ := build_of_layout hlayout "a.ipynb" default fun _ => "00000000"
  obtain ⟨nb', -, hbuild'⟩ := build_of_layout hlayout' "a.ipynb" default fun _ => "ffffffff"
  obtain ⟨⟨s, s', -, -, hview, hnb, hnb'⟩, hstores⟩ :=
    learners_view_of_alike alike_withAnswer rfl rfl rfl hbuild hbuild'
  rw [← hview] at hnb'
  exact ⟨_, _, _, _, hbuild, hbuild', ⟨_, hnb, hnb'⟩, hstores⟩

end Notebook
end Handout
