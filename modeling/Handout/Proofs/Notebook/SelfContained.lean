/-
  Handout.Proofs.Notebook.SelfContained — whether the grading cells of the learners' notebook
  find their tests in the learners' store.

  A grading cell names its question and asks for the public tier of it. The notebook keeps
  every such cell, but the store may have lost the file: a hidden tier that is saved later
  under the same stem takes its place and is then removed (`Overtaken`). That is the only
  way to lose it.

  Proved:
  - `find?_left`: what is left under a stem is the tier saved there last, if it is public.
  - `overtaken_iff`: a public tier is overtaken exactly when a hidden one was saved last.
  - `graded_iff_not_overtaken`: a grading cell finds the file of its question exactly when
    nothing has overtaken it.
-/

import Handout.Proofs.Notebook.Secrecy
import Handout.Proofs.Segment.Stems
import Handout.Proofs.Text.Lines

namespace Handout

namespace Segment

/-! ## The tier that is stored last -/

/-- The tier whose file is under a stem once all are saved. -/
def holder? (ps : List Piece) (stem : String) : Option Tier := (tiersOf ps).reverse.find? fun x => x.stem = stem

/-- After the public tier of this name comes a hidden tier of a question that is stored under it. -/
def Overtaken (ps : List Piece) (name : String) : Prop :=
  ∃ owner earlier later, tiersOf ps = earlier ++ (owner, true) :: later ∧ owner ++ "H" = name ∧ (name, false) ∉ later

theorem tiers_of_pieces (ps : List Piece) :
    (ps.flatMap Piece.files).map (fun f => (f.name, f.hidden)) = tiersOf ps := by
  induction ps with
  | nil => rfl
  | cons p ps ih =>
    rw [tiersOf, List.flatMap_cons, List.flatMap_cons, List.map_append, ih]
    cases p with
    | free c => rfl
    | block b =>
      congr 1
      simp only [Piece.files, Block.files, List.map_map]
      rfl

theorem holder?_eq (ps : List Piece) (stem : String) :
    holder? ps stem =
      ((ps.flatMap Piece.files).reverse.find? fun f => f.stem = stem).map fun f => (f.name, f.hidden) := by
  rw [holder?, ← tiers_of_pieces, ← List.map_reverse, List.find?_map]
  rfl

theorem holder?_eq_some_iff {ps : List Piece} {stem : String} {x : Tier} :
    holder? ps stem = some x ↔
      x.stem = stem ∧ ∃ earlier later, tiersOf ps = earlier ++ x :: later ∧ ∀ y ∈ later, y.stem ≠ stem := by
  rw [holder?, List.find?_eq_some_iff_append]
  simp only [decide_eq_true_eq, Bool.not_eq_true', decide_eq_false_iff_not]
  refine and_congr_right fun _ => ?_
  constructor
  · rintro ⟨later, earlier, heq, hne⟩
    refine ⟨earlier.reverse, later.reverse, ?_, fun y hy => hne y (List.mem_reverse.mp hy)⟩
    rw [← List.reverse_reverse (tiersOf ps), heq]
    simp
  · rintro ⟨earlier, later, heq, hne⟩
    exact ⟨later.reverse, earlier.reverse, by simp [heq], fun y hy => hne y (List.mem_reverse.mp hy)⟩

/-- A question with a public tier: either that tier holds its stem, or it is overtaken. -/
theorem overtaken_iff {ps : List Piece} {name : String} (h : (name, false) ∈ tiersOf ps) :
    ¬ Overtaken ps name ↔ holder? ps name = some (name, false) := by
  constructor
  · intro hnot
    cases hx : holder? ps name with
    | none => exact absurd (List.find?_eq_none.mp hx _ (List.mem_reverse.mpr h)) (by simp [Tier.stem, TestFile.stemOf])
    | some x =>
      obtain ⟨hstem, earlier, later, heq, hlater⟩ := holder?_eq_some_iff.mp hx
      obtain ⟨owner, hidden⟩ := x
      cases hidden with
      | false =>
        obtain rfl : owner = name := hstem
        rfl
      | true =>
        exact absurd ⟨owner, earlier, later, heq, hstem, fun hm => hlater _ hm rfl⟩ hnot
  · rintro hholder ⟨owner, earlier, later, heq, hname, hnotMem⟩
    obtain ⟨-, earlier', later', heq', hlater'⟩ := holder?_eq_some_iff.mp hholder
    -- both splits of the tiers are at the last one with this stem
    rcases List.append_eq_append_iff.mp (heq.symm.trans heq') with ⟨more, -, htail⟩ | ⟨more, -, htail⟩
    · cases more with
      | nil => cases htail
      | cons y more =>
        obtain ⟨-, rfl⟩ := List.cons.inj htail
        exact hnotMem (by simp)
    · cases more with
      | nil => cases htail
      | cons y more =>
        obtain ⟨-, rfl⟩ := List.cons.inj htail
        exact hlater' (owner, true) (by simp) hname

/-- What is left under a stem once the hidden tiers are removed. -/
theorem find?_left (ps : List Piece) (name : String) :
    (∃ f, Table.find? name ((Store.Memory.savedIn (ps.flatMap Piece.files) Store.Memory.empty).filter
        fun e => ! Store.Memory.isHiddenEntry e) = some f ∧ f.hidden = false ∧ f.name = name) ↔
      holder? ps name = some (name, false) := by
  have hsorted : Table.Sorted (Store.Memory.savedIn (ps.flatMap Piece.files) Store.Memory.empty) :=
    Store.Memory.sorted_savedIn _ Table.sorted_nil
  have hnone : Table.find? name Store.Memory.empty = none := rfl
  rw [Table.find?_filter _ hsorted, Store.Memory.find?_savedIn, hnone, Option.or_none, holder?_eq]
  simp only [Option.filter_eq_some_iff, Option.map_eq_some_iff, Prod.mk.injEq, Store.Memory.isHiddenEntry]
  constructor
  · rintro ⟨f, ⟨hf, -⟩, hhidden, hname⟩
    exact ⟨f, hf, hname, hhidden⟩
  · rintro ⟨f, hf, hname, hhidden⟩
    exact ⟨f, ⟨hf, by simp [hhidden]⟩, hhidden, hname⟩

end Segment

/-! ## Grading cells -/

namespace Cell

/-- The call that runs the public tests of a question. -/
def gradingCall (name : String) : String := "grader.check(\"" ++ name ++ "\")"

theorem text_lock_ofText (kind : CellKind) (text : String) : (ofText kind text).lock.text = text :=
  Text.textOf_linesOf text

theorem text_grading (name : String) : (grading name).text = gradingCall name := text_lock_ofText .code _

theorem toList_gradingCall (name : String) :
    (gradingCall name).toList = "grader.check(\"".toList ++ name.toList ++ "\")".toList := by
  unfold gradingCall
  rw [String.toList_append, String.toList_append]

theorem gradingCall_inj {name name' : String} (h : gradingCall name = gradingCall name') : name = name' := by
  unfold gradingCall at h
  exact (String.append_right_inj _).mp ((String.append_left_inj _).mp h)

theorem text_endQuestion_ne (name : String) : endQuestion.text ≠ gradingCall name := by
  rw [endQuestion, markdown, text_lock_ofText, ne_eq, ← String.toList_inj, toList_gradingCall]
  intro h
  exact absurd (List.cons.inj h).1 (by decide)

/-- No grading cell is taken for a solution: its first line does not begin with a hash. -/
theorem isSolution_grading (name : String) : (grading name).isSolution = false := by
  obtain ⟨l, rest, hhead, hsplit, -⟩ := Text.head?_split (gradingCall name).toList
  have hfirst : (grading name).isSolution = Marker.isSolution (String.ofList l) := by
    have hsource : (grading name).source.head? = ((Text.split (gradingCall name).toList).map String.ofList).head? := rfl
    rw [List.head?_map, hhead] at hsource
    have hunfold : (grading name).isSolution = (grading name).source.head?.any Marker.isSolution := rfl
    rw [hunfold, hsource]
    rfl
  rw [hfirst, Bool.eq_false_iff]
  intro hmarked
  obtain ⟨c, s, hc, -⟩ := Marker.head_of_isSolution hmarked
  obtain ⟨d, s', hd, hfold⟩ := Marker.exists_head_of_afterPart? hc
  rw [String.toList_ofList] at hd
  rw [hd, toList_gradingCall] at hsplit
  obtain rfl : 'g' = d := (List.cons.inj hsplit).1
  exact absurd hfold (by decide)

end Cell

namespace Notebook

theorem Identified.exists_of_mem {nb nb' : Notebook} (h : nb.Identified nb') {c : Cell} (hc : c ∈ nb.cells) :
    ∃ d ∈ nb'.cells, Cell.Identified nb.needsIds c d := by
  obtain ⟨-, hcells⟩ := h
  generalize nb.needsIds = needsId, nb.cells = cells, nb'.cells = cells' at hcells hc ⊢
  induction hcells with
  | nil => cases hc
  | @cons c' d' _ _ hhead _ ih =>
    rcases List.mem_cons.mp hc with rfl | hc
    · exact ⟨d', List.mem_cons_self .., hhead⟩
    · obtain ⟨d, hd, hidentified⟩ := ih hc
      exact ⟨d, List.mem_cons_of_mem _ hd, hidentified⟩

/-- The grading cells of a question are in the draft, and are no solutions. -/
theorem mem_draft_stripSolutions {ps : List Segment.Piece} {q : Segment.Block} (hq : .block q ∈ ps) {name : String}
    (hc : Cell.grading name ∈ q.closing) (m : Notebook) (file : String) (o : Options) :
    Cell.grading name ∈ (m.draft file o (ps.flatMap Segment.Piece.cells)).stripSolutions.cells := by
  have hpiece : Cell.grading name ∈ ps.flatMap Segment.Piece.cells :=
    List.mem_flatMap.mpr ⟨_, hq, List.mem_append_right _ hc⟩
  have haround : Cell.grading name ∈ around file o (ps.flatMap Segment.Piece.cells) := by
    unfold around
    exact List.mem_append_left _ (List.mem_append_left _ (List.mem_append_right _ hpiece))
  have hdraft : Cell.grading name ∈ (m.draft file o (ps.flatMap Segment.Piece.cells)).cells :=
    List.mem_map.mpr ⟨_, haround, rfl⟩
  exact List.mem_filter.mpr ⟨hdraft, by rw [Cell.isSolution_grading]; rfl⟩

end Notebook

namespace Segment

theorem Block.mem_closing {b : Block} {c : Cell} (h : c ∈ b.closing) :
    (c = Cell.grading b.question.name ∧ false ∈ b.tiers) ∨ c = Cell.endQuestion := by
  unfold Block.closing at h
  rcases List.mem_append.mp h with h | h
  · split at h
    · cases h
    · rename_i htests
      exact Or.inl ⟨List.mem_singleton.mp h, Block.mem_tiers.mpr (by simpa using htests)⟩
  · split at h
    · exact Or.inr (List.mem_singleton.mp h)
    · cases h

theorem Block.grading_mem_closing {b : Block} (h : (b.tests false).isEmpty = false) :
    Cell.grading b.question.name ∈ b.closing := by
  rw [closing, h]
  exact List.mem_append_left _ (List.mem_singleton.mpr rfl)

theorem mem_tiersOf {ps : List Piece} {b : Block} (hb : .block b ∈ ps) {hidden : Bool} (h : hidden ∈ b.tiers) :
    (b.question.name, hidden) ∈ tiersOf ps :=
  List.mem_flatMap.mpr ⟨_, hb, List.mem_map.mpr ⟨hidden, h, rfl⟩⟩

end Segment

namespace Notebook

/-- Whether the grading cells of a laid out master find what they ask for. -/
theorem graded_of_layout {m : Notebook} {ps : List Segment.Piece} (hps : Segment.Layout ps m.cells) (name : String)
    (o : Options) (ids : List String → String) :
    ∃ b files stems left,
      (build Store.memory (drawing ids) m name o).outcome Store.Memory.empty = (.ok b, files) ∧
      Store.memory.removeHidden.outcome files = (.ok stems, left) ∧
      ∀ q, Segment.Piece.block q ∈ ps → ∀ c ∈ q.closing, ∀ s, c.text = Cell.gradingCall s →
        s = q.question.name ∧ (∃ d ∈ b.notebook.stripSolutions.cells, Cell.Identified m.needsIds c d) ∧
        ((∃ f, Table.find? s left = some f ∧ f.hidden = false ∧ f.name = s) ↔ ¬ Segment.Overtaken ps s) := by
  obtain ⟨nb, hnb, hbuild⟩ := build_of_layout hps name o ids
  have hsorted : Table.Sorted (Store.Memory.savedIn (ps.flatMap Segment.Piece.files) Store.Memory.empty) :=
    Store.Memory.sorted_savedIn _ Table.sorted_nil
  refine ⟨_, _, _, _, hbuild, by rw [Action.outcome, Store.Memory.removeHidden_memory hsorted], ?_⟩
  intro q hq c hc s hs
  rcases Segment.Block.mem_closing hc with ⟨rfl, htier⟩ | rfl
  · obtain rfl := Cell.gradingCall_inj (Cell.text_grading q.question.name ▸ hs)
    refine ⟨rfl, hnb.stripSolutions.exists_of_mem (mem_draft_stripSolutions hq hc m name o), ?_⟩
    rw [Segment.find?_left, Segment.overtaken_iff (Segment.mem_tiersOf hq htier)]
  · exact absurd hs (Cell.text_endQuestion_ne s)

/-- Of a master that is built over an empty table, without its solutions and its hidden tier: every
    grading cell of a question asks for that question and is in the notebook, but for an id,
    and it finds the public file of the question exactly when no hidden tier has overtaken
    that file. -/
theorem graded_iff_not_overtaken {m : Notebook} {name : String} {o : Options} {ids : List String → String} {b : Built}
    {files : Store.Memory.Files}
    (h : (build Store.memory (drawing ids) m name o).outcome Store.Memory.empty = (.ok b, files)) :
    ∃ ps stems left, Segment.Layout ps m.cells ∧ Store.memory.removeHidden.outcome files = (.ok stems, left) ∧
      ∀ q, Segment.Piece.block q ∈ ps → ∀ c ∈ q.closing, ∀ s, c.text = Cell.gradingCall s →
        s = q.question.name ∧ (∃ d ∈ b.notebook.stripSolutions.cells, Cell.Identified m.needsIds c d) ∧
        ((∃ f, Table.find? s left = some f ∧ f.hidden = false ∧ f.name = s) ↔ ¬ Segment.Overtaken ps s) := by
  obtain ⟨ps, hps⟩ := layout_of_build_ok h
  obtain ⟨b', files', stems, left, hbuild, hremoved, hgraded⟩ := graded_of_layout hps name o ids
  rw [hbuild] at h
  cases h
  exact ⟨ps, stems, left, hps, hremoved, hgraded⟩

/-! ## Two questions with a test each -/

/-- A public test of a question, and a hidden test of a question `a` after it. -/
def publicThenHidden (name : String) : List Segment.Block :=
  [Segment.tested name "## test ##", Segment.tested "a" "## hidden test ##"]

/-- A master of these two questions. -/
def twoQuestions (name : String) : Notebook := ⟨(publicThenHidden name).flatMap Segment.Block.source, [], 4, 4⟩

theorem layout_twoQuestions {name : String} (hc : (Segment.tested name "## test ##").opener.isQuestion = .ok true)
    (hq : Question.ofCell (Segment.tested name "## test ##").opener = .ok (Segment.tested name "## test ##").question) :
    Segment.Layout ((publicThenHidden name).map .block) (twoQuestions name).cells := by
  have hresponse : (Cell.code "").IsResponse := ⟨rfl, by decide +kernel, by decide +kernel⟩
  exact .block hc hq hresponse (by decide +kernel) (by decide +kernel)
    (.block (by decide +kernel) (by decide +kernel) hresponse (by decide +kernel) (by simp) .nil)

/-- The grading cell of `b` finds its test. -/
theorem grading_of_b_finds_its_test : ∃ b files stems left,
    (build Store.memory (drawing fun _ => "") (twoQuestions "b") "a.ipynb" default).outcome Store.Memory.empty =
      (.ok b, files) ∧
    Store.memory.removeHidden.outcome files = (.ok stems, left) ∧
    (∃ d ∈ b.notebook.stripSolutions.cells, Cell.Identified false (Cell.grading "b") d) ∧
    ∃ f, Table.find? "b" left = some f ∧ f.hidden = false ∧ f.name = "b" := by
  have hlayout := @layout_twoQuestions "b" (by decide +kernel) (by decide +kernel)
  obtain ⟨nb, -, hbuild⟩ := build_of_layout hlayout "a.ipynb" default fun _ => ""
  obtain ⟨ps, stems, left, hps, hremoved, hgraded⟩ := graded_iff_not_overtaken hbuild
  obtain rfl := hps.unique hlayout
  obtain ⟨-, hshown, hfound⟩ := hgraded _ (List.mem_cons_self ..) _
    (Segment.Block.grading_mem_closing (by decide +kernel)) "b" (Cell.text_grading "b")
  have hheld : ¬ Segment.Overtaken ((publicThenHidden "b").map .block) "b" :=
    (Segment.overtaken_iff (by decide +kernel)).mpr (by decide +kernel)
  exact ⟨_, _, _, _, hbuild, hremoved, hshown, hfound.mpr hheld⟩

/-- The grading cell of `aH` is in the learners' notebook, and its test is gone: the hidden test of
    `a` took its place and was removed. -/
theorem grading_of_aH_finds_no_test : ∃ b files stems left,
    (build Store.memory (drawing fun _ => "") (twoQuestions "aH") "a.ipynb" default).outcome Store.Memory.empty =
      (.ok b, files) ∧
    Store.memory.removeHidden.outcome files = (.ok stems, left) ∧
    (∃ d ∈ b.notebook.stripSolutions.cells, Cell.Identified false (Cell.grading "aH") d) ∧
    ¬ ∃ f, Table.find? "aH" left = some f ∧ f.hidden = false ∧ f.name = "aH" := by
  have hlayout := @layout_twoQuestions "aH" (by decide +kernel) (by decide +kernel)
  obtain ⟨b, files, stems, left, hbuild, hremoved, hgraded⟩ := graded_of_layout hlayout "a.ipynb" default fun _ => ""
  obtain ⟨-, hshown, hfound⟩ := hgraded _ (List.mem_cons_self ..) _
    (Segment.Block.grading_mem_closing (by decide +kernel)) "aH" (Cell.text_grading "aH")
  have hovertaken : Segment.Overtaken ((publicThenHidden "aH").map .block) "aH" :=
    ⟨"a", [("aH", false)], [], by decide +kernel, by decide +kernel, by simp⟩
  exact ⟨b, files, stems, left, hbuild, hremoved, hshown, fun hf => hfound.mp hf hovertaken⟩

end Notebook
end Handout
