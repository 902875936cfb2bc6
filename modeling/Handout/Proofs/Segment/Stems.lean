/-
  Handout.Proofs.Segment.Stems — which tests of an accepted master are still there once
  its files are saved.

  The hidden tier of a question `q` and the public tier of a question `qH` have one stem,
  and so have the tiers of two questions of one name. A file that is saved under a
  stem takes the place of the one that is there, so tests are kept only as long as no two
  tiers meet (`Apart`).

  Proved:
  - `stemOf_eq_iff`: when two tiers have one stem.
  - `countP_isTest`: the tests of a master are the cases of the files of its pieces.
  - `stored_cases_iff_apart`: all of them are stored, and the stems are distinct,
    exactly when the tiers are apart.
-/

import Handout.Proofs.Segment.Layout

namespace Handout

/-- The transcripts of a file, over all its suites. -/
def TestFile.caseCount (f : TestFile) : Nat := (f.suites.map fun s => s.cases.length).sum

/-- The transcripts of all files of a table. -/
def Store.Memory.storedCases (t : Store.Memory.Files) : Nat := Table.total TestFile.caseCount t

namespace Segment

/-- A question's name with one of its tiers. -/
abbrev Tier := String × Bool

namespace Tier

def stem (x : Tier) : String := TestFile.stemOf x.1 x.2

/-- The hidden tier of the one is named like the public tier of the other. -/
def Shadows (x y : Tier) : Prop := x.2 = true ∧ y.2 = false ∧ y.1 = x.1 ++ "H"

/-- Two tiers that are kept under one stem. -/
def Meets (x y : Tier) : Prop := x = y ∨ Shadows x y ∨ Shadows y x

instance (x y : Tier) : Decidable (x.Shadows y) := inferInstanceAs (Decidable (_ ∧ _ ∧ _))

instance (x y : Tier) : Decidable (x.Meets y) := inferInstanceAs (Decidable (_ ∨ _ ∨ _))

theorem stemOf_eq_iff {x y : Tier} : x.stem = y.stem ↔ x.Meets y := by
  obtain ⟨n, h⟩ := x
  obtain ⟨m, k⟩ := y
  have hname : n ++ "H" = m ++ "H" ↔ n = m := by
    rw [← String.toList_inj, ← String.toList_inj, String.toList_append, String.toList_append,
      List.append_left_inj]
  cases h <;> cases k <;> simp [stem, TestFile.stemOf, Meets, Shadows, hname, eq_comm]

end Tier

/-- The tiers of the questions that have tests. -/
def tiersOf (ps : List Piece) : List Tier :=
  ps.flatMap fun
    | .free _ => []
    | .block b => b.tiers.map fun hidden => (b.question.name, hidden)

/-- No two tiers with tests meet. -/
def Apart (ps : List Piece) : Prop := (tiersOf ps).Pairwise fun x y => ¬ x.Meets y

instance (ps : List Piece) : Decidable (Apart ps) := inferInstanceAs (Decidable (List.Pairwise ..))

/-! ## Stems -/

theorem stems_of_pieces (ps : List Piece) :
    (ps.flatMap Piece.files).map TestFile.stem = (tiersOf ps).map Tier.stem := by
  induction ps with
  | nil => rfl
  | cons p ps ih =>
    rw [tiersOf, List.flatMap_cons, List.flatMap_cons, List.map_append, List.map_append, ih]
    cases p with
    | free c => rfl
    | block b =>
      congr 1
      simp only [Piece.files, Block.files, List.map_map]
      rfl

theorem nodup_stems_iff_apart (ps : List Piece) :
    ((ps.flatMap Piece.files).map TestFile.stem).Nodup ↔ Apart ps := by
  rw [stems_of_pieces, List.Nodup, List.pairwise_map, Apart]
  simp only [ne_eq, Tier.stemOf_eq_iff]

/-! ## Tests -/

theorem caseCount_compile (q : Question) (tests : List Test) (hidden : Bool) :
    (TestFile.compile q tests hidden).caseCount = tests.length := by
  simp [TestFile.caseCount, TestFile.compile, TestSuite.doctest]

theorem Block.mem_tiers {b : Block} {hidden : Bool} : hidden ∈ b.tiers ↔ b.tests hidden ≠ [] := by
  cases hidden <;> simp [Block.tiers]

theorem Block.caseCount_files (b : Block) :
    (b.files.map TestFile.caseCount).sum = (b.tests false).length + (b.tests true).length := by
  have hcase : TestFile.caseCount ∘ (fun hidden => TestFile.compile b.question (b.tests hidden) hidden) =
      fun hidden => (b.tests hidden).length := funext fun hidden => caseCount_compile ..
  rw [Block.files, List.map_map, hcase, Block.tiers]
  cases hp : b.tests false <;> cases hh : b.tests true <;> simp [hp, hh]

theorem length_filter_hidden (ts : List Test) :
    (ts.filter fun t => t.hidden == false).length + (ts.filter fun t => t.hidden == true).length = ts.length := by
  induction ts with
  | nil => rfl
  | cons t rest ih =>
    cases ht : t.hidden
    · rw [List.filter_cons_of_pos (by simp [ht]), List.filter_cons_of_neg (by simp [ht]), List.length_cons,
        List.length_cons]
      omega
    · rw [List.filter_cons_of_neg (by simp [ht]), List.filter_cons_of_pos (by simp [ht]), List.length_cons,
        List.length_cons]
      omega

theorem Block.length_tests (b : Block) :
    (b.tests false).length + (b.tests true).length = b.run.countP Cell.isTest := by
  rw [Block.tests, Block.tests, length_filter_hidden, List.length_map, List.countP_eq_length_filter]

/-- The tests of a master are the cases of the files of its pieces. -/
theorem countP_isTest {ps : List Piece} {cells : List Cell} (h : Layout ps cells) :
    cells.countP Cell.isTest = ((ps.flatMap Piece.files).map TestFile.caseCount).sum := by
  induction h with
  | nil => rfl
  | free hc _ ih =>
    rw [List.countP_cons_of_neg (by simp [hc.2]), ih]
    rfl
  | bare hc _ =>
    rw [List.countP_cons_of_neg (by simp [Cell.isTest_of_isQuestion hc])]
    simp [Piece.files, Block.files, Block.tiers, Block.tests, Block.run]
  | @block c r q run rest ps hc _ hr _ _ _ ih =>
    have hfiles := Block.caseCount_files ⟨c, q, some ⟨r, run⟩⟩
    rw [Block.length_tests] at hfiles
    rw [List.countP_cons_of_neg (by simp [Cell.isTest_of_isQuestion hc]),
      List.countP_cons_of_neg (by simp [hr.2.1]), List.countP_append, ih, List.flatMap_cons, List.map_append,
      List.sum_append]
    exact congrArg (· + _) hfiles.symm

theorem caseCount_pos {ps : List Piece} {f : TestFile} (h : f ∈ ps.flatMap Piece.files) : 0 < f.caseCount := by
  obtain ⟨p, -, hf⟩ := List.mem_flatMap.mp h
  cases p with
  | free c => cases hf
  | block b =>
    obtain ⟨hidden, htier, rfl⟩ := List.mem_map.mp hf
    rw [caseCount_compile]
    exact List.length_pos_iff.mpr (Block.mem_tiers.mp htier)

theorem Layout.exists_block_of_isTest {ps : List Piece} {cells : List Cell} (h : Layout ps cells) {c : Cell}
    (hc : c ∈ cells) (ht : c.isTest = true) : ∃ b, .block b ∈ ps ∧ c ∈ b.run := by
  induction h with
  | nil => cases hc
  | @free c' ps rest hfree _ ih =>
    rcases List.mem_cons.mp hc with rfl | hc
    · rw [hfree.2] at ht; cases ht
    · obtain ⟨b, hb, hrun⟩ := ih hc
      exact ⟨b, List.mem_cons_of_mem _ hb, hrun⟩
  | bare hq _ =>
    obtain rfl := List.mem_singleton.mp hc
    rw [Cell.isTest_of_isQuestion hq] at ht
    cases ht
  | @block c' r q run rest ps hq _ hr _ _ _ ih =>
    rcases List.mem_cons.mp hc with rfl | hc
    · rw [Cell.isTest_of_isQuestion hq] at ht; cases ht
    · rcases List.mem_cons.mp hc with rfl | hc
      · rw [hr.2.1] at ht; cases ht
      · rcases List.mem_append.mp hc with hc | hc
        · exact ⟨_, List.mem_cons_self .., hc⟩
        · obtain ⟨b, hb, hrun⟩ := ih hc
          exact ⟨b, List.mem_cons_of_mem _ hb, hrun⟩

/-! ## Two questions with a test each -/

/-- A question with an empty answer and one test, whose marker is given. -/
def tested (name marker : String) : Block :=
  ⟨Cell.markdown ("\x60\x60\x60\nBEGIN QUESTION\nname: " ++ name ++ "\n\x60\x60\x60"),
    ⟨name, false, "", none, none, none⟩, some ⟨Cell.code "", [Cell.code (marker ++ "\n1 + 1")]⟩⟩

/-- A hidden test of a question `a`, and a public test of a question that has another name. -/
def hiddenThenPublic (name : String) : List Block := [tested "a" "## hidden test ##", tested name "## test ##"]

def Block.source (b : Block) : List Cell := b.opener :: (b.answer.map fun a => a.response :: a.run).getD []

theorem layout_hiddenThenPublic {name : String} (hc : (tested name "## test ##").opener.isQuestion = .ok true)
    (hq : Question.ofCell (tested name "## test ##").opener = .ok (tested name "## test ##").question)
    (hgoesOn : (tested name "## test ##").opener.goesOn = false) :
    Layout ((hiddenThenPublic name).map .block) ((hiddenThenPublic name).flatMap Block.source) := by
  have hresponse : (Cell.code "").IsResponse := ⟨rfl, by decide +kernel, by decide +kernel⟩
  refine .block (by decide +kernel) (by decide +kernel) hresponse (by decide +kernel) ?_
    (.block hc hq hresponse (by decide +kernel) (by simp) .nil)
  intro x hx
  cases hx
  exact hgoesOn

/-! ## What is stored -/

/-- What is stored of an accepted master over a table that is empty: never more cases than it has
    tests; as many, and under distinct stems, exactly when its tiers are apart; then every test
    has its case in the file of its question and tier. -/
theorem stored_cases_iff_apart {cells : List Cell} {s : Segmented} {files : Store.Memory.Files}
    (h : (segment Store.memory cells).outcome Store.Memory.empty = (.ok s, files)) :
    ∃ ps, Layout ps cells ∧
      (s.stems.Nodup ↔ Apart ps) ∧
      (Store.Memory.storedCases files = cells.countP Cell.isTest ↔ Apart ps) ∧
      Store.Memory.storedCases files ≤ cells.countP Cell.isTest ∧
      (Apart ps → ∀ c ∈ cells, c.isTest = true → ∃ b, .block b ∈ ps ∧ c ∈ b.run ∧ ∃ f,
        Table.find? (TestFile.stemOf b.question.name (Test.ofCell c).hidden) files = some f ∧
        f = TestFile.compile b.question (b.tests (Test.ofCell c).hidden) (Test.ofCell c).hidden ∧
        ∃ suite ∈ f.suites, (Test.ofCell c).toCase ∈ suite.cases) := by
  rw [segment_memory_outcome] at h
  obtain ⟨o, ho⟩ : ∃ o, (read cells).result = .ok o := by
    cases hr : (read cells).result with
    | error f => rw [hr] at h; cases h
    | ok o => exact ⟨o, rfl⟩
  obtain ⟨ps, hps⟩ := (read_ok_iff_layout cells).mp ⟨o, ho⟩
  rw [read_of_layout hps] at h
  obtain ⟨rfl, rfl⟩ : _ = s ∧ _ = files := by simpa [Except.map] using h
  have hnodup := nodup_stems_iff_apart ps
  have hle := Store.Memory.total_savedIn_le TestFile.caseCount (ps.flatMap Piece.files) Table.sorted_nil
  have hpositive : ∀ f ∈ ps.flatMap Piece.files, 0 < f.caseCount := fun f hf => caseCount_pos hf
  have hall := Store.Memory.total_savedIn_eq_iff Table.sorted_nil hpositive (by simp)
  have hempty : Table.total TestFile.caseCount [] = 0 := rfl
  rw [hempty, Nat.zero_add, ← countP_isTest hps] at hle hall
  refine ⟨ps, hps, hnodup, ?_, hle, fun hapart c hc ht => ?_⟩
  · rw [← hnodup]
    exact hall.trans ⟨And.left, fun hn => ⟨hn, fun f _ => by simp [Table.keys]⟩⟩
  · obtain ⟨b, hb, hrun⟩ := hps.exists_block_of_isTest hc ht
    have htest : Test.ofCell c ∈ b.tests (Test.ofCell c).hidden := by
      refine List.mem_filter.mpr ⟨List.mem_map.mpr ⟨c, List.mem_filter.mpr ⟨hrun, ht⟩, rfl⟩, ?_⟩
      exact beq_self_eq_true _
    have htier : (Test.ofCell c).hidden ∈ b.tiers := Block.mem_tiers.mpr (List.ne_nil_of_mem htest)
    have hfile : TestFile.compile b.question (b.tests (Test.ofCell c).hidden) (Test.ofCell c).hidden ∈
        ps.flatMap Piece.files := List.mem_flatMap.mpr ⟨_, hb, List.mem_map.mpr ⟨_, htier, rfl⟩⟩
    exact ⟨b, hb, hrun, _, Store.Memory.find?_savedIn_of_mem (hnodup.mpr hapart) hfile Store.Memory.empty, rfl,
      _, List.mem_singleton.mpr rfl, List.mem_map.mpr ⟨_, htest, rfl⟩⟩

/-- The hidden test of `a` and the public test of `b` are both stored. -/
theorem hiddenThenPublic_is_stored : ∃ s files,
    (segment Store.memory ((hiddenThenPublic "b").flatMap Block.source)).outcome Store.Memory.empty = (.ok s, files) ∧
      s.stems.Nodup ∧ Store.Memory.storedCases files = 2 := by
  have hlayout := @layout_hiddenThenPublic "b" (by decide +kernel) (by decide +kernel) (by decide +kernel)
  have hapart : Apart ((hiddenThenPublic "b").map .block) := by decide +kernel
  have houtcome := segment_memory_outcome ((hiddenThenPublic "b").flatMap Block.source) Store.Memory.empty
  rw [read_of_layout hlayout] at houtcome
  obtain ⟨ps, hps, hstems, hcases, -, -⟩ := stored_cases_iff_apart houtcome
  obtain rfl := hps.unique hlayout
  exact ⟨_, _, houtcome, hstems.mpr hapart, (hcases.mpr hapart).trans (by decide +kernel)⟩

/-- A master is accepted that loses a test: the public test of `aH` takes the place of the hidden
    test of `a`, under a stem that is listed twice. -/
theorem hiddenThenPublic_loses_a_test : ∃ s files,
    (segment Store.memory ((hiddenThenPublic "aH").flatMap Block.source)).outcome Store.Memory.empty = (.ok s, files) ∧
      ¬ s.stems.Nodup ∧
      Store.Memory.storedCases files ≠ ((hiddenThenPublic "aH").flatMap Block.source).countP Cell.isTest := by
  have hlayout := @layout_hiddenThenPublic "aH" (by decide +kernel) (by decide +kernel) (by decide +kernel)
  have houtcome := segment_memory_outcome ((hiddenThenPublic "aH").flatMap Block.source) Store.Memory.empty
  rw [read_of_layout hlayout] at houtcome
  exact ⟨_, _, houtcome, by decide +kernel, by decide +kernel⟩

end Segment
end Handout
