/-
  Handout.Proofs.Segment.Tiers — the tier of a test follows its marker.

  A reading keeps the tests of an open question by tier, each from a test cell that says so
  itself (`Gathers`). A step adds at most the test of its own cell, to the tier of that cell
  (`Takes.gathers`), and what is saved is what was kept (`saved_gathered`), also where a cell is
  refused later. A cell that is marked as hidden says that it is hidden, so no file of the public
  tier has its test.

  Proved:
  - `tier_follows_marker`: the markers are read by their grammar, no cell has two of them, and the
    files of the public tier are made of test cells that are not marked as hidden.
-/

import Handout.Proofs.Cell.Grammar
import Handout.Proofs.Segment.Refusal

namespace Handout

open Marker (Begins testMark hiddenTestMark solutionMark boldSolutionMark)

/-- A cell whose first line begins with the marker of a hidden test. -/
def Cell.IsMarkedHidden (c : Cell) : Prop := ∃ line, c.source.head? = some line ∧ Begins hiddenTestMark line

namespace Cell

theorem firstLine_iff {p : String → Bool} {c : Cell} :
    c.firstLine p = true ↔ ∃ line, c.source.head? = some line ∧ p line = true := by
  unfold firstLine
  cases c.source.head? <;> simp

theorem isTest_iff_begins {c : Cell} :
    c.isTest = true ↔ c.kind = .code ∧ ∃ line, c.source.head? = some line ∧ Begins testMark line := by
  simp only [isTest, isCode, Bool.and_eq_true, beq_iff_eq, firstLine_iff, Marker.isTest_iff]

theorem isSolution_iff_begins {c : Cell} : c.isSolution = true ↔
    (c.kind = .code ∧ ∃ line, c.source.head? = some line ∧ Begins solutionMark line) ∨
      (c.kind = .markdown ∧ ∃ line ∈ c.source, Begins boldSolutionMark line) := by
  unfold isSolution
  cases hkind : c.kind with
  | markdown => simp [isMarkdownSolution, isMarkdown, hkind, Marker.isBoldSolution_iff]
  | code => simp [firstLine_iff, Marker.isSolution_iff]
  | raw => simp

theorem hidden_ofCell {c : Cell} (h : c.IsMarkedHidden) : (Test.ofCell c).hidden = true := by
  obtain ⟨line, hline, hbegins⟩ := h
  exact firstLine_iff.mpr ⟨line, hline, Marker.isHidden_of_begins hbegins⟩

end Cell

namespace Segment

variable {cells front : List Cell} {c : Cell} {s t : State} {q : OpenQuestion}

/-! ## What an open question keeps -/

/-- Tests of one tier that are those of some test cells of a list, in its order. -/
def Gathered (hidden : Bool) (cells : List Cell) (ts : List Test) : Prop :=
  ∃ cs : List Cell, cs.Sublist cells ∧ (∀ c ∈ cs, c.isTest = true ∧ (Test.ofCell c).hidden = hidden) ∧
    ts = cs.map Test.ofCell

theorem Gathered.nil (hidden : Bool) (cells : List Cell) : Gathered hidden cells [] :=
  ⟨[], List.nil_sublist _, by simp, rfl⟩

theorem Gathered.mono {hidden : Bool} {ts : List Test} (h : Gathered hidden front ts) (hsub : front.Sublist cells) :
    Gathered hidden cells ts := by
  obtain ⟨cs, hcs, htier, hts⟩ := h
  exact ⟨cs, hcs.trans hsub, htier, hts⟩

theorem Gathered.snoc {ts : List Test} (h : Gathered (Test.ofCell c).hidden front ts) (hc : c.isTest = true) :
    Gathered (Test.ofCell c).hidden (front ++ [c]) (ts ++ [Test.ofCell c]) := by
  obtain ⟨cs, hcs, htier, rfl⟩ := h
  refine ⟨cs ++ [c], hcs.append (List.Sublist.refl _), ?_, by simp⟩
  intro d hd
  rcases List.mem_append.mp hd with hd | hd
  · exact htier d hd
  · rw [List.mem_singleton.mp hd]
    exact ⟨hc, rfl⟩

/-- The tests of both tiers are those of test cells that have been read. -/
def OpenQuestion.Gathers (q : OpenQuestion) (cells : List Cell) : Prop :=
  Gathered false cells q.tests ∧ Gathered true cells q.hiddenTests

def State.Gathers : State → List Cell → Prop
  | .idle, _ => True
  | .awaiting q, cells | .responding q, cells => q.Gathers cells

theorem OpenQuestion.Gathers.mono (h : q.Gathers front) (hsub : front.Sublist cells) : q.Gathers cells :=
  ⟨h.1.mono hsub, h.2.mono hsub⟩

/-- A test goes to the tier that its cell says. -/
theorem OpenQuestion.Gathers.add (h : q.Gathers front) (hc : c.isTest = true) :
    (q.add (Test.ofCell c)).Gathers (front ++ [c]) := by
  have hlonger : q.Gathers (front ++ [c]) := h.mono (List.sublist_append_left _ _)
  unfold OpenQuestion.add
  split
  · rename_i htier
    refine ⟨hlonger.1, ?_⟩
    have hhidden := h.2
    rw [← htier] at hhidden ⊢
    exact hhidden.snoc hc
  · rename_i htier
    refine ⟨?_, hlonger.2⟩
    have hpublic := h.1
    rw [← Bool.eq_false_iff.mpr htier] at hpublic ⊢
    exact hpublic.snoc hc

/-! ## Steps and readings -/

/-- Only a test adds to what is kept. -/
theorem Takes.gathers {saved : List TestFile} (h : Takes s c saved t) (hs : s.Gathers front) :
    t.Gathers (front ++ [c]) := by
  have hsub : front.Sublist (front ++ [c]) := List.sublist_append_left _ _
  induction h with
  | free _ => trivial
  | opener _ _ => exact ⟨.nil _ _, .nil _ _⟩
  | response _ _ => exact OpenQuestion.Gathers.mono hs hsub
  | test hc => exact OpenQuestion.Gathers.add hs hc
  | solution _ => exact OpenQuestion.Gathers.mono hs hsub
  | closer _ _ ih => exact ih trivial hsub

/-- The file of a tier, made of the tests of some cells that say that they are of this tier. -/
def FiledFrom (cells : List Cell) (f : TestFile) : Prop :=
  ∃ (q : Question) (cs : List Cell), cs.Sublist cells ∧
    (∀ c ∈ cs, c.isTest = true ∧ (Test.ofCell c).hidden = f.hidden) ∧ f = .compile q (cs.map Test.ofCell) f.hidden

theorem FiledFrom.mono {f : TestFile} (h : FiledFrom front f) (hsub : front.Sublist cells) : FiledFrom cells f := by
  obtain ⟨q, cs, hcs, htier, hf⟩ := h
  exact ⟨q, cs, hcs.trans hsub, htier, hf⟩

theorem OpenQuestion.Gathers.files (h : q.Gathers cells) : ∀ f ∈ q.files, FiledFrom cells f := by
  obtain ⟨⟨cs, hcs, htier, hts⟩, ds, hds, htier', hts'⟩ := h
  intro f hf
  rw [OpenQuestion.files, List.mem_append] at hf
  rcases hf with hf | hf
  · split at hf
    · cases hf
    · rw [List.mem_singleton.mp hf, hts]
      exact ⟨q.question, cs, hcs, htier, rfl⟩
  · split at hf
    · cases hf
    · rw [List.mem_singleton.mp hf, hts']
      exact ⟨q.question, ds, hds, htier', rfl⟩

/-- A step saves what was kept, whether its cell is taken or not. -/
theorem saved_of_gathers (hs : s.Gathers front) (c : Cell) : ∀ f ∈ (s.feed c).saved, FiledFrom front f := by
  intro f hf
  rw [saved_of_feed] at hf
  obtain ⟨q, hq, hfile⟩ := List.mem_flatMap.mp hf
  cases s with
  | idle => cases hq
  | awaiting p => cases hq
  | responding p =>
    have hopen : q ∈ if c.goesOn = true then [] else [p] := hq
    split at hopen
    · cases hopen
    · obtain rfl := List.mem_singleton.mp hopen
      exact OpenQuestion.Gathers.files hs f hfile

theorem finish_gathered (hs : s.Gathers front) : ∀ f ∈ s.finish.saved, FiledFrom front f := by
  cases s with
  | idle => simp [State.finish]
  | awaiting q | responding q => exact OpenQuestion.Gathers.files hs

theorem saved_gathered (hs : s.Gathers front) (cells : List Cell) :
    ∀ f ∈ (readFrom s cells).saved, FiledFrom (front ++ cells) f := by
  induction cells generalizing s front with
  | nil =>
    rw [List.append_nil]
    exact finish_gathered hs
  | cons c cells ih =>
    have hfirst : ∀ f ∈ (s.feed c).saved, FiledFrom (front ++ c :: cells) f := fun f hf =>
      (saved_of_gathers hs c f hf).mono (List.sublist_append_left _ _)
    cases hfeed : (s.feed c).result with
    | error g =>
      have hstep : s.feed c = ⟨(s.feed c).saved, .error g⟩ := by rw [← hfeed]
      rw [readFrom_cons_error hstep]
      exact hfirst
    | ok r =>
      obtain ⟨t, out⟩ := r
      rw [readFrom_cons_of_feed hfeed]
      intro f hf
      rcases List.mem_append.mp hf with hf | hf
      · exact hfirst f hf
      · have hrest := ih ((takes_of_feed hfeed).gathers hs) f hf
        rwa [List.append_assoc] at hrest

/-! ## Cells and files -/

/-- The marker of a test and those of solutions are recognised exactly by their grammar, no cell has both, and a
    test that is marked as hidden is read as hidden. Whatever list of cells is read, a file of the public
    tier that is saved is made of test cells that are not marked so. -/
theorem tier_follows_marker :
    (∀ c : Cell,
      (c.isTest = true ↔ c.kind = .code ∧ ∃ line, c.source.head? = some line ∧ Begins testMark line) ∧
      (c.isSolution = true ↔
        (c.kind = .code ∧ ∃ line, c.source.head? = some line ∧ Begins solutionMark line) ∨
          (c.kind = .markdown ∧ ∃ line ∈ c.source, Begins boldSolutionMark line)) ∧
      ¬ (c.isTest = true ∧ c.isSolution = true) ∧
      (c.isTest = true → c.IsMarkedHidden → (Test.ofCell c).hidden = true)) ∧
    ∀ cells, ∀ f ∈ (read cells).saved, f.hidden = false →
      ∃ (q : Question) (cs : List Cell), cs.Sublist cells ∧ (∀ c ∈ cs, c.isTest = true ∧ ¬ c.IsMarkedHidden) ∧
        f = .compile q (cs.map Test.ofCell) false := by
  constructor
  · intro c
    refine ⟨Cell.isTest_iff_begins, Cell.isSolution_iff_begins, ?_, fun _ h => Cell.hidden_ofCell h⟩
    rintro ⟨htest, hsolution⟩
    rw [Cell.not_isSolution_of_isTest htest] at hsolution
    cases hsolution
  · intro cells f hf hpublic
    obtain ⟨q, cs, hsub, htier, hfile⟩ := @saved_gathered [] .idle trivial cells f hf
    rw [hpublic] at htier hfile
    refine ⟨q, cs, hsub, fun c hc => ⟨(htier c hc).1, fun hmarked => ?_⟩, hfile⟩
    have hhidden := (htier c hc).2
    rw [Cell.hidden_ofCell hmarked] at hhidden
    cases hhidden

/-- A test that is marked as hidden in capitals, with a wide space and a long s. -/
def markedTest : Cell := Cell.code "##HIDDEN\u2003te\u017ft ##\n1 + 1"

theorem markedTest_isMarkedHidden : markedTest.IsMarkedHidden := by
  refine ⟨"##HIDDEN\u2003te\u017ft ##", by decide +kernel, ?_⟩
  have hhashes : ['#', '#'] ∈ Marker.spelled Marker.hashes := by
    simp [Marker.mem_spelled, Marker.hashes, Marker.spellings]
  have hhidden : "HIDDEN".toList ∈ Marker.spelled "hidden".toList := by
    simp [Marker.mem_spelled, Marker.spellings]
  have htest : "te\u017ft".toList ∈ Marker.spelled "test".toList := by
    simp [Marker.mem_spelled, Marker.spellings]
  have hblank : ∀ s : List Char, (s.all Text.isBlank) = true → s ∈ Marker.blanks := fun s hs => List.all_eq_true.mp hs
  have hmark := Language.append_mem_mul (Language.append_mem_mul (Language.append_mem_mul (Language.append_mem_mul
    (Language.append_mem_mul hhashes (hblank [] rfl)) (Language.append_mem_mul hhidden (hblank ['\u2003'] (by decide))))
    htest) (hblank [' '] (by decide))) hhashes
  exact Language.append_mem_mul hmark (Marker.mem_top [])

theorem markedTest_is_not_public :
    markedTest.isTest = true ∧ markedTest.IsMarkedHidden ∧ (Test.ofCell markedTest).hidden = true ∧
      ∃ f ∈ (read [questionA, Cell.code "", publicTest, markedTest]).saved, f.hidden = false ∧
        ∃ (q : Question) (cs : List Cell), cs.Sublist [questionA, Cell.code "", publicTest, markedTest] ∧
          (∀ c ∈ cs, c.isTest = true ∧ ¬ c.IsMarkedHidden) ∧ f = .compile q (cs.map Test.ofCell) false := by
  have htest : markedTest.isTest = true := by decide +kernel
  have hhidden := (tier_follows_marker.1 markedTest).2.2.2 htest markedTest_isMarkedHidden
  have hsaved : TestFile.compile ⟨"a", false, "", none, none, none⟩ [Test.ofCell publicTest] false ∈
      (read [questionA, Cell.code "", publicTest, markedTest]).saved := by decide +kernel
  exact ⟨htest, markedTest_isMarkedHidden, hhidden, _, hsaved, rfl, tier_follows_marker.2 _ _ hsaved rfl⟩

end Segment
end Handout
