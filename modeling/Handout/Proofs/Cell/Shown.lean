/-
  Handout.Proofs.Cell.Shown — cells as their readers see them.

  A reader sees the text of a cell, which ends a line wherever a line end stands; what a
  cell is for is judged by its stored lines, and one of these may hold line ends inside.
  A cell leaks when a reader sees a solution in it that its stored lines do not show
  (`leaks`). Only a markdown cell can (`leaks_of_kind_ne_markdown`), and only by a stored
  line with a line end inside (`exists_broken_of_leaks`).

  Proved:
  - `isBoldSolution_break`: the first line of a text is marked as a markdown solution
    exactly when the text is.
  - `isSolution_append`: a beginning that is marked as a code solution marks the whole.
  - `leaks_prompt`: the prompt of a question leaks exactly when its cell does.
-/

import Handout.Proofs.Question.Prompt
import Handout.Proofs.Cell.Marker
import Handout.Proofs.Text.Blank
import Handout.Proofs.Text.Lines

namespace Handout

/-! ## Markers and line ends -/

namespace Marker

theorem afterWord?_break {w : List Char} (h : '\n' ∉ w) (a b : List Char) :
    afterWord? w (a ++ '\n' :: b) = (afterWord? w a).map (· ++ '\n' :: b) := by
  induction w generalizing a with
  | nil => rfl
  | cons x w ih =>
    rw [List.mem_cons, not_or] at h
    cases a with
    | nil =>
      have hfold : fold '\n' ≠ x := by
        rw [show fold '\n' = '\n' by decide]
        exact h.1
      simp [afterWord?, hfold]
    | cons c a =>
      by_cases hc : fold c = x
      · simp [afterWord?, hc, ih h.2]
      · simp [afterWord?, hc]

theorem afterBold?_break {tag : List Char} (h : '\n' ∉ tag) (a b : List Char) :
    afterBold? tag (a ++ '\n' :: b) = (afterBold? tag a).map (· ++ '\n' :: b) := by
  rw [afterBold?, afterBold?, afterWord?_break h, afterWord?_break (by decide), Option.map_or]

/-- What comes after a line end does not make a line bold. -/
theorem isBoldSolution_break (a b : List Char) :
    isBoldSolution (String.ofList (a ++ '\n' :: b)) = isBoldSolution (String.ofList a) := by
  have hcolon : ∀ s : List Char, (afterWord? [':'] (s ++ '\n' :: b)).getD (s ++ '\n' :: b) =
      (afterWord? [':'] s).getD s ++ '\n' :: b := by
    intro s
    rw [afterWord?_break (by decide)]
    cases afterWord? [':'] s <;> rfl
  unfold isBoldSolution
  simp only [String.toList_ofList, afterBold?_break (show '\n' ∉ "<strong>".toList by decide), Option.bind_eq_bind]
  cases afterBold? "<strong>".toList a with
  | none => rfl
  | some s =>
    simp only [Option.map_some, Option.bind_some, afterWord?_break (show '\n' ∉ "solution".toList by decide)]
    cases afterWord? "solution".toList s with
    | none => rfl
    | some r =>
      simp only [Option.map_some, Option.bind_some, hcolon,
        afterBold?_break (show '\n' ∉ "</strong>".toList by decide), Option.isSome_map]

theorem afterWord?_append {w s r : List Char} (h : afterWord? w s = some r) (t : List Char) :
    afterWord? w (s ++ t) = some (r ++ t) := by
  induction w generalizing s with
  | nil =>
    cases h
    rfl
  | cons x w ih =>
    cases s with
    | nil => cases h
    | cons c s =>
      simp only [afterWord?] at h
      split at h
      · rename_i hc
        simp [afterWord?, hc, ih h]
      · cases h

/-- The white space that is skipped ends where something else follows. -/
theorem afterPart?_append {w s r : List Char} (h : afterPart? w s = some r) (hr : r ≠ []) (t : List Char) :
    afterPart? w (s ++ t) = some (r ++ t) := by
  obtain ⟨r', hr', rfl⟩ := Option.map_eq_some_iff.mp h
  have hempty : (r'.dropWhile Text.isBlank).isEmpty = false := by
    rw [List.isEmpty_eq_false_iff]
    exact hr
  rw [afterPart?, afterWord?_append hr', Option.map_some, Text.trimStart, Text.trimStart, List.dropWhile_append, hempty,
    if_neg (by simp)]

theorem isSolution_append {a : List Char} (h : isSolution (String.ofList a) = true) (b : List Char) :
    isSolution (String.ofList (a ++ b)) = true := by
  obtain ⟨_, h⟩ := Option.isSome_iff_exists.mp h
  obtain ⟨r, hr, hnext⟩ := Option.bind_eq_some_iff.mp h
  obtain ⟨r', hsolution, hlast⟩ := Option.bind_eq_some_iff.mp hnext
  rw [String.toList_ofList] at hr
  have hne : r ≠ [] := by
    obtain ⟨_, _, rfl, -⟩ := exists_head_of_afterPart? hsolution
    simp
  have hne' : r' ≠ [] := by
    obtain ⟨_, _, rfl, -⟩ := exists_head_of_afterWord? hlast
    simp
  simp only [isSolution, String.toList_ofList, Option.bind_eq_bind, afterPart?_append hr hne, Option.bind_some,
    afterPart?_append hsolution hne', afterWord?_append hlast, Option.isSome_some]

/-- A bold solution begins with a bracket or a star. -/
theorem head_of_isBoldSolution {line : String} (h : isBoldSolution line = true) :
    ∃ c s, line.toList = c :: s ∧ (fold c = '<' ∨ fold c = '*') := by
  obtain ⟨_, h⟩ := Option.isSome_iff_exists.mp h
  obtain ⟨r, hr, -⟩ := Option.bind_eq_some_iff.mp h
  rcases Option.or_eq_some_iff.mp hr with hr | ⟨-, hr⟩
  · obtain ⟨c, s, hline, hc⟩ := exists_head_of_afterWord? hr
    exact ⟨c, s, hline, Or.inl hc⟩
  · obtain ⟨c, s, hline, hc⟩ := exists_head_of_afterWord? hr
    exact ⟨c, s, hline, Or.inr hc⟩

/-- White space is no letter, so folding leaves it as it is. -/
theorem fold_of_isBlank {c : Char} (h : Text.isBlank c = true) : fold c = c := by
  have hn := h
  simp only [Text.isBlank, Bool.or_eq_true, Bool.and_eq_true, decide_eq_true_eq, beq_iff_eq] at hn
  have hlower : ¬ (c.val ≥ 'A'.val ∧ c.val ≤ 'Z'.val) := by
    have htoNat : c.val.toNat = c.toNat := rfl
    have hA : 'A'.val.toNat = 65 := rfl
    have hZ : 'Z'.val.toNat = 90 := rfl
    simp only [ge_iff_le, UInt32.le_iff_toNat_le, not_and]
    omega
  have hsame : c.toLower = c := dif_neg hlower
  unfold fold
  rw [if_neg (by omega), if_neg (by omega), hsame]

end Marker

/-! ## Lines within lines -/

namespace Marker

/-- Whether a reader sees a markdown solution in a stored line. -/
def showsBold (line : String) : Bool := (Text.linesOf line).any isBoldSolution

/-- A bold line is seen as one. -/
theorem showsBold_of_isBoldSolution {line : String} (h : isBoldSolution line = true) : showsBold line = true := by
  obtain ⟨l, rest, hhead, hsplit, hrest⟩ := Text.head?_split line.toList
  have hbold : isBoldSolution (String.ofList l) = true := by
    rw [← String.ofList_toList (s := line), hsplit] at h
    rcases hrest with rfl | ⟨r, rfl⟩
    · rwa [List.append_nil] at h
    · rwa [isBoldSolution_break] at h
  exact List.any_eq_true.mpr ⟨_, List.mem_map.mpr ⟨l, List.mem_of_head? hhead, rfl⟩, hbold⟩

theorem showsBold_of_notMem {line : String} (h : '\n' ∉ line.toList) : showsBold line = isBoldSolution line := by
  rw [showsBold, Text.linesOf_of_notMem h, List.any_cons, List.any_nil, Bool.or_false]

/-- A closing fence with all the white space around it shows nothing bold. -/
theorem not_showsBold_of_isClosingFence {line : String} (h : Question.isClosingFence line = true) :
    showsBold line = false := by
  rw [Bool.eq_false_iff]
  intro hshown
  obtain ⟨l, hl, hbold⟩ := List.any_eq_true.mp hshown
  obtain ⟨cs, hcs, rfl⟩ := List.mem_map.mp hl
  obtain ⟨c, s, hline, hc⟩ := head_of_isBoldSolution hbold
  have hmem : c ∈ line.toList := Text.mem_of_mem_split hcs (by
    rw [String.toList_ofList] at hline
    exact hline ▸ List.mem_cons_self ..)
  rcases Text.isBlank_or_mem_trim hmem with hblank | htrim
  · rw [fold_of_isBlank hblank] at hc
    rcases hc with rfl | rfl <;> exact absurd hblank (by decide)
  · have hfence : c ∈ Question.fence.toList := (beq_iff_eq.mp h) ▸ htrim
    obtain rfl : c = '\x60' := by simpa [Question.fence] using hfence
    exact absurd hc (by decide)

theorem not_isBoldSolution_of_isClosingFence {line : String} (h : Question.isClosingFence line = true) :
    isBoldSolution line = false := by
  rw [Bool.eq_false_iff]
  intro hbold
  exact absurd (showsBold_of_isBoldSolution hbold) (by simp [not_showsBold_of_isClosingFence h])

end Marker

/-! ## Cells as they are shown -/

namespace Cell

/-- The cell with the lines that its text has. -/
def asShown (c : Cell) : Cell := { c with source := Text.linesOf c.text }

/-- A reader sees a solution in the cell, and its stored lines show none. -/
def leaks (c : Cell) : Bool := c.asShown.isSolution && ! c.isSolution

theorem source_asShown {c : Cell} (h : c.source ≠ []) : c.asShown.source = c.source.flatMap Text.linesOf :=
  Text.linesOf_textOf h

/-- A cell without a source is shown as an empty line. -/
theorem source_asShown_of_nil {c : Cell} (h : c.source = []) : c.asShown.source = [""] := by
  simp only [asShown, text, h]
  decide

/-- A markdown cell shows a solution when one of its stored lines does. -/
theorem isSolution_asShown_of_isMarkdown {c : Cell} (h : c.kind = .markdown) :
    c.asShown.isSolution = c.source.any Marker.showsBold := by
  have hunfold : c.asShown.isSolution = c.asShown.source.any Marker.isBoldSolution := by
    have hkind : c.asShown.kind = .markdown := h
    simp [isSolution, isMarkdownSolution, isMarkdown, hkind]
  rw [hunfold]
  cases hs : c.source with
  | nil =>
    rw [source_asShown_of_nil hs]
    decide
  | cons l ls =>
    rw [source_asShown (by simp [hs]), hs, List.any_flatMap]
    rfl

theorem isSolution_of_isMarkdown {c : Cell} (h : c.kind = .markdown) :
    c.isSolution = c.source.any Marker.isBoldSolution := by
  simp [isSolution, isMarkdownSolution, isMarkdown, h]

/-- What a reader takes for a code solution is one: only white space may stand where its first
    line ends, and more text makes no difference. -/
theorem leaks_of_kind_ne_markdown {c : Cell} (h : c.kind ≠ .markdown) : c.leaks = false := by
  cases hk : c.kind with
  | markdown => exact absurd hk h
  | raw =>
    have hshown : c.asShown.isSolution = false := by
      have hkind : c.asShown.kind = .raw := hk
      simp [isSolution, hkind]
    rw [leaks, hshown, Bool.false_and]
  | code =>
    have hshown : c.asShown.isSolution = c.asShown.source.head?.any Marker.isSolution := by
      have hkind : c.asShown.kind = .code := hk
      simp [isSolution, firstLine, hkind]
    have hstored : c.isSolution = c.source.head?.any Marker.isSolution := by simp [isSolution, firstLine, hk]
    rw [leaks, hshown, hstored]
    cases hs : c.source with
    | nil =>
      rw [source_asShown_of_nil hs]
      decide
    | cons l ls =>
      rw [source_asShown (by simp [hs]), hs]
      obtain ⟨first, rest, hhead, hsplit, -⟩ := Text.head?_split l.toList
      have hfirst : ((l :: ls).flatMap Text.linesOf).head? = some (String.ofList first) := by
        rw [List.flatMap_cons, List.head?_append, Text.linesOf, List.head?_map, hhead]
        rfl
      rw [hfirst, List.head?_cons, Option.any_some, Option.any_some]
      cases hm : Marker.isSolution (String.ofList first) with
      | false => rfl
      | true =>
        have hwhole := Marker.isSolution_append hm rest
        rw [← hsplit, String.ofList_toList] at hwhole
        rw [hwhole]
        rfl

/-- A cell whose stored lines are lines shows what it stores. -/
theorem leaks_of_unbroken {c : Cell} (h : ∀ l ∈ c.source, '\n' ∉ l.toList) : c.leaks = false := by
  cases hk : c.kind with
  | code => exact leaks_of_kind_ne_markdown (by simp [hk])
  | raw => exact leaks_of_kind_ne_markdown (by simp [hk])
  | markdown =>
    have hany : c.source.any Marker.showsBold = c.source.any Marker.isBoldSolution := by
      rw [Bool.eq_iff_iff, List.any_eq_true, List.any_eq_true]
      exact exists_congr fun l => and_congr_right fun hl => by rw [Marker.showsBold_of_notMem (h l hl)]
    rw [leaks, isSolution_asShown_of_isMarkdown hk, isSolution_of_isMarkdown hk, hany, Bool.and_not_self]

theorem leaks_of_isSolution {c : Cell} (h : c.isSolution = true) : c.leaks = false := by
  rw [leaks, h]
  exact Bool.and_false _

theorem leaks_of_isTest {c : Cell} (h : c.isTest = true) : c.leaks = false :=
  leaks_of_kind_ne_markdown (by rw [kind_of_isTest h]; decide)

/-! ## Generated cells -/

theorem leaks_ofText (kind : CellKind) (text : String) : (ofText kind text).leaks = false :=
  leaks_of_unbroken fun _ hl => Text.notMem_of_mem_linesOf hl

theorem leaks_lock_ofText (kind : CellKind) (text : String) : (ofText kind text).lock.leaks = false :=
  leaks_ofText kind text

/-! ## Prompts -/

theorem any_set_of_not {p : String → Bool} {ls : List String} {i : Nat} {new : String}
    (hold : ∀ l, ls[i]? = some l → p l = false) (hnew : p new = false) : (ls.set i new).any p = ls.any p := by
  induction ls generalizing i with
  | nil => rfl
  | cons l ls ih =>
    cases i with
    | zero => simp [hnew, hold l rfl]
    | succ i => simp only [List.set_cons_succ, List.any_cons, ih hold]

/-- Putting in the announcement and replacing the fences changes nothing that can be bold. -/
theorem any_source_prompt {c p : Cell} {manual : Bool} (hc : c.isQuestion = .ok true) (hp : c.prompt manual = .ok p)
    {q : String → Bool} (hfence : ∀ l, Question.isClosingFence l = true → q l = false)
    (hnew : ∀ l ∈ ["", beginQuestionLine, Question.commentOpening, Question.commentClosing], q l = false) :
    p.source.any q = c.source.any q := by
  obtain ⟨b, j, hb, hj, hprompt⟩ := prompt_of_isQuestion hc manual
  rw [hp] at hprompt
  cases hprompt
  obtain ⟨o, -, rfl, -, ho, -, -⟩ := Question.find?_eq_some hb
  obtain ⟨k, hk, rfl⟩ := Option.map_eq_some_iff.mp hj
  obtain ⟨hlt, hclosing, -⟩ := List.findIdx?_eq_some_iff_getElem.mp hk
  have hfirst : ((Question.announced manual c.source).set (o + 1 - 1) Question.commentOpening).any q =
      (Question.announced manual c.source).any q := by
    refine any_set_of_not (fun l hl => ?_) (hnew _ (by simp))
    rw [Nat.add_sub_cancel, ho] at hl
    cases hl
    exact hfence _ (by decide)
  have hsecond : (((Question.announced manual c.source).set (o + 1 - 1) Question.commentOpening).set (o + 1 + k)
      Question.commentClosing).any q = (Question.announced manual c.source).any q := by
    rw [any_set_of_not (fun l hl => ?_) (hnew _ (by simp)), hfirst]
    rw [List.getElem?_set_ne (by omega), ← List.getElem?_drop, List.getElem?_eq_getElem hlt] at hl
    cases hl
    exact hfence _ hclosing
  have hannounced : (Question.announcement manual).any q = false := by
    rw [List.any_eq_false]
    intro l hl
    cases manual with
    | false => cases hl
    | true =>
      rcases List.mem_cons.mp hl with rfl | hl
      · rw [hnew _ (by simp)]; exact Bool.false_ne_true
      · rw [List.mem_singleton.mp hl, hnew _ (by simp)]; exact Bool.false_ne_true
  exact hsecond.trans (by rw [Question.announced_eq, List.any_append, hannounced, Bool.false_or])

/-- The prompt of a question shows and stores what its cell does, as far as solutions go. -/
theorem leaks_prompt {c p : Cell} {manual : Bool} (hc : c.isQuestion = .ok true) (hp : c.prompt manual = .ok p) :
    p.leaks = c.leaks := by
  have hkind : c.kind = .markdown := by simpa [isMarkdown] using (isQuestion_eq_true hc).1
  have hkindp : p.kind = .markdown := by
    obtain ⟨b, j, -, -, hprompt⟩ := prompt_of_isQuestion hc manual
    rw [hp] at hprompt
    cases hprompt
    exact hkind
  rw [leaks, leaks, isSolution_asShown_of_isMarkdown hkind, isSolution_asShown_of_isMarkdown hkindp,
    isSolution_of_isMarkdown hkind, isSolution_of_isMarkdown hkindp,
    any_source_prompt hc hp (fun _ hl => Marker.not_showsBold_of_isClosingFence hl) (by decide),
    any_source_prompt hc hp (fun _ hl => Marker.not_isBoldSolution_of_isClosingFence hl) (by decide)]

end Cell
end Handout
