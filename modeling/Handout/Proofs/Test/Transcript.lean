/-
  Handout.Proofs.Test.Transcript — what becomes of each line of a test in its transcript.

  Rendering goes through the lines once and remembers how the last one ended. What it does
  to a line can be said of the input alone (`renderedAt`): the prompt is read off the line
  and the one before it, the semicolon off the line and the prompt of the next.

  A semicolon that stands at the end of a rendered line may also be the author's. It was
  added exactly when the line would get one without it, so the input is read back from its
  rendered lines (`recoverLines_renderLines`).

  Proved:
  - `renders_line_by_line`: a transcript is the rendered lines and what is expected, and
    gives back its input.
  - `header_is_rendered`: the header of an indented block is suppressed only when an empty
    line stands right after it, which has a prompt of its own
    (`header_before_gap_is_suppressed`); a blank line with white space does no harm.
-/

import Handout.Proofs.Text.Blank
import Handout.Proofs.Text.Lines
import Handout.Test.Transcript

namespace Handout.Transcript

open Text (split join trim isBlank)

/-! ## One line -/

/-- The line at a place; there are empty lines behind the last. -/
def lineAt (ls : List (List Char)) (i : Nat) : List Char := (ls[i]?).getD []

def isIndented (line : List Char) : Bool := line.head?.any isBlank

/-- The line at `i` is indented, or the line before it ends in a backslash. -/
def continuesAt (ls : List (List Char)) (i : Nat) : Bool :=
  isIndented (lineAt ls i) || (0 < i && isEscaped (lineAt ls (i - 1)))

def promptAt (ls : List (List Char)) (i : Nat) : List Char :=
  if continuesAt ls i then continuationPrompt else statementPrompt

/-- A line is suppressed when a statement follows, and it is long enough and does not go on. -/
def suppressedAt (ls : List (List Char)) (i : Nat) : Bool :=
  i + 1 < ls.length && promptAt ls (i + 1) == statementPrompt && (trim (lineAt ls i)).length > shortLine &&
    ! isEscaped (lineAt ls i)

def renderedAt (ls : List (List Char)) (i : Nat) : List Char :=
  promptAt ls i ++ lineAt ls i ++ if suppressedAt ls i then [';'] else []

section

variable {ls rest : List (List Char)} {before l next : List Char} {i : Nat}

theorem lineAt_cons : lineAt (l :: ls) (i + 1) = lineAt ls i := rfl

/-- A line that is not the next one makes no difference. -/
theorem promptAt_cons : promptAt (before :: ls) (i + 2) = promptAt ls (i + 1) := by
  simp [promptAt, continuesAt, lineAt_cons]

theorem suppressedAt_cons : suppressedAt (before :: ls) (i + 1) = suppressedAt ls i := by
  simp [suppressedAt, promptAt_cons, lineAt_cons]

theorem renderedAt_cons : renderedAt (before :: ls) (i + 2) = renderedAt ls (i + 1) := by
  rw [renderedAt, renderedAt, promptAt_cons, suppressedAt_cons, lineAt_cons]

theorem promptAt_one : promptAt (before :: l :: rest) 1 = prompt (isEscaped before) l := by
  simp [promptAt, prompt, continuesAt, continues, isIndented, lineAt, Bool.or_comm]

theorem prompt_eq_statementPrompt (escaped : Bool) (line : List Char) :
    (prompt escaped line == statementPrompt) = ! continues escaped line := by
  unfold prompt
  cases continues escaped line <;> decide

theorem suppressedAt_zero : suppressedAt (l :: next :: rest) 0 = isSuppressed l next := by
  simp [suppressedAt, isSuppressed, promptAt_one, prompt_eq_statementPrompt, lineAt]

/-- Lines that come after another. -/
theorem renderLines_after (before : List Char) (ls : List (List Char)) :
    renderLines (isEscaped before) ls = (List.range ls.length).map fun i => renderedAt (before :: ls) (i + 1) := by
  induction ls generalizing before with
  | nil => rfl
  | cons l rest ih =>
    have hrest : (List.range rest.length).map (fun i => renderedAt (before :: l :: rest) (i + 1 + 1)) =
        renderLines (isEscaped l) rest := by
      simp only [renderedAt_cons, ih l]
    have hfirst : renderedAt (before :: l :: rest) (0 + 1) =
        prompt (isEscaped before) l ++ l ++ if suppressedAt (l :: rest) 0 then [';'] else [] := by
      rw [renderedAt, suppressedAt_cons, promptAt_one]
      rfl
    rw [List.length_cons, List.range_succ_eq_map, List.map_cons, List.map_map]
    simp only [Function.comp_def, hrest, hfirst]
    cases rest with
    | nil => simp [renderLines, suppressedAt]
    | cons next rest => rw [renderLines, suppressedAt_zero]

/-- Every line is rendered by the rule. -/
theorem renderLines_eq (ls : List (List Char)) : renderLines false ls = (List.range ls.length).map (renderedAt ls) := by
  rw [show false = isEscaped [] from rfl, renderLines_after]
  refine List.map_congr_left fun i _ => ?_
  cases i with
  | zero => simp [renderedAt, suppressedAt_cons, promptAt, continuesAt, isEscaped, lineAt]
  | succ i => exact renderedAt_cons

end

/-! ## Reading back -/

/-- A rendered line without its prompt, and without the semicolon that it was given. -/
def unmarked (body next : List Char) : List Char :=
  if statementPrompt.isPrefixOf next && body.getLast? == some ';' && (trim body.dropLast).length > shortLine &&
      ! isEscaped body.dropLast then
    body.dropLast
  else body

/-- The lines that were rendered as these. -/
def recoverLines : List (List Char) → List (List Char)
  | [] => []
  | [r] => [r.drop statementPrompt.length]
  | r :: next :: rest => unmarked (r.drop statementPrompt.length) next :: recoverLines (next :: rest)

/-- The input of a transcript, of which the number of lines is known. -/
def recover (n : Nat) (transcript : List Char) : List Char := join (recoverLines ((split transcript).take n))

theorem drop_prompt (escaped : Bool) (line s : List Char) :
    (prompt escaped line ++ s).drop statementPrompt.length = s := by
  refine List.drop_left' ?_
  unfold prompt
  split <;> rfl

theorem isPrefixOf_prompt (escaped : Bool) (line s : List Char) :
    statementPrompt.isPrefixOf (prompt escaped line ++ s) = ! continues escaped line := by
  unfold prompt
  cases continues escaped line with
  | false => exact List.isPrefixOf_iff_prefix.mpr (List.prefix_append _ _)
  | true => rfl

/-- A semicolon is taken off where it was added and nowhere else. -/
theorem unmarked_eq (l next s : List Char) :
    unmarked (l ++ if isSuppressed l next then [';'] else []) (prompt (isEscaped l) next ++ s) = l := by
  unfold unmarked
  rw [isPrefixOf_prompt]
  cases hs : isSuppressed l next with
  | true =>
    obtain ⟨⟨hnext, hlong⟩, hescaped⟩ : (continues (isEscaped l) next = false ∧ shortLine < (trim l).length) ∧
        isEscaped l = false := by simpa [isSuppressed] using hs
    rw [hescaped] at hnext
    simp [hnext, hlong, hescaped]
  | false =>
    rw [if_neg Bool.false_ne_true, List.append_nil]
    refine if_neg fun hmarked => ?_
    obtain ⟨⟨⟨hnext, hlast⟩, hlong⟩, -⟩ : ((continues (isEscaped l) next = false ∧ l.getLast? = some ';') ∧
        shortLine < (trim l.dropLast).length) ∧ isEscaped l.dropLast = false := by simpa using hmarked
    -- the semicolon is the author's, and a line that is long without it is long with it, so it
    -- would have been given another
    obtain ⟨l', rfl⟩ := List.getLast?_eq_some_iff.mp hlast
    have hlonger := Text.length_trim_le_append (show isBlank ';' = false by decide) l'
    rw [List.dropLast_concat] at hlong
    have hescaped : isEscaped (l' ++ [';']) = false := by simp [isEscaped]
    have hsuppressed : isSuppressed (l' ++ [';']) next = true := by
      rw [hescaped] at hnext
      simp only [isSuppressed, hescaped, hnext, Bool.not_false, Bool.true_and, Bool.and_true, decide_eq_true_eq]
      exact Nat.lt_of_lt_of_le hlong hlonger
    rw [hs] at hsuppressed
    cases hsuppressed

theorem renderLines_cons (escaped : Bool) (l : List Char) (rest : List (List Char)) :
    ∃ s more, renderLines escaped (l :: rest) = (prompt escaped l ++ s) :: more := by
  cases rest with
  | nil => exact ⟨l, [], rfl⟩
  | cons next rest => exact ⟨_, _, by rw [renderLines, List.append_assoc]⟩

/-- The lines are read back from their rendered lines. -/
theorem recoverLines_renderLines (escaped : Bool) (ls : List (List Char)) :
    recoverLines (renderLines escaped ls) = ls := by
  induction ls generalizing escaped with
  | nil => rfl
  | cons l rest ih =>
    cases rest with
    | nil => rw [renderLines, recoverLines, drop_prompt]
    | cons next rest =>
      obtain ⟨s, more, hrest⟩ := renderLines_cons (isEscaped l) next rest
      have hback := ih (isEscaped l)
      rw [hrest] at hback
      rw [renderLines, hrest, recoverLines, hback, List.append_assoc, drop_prompt, unmarked_eq]

/-! ## Transcripts -/

theorem notMem_renderedAt {ls : List (List Char)} (h : ∀ l ∈ ls, '\n' ∉ l) (i : Nat) : '\n' ∉ renderedAt ls i := by
  have hline : '\n' ∉ lineAt ls i := by
    unfold lineAt
    cases hl : ls[i]? with
    | none => simp
    | some l => exact h l (List.mem_of_getElem? hl)
  have hprompt : '\n' ∉ promptAt ls i := by
    unfold promptAt
    split <;> decide
  unfold renderedAt
  split <;> simp [hline, hprompt]

/-- The lines of a transcript: those of the input, and what is expected. -/
theorem split_render (input output : List Char) :
    split (render input output) = (List.range (split input).length).map (renderedAt (split input)) ++ split output := by
  have hlines : ∀ r ∈ (List.range (split input).length).map (renderedAt (split input)), split r = [r] := by
    intro r hr
    obtain ⟨i, -, rfl⟩ := List.mem_map.mp hr
    exact Text.split_of_notMem (notMem_renderedAt (fun l hl => Text.notMem_of_mem_split hl) i)
  rw [render, Text.split_join (by simp), renderLines_eq, List.flatMap_append, List.flatMap_congr hlines]
  simp

/-- A transcript is the lines of its input, each rendered by the rule and followed by a line end, and
    then what is expected. Its first lines are so the rendered ones, and the input is read back
    from them. -/
theorem renders_line_by_line (input output : List Char) :
    render input output =
      (List.range (split input).length).flatMap (fun i => renderedAt (split input) i ++ ['\n']) ++ output ∧
    (split (render input output)).take (split input).length =
      (List.range (split input).length).map (renderedAt (split input)) ∧
    recover (split input).length (render input output) = input := by
  have hfirst : (split (render input output)).take (split input).length =
      (List.range (split input).length).map (renderedAt (split input)) := by
    rw [split_render]
    exact List.take_left' (by simp)
  refine ⟨?_, hfirst, ?_⟩
  · rw [render, Text.join_concat, renderLines_eq, List.flatMap_map]
  · rw [recover, hfirst, ← renderLines_eq, recoverLines_renderLines, Text.join_split]

/-! ## Headers of indented blocks -/

def isBlankLine (line : List Char) : Bool := line.all isBlank

/-- The first line behind the one at `i` that is not blank is indented. -/
def OpensBlock (ls : List (List Char)) (i : Nat) : Prop :=
  ∃ j, i < j ∧ (∀ k < j, i < k → isBlankLine (lineAt ls k) = true) ∧ isBlankLine (lineAt ls j) = false ∧
    isIndented (lineAt ls j) = true

/-- The line of a block that comes first, blank or not, is empty or indented. -/
theorem OpensBlock.next {ls : List (List Char)} {i : Nat} (h : OpensBlock ls i) :
    i + 1 < ls.length ∧ (lineAt ls (i + 1) = [] ∨ isIndented (lineAt ls (i + 1)) = true) := by
  obtain ⟨j, hij, hbetween, hj, hindented⟩ := h
  have hlength : j < ls.length := by
    by_contra hge
    rw [lineAt, List.getElem?_eq_none (Nat.le_of_not_lt hge)] at hj
    cases hj
  refine ⟨by omega, ?_⟩
  rcases Nat.lt_or_ge (i + 1) j with hlt | hge
  · have hblank := hbetween (i + 1) hlt (Nat.lt_succ_self i)
    cases hl : lineAt ls (i + 1) with
    | nil => exact Or.inl rfl
    | cons c rest =>
      rw [hl, isBlankLine, List.all_cons, Bool.and_eq_true] at hblank
      exact Or.inr hblank.1
  · obtain rfl : j = i + 1 := by omega
    exact Or.inr hindented

theorem OpensBlock.suppressedAt_iff {ls : List (List Char)} {i : Nat} (h : OpensBlock ls i) :
    suppressedAt ls i = true ↔
      lineAt ls (i + 1) = [] ∧ shortLine < (trim (lineAt ls i)).length ∧ isEscaped (lineAt ls i) = false := by
  obtain ⟨hlength, hnext⟩ := h.next
  rcases hnext with hempty | hindented
  · -- an empty line has a prompt of its own unless the header goes on
    have hprompt : isEscaped (lineAt ls i) = false → promptAt ls (i + 1) = statementPrompt := by
      intro hescaped
      simp [promptAt, continuesAt, hempty, hescaped, isIndented]
    simp only [suppressedAt, hlength, hempty, decide_true, Bool.true_and, Bool.and_eq_true, beq_iff_eq,
      decide_eq_true_eq, Bool.not_eq_true', true_and]
    exact ⟨fun hs => ⟨hs.1.2, hs.2⟩, fun hs => ⟨⟨hprompt hs.2, hs.1⟩, hs.2⟩⟩
  · have hprompt : promptAt ls (i + 1) = continuationPrompt := by
      simp [promptAt, continuesAt, hindented]
    have hne : lineAt ls (i + 1) ≠ [] := by
      intro hempty
      rw [hempty] at hindented
      cases hindented
    have hstatement : (continuationPrompt == statementPrompt) = false := by decide
    simp [suppressedAt, hprompt, hne, hstatement]

/-- The header of an indented block is rendered as it is, behind its prompt, unless the line right
    after it is empty; then it is given a semicolon when it is long enough and does not go on. -/
theorem header_is_rendered {input : List Char} {i : Nat} (h : OpensBlock (split input) i) (output : List Char) :
    (split (render input output))[i]? =
      some (promptAt (split input) i ++ lineAt (split input) i ++
        if lineAt (split input) (i + 1) = [] ∧ shortLine < (trim (lineAt (split input) i)).length ∧
          isEscaped (lineAt (split input) i) = false then [';'] else []) := by
  have hi : i < (split input).length := Nat.lt_of_succ_lt h.next.1
  rw [split_render, List.getElem?_append_left (by simpa using hi), List.getElem?_map, List.getElem?_range hi,
    Option.map_some, renderedAt]
  simp only [h.suppressedAt_iff]

/-- A function with a line of blanks before its body. -/
def withBlankLine : List Char := "def f():\n  \n    return 1\nf()".toList

theorem blankLine_keeps_header :
    OpensBlock (split withBlankLine) 0 ∧
    (split (render withBlankLine "1".toList))[0]? = some ">>> def f():".toList := by
  have hopens : OpensBlock (split withBlankLine) 0 := ⟨2, by decide, by decide, by decide, by decide⟩
  exact ⟨hopens, (header_is_rendered hopens "1".toList).trans (by decide)⟩

/-- The same with an empty line: the header is given a semicolon. -/
theorem header_before_gap_is_suppressed :
    OpensBlock (split "def f():\n\n    return 1\nf()".toList) 0 ∧
    (split (render "def f():\n\n    return 1\nf()".toList "1".toList))[0]? = some ">>> def f():;".toList :=
  ⟨⟨2, by decide, by decide, by decide, by decide⟩, by decide⟩

end Handout.Transcript
