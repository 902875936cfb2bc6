/-
  Handout.Proofs.Question.Hiding — what the comment in a prompt hides.

  A comment goes on to the first `-->`, in whatever line that is. The end of one stands in
  a single line (`endsComment_append_behind`), and the begin line of a question holds none, so
  the comment that begins where the opening fence was goes on to the line put in for the
  closing one exactly when no line of the block holds a `-->`.

  Proved:
  - `block_is_hidden_iff`: the prompt hides the begin line and the block exactly then.
    Otherwise learners see all lines after the first of the block that holds one.
-/

import Handout.Proofs.Question.Parts
import Handout.Proofs.Text.Lines

namespace Handout

namespace Question

/-! ## Comments -/

/-- Whether a text holds the end of a comment. -/
def EndsComment (cs : List Char) : Prop := commentClosing.toList <:+: cs

instance (cs : List Char) : Decidable (EndsComment cs) := inferInstanceAs (Decidable (commentClosing.toList <:+: cs))

/-- From behind the start of a comment: what is inside of it, and the text after its end. -/
def comment? : List Char → Option (List Char × List Char)
  | [] => none
  | c :: cs =>
    match commentClosing.toList.isPrefixOf? (c :: cs) with
    | some after => some ([], after)
    | none => (comment? cs).map fun r => (c :: r.1, r.2)

theorem comment?_eq_some {cs inside after : List Char} (h : comment? cs = some (inside, after)) :
    cs = inside ++ commentClosing.toList ++ after := by
  fun_induction comment? cs generalizing inside with
  | case1 => cases h
  | case2 c cs after' hprefix =>
    cases h
    exact (List.isPrefixOf?_eq_some_iff_append_eq.mp hprefix).symm
  | case3 c cs hprefix ih =>
    obtain ⟨r, hr, heq⟩ := Option.map_eq_some_iff.mp h
    cases heq
    rw [ih hr]
    rfl

theorem endsComment_cons {c : Char} {cs : List Char} :
    EndsComment (c :: cs) ↔ (commentClosing.toList.isPrefixOf? (c :: cs)).isSome = true ∨ EndsComment cs := by
  have hprefix : commentClosing.toList <+: c :: cs ↔ (commentClosing.toList.isPrefixOf? (c :: cs)).isSome = true := by
    rw [Option.isSome_iff_exists]
    exact exists_congr fun after => List.isPrefixOf?_eq_some_iff_append_eq.symm
  rw [← hprefix]
  exact List.infix_cons_iff

theorem comment?_isSome_iff {cs : List Char} : (comment? cs).isSome = true ↔ EndsComment cs := by
  fun_induction comment? cs with
  | case1 => decide
  | case2 c cs after hprefix => simp [endsComment_cons, hprefix]
  | case3 c cs hprefix ih => simp [endsComment_cons, hprefix, ih]

theorem isPrefixOf?_append_break {m : List Char} (h : '\n' ∉ m) (a b : List Char) :
    m.isPrefixOf? (a ++ '\n' :: b) = (m.isPrefixOf? a).map (· ++ '\n' :: b) := by
  induction m generalizing a with
  | nil => simp [List.isPrefixOf?]
  | cons x m ih =>
    rw [List.mem_cons, not_or] at h
    cases a with
    | nil => simp [List.isPrefixOf?, Ne.symm h.1]
    | cons y a =>
      simp only [List.cons_append, List.isPrefixOf?]
      split
      · exact ih h.2 a
      · rfl

/-- A comment that has ended is not changed by what comes behind. -/
theorem comment?_append_break {a inside after : List Char} (h : comment? a = some (inside, after)) (b : List Char) :
    comment? (a ++ '\n' :: b) = some (inside, after ++ '\n' :: b) := by
  fun_induction comment? a generalizing inside with
  | case1 => cases h
  | case2 c cs after' hprefix =>
    cases h
    rw [List.cons_append, comment?, ← List.cons_append, isPrefixOf?_append_break (by decide), hprefix]
    rfl
  | case3 c cs hprefix ih =>
    obtain ⟨r, hr, heq⟩ := Option.map_eq_some_iff.mp h
    cases heq
    rw [List.cons_append, comment?, ← List.cons_append, isPrefixOf?_append_break (by decide), hprefix]
    simp only [Option.map_none, ih hr, Option.map_some]

/-- A comment that does not end before a line end goes on behind it. -/
theorem comment?_break_append {a : List Char} (h : ¬ EndsComment a) (b : List Char) :
    comment? (a ++ '\n' :: b) = (comment? b).map fun r => (a ++ '\n' :: r.1, r.2) := by
  induction a with
  | nil =>
    rw [List.nil_append, comment?, ← List.nil_append ('\n' :: b), isPrefixOf?_append_break (by decide)]
    rfl
  | cons c cs ih =>
    rw [endsComment_cons, not_or, Option.not_isSome_iff_eq_none] at h
    rw [List.cons_append, comment?, ← List.cons_append, isPrefixOf?_append_break (by decide), h.1]
    simp only [Option.map_none, ih h.2, Option.map_map]
    rfl

theorem endsComment_append_break {a b : List Char} : EndsComment (a ++ '\n' :: b) ↔ EndsComment a ∨ EndsComment b := by
  rw [← comment?_isSome_iff]
  by_cases ha : EndsComment a
  · obtain ⟨⟨inside, after⟩, hcomment⟩ := Option.isSome_iff_exists.mp (comment?_isSome_iff.mpr ha)
    rw [comment?_append_break hcomment]
    simp [ha]
  · rw [comment?_break_append ha, Option.isSome_map, comment?_isSome_iff]
    simp [ha]

theorem comment?_closing (b : List Char) : comment? (commentClosing.toList ++ b) = some ([], b) := rfl

/-! ## Lines -/

/-- The text of some lines behind another line. -/
def behind (ls : List String) : List Char := ls.flatMap fun l => '\n' :: l.toList

theorem behind_append (a b : List String) : behind (a ++ b) = behind a ++ behind b := List.flatMap_append ..

theorem behind_cons (l : String) (ls : List String) : behind (l :: ls) = '\n' :: (l.toList ++ behind ls) := rfl

theorem textOf_cons (l : String) (ls : List String) : (Text.textOf (l :: ls)).toList = l.toList ++ behind ls := by
  rw [Text.textOf, String.toList_ofList]
  induction ls generalizing l with
  | nil => simp [Text.join, behind]
  | cons l' ls ih => rw [behind_cons, ← ih l']; rfl

theorem textOf_append {a : List String} (h : a ≠ []) (b : List String) :
    (Text.textOf (a ++ b)).toList = (Text.textOf a).toList ++ behind b := by
  cases a with
  | nil => exact absurd rfl h
  | cons l a => rw [List.cons_append, textOf_cons, textOf_cons, behind_append, List.append_assoc]

/-- The end of a comment is in one line. -/
theorem endsComment_append_behind {a : List Char} {ls : List String} :
    EndsComment (a ++ behind ls) ↔ EndsComment a ∨ ∃ l ∈ ls, EndsComment l.toList := by
  induction ls generalizing a with
  | nil => simp [behind]
  | cons l ls ih => simp only [behind_cons, endsComment_append_break, ih, List.mem_cons, exists_eq_or_imp]

/-- A line that ends the comment shows what is behind it. -/
theorem comment?_behind_of_ends {a : List String} {l : String} (h : EndsComment l.toList) {b : List String} (hb : b ≠ []) :
    ∃ inside after, comment? (behind (a ++ l :: b)) = some (inside, after ++ behind b) ∧
      inside.length < (behind (a ++ [l])).length := by
  have hends : EndsComment (behind (a ++ [l])) := by
    rw [← List.nil_append (behind _), endsComment_append_behind]
    exact Or.inr ⟨l, by simp, h⟩
  obtain ⟨⟨inside, after⟩, hcomment⟩ := Option.isSome_iff_exists.mp (comment?_isSome_iff.mpr hends)
  refine ⟨inside, after, ?_, ?_⟩
  · rw [List.append_cons, behind_append]
    cases b with
    | nil => exact absurd rfl hb
    | cons l' b => exact comment?_append_break hcomment _
  · have hlength := congrArg List.length (comment?_eq_some hcomment)
    rw [hlength, List.length_append, List.length_append]
    simp only [show commentClosing.toList.length = 3 from rfl]
    omega

/-- A comment that no line ends goes on to the line put in for that. -/
theorem comment?_behind_of_not_ends {a : List String} (h : ∀ l ∈ a, ¬ EndsComment l.toList) (b : List String) :
    comment? (behind (a ++ commentClosing :: b)) = some (behind a ++ ['\n'], behind b) := by
  have hnone : ¬ EndsComment (behind a) := by
    rw [← List.nil_append (behind a), endsComment_append_behind]
    rintro (hnil | ⟨l, hl, hends⟩)
    · revert hnil
      decide
    · exact h l hl hends
  rw [behind_append, behind_cons, comment?_break_append hnone, comment?_closing]
  rfl

/-! ## The comment of a prompt -/

/-- What the comment that begins with line `i` hides, and the text after its end. -/
def commentAt (ls : List String) (i : Nat) : Option (List Char × List Char) :=
  comment? ((Text.textOf ls).toList.drop (Text.textOf (ls.take (i + 1))).toList.length)

theorem commentAt_append (a : List String) (l : String) (b : List String) :
    commentAt (a ++ l :: b) a.length = comment? (behind b) := by
  have htake : (a ++ l :: b).take (a.length + 1) = a ++ [l] := by
    rw [List.append_cons, List.take_left' (by simp)]
  have htext : (Text.textOf (a ++ l :: b)).toList = (Text.textOf (a ++ [l])).toList ++ behind b := by
    rw [List.append_cons, textOf_append (by simp)]
  rw [commentAt, htake, htext, List.drop_left' rfl]

/-- Whether a line of the block of a question ends the comment that it becomes. -/
def breaksOut (ls : List String) : Bool :=
  match find? ls with
  | .ok (some b) => (blockLines ls b).any fun l => EndsComment l.toList
  | _ => false

theorem Parts.Of.breaksOut_iff {p : Parts} {ls : List String} (h : p.Of ls) :
    breaksOut ls = true ↔ ∃ l ∈ p.inside, EndsComment l.toList := by
  simp only [breaksOut, h.found, h.blockLines_eq, List.any_eq_true, decide_eq_true_eq]

/-- A begin line is two words, with blanks around them. -/
theorem not_endsComment_of_isBegin {l : String} (h : isBegin l = true) : ¬ EndsComment l.toList := by
  intro hends
  have hmem : '>' ∈ l.toList := hends.mem (by decide)
  rcases Text.or_mem_dropWhile hmem (p := (· == ' ')) with hblank | hmem
  · revert hblank
    decide
  · rw [← List.mem_reverse] at hmem
    rcases Text.or_mem_dropWhile hmem (p := (· == ' ')) with hblank | hmem
    · revert hblank
      decide
    · rw [← List.mem_reverse, eq_of_beq h] at hmem
      revert hmem
      decide

namespace Parts

variable {p : Parts} {ls : List String}

theorem Of.breaksOut_eq_false_iff (h : p.Of ls) : breaksOut ls = false ↔ ∀ l ∈ p.enclosed, ¬ EndsComment l.toList := by
  rw [← Bool.not_eq_true, h.breaksOut_iff, enclosed, List.forall_mem_cons]
  simp only [not_exists, not_and]
  exact ⟨fun hnone => ⟨not_endsComment_of_isBegin h.opens, hnone⟩, And.right⟩

theorem Of.comment_of_not_breaksOut (h : p.Of ls) (hbreaks : breaksOut ls = false) :
    comment? (behind (p.enclosed ++ commentClosing :: p.rest)) = some (behind p.enclosed ++ ['\n'], behind p.rest) :=
  comment?_behind_of_not_ends (h.breaksOut_eq_false_iff.mp hbreaks) p.rest

/-- The comment of a block that breaks out is shorter than the block. -/
theorem Of.comment_of_breaksOut (h : p.Of ls) (hbreaks : breaksOut ls = true) :
    ∃ above l below hidden shown, p.inside = above ++ l :: below ∧
      comment? (behind (p.enclosed ++ commentClosing :: p.rest)) =
        some (hidden, shown ++ behind (below ++ commentClosing :: p.rest)) ∧
      hidden.length < (behind p.enclosed).length := by
  obtain ⟨l, hl, hends⟩ := h.breaksOut_iff.mp hbreaks
  obtain ⟨above, below, hinside⟩ := List.append_of_mem hl
  have henclosed : p.enclosed = (p.beginning :: above) ++ l :: below := by rw [enclosed, hinside]; rfl
  have hlines : p.enclosed ++ commentClosing :: p.rest =
      (p.beginning :: above) ++ l :: (below ++ commentClosing :: p.rest) := by
    rw [henclosed, List.append_assoc]
    rfl
  obtain ⟨hidden, shown, hcomment, hlength⟩ :=
    comment?_behind_of_ends (a := p.beginning :: above) hends (b := below ++ commentClosing :: p.rest) (by simp)
  refine ⟨above, l, below, hidden, shown, hinside, by rw [hlines, hcomment], ?_⟩
  rw [henclosed, List.append_cons, behind_append, List.length_append]
  omega

end Parts

end Question

namespace Cell

open Question

/-- In the prompt of a question, announced or not, no line from the begin line to the end of the block holds the
    end of a comment, and the comment that begins where the opening fence was hides these lines and
    ends at the line put in for the closing one, exactly when no line of the block breaks out.
    One that does shows all lines of the block behind it, and the end that was put in. -/
theorem block_is_hidden_iff {c : Cell} (h : c.isQuestion = .ok true) (manual : Bool) :
    ∃ p : Parts, ∃ d, p.Of c.source ∧ c.prompt manual = .ok d ∧ d.source = announcement manual ++ p.commented ∧
      ((∀ l ∈ p.enclosed, ¬ EndsComment l.toList) ↔ breaksOut c.source = false) ∧
      (commentAt d.source ((announcement manual).length + p.front.length) =
        some (behind p.enclosed ++ ['\n'], behind p.rest) ↔ breaksOut c.source = false) ∧
      (breaksOut c.source = true → ∃ above l below hidden shown, p.inside = above ++ l :: below ∧
        commentAt d.source ((announcement manual).length + p.front.length) =
          some (hidden, shown ++ behind (below ++ commentClosing :: p.rest))) := by
  obtain ⟨-, b, hb⟩ := isQuestion_eq_true h
  obtain ⟨p, hp, -⟩ := exists_parts hb
  have hat : commentAt (announcement manual ++ p.commented) ((announcement manual).length + p.front.length) =
      comment? (behind (p.enclosed ++ commentClosing :: p.rest)) := by
    rw [Parts.commented, ← List.append_assoc, ← List.length_append]
    exact commentAt_append ..
  refine ⟨p, _, hp, prompt_of_parts hp manual, rfl, hp.breaksOut_eq_false_iff.symm, ?_⟩
  simp only [lock, hat]
  cases hbreaks : breaksOut c.source with
  | false => exact ⟨iff_of_true (hp.comment_of_not_breaksOut hbreaks) rfl, fun hfalse => absurd hfalse (by decide)⟩
  | true =>
    obtain ⟨above, l, below, hidden, shown, hinside, hcomment, hlength⟩ := hp.comment_of_breaksOut hbreaks
    refine ⟨iff_of_false (fun hsame => ?_) (by decide), fun _ => ⟨above, l, below, hidden, shown, hinside, hcomment⟩⟩
    rw [hcomment] at hsame
    rw [(Prod.mk.inj (Option.some.inj hsame)).1, List.length_append] at hlength
    omega

theorem afterExample_hides_its_block : afterExample.isQuestion = .ok true ∧
    ∃ p : Parts, ∃ d, p.Of afterExample.source ∧ afterExample.prompt true = .ok d ∧
      commentAt d.source 5 = some (behind p.enclosed ++ ['\n'], behind p.rest) ∧
      behind p.enclosed ++ ['\n'] = "\n BEGIN QUESTION\nname: a\n".toList := by
  obtain ⟨p, d, hp, hd, -, -, hcomment, -⟩ := block_is_hidden_iff isQuestion_afterExample true
  have hhides := hcomment.mpr (by decide +kernel)
  rw [length_front_afterExample hp] at hhides
  have hsource := source_prompt_afterExample
  have hseen : commentAt [beginQuestionLine, "", fence, "x", fence, "<!--", " BEGIN QUESTION", "name: a", "-->", "add"] 5 =
      some ("\n BEGIN QUESTION\nname: a\n".toList, "\nadd".toList) := by
    decide +kernel
  rw [hd] at hsource
  rw [← Except.ok.inj hsource] at hseen
  exact ⟨isQuestion_afterExample, p, d, hp, hd, hhides, (Prod.mk.inj (Option.some.inj (hhides.symm.trans hseen))).1⟩

/-- Metadata with a comment that ends the one around it. -/
def commentInside : Cell :=
  markdown "\x60\x60\x60\nBEGIN QUESTION\n# -->\nname: a\n\x60\x60\x60"

/-- The metadata is read, and learners see the line behind the comment. -/
theorem commentInside_shows_name : commentInside.isQuestion = .ok true ∧
    Question.ofCell commentInside = .ok ⟨"a", false, "", none, none, none⟩ ∧
    ∃ d, commentInside.prompt false = .ok d ∧
      d.source = ["<!--", "BEGIN QUESTION", "# -->", "name: a", "-->"] ∧
      commentAt d.source 0 = some ("\nBEGIN QUESTION\n# ".toList, "\nname: a\n-->".toList) := by
  have hquestion : commentInside.isQuestion = .ok true := by decide +kernel
  obtain ⟨b, j, -, -, hprompt⟩ := prompt_of_isQuestion hquestion false
  have hwritten : (commentInside.prompt false).map Cell.source =
      .ok ["<!--", "BEGIN QUESTION", "# -->", "name: a", "-->"] := by
    decide +kernel
  rw [hprompt] at hwritten
  refine ⟨hquestion, by decide +kernel, _, hprompt, Except.ok.inj hwritten, ?_⟩
  rw [Except.ok.inj hwritten]
  decide +kernel

end Cell
end Handout
