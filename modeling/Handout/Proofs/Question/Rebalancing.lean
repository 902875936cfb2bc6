/-
  Handout.Proofs.Question.Rebalancing — the fences that are left in a prompt.

  Fences are counted as lines that are nothing but a fence, and every other one opens a
  block. The block of a question begins behind such an opening (`Parts.Of.mem_openings`), but
  it ends at the first line that trims to a fence. Where that line is a fence, the pair is
  taken out of the fences and those around it open what they did before
  (`openings_append`). Where it is not, the opening alone is taken out.

  Proved:
  - `rebalanced_iff`: a prompt has the fences of its cell without the two of the block, and
    declares no question, exactly when no line with white space around a fence closes the
    block. Otherwise one fence is gone, and the prompt cannot be read for its fences.
-/

import Handout.Proofs.Question.Parts

namespace Handout

namespace Question

/-! ## Pairs of fences -/

theorem openings_append {a b : List Nat} (h : a.length % 2 = 0) : openings (a ++ b) = openings a ++ openings b := by
  fun_induction openings a with
  | case1 => rfl
  | case2 i => simp at h
  | case3 i j rest ih =>
    have heven : rest.length % 2 = 0 := by
      simp only [List.length_cons] at h
      omega
    rw [List.cons_append, List.cons_append, openings, ih heven, List.cons_append]

/-- An opening has as many fences before it as make pairs. -/
theorem even_of_mem_openings {a b : List Nat} {o : Nat} (hsorted : (a ++ o :: b).Pairwise (· < ·))
    (h : o ∈ openings (a ++ o :: b)) : a.length % 2 = 0 := by
  fun_induction openings a with
  | case1 => rfl
  | case2 i =>
    obtain ⟨hi, hsorted⟩ := List.pairwise_cons.mp hsorted
    have hlt : i < o := hi o (List.mem_cons_self ..)
    rcases List.mem_cons.mp h with rfl | h
    · omega
    · have hbehind := (List.pairwise_cons.mp hsorted).1 o (mem_of_mem_openings h)
      omega
  | case3 i j rest ih =>
    obtain ⟨hi, hsorted⟩ := List.pairwise_cons.mp hsorted
    have hlt : i < o := hi o (by simp)
    rcases List.mem_cons.mp h with rfl | h
    · omega
    · have hrest := ih (List.pairwise_cons.mp hsorted).2 h
      simp only [List.length_cons]
      omega

theorem find?_eq_ok {ls : List String} {o : Option Nat} (h : find? ls = .ok o) :
    (fencesFrom 0 ls).length % 2 = 0 ∧ begins ls = o.toList := by
  unfold find? at h
  simp only at h
  split at h
  · cases h
  · rename_i heven
    refine ⟨by omega, ?_⟩
    split at h
    · rename_i hbegins
      cases h
      exact hbegins
    · rename_i b hbegins
      cases h
      exact hbegins
    · cases h

theorem find?_of_odd {ls : List String} (h : (fencesFrom 0 ls).length % 2 ≠ 0) :
    find? ls = .error (.unbalancedFences (fencesFrom 0 ls).length) := by
  simp only [find?, if_pos h]

theorem find?_of_begins_nil {ls : List String} (heven : (fencesFrom 0 ls).length % 2 = 0) (h : begins ls = []) :
    find? ls = .ok none := by
  have hpairs : ¬ (fencesFrom 0 ls).length % 2 ≠ 0 := by omega
  simp only [find?, if_neg hpairs, h]

/-! ## The fences around a block -/

namespace Parts

variable {p : Parts} {ls : List String}

/-- The fences before the block, and those after the line that closes it. -/
def before (p : Parts) : List Nat := fencesFrom 0 p.front

def after (p : Parts) : List Nat := fencesFrom (p.closingAt + 1) p.rest

/-- Between the two lines that may be replaced there are no fences. -/
theorem Of.fences_around (h : p.Of ls) (l l' : String) :
    fencesFrom 0 (p.front ++ l :: (p.enclosed ++ l' :: p.rest)) =
      p.before ++ (if isFence l then [p.front.length] else []) ++ (if isFence l' then [p.closingAt] else []) ++ p.after := by
  have hnone : fencesFrom (p.front.length + 1) p.enclosed = [] :=
    fencesFrom_eq_nil fun l hl => not_isFence_of_not_isClosingFence (h.not_closing_enclosed l hl)
  have hbehind : fencesFrom (p.front.length + 1) (p.enclosed ++ l' :: p.rest) = fencesFrom p.closingAt (l' :: p.rest) := by
    rw [fencesFrom_append, hnone, List.nil_append, closingAt]
  rw [fencesFrom_append, Nat.zero_add, fencesFrom, hbehind, fencesFrom]
  split <;> split <;> simp [before, after]

theorem Of.fences_source (h : p.Of ls) : fencesFrom 0 ls =
    p.before ++ p.front.length :: ((if isFence p.closing then [p.closingAt] else []) ++ p.after) := by
  rw [h.eq_source, source, h.fences_around, if_pos (isFence_iff.mpr rfl)]
  simp

theorem Of.fences_commented (h : p.Of ls) : fencesFrom 0 p.commented = p.before ++ p.after := by
  have hopening : isFence commentOpening = false := by decide
  have hclosing : isFence commentClosing = false := by decide
  rw [commented, h.fences_around, hopening, hclosing]
  simp

/-- The two lines that are replaced are no begin lines, before or after. -/
theorem Of.begins_at (h : p.Of ls) (i : Nat) : (p.commented[i]?).any isBegin = (ls[i]?).any isBegin := by
  have hmap : p.commented.map isBegin = ls.map isBegin := by
    have hclosing : isBegin p.closing = false := not_isBegin_of_isClosingFence h.closes
    have hopening : isBegin commentOpening = isBegin fence := by decide
    have hcomment : isBegin commentClosing = false := by decide
    simp only [h.eq_source, commented, source, List.map_append, List.map_cons, hopening, hcomment, hclosing]
  have hany : ∀ a : List String, (a[i]?).any isBegin = ((a.map isBegin)[i]?).any id := by
    intro a
    rw [List.getElem?_map, Option.any_map]
    rfl
  rw [hany, hany, hmap]

theorem Of.mem_openings (h : p.Of ls) : p.front.length ∈ openings (fencesFrom 0 ls) := by
  have hmem : p.front.length + 1 ∈ begins ls := by
    rw [(find?_eq_ok h.found).2]
    exact List.mem_singleton_self _
  obtain ⟨o, ho, heq⟩ := List.mem_map.mp (List.mem_filter.mp hmem).1
  obtain rfl : o = p.front.length := by omega
  exact ho

theorem Of.even_before (h : p.Of ls) : p.before.length % 2 = 0 := by
  have hsorted := fencesFrom_sorted 0 ls
  have hmem := h.mem_openings
  rw [h.fences_source] at hsorted hmem
  exact even_of_mem_openings hsorted hmem

theorem Of.even_after (h : p.Of ls) : ((if isFence p.closing then [p.closingAt] else []) ++ p.after).length % 2 = 1 := by
  have heven := (find?_eq_ok h.found).1
  have hbefore := h.even_before
  rw [h.fences_source, List.length_append, List.length_cons] at heven
  omega

/-- Nothing but the block that is gone began a question. -/
theorem Of.begins_commented (h : p.Of ls) (hclosing : isFence p.closing = true) : begins p.commented = [] := by
  have hopenings : openings (fencesFrom 0 ls) = openings p.before ++ p.front.length :: openings p.after := by
    rw [h.fences_source, if_pos hclosing, openings_append h.even_before]
    rfl
  have hleft : openings (fencesFrom 0 p.commented) = openings p.before ++ openings p.after := by
    rw [h.fences_commented, openings_append h.even_before]
  have hbegin : (ls[p.front.length + 1]?).any isBegin = true := by
    obtain ⟨-, -, -, -, -, hbegin, -⟩ := find?_eq_some h.found
    exact hbegin
  have hbegins := (find?_eq_ok h.found).2
  rw [begins, hopenings, List.map_append, List.map_cons, List.filter_append, List.filter_cons, if_pos hbegin] at hbegins
  have hempty := congrArg List.length hbegins
  simp only [List.length_append, List.length_cons, Option.toList_some, List.length_nil] at hempty
  have hsame : (fun i => (p.commented[i]?).any isBegin) = fun i => (ls[i]?).any isBegin := funext h.begins_at
  rw [begins, hleft, hsame, List.map_append, List.filter_append, ← List.length_eq_zero_iff, List.length_append]
  omega

end Parts

/-- Whether what closes the block of a question is no fence for the count: the line has white space
    around it. -/
def closedLoosely (ls : List String) : Bool :=
  match find? ls with
  | .ok (some b) => ((ls.drop (b + 1)).find? isClosingFence).any fun l => ! isFence l
  | _ => false

theorem Parts.Of.closedLoosely_eq {p : Parts} {ls : List String} (h : p.Of ls) :
    closedLoosely ls = ! isFence p.closing := by
  have hnone : p.inside.find? isClosingFence = none := List.find?_eq_none.mpr fun l hl => by simp [h.inside l hl]
  simp only [closedLoosely, h.found, h.drop_beginning, List.find?_append, hnone, Option.none_or,
    List.find?_cons_of_pos h.closes, Option.any_some]

end Question

namespace Cell

open Question

/-- The fences of `d` are those of the question `c` without its block's own: the opening one before the begin
    line and the next one, which are a pair; all others are there, as far behind as the lines put in
    front move them. So no block of `d` makes it a question. -/
structure Rebalanced (c d : Cell) (shift : Nat) : Prop where
  count : d.source.count fence + 2 = c.source.count fence
  pair : ∃ before o j after, find? c.source = .ok (some (o + 1)) ∧ before.length % 2 = 0 ∧
    fencesFrom 0 c.source = before ++ o :: j :: after ∧ fencesFrom 0 d.source = (before ++ after).map (· + shift)
  unasked : find? d.source = .ok none

theorem length_fences (ls : List String) : (fencesFrom 0 ls).length = ls.count fence := length_fencesFrom 0 ls

section

variable {c : Cell} {p : Parts}

theorem fences_prompt (h : p.Of c.source) (manual : Bool) : fencesFrom 0 (announcement manual ++ p.commented) =
    (p.before ++ p.after).map (· + (announcement manual).length) := by
  rw [fencesFrom_append_front not_isFence_of_mem_announcement, fencesFrom_add, h.fences_commented]

theorem count_prompt (h : p.Of c.source) (manual : Bool) :
    (announcement manual ++ p.commented).count fence + (if isFence p.closing then 2 else 1) = c.source.count fence := by
  have hsource := congrArg List.length h.fences_source
  have hprompt := congrArg List.length (fences_prompt h manual)
  rw [length_fences, List.length_append, List.length_cons, List.length_append] at hsource
  rw [length_fences, List.length_map, List.length_append] at hprompt
  cases hclosing : isFence p.closing with
  | true =>
    rw [if_pos hclosing, List.length_singleton] at hsource
    rw [if_pos rfl]
    omega
  | false =>
    rw [if_neg (by simp [hclosing]), List.length_nil] at hsource
    rw [if_neg (by decide)]
    omega

/-- Where a fence closes the block, the fences left are in pairs and none of them begins a question. -/
theorem find?_prompt (h : p.Of c.source) (hclosing : isFence p.closing = true) (manual : Bool) :
    find? (announcement manual ++ p.commented) = .ok none := by
  have heven : (fencesFrom 0 p.commented).length % 2 = 0 := by
    have hbefore := h.even_before
    have hafter := h.even_after
    rw [if_pos hclosing, List.length_append, List.length_singleton] at hafter
    rw [h.fences_commented, List.length_append]
    omega
  rw [find?_append_front not_isFence_of_mem_announcement, find?_of_begins_nil heven (h.begins_commented hclosing)]
  rfl

theorem rebalanced_of_parts (h : p.Of c.source) (hclosing : isFence p.closing = true) (manual : Bool) :
    c.Rebalanced { c with source := announcement manual ++ p.commented }.lock (announcement manual).length := by
  have hcount := count_prompt h manual
  have hsource := h.fences_source
  rw [if_pos hclosing] at hcount hsource
  exact ⟨hcount, ⟨p.before, p.front.length, p.closingAt, p.after, h.found, h.even_before, hsource,
    fences_prompt h manual⟩, find?_prompt h hclosing manual⟩

theorem find?_prompt_of_loose (h : p.Of c.source) (hclosing : isFence p.closing = false) (manual : Bool) :
    find? (announcement manual ++ p.commented) =
      .error (.unbalancedFences ((announcement manual ++ p.commented).count fence)) := by
  have hcount := count_prompt h manual
  rw [if_neg (by simp [hclosing])] at hcount
  have hodd : (fencesFrom 0 (announcement manual ++ p.commented)).length % 2 ≠ 0 := by
    have heven := (find?_eq_ok h.found).1
    rw [length_fences] at heven ⊢
    omega
  rw [find?_of_odd hodd, length_fences]

end

/-- A prompt has the fences of its cell but for the pair of its block exactly when the line that closes the
    block is a fence as it stands; otherwise it has lost one fence of the pair, and whether it
    declares a question cannot be said. -/
theorem rebalanced_iff {c : Cell} (h : c.isQuestion = .ok true) (manual : Bool) :
    ∃ d, c.prompt manual = .ok d ∧
      (c.Rebalanced d (announcement manual).length ↔ closedLoosely c.source = false) ∧
      (closedLoosely c.source = true → d.source.count fence + 1 = c.source.count fence ∧
        find? d.source = .error (.unbalancedFences (d.source.count fence))) := by
  obtain ⟨-, b, hb⟩ := isQuestion_eq_true h
  obtain ⟨p, hp, -⟩ := exists_parts hb
  refine ⟨_, prompt_of_parts hp manual, ?_⟩
  rw [hp.closedLoosely_eq]
  cases hclosing : isFence p.closing with
  | true => exact ⟨iff_of_true (rebalanced_of_parts hp hclosing manual) rfl, nofun⟩
  | false =>
    have hcount := count_prompt hp manual
    rw [if_neg (by simp [hclosing])] at hcount
    refine ⟨iff_of_false (fun hbalanced => ?_) (by decide), fun _ => ⟨hcount, find?_prompt_of_loose hp hclosing manual⟩⟩
    have htwo : (announcement manual ++ p.commented).count fence + 2 = c.source.count fence := hbalanced.count
    omega

theorem afterExample_is_rebalanced : afterExample.isQuestion = .ok true ∧
    ∃ d, afterExample.prompt true = .ok d ∧ afterExample.Rebalanced d 2 := by
  obtain ⟨d, hd, hiff, -⟩ := rebalanced_iff isQuestion_afterExample true
  exact ⟨isQuestion_afterExample, d, hd, hiff.mpr (by decide +kernel)⟩

/-- A fence with a blank in front of it, in the block of a question. -/
def blankFence : Cell :=
  markdown "\x60\x60\x60\nBEGIN QUESTION\nname: a\n \x60\x60\x60\n\x60\x60\x60"

/-- The comment ends at the line with the blank, and the fence of the block is left over. -/
theorem blankFence_leaves_one : blankFence.isQuestion = .ok true ∧
    ∃ d, blankFence.prompt false = .ok d ∧ d.source = ["<!--", "BEGIN QUESTION", "name: a", "-->", fence] ∧
      find? d.source = .error (.unbalancedFences 1) ∧ ¬ blankFence.Rebalanced d 0 := by
  have hquestion : blankFence.isQuestion = .ok true := by decide +kernel
  obtain ⟨b, j, -, -, hprompt⟩ := prompt_of_isQuestion hquestion false
  have hwritten : (blankFence.prompt false).map Cell.source = .ok ["<!--", "BEGIN QUESTION", "name: a", "-->", fence] := by
    decide +kernel
  rw [hprompt] at hwritten
  refine ⟨hquestion, _, hprompt, Except.ok.inj hwritten, ?_⟩
  rw [Except.ok.inj hwritten]
  have herror : find? ["<!--", "BEGIN QUESTION", "name: a", "-->", fence] = .error (.unbalancedFences 1) := by
    decide +kernel
  refine ⟨herror, fun hbalanced => ?_⟩
  have hnone := hbalanced.unasked
  rw [Except.ok.inj hwritten, herror] at hnone
  cases hnone

end Cell
end Handout
