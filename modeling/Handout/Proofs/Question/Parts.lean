/-
  Handout.Proofs.Question.Parts — a question cell taken apart at its block.

  A source that declares a question is what stands before the opening fence, the begin
  line, the lines of the block, the first line after it that closes it, and the rest
  (`exists_parts`). The reader of the metadata and the writer of the prompt look for the
  block each for itself, the writer with the announcement in front; what they find are
  these parts (`Parts.Of.blockLines_eq`, `Parts.Of.closing?_eq`, `Parts.Of.announced`).

  Proved:
  - `prompt_replaces_fences`: every question has a prompt, announced or not. It is the
    locked cell with two lines of its source replaced, and what stands between them after
    the begin line is what the metadata is read from.
-/

import Handout.Proofs.Question.Prompt
import Handout.Proofs.Text.Blank

namespace Handout

namespace Question

/-! ## A source at its block -/

/-- A source around a block: what stands before the opening fence, the begin line, the lines
    inside, the line that closes the block, and the rest. -/
structure Parts where
  front : List String
  beginning : String
  inside : List String
  closing : String
  rest : List String

namespace Parts

/-- The lines between the opening fence and the line that closes the block. -/
def enclosed (p : Parts) : List String := p.beginning :: p.inside

def source (p : Parts) : List String := p.front ++ fence :: (p.enclosed ++ p.closing :: p.rest)

/-- The source with the block made a comment: the opening fence and the closing line are replaced. -/
def commented (p : Parts) : List String := p.front ++ commentOpening :: (p.enclosed ++ commentClosing :: p.rest)

/-- The position of the line that closes the block. -/
def closingAt (p : Parts) : Nat := p.front.length + 1 + p.enclosed.length

/-- The parts of a source that declares a question. -/
structure Of (p : Parts) (ls : List String) : Prop where
  eq_source : ls = p.source
  found : find? ls = .ok (some (p.front.length + 1))
  opens : isBegin p.beginning = true
  inside : ∀ l ∈ p.inside, isClosingFence l = false
  closes : isClosingFence p.closing = true

def prepend (front : List String) (p : Parts) : Parts := { p with front := front ++ p.front }

theorem source_prepend (front : List String) (p : Parts) : (p.prepend front).source = front ++ p.source :=
  List.append_assoc ..

theorem commented_prepend (front : List String) (p : Parts) : (p.prepend front).commented = front ++ p.commented :=
  List.append_assoc ..

theorem drop_source (p : Parts) : p.source.drop (p.front.length + 1) = p.enclosed ++ p.closing :: p.rest := by
  rw [source, List.append_cons, List.drop_left' (by simp)]

theorem set_set_source (p : Parts) :
    (p.source.set p.front.length commentOpening).set p.closingAt commentClosing = p.commented := by
  have hopening : p.source.set p.front.length commentOpening =
      (p.front ++ commentOpening :: p.enclosed) ++ p.closing :: p.rest := by
    simp [source]
  have hlength : (p.front ++ commentOpening :: p.enclosed).length = p.closingAt := by
    simp only [closingAt, List.length_append, List.length_cons]
    omega
  rw [hopening, ← hlength, List.set_append_right _ _ (Nat.le_refl _), Nat.sub_self, List.set_cons_zero]
  simp [commented]

end Parts

/-! ## Finding the parts -/

/-- A line that trims to a fence has no letters. -/
theorem not_isClosingFence_of_isBegin {l : String} (h : isBegin l = true) : isClosingFence l = false := by
  rw [Bool.eq_false_iff]
  intro hclosing
  have hmem : 'B' ∈ l.toList := by
    have htrimmed : 'B' ∈ ((l.toList.dropWhile (· == ' ')).reverse.dropWhile (· == ' ')).reverse := by
      rw [eq_of_beq h]
      decide
    rw [List.mem_reverse] at htrimmed
    have hdropped := (List.dropWhile_sublist _).subset htrimmed
    exact (List.dropWhile_sublist _).subset (List.mem_reverse.mp hdropped)
  rcases Text.isBlank_or_mem_trim hmem with hblank | hmem
  · revert hblank
    decide
  · rw [eq_of_beq hclosing] at hmem
    revert hmem
    decide

theorem not_isBegin_of_isClosingFence {l : String} (h : isClosingFence l = true) : isBegin l = false := by
  rw [Bool.eq_false_iff]
  intro hbegin
  rw [not_isClosingFence_of_isBegin hbegin] at h
  cases h

theorem not_isFence_of_not_isClosingFence {l : String} (h : isClosingFence l = false) : isFence l = false := by
  rw [Bool.eq_false_iff]
  intro hfence
  rw [isClosingFence_of_isFence hfence] at h
  cases h

theorem drop_of_getElem? {ls : List String} {i : Nat} {l : String} (h : ls[i]? = some l) :
    ls.drop i = l :: ls.drop (i + 1) := by
  obtain ⟨hi, rfl⟩ := List.getElem?_eq_some_iff.mp h
  exact List.drop_eq_getElem_cons hi

theorem exists_parts {ls : List String} {b : Nat} (h : find? ls = .ok (some b)) :
    ∃ p : Parts, p.Of ls ∧ b = p.front.length + 1 := by
  obtain ⟨o, c, rfl, hlt, hopening, hbegin, hclosing⟩ := find?_eq_some h
  obtain ⟨beginning, hline, hbegins⟩ := (Option.any_eq_true ..).mp hbegin
  have hlength : o ≤ ls.length := Nat.le_of_lt (List.getElem?_eq_some_iff.mp hopening).1
  -- a fence comes after the begin line, so there is a first line that closes the block
  have hbehind : fence ∈ ls.drop (o + 2) := by
    have hfence : (ls.drop (o + 2))[c - (o + 2)]? = some fence := by
      rw [List.getElem?_drop, ← hclosing]
      congr 1
      omega
    exact List.mem_of_getElem? hfence
  have hsome : ((ls.drop (o + 2)).find? isClosingFence).isSome = true :=
    List.find?_isSome.mpr ⟨fence, hbehind, isClosingFence_of_isFence (isFence_iff.mpr rfl)⟩
  obtain ⟨closing, hfind⟩ := Option.isSome_iff_exists.mp hsome
  obtain ⟨hcloses, inside, rest, hdrop, hinside⟩ := List.find?_eq_some_iff_append.mp hfind
  have hfront : (ls.take o).length = o := List.length_take_of_le hlength
  refine ⟨⟨ls.take o, beginning, inside, closing, rest⟩, ⟨?_, ?_, hbegins, ?_, hcloses⟩, by rw [hfront]⟩
  · show ls = ls.take o ++ fence :: (beginning :: inside ++ closing :: rest)
    rw [List.cons_append, ← hdrop, ← drop_of_getElem? hline, ← drop_of_getElem? hopening, List.take_append_drop]
  · rw [h, hfront]
  · intro l hl
    simpa using hinside l hl

namespace Parts

variable {p : Parts} {ls : List String}

theorem Of.not_closing_enclosed (h : p.Of ls) : ∀ l ∈ p.enclosed, isClosingFence l = false :=
  List.forall_mem_cons.mpr ⟨not_isClosingFence_of_isBegin h.opens, h.inside⟩

theorem Of.drop_beginning (h : p.Of ls) : ls.drop (p.front.length + 1 + 1) = p.inside ++ p.closing :: p.rest := by
  rw [h.eq_source, ← List.drop_drop, drop_source]
  rfl

/-- The lines that the metadata is read from. -/
theorem Of.blockLines_eq (h : p.Of ls) : blockLines ls (p.front.length + 1) = p.inside := by
  have hopen : ∀ l ∈ p.inside, (! isClosingFence l) = true := fun l hl => by rw [h.inside l hl]; rfl
  have hstop : (p.closing :: p.rest).takeWhile (fun l => ! isClosingFence l) = [] :=
    List.takeWhile_cons_of_neg (by simp [h.closes])
  rw [blockLines, h.drop_beginning, List.takeWhile_append_of_pos hopen, hstop, List.append_nil]

/-- The line that the prompt closes its comment at. -/
theorem Of.closing?_eq (h : p.Of ls) : closing? ls (p.front.length + 1) = some p.closingAt := by
  have hnone : p.enclosed.findIdx? isClosingFence = none := List.findIdx?_eq_none_iff.mpr h.not_closing_enclosed
  rw [closing?, h.eq_source, drop_source, List.findIdx?_append, hnone, List.findIdx?_cons, if_pos h.closes]
  simp only [Option.map_some, Option.none_or, Nat.zero_add]
  rfl

theorem Of.announced (h : p.Of ls) (manual : Bool) :
    (p.prepend (announcement manual)).Of (announced manual ls) := by
  refine ⟨?_, ?_, h.opens, h.inside, h.closes⟩
  · rw [announced_eq, h.eq_source, source_prepend]
  · rw [find?_announced, h.found]
    simp only [Except.map, Option.map_some, prepend, List.length_append]
    congr 2
    omega

end Parts

end Question

namespace Cell

open Question

theorem find?_lock {c : Cell} {k : String} (heditable : k ≠ "editable") (hdeletable : k ≠ "deletable") :
    Table.find? k c.lock.metadata = Table.find? k c.metadata := by
  rw [lock, Table.find?_insert_ne hdeletable, Table.find?_insert_ne heditable]

theorem isLocked_lock (c : Cell) : c.lock.isLocked = true := by
  have heditable : Table.find? "editable" c.lock.metadata = some (.bool false) := by
    rw [lock, Table.find?_insert_ne (by decide), Table.find?_insert_self]
  have hdeletable : Table.find? "deletable" c.lock.metadata = some (.bool false) := by
    rw [lock, Table.find?_insert_self]
  rw [isLocked, heditable, hdeletable]
  rfl

theorem prompt_of_parts {c : Cell} {p : Parts} (h : p.Of c.source) (manual : Bool) :
    c.prompt manual = .ok { c with source := announcement manual ++ p.commented }.lock := by
  have hannounced := h.announced manual
  simp only [prompt, hannounced.found, hannounced.closing?_eq, Nat.add_sub_cancel]
  rw [hannounced.eq_source, Parts.set_set_source, Parts.commented_prepend]

theorem ofCell_of_parts {c : Cell} {p : Parts} (h : p.Of c.source) :
    Question.ofCell c = (Question.ofLines p.inside).mapError fun f => .metadata f c.text := by
  simp only [Question.ofCell, h.found, h.blockLines_eq]

/-- A question has a prompt, whether it is announced or not: the cell under its own kind and id, with its
    outputs, attachments and metadata, locked. Two lines of its source are replaced, the fence
    before the begin line and the first line after it that closes the block; the lines between the
    begin line and the second of them are those that the metadata is read from. -/
theorem prompt_replaces_fences {c : Cell} (h : c.isQuestion = .ok true) :
    ∃ p : Parts, p.Of c.source ∧
      Question.ofCell c = ((Question.ofLines p.inside).mapError fun f => .metadata f c.text) ∧
      ∀ manual, ∃ d, c.prompt manual = .ok d ∧ d.source = announcement manual ++ p.commented ∧
        d.kind = c.kind ∧ d.id = c.id ∧ d.outputs = c.outputs ∧ d.executionCount = c.executionCount ∧
        d.attachments = c.attachments ∧ d.isLocked = true ∧
        ∀ k, k ≠ "editable" → k ≠ "deletable" → Table.find? k d.metadata = Table.find? k c.metadata := by
  obtain ⟨-, b, hb⟩ := isQuestion_eq_true h
  obtain ⟨p, hp, -⟩ := exists_parts hb
  refine ⟨p, hp, ofCell_of_parts hp, fun manual => ⟨_, prompt_of_parts hp manual, rfl, rfl, rfl, rfl, rfl, rfl, ?_, ?_⟩⟩
  · exact isLocked_lock _
  · exact fun k heditable hdeletable => find?_lock heditable hdeletable

/-- A block of an example before the block of the question. -/
def afterExample : Cell :=
  markdown "\x60\x60\x60\nx\n\x60\x60\x60\n\x60\x60\x60\n BEGIN QUESTION\nname: a\n\x60\x60\x60\nadd"

theorem isQuestion_afterExample : afterExample.isQuestion = .ok true := by decide +kernel

theorem source_prompt_afterExample : (afterExample.prompt true).map Cell.source =
    .ok [beginQuestionLine, "", fence, "x", fence, "<!--", " BEGIN QUESTION", "name: a", "-->", "add"] := by
  decide +kernel

theorem length_front_afterExample {p : Parts} (h : p.Of afterExample.source) : p.front.length = 3 := by
  have hfound : find? afterExample.source = .ok (some 4) := by decide +kernel
  exact Nat.succ.inj (Option.some.inj (Except.ok.inj (h.found.symm.trans hfound)))

theorem afterExample_is_rewritten : afterExample.isQuestion = .ok true ∧
    Question.ofCell afterExample = .ok ⟨"a", false, "", none, none, none⟩ ∧
    ∃ d, afterExample.prompt true = .ok d ∧ d.isLocked = true ∧
      d.source = [beginQuestionLine, "", fence, "x", fence, "<!--", " BEGIN QUESTION", "name: a", "-->", "add"] := by
  obtain ⟨p, hp, hread, hprompt⟩ := prompt_replaces_fences isQuestion_afterExample
  obtain ⟨d, hd, -, -, -, -, -, -, hlocked, -⟩ := hprompt true
  have hsource := source_prompt_afterExample
  rw [hd] at hsource
  refine ⟨isQuestion_afterExample, ?_, d, hd, hlocked, Except.ok.inj hsource⟩
  have hinside : p.inside = ["name: a"] := by
    rw [← hp.blockLines_eq, length_front_afterExample hp]
    decide +kernel
  rw [hread, hinside]
  decide +kernel

end Cell
end Handout
