/-
  Handout.Proofs.Cell.Export — the call that exports a notebook, and the name it is given.

  The name is put between double quotes as it stands, so the call names the notebook where
  these are read as the name. A name like that has no line end, which leaves the call on
  one line.

  Proved:
  - `exports_by_name_iff`: the call names the notebook exactly when the name stands for itself between
    double quotes. A name with a double quote in it does not (`quote_ends_the_name`).
-/

import Handout.Cell.Generated
import Handout.Proofs.Literal.Quoted
import Handout.Proofs.Text.Lines

namespace Handout.Cell

/-- The code is a comment and a last line that calls the export with one argument in double quotes,
    which is read as the name, and with nothing after it but whether to filter. -/
def CallsExport (source : List String) (name : String) (filtering : Bool) : Prop :=
  ∃ inside : String,
    source = ["# Save your notebook first, then run this cell to export.",
      "grader.export(\"" ++ inside ++ "\"" ++ if filtering then ")" else ", filtering=False)"] ∧
    Literal.parse ('"' :: (inside.toList ++ ['"'])) = .ok (.text name)

/-- The cell that exports the notebook. -/
def exporting (name : String) (filtering : Bool) : Cell :=
  (code ("# Save your notebook first, then run this cell to export.\n" ++ exportCall name filtering)).lock

theorem exportCall_inj {name name' : String} {filtering : Bool}
    (h : exportCall name filtering = exportCall name' filtering) : name = name' := by
  unfold exportCall at h
  exact (String.append_right_inj _).mp ((String.append_left_inj _).mp ((String.append_left_inj _).mp h))

theorem textOf_export (name : String) (filtering : Bool) :
    Text.textOf ["# Save your notebook first, then run this cell to export.", exportCall name filtering] =
      "# Save your notebook first, then run this cell to export.\n" ++ exportCall name filtering := by
  rw [Text.textOf_pair, show "# Save your notebook first, then run this cell to export." ++ "\n" =
    "# Save your notebook first, then run this cell to export.\n" by decide]

/-- The lines of the cell are those two unless the name has a line end. -/
theorem source_exporting {name : String} (h : '\n' ∉ name.toList) (filtering : Bool) : (exporting name filtering).source =
    ["# Save your notebook first, then run this cell to export.", exportCall name filtering] := by
  have hcall : '\n' ∉ (exportCall name filtering).toList := by
    have hbefore : '\n' ∉ "grader.export(\"".toList := by decide
    have hquote : '\n' ∉ "\"".toList := by decide
    have hafter : '\n' ∉ (if filtering then ")" else ", filtering=False)").toList := by cases filtering <;> decide
    unfold exportCall
    simp only [String.toList_append, List.mem_append, not_or]
    exact ⟨⟨⟨hbefore, h⟩, hquote⟩, hafter⟩
  show Text.linesOf ("# Save your notebook first, then run this cell to export.\n" ++ exportCall name filtering) = _
  rw [← textOf_export]
  exact Text.linesOf_textOf_eq_self (List.cons_ne_nil _ _)
    (List.forall_mem_cons.mpr ⟨by decide, List.forall_mem_singleton.mpr hcall⟩)

/-- A call on the second of two lines has the name between its quotes. -/
theorem eq_of_source_exporting {name inside : String} {filtering : Bool} (h : (exporting name filtering).source =
    ["# Save your notebook first, then run this cell to export.", exportCall inside filtering]) : name = inside := by
  have htext := congrArg Text.textOf h
  rw [textOf_export] at htext
  have hname : Text.textOf (exporting name filtering).source =
      "# Save your notebook first, then run this cell to export.\n" ++ exportCall name filtering := Text.textOf_linesOf _
  exact exportCall_inj ((String.append_right_inj _).mp (hname.symm.trans htext))

/-- Of the cells that say how to submit, the one with code calls the export with the name of the notebook
    exactly when the name stands for itself between double quotes. -/
theorem exports_by_name_iff (name : String) (instructions : Option String) (filtering : Bool) :
    ∃ c, (submit name instructions filtering).filter isCode = [c] ∧
      (CallsExport c.source name filtering ↔ Literal.standsForItself name.toList = true) := by
  refine ⟨exporting name filtering, rfl, ?_, fun h => ?_⟩
  · rintro ⟨inside, hlines, hparse⟩
    obtain rfl := eq_of_source_exporting hlines
    rw [← Literal.parse_quoted_iff, String.ofList_toList]
    exact hparse
  · have hlines := source_exporting (Literal.notMem_of_standsForItself h) filtering
    rw [← Literal.parse_quoted_iff, String.ofList_toList] at h
    exact ⟨name, hlines, h⟩

/-- A backslash before a letter that makes no escape with it. -/
theorem draft_is_exported_by_name : ∃ c, (submit "week 1\\draft.ipynb" none false).filter isCode = [c] ∧
    CallsExport c.source "week 1\\draft.ipynb" false := by
  obtain ⟨c, hc, hiff⟩ := exports_by_name_iff "week 1\\draft.ipynb" none false
  exact ⟨c, hc, hiff.mpr (by decide)⟩

/-- A double quote in the name ends the text there. -/
theorem quote_ends_the_name : ∃ c, (submit "a\"b.ipynb" none true).filter isCode = [c] ∧
    c.source = ["# Save your notebook first, then run this cell to export.", "grader.export(\"a\"b.ipynb\")"] ∧
    ¬ CallsExport c.source "a\"b.ipynb" true := by
  have hcall : exportCall "a\"b.ipynb" true = "grader.export(\"a\"b.ipynb\")" := by decide
  have hsource := source_exporting (show '\n' ∉ "a\"b.ipynb".toList by decide) true
  refine ⟨exporting "a\"b.ipynb" true, rfl, hcall ▸ hsource, ?_⟩
  rintro ⟨inside, hlines, hparse⟩
  obtain rfl := eq_of_source_exporting hlines
  have hname := (Literal.parse_quoted_iff _).mp (by rw [String.ofList_toList]; exact hparse)
  revert hname
  decide

end Handout.Cell
