/-
  Handout.Proofs.Grading.Program — grading with a program: a report is taken only from a
  program that succeeded, what it said is in the failure otherwise, and with a launcher that
  changes no files the grader changes none.
-/

import Handout.Grading.Program
import Handout.Proofs.Assignment.Atomicity
import Handout.Proofs.Text.Utf8

open Handout.Action

namespace Handout

/-- A launcher whose programs change no files. -/
def Launcher.ReadsOnly (launch : Launcher (Action Workspace)) : Prop :=
  ∀ program args w, (launch program args).Ends w (fun _ w' => w'.tree = w.tree ∧ w'.cwd = w.cwd)
    fun _ w' => w'.tree = w.tree ∧ w'.cwd = w.cwd

namespace Grader

theorem fromUTF8?_eq_some {bs : ByteArray} {t : String} : String.fromUTF8? bs = some t ↔ bs = t.toByteArray := by
  unfold String.fromUTF8?
  split
  case isTrue hvalid =>
    rw [Option.some.injEq, ← String.toByteArray_inj]
    rfl
  case isFalse hvalid =>
    simp only [reduceCtorEq, false_iff]
    rintro rfl
    exact hvalid t.isValidUTF8

theorem reportOf_eq_ok_iff {program : String} {e : Ended} {r : Report} :
    reportOf program e = .ok r ↔
      e.succeeded = true ∧ ∃ t : String, e.printed = t.toByteArray ∧ Report.ofText? t = some r := by
  have hread : (String.fromUTF8? e.printed).bind Report.ofText? = some r ↔
      ∃ t : String, e.printed = t.toByteArray ∧ Report.ofText? t = some r := by
    simp only [Option.bind_eq_some_iff, fromUTF8?_eq_some]
  rw [← hread, reportOf]
  by_cases hsucceeded : e.succeeded = true
  · cases (String.fromUTF8? e.printed).bind Report.ofText? <;> simp [hsucceeded]
  · simp [hsucceeded]

/-- A program that fails is blamed with what it said, without the white space around it. -/
theorem reportOf_of_failed (program status said : String) (printed : ByteArray) :
    reportOf program ⟨false, status, printed, said.toByteArray⟩ =
      .error (.runner (.exited program status (String.ofList (Text.trim said.toList)))) := by
  simp [reportOf]

theorem readsOnly_program {launch : Launcher (Action Workspace)} (h : launch.ReadsOnly) (name : String)
    (args : List String) : (program launch name args).ReadsOnly := by
  intro notebook tests w
  refine ends_bind.mpr ((h name (args ++ [notebook, tests]) w).mono (fun r w' hw => ?_) fun _ _ hw => hw)
  cases r with
  | error why => exact ends_throw.mpr hw
  | ok e => exact ends_answered.mpr ⟨fun _ _ => hw, fun _ _ => hw⟩

end Grader
end Handout
