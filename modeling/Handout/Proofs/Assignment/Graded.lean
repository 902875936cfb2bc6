/-
  Handout.Proofs.Assignment.Graded — only a grader notes what was graded.

  No operation on files touches the notes (`changes`), so what is made of such operations
  does not either: making views, putting them in place and clearing away (`keepsNotes_autograder`,
  `keepsNotes_student`, `keepsNotes_commit`, `keepsNotes_discard`).
-/

import Handout.Assignment
import Handout.Proofs.Files.Directories
import Handout.Proofs.Files.Operations

open Handout.Action

namespace Handout

namespace Workspace

/-- The notes are these. -/
def Notes (notes : List (Path × Path)) (w : Workspace) : Prop := w.graded = notes

/-- An action that leaves the notes as they are. -/
abbrev KeepsNotes {α : Type} (x : Action Workspace α) : Prop := ∀ notes, Keeps (Notes notes) x fun _ => True

variable {w w' : Workspace} {p q : Path} {newId : List String → String}

/-! ## Changes -/

theorem graded_store? {c : Content} (h : w.store? p c = some w') : w'.graded = w.graded := by
  unfold store? at h
  split at h
  · split at h
    · cases h
      rfl
    · cases h
  · cases h
    rfl
  · cases h

theorem graded_copy? (h : w.copy? p q = some w') : w'.graded = w.graded := by
  unfold copy? at h
  split at h
  · exact graded_store? h
  · cases h

theorem graded_remove? (h : w.remove? p = some w') : w'.graded = w.graded := by
  unfold remove? at h
  split at h
  · split at h
    · cases h
    · cases h
      rfl
  · cases h

theorem graded_rename? (h : w.rename? p q = some w') : w'.graded = w.graded := by
  unfold rename? at h
  split at h
  · dsimp only at h
    split at h
    · split at h
      · cases h
        rfl
      · split at h
        · cases h
        · cases h
          rfl
    · split at h
      · cases h
      · cases h
        rfl
    · cases h
  · cases h

theorem graded_removeAll (w : Workspace) (p : Path) : (w.removeAll p).1.graded = w.graded := by
  unfold removeAll
  split
  · split
    · rfl
    · split <;> rfl
    · rfl
  · rfl

theorem graded_makeDirectory (h : w.makeDirectory p = .made w') : w'.graded = w.graded := by
  unfold makeDirectory at h
  split at h
  · cases h
    rfl
  · cases h
  · cases h

theorem graded_makeDirectories (w : Workspace) (up : Nat) (p : Path) : (w.makeDirectories up p).1.graded = w.graded := by
  induction up generalizing p with
  | zero => rfl
  | succ up ih =>
    unfold makeDirectories
    split
    · rfl
    · split
      · rename_i hmade
        exact graded_makeDirectory hmade
      · rfl
      · split
        · rfl
        · rename_i q hparent
          have habove := ih q
          split
          · rename_i w' hq
            rw [hq] at habove
            exact habove
          · rename_i w' hq
            rw [hq] at habove
            split
            · rename_i hmade
              exact (graded_makeDirectory hmade).trans habove
            · exact habove

/-! ## Operations -/

theorem keepsNotes_perform {change : Workspace → Option Workspace}
    (h : ∀ w w', change w = some w' → w'.graded = w.graded) : KeepsNotes (perform change) :=
  fun _ => keeps_perform fun w w' hw hchange => (h w w' hchange).trans hw

theorem keepsNotes_performPart {change : Workspace → Attempt} (h : ∀ w, (change w).1.graded = w.graded) :
    KeepsNotes (performPart change) :=
  fun _ => keeps_performPart fun w hw => (h w).trans hw

theorem keepsNotes_makeDirectories (p : Path) : KeepsNotes ((files newId).makeDirectories p) :=
  keepsNotes_performPart fun w => graded_makeDirectories w (FileTree.maxPath + 1) p

theorem keepsNotes_removeAll (p : Path) : KeepsNotes ((files newId).removeAll p) :=
  keepsNotes_performPart fun w => graded_removeAll w p

theorem keepsNotes_remove (p : Path) : KeepsNotes ((files newId).remove p) :=
  keepsNotes_perform fun _ _ => graded_remove?

theorem keepsNotes_rename (p q : Path) : KeepsNotes ((files newId).rename p q) :=
  keepsNotes_perform fun _ _ => graded_rename?

theorem keepsNotes_copy (p q : Path) : KeepsNotes ((files newId).copy p q) :=
  keepsNotes_perform fun _ _ => graded_copy?

theorem keepsNotes_write (p : Path) (s : String) : KeepsNotes ((files newId).write p s) :=
  fun _ => keeps_write fun _ _ _ hw hstored => (graded_store? hstored).trans hw

/-! ## Files -/

theorem keepsNotes_writeAtomic (p : Path) (text : String) : KeepsNotes ((files newId).writeAtomic p text) := by
  intro notes
  refine (keeps_query (I := Notes notes)).bind fun tmp _ => ?_
  refine (Files.keeps_orUndo (keepsNotes_write tmp text notes) (keepsNotes_remove tmp notes)).bind fun _ _ => ?_
  exact Files.keeps_orUndo (keepsNotes_rename tmp p notes) (keepsNotes_remove tmp notes)

theorem keepsNotes_copyEntry (dest : Path) (depth : Nat) (around : List String) (base : String) (source : Path) :
    KeepsNotes ((files newId).copyEntry dest depth around base source) := by
  intro notes
  induction depth generalizing around base source with
  | zero => exact .throw _
  | succ depth ih =>
    unfold Files.copyEntry
    refine keeps_query.bind fun linked _ => keeps_query.bind fun isDirectory _ => ?_
    split
    · refine keeps_question.bind fun here _ => ?_
      have hrest : ∀ u : Unit, Keeps (Notes notes) (do
          (files newId).makeDirectories (Path.join dest base)
          for name in ← (files newId).names source do
            (files newId).copyEntry dest depth (here :: around) (Files.relative base name) (Path.join source name))
          fun _ => True := by
        intro _
        refine (keepsNotes_makeDirectories _ notes).bind fun _ _ => keeps_question.bind fun names _ => ?_
        exact (Keeps.forIn names fun n _ => ih _ _ _).bind fun _ _ => .pure trivial
      split
      · exact (Keeps.throw (P := fun _ => True) _).bind fun u _ => hrest u
      · exact hrest ()
    · exact keepsNotes_copy _ _ notes

theorem keepsNotes_copyInto (source dest : Path) : KeepsNotes ((files newId).copyInto source dest) := by
  intro notes
  unfold Files.copyInto
  split
  · exact .throw _
  · refine keeps_query.bind fun isDirectory _ => ?_
    split
    · exact keepsNotes_copyEntry _ _ _ _ _ notes
    · refine keeps_query.bind fun isFile _ => ?_
      split
      · exact (keepsNotes_makeDirectories _ notes).bind fun _ _ => keepsNotes_copy _ _ notes
      · exact .throw _

theorem keepsNotes_copyAll (dest : Path) (sources : List Path) : KeepsNotes ((files newId).copyAll dest sources) := by
  intro notes
  induction sources with
  | nil => exact .pure trivial
  | cons f sources ih => exact (keepsNotes_copyInto f dest notes).bind fun _ _ => ih

/-! ## Views -/

theorem keepsNotes_testNames (root : Path) : KeepsNotes (Store.Disk.testNames (files newId) root) := by
  intro notes
  refine keeps_query.bind fun present _ => ?_
  split
  · refine keeps_question.bind fun names _ => ?_
    exact (Keeps.filterM names (fun n => keeps_query) fun _ _ => trivial).bind fun _ _ => .pure trivial
  · exact .pure trivial

theorem keepsNotes_saveAll (root : Path) (tests : List TestFile) :
    KeepsNotes ((Store.disk (files newId) root).saveAll tests) := by
  intro notes
  induction tests with
  | nil => exact .pure trivial
  | cons f tests ih =>
    have hsave : Keeps (Notes notes) (Store.Disk.save (files newId) root f) fun _ => True := by
      refine keeps_query.bind fun present _ => ?_
      split
      · exact keepsNotes_writeAtomic _ _ notes
      · exact (keepsNotes_makeDirectories _ notes).bind fun _ _ => keepsNotes_writeAtomic _ _ notes
    exact hsave.bind fun _ _ => ih

theorem keepsNotes_list (root : Path) : KeepsNotes ((Store.disk (files newId) root).list) := by
  intro notes
  refine (keepsNotes_testNames root notes).bind fun names _ => ?_
  refine (Keeps.mapM (P := fun _ => True) names fun n _ => ?_).mono fun _ _ => trivial
  have hread : Keeps (Notes notes) (Store.Disk.readTest (files newId) (Path.join root n)) fun _ => True := by
    refine keeps_question.bind fun text _ => ?_
    split
    · exact .pure trivial
    · exact .throw _
  exact hread.bind fun f _ => Keeps.pure (P := fun _ => True) trivial

theorem keepsNotes_deleteAll (root : Path) (stems : List String) :
    KeepsNotes ((Store.disk (files newId) root).deleteAll stems) := by
  intro notes
  induction stems with
  | nil => exact .pure trivial
  | cons s stems ih =>
    have hdelete : Keeps (Notes notes) (Store.Disk.delete (files newId) root s) fun _ => True := by
      refine keeps_query.bind fun present _ => ?_
      split
      · exact keepsNotes_remove _ notes
      · exact .pure trivial
    exact hdelete.bind fun _ _ => ih

theorem keepsNotes_readNotebook (p : Path) : KeepsNotes ((files newId).readNotebook p) := fun _ =>
  keeps_question.bind fun _ _ => .answered fun _ _ => trivial

theorem keepsNotes_build (root : Path) (nb : Notebook) (title : String) (o : Options) :
    KeepsNotes (nb.build (Store.disk (files newId) root) (files newId).newId title o) := by
  intro notes
  have hassign : ∀ (cells : List Cell) (taken : List String),
      Keeps (Notes notes) (Notebook.assignIds (files newId).newId taken cells) fun _ => True := by
    intro cells
    induction cells with
    | nil => exact fun _ => .pure trivial
    | cons c cells ih =>
      intro taken
      unfold Notebook.assignIds
      split
      · exact (ih taken).bind fun _ _ => .pure trivial
      · exact (Keeps.pure (P := fun _ => True) trivial).bind fun id _ => (ih (id :: taken)).bind fun _ _ => .pure trivial
  have hsegment : Keeps (Notes notes) (segment (Store.disk (files newId) root) nb.cells) fun _ => True :=
    (keepsNotes_saveAll root _ notes).bind fun _ _ =>
      (Keeps.answered (P := fun _ => True) fun _ _ => trivial).bind fun _ _ => .pure trivial
  refine hsegment.bind fun s _ => (Keeps.bind (P := fun _ => True) ?_ fun _ _ => .pure trivial)
  unfold Notebook.identify
  split
  · exact (hassign _ _).bind fun _ _ => .pure trivial
  · exact (Keeps.pure (P := fun _ => True) trivial).bind fun _ _ => .pure trivial

theorem keepsNotes_autograder (master : Path) (sources : List Path) (dest : Path) (o : Options) :
    KeepsNotes (View.autograder (files newId) master sources dest o) := by
  intro notes
  refine (Keeps.answered (P := fun _ => True) fun _ _ => trivial).bind fun title _ => ?_
  refine (keepsNotes_makeDirectories dest notes).bind fun _ _ => (keepsNotes_copyAll dest sources notes).bind fun _ _ => ?_
  refine (keepsNotes_readNotebook master notes).bind fun nb _ => (keepsNotes_build _ nb title o notes).bind fun built _ => ?_
  exact (keepsNotes_writeAtomic _ _ notes).bind fun _ _ => .pure trivial

theorem keepsNotes_student (source dest : Path) (title : String) :
    KeepsNotes (View.student (files newId) source dest title) := by
  intro notes
  have hrest : ∀ u : Unit, Keeps (Notes notes) (do
      (files newId).copyTree source dest
      let path := Path.join dest title
      let nb ← (files newId).readNotebook path
      (files newId).writeNotebook path nb.stripSolutions
      let hidden ← (Store.disk (files newId) (View.testsIn dest)).removeHidden
      return (⟨[path], [], [], none, [View.studentMessage path nb.solutionCount hidden.length]⟩ : Summary)) fun _ => True := by
    intro _
    refine (keepsNotes_copyEntry dest Files.maxDepth [] "" source notes).bind fun _ _ => ?_
    refine (keepsNotes_readNotebook _ notes).bind fun nb _ => (keepsNotes_writeAtomic _ _ notes).bind fun _ _ => ?_
    refine Keeps.bind (P := fun _ => True) ?_ fun hidden _ => .pure trivial
    exact (keepsNotes_list _ notes).bind fun es _ => (keepsNotes_deleteAll _ _ notes).bind fun _ _ => .pure trivial
  refine keeps_query.bind fun present _ => ?_
  split
  · exact (keepsNotes_removeAll dest notes).bind fun _ _ => hrest ()
  · exact hrest ()

end Workspace

namespace Assignment

open Workspace (KeepsNotes Notes keepsNotes_removeAll keepsNotes_rename keepsNotes_makeDirectories keeps_query)

variable {newId : List String → String}

/-! ## Putting them in place -/

theorem keepsNotes_rollBack (aside result : Path) (moved placed : List String) :
    KeepsNotes (rollBack (Workspace.files newId) aside result moved placed) := by
  intro notes
  have hremove : Keeps (Notes notes) (removeAllOf (Workspace.files newId) result placed) fun _ => True := by
    induction placed with
    | nil => exact .pure trivial
    | cons v placed ih => exact (Files.keeps_attempt (keepsNotes_removeAll _ notes)).bind fun _ _ => ih
  have hbring : Keeps (Notes notes) (bringBack (Workspace.files newId) aside result moved) fun _ => True := by
    induction moved with
    | nil => exact .pure trivial
    | cons v moved ih => exact (Files.keeps_attempt (keepsNotes_rename _ _ notes)).bind fun _ _ => ih
  exact hremove.bind fun _ _ => hbring

theorem keepsNotes_moveAside (aside result : Path) (moved views : List String) :
    KeepsNotes (moveAside (Workspace.files newId) aside result moved views) := by
  intro notes
  induction views generalizing moved with
  | nil => exact .pure trivial
  | cons v views ih =>
    refine keeps_query.bind fun present _ => ?_
    split
    · exact (Files.keeps_orUndo (keepsNotes_rename _ _ notes) (keepsNotes_rollBack _ _ _ _ notes)).bind fun _ _ => ih _
    · exact ih _

theorem keepsNotes_place (staging aside result : Path) (moved placed views : List String) :
    KeepsNotes (place (Workspace.files newId) staging aside result moved placed views) := by
  intro notes
  induction views generalizing placed with
  | nil => exact .pure trivial
  | cons v views ih =>
    exact (Files.keeps_orUndo (keepsNotes_rename _ _ notes) (keepsNotes_rollBack _ _ _ _ notes)).bind fun _ _ => ih _

theorem keepsNotes_commit (staging result : Path) : KeepsNotes (commit (Workspace.files newId) staging result) := by
  intro notes
  refine (keepsNotes_makeDirectories _ notes).bind fun _ _ => ?_
  exact (keepsNotes_moveAside _ _ _ _ notes).bind fun moved _ => keepsNotes_place _ _ _ _ _ _ notes

theorem keepsNotes_discard (staging : Path) : KeepsNotes (discard (Workspace.files newId) staging) := by
  intro notes
  refine keeps_query.bind fun present _ => ?_
  split
  · exact Files.keeps_attempt (keepsNotes_removeAll _ notes)
  · exact .pure trivial

end Assignment
end Handout
