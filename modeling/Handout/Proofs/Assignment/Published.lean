/-
  Handout.Proofs.Assignment.Published — a run that succeeds has put both views in place.

  The graded view is made in the staging directory, and the other one of it; the second does
  not touch the first (`student_leaves_autograder`), grading touches neither, and the commit
  puts both in place (`Proofs.Assignment.Placing`). What was staged is then cleared away, so a run
  that succeeds has replaced the views, made the way to them, and changed nothing else
  (`run_publishes_views`).
-/

import Mathlib
import Handout.Proofs.Assignment.Atomicity
import Handout.Proofs.Assignment.Graded
import Handout.Proofs.Assignment.Placing
import Handout.Proofs.View.Student

open Handout.Action

namespace Handout

open FileTree (Fits maxPath)
open View (blank blankText blankWritten ofText_blankText toText_blank stripSolutions_blank)
open Workspace (LeadsTo Under)

/-- A grader that changes no files, and notes each notebook it is asked to grade. -/
def Grader.OnlyNotes (grade : Grader (Action Workspace)) : Prop :=
  ∀ notebook tests w, (grade notebook tests).Ends w (fun _ w' => w' = { w with graded := w.graded ++ [(notebook, tests)] })
    fun _ w' => w' = { w with graded := w.graded ++ [(notebook, tests)] }

theorem Grader.onlyNotes_fixed (answer : Except Failure Report) : (Grader.fixed answer).OnlyNotes := fun _ _ _ =>
  ends_bind.mpr (ends_modify.mpr (ends_answered.mpr ⟨fun _ _ => rfl, fun _ _ => rfl⟩))

namespace Assignment

variable {w₁ w₂ w₃ w w' : Workspace} {a : Assignment} {result p : Path} {name v n title : String} {ns : List String} {left : Nat}
  {r : Location} {seen : List Location} {newId : List String → String} {grade : Grader (Action Workspace)}

/-! ## The graded view -/

/-- A file that was replaced inside a view is there. -/
theorem writeAtomic_there (g : Ground w₁ result left r seen name) (hp : Inside result name v ns p) (hn : Path.IsName n)
    (h : Staged w₁ r name w) (text : String) : ((Workspace.files newId).writeAtomic (Path.join p n) text).Ends w
      (fun _ w' => Staged w₁ r name w' ∧ (Path.join p n).utf8ByteSize ≤ maxPath ∧
        w'.tree.node? (r ++ name :: v :: (ns ++ [n])) ≠ none) fun _ _ => True := by
  obtain ⟨k, hk⟩ := w.exists_unused (Files.temporary (Path.join p n))
  refine ends_bind.mpr (Workspace.ends_unused.mpr ?_)
  rw [hk]
  obtain ⟨m, htmp⟩ := inside_temporary g hp hn k
  refine ends_bind.mpr ((Files.keeps_orUndo (keeps_write g htmp text) (keeps_remove g htmp) w h).mono (fun _ w₂ hw₂ => ?_)
    fun _ _ _ => trivial)
  refine Files.ends_orUndo.mpr (Workspace.ends_rename.mpr ⟨fun w' hrename => ?_, fun _ => ends_true _ _⟩)
  have hfrom : w₂.Lands false _ _ := hw₂.1.lands_entry g htmp
  have hto : w₂.Lands false _ _ := hw₂.1.lands_entry g (hp.join hn)
  refine ⟨hw₂.1.acts (Workspace.rename?_acts hw₂.1.wellFormed hfrom hto hrename), (Workspace.rename?_short hrename).2, ?_⟩
  rw [show r ++ name :: v :: (ns ++ [n]) = r ++ name :: v :: ns ++ [n] by simp]
  exact Workspace.rename?_there hw₂.1.wellFormed hfrom hto (by simp) (by simp) hrename

/-- A graded view that was made is a directory. -/
theorem autograder_there (g : Ground w₁ result left r seen name) {dest : Path} (hdest : Inside result name v [] dest)
    (master : Path) (files : List Path) (o : Options) :
    (View.autograder (Workspace.files newId) master files dest o).Ends w₁ (fun _ w' => Staged w₁ r name w' ∧
      dest.utf8ByteSize ≤ maxPath ∧ w'.tree.node? (r ++ [name, v]) = some .directory) fun _ _ => True := by
  have htests : Path.IsName "tests" := by decide
  refine ends_bind.mpr (ends_answered.mpr ⟨fun title htitle => ?_, fun _ _ => trivial⟩)
  have hname := isName_of_notebookName htitle
  refine ends_bind.mpr ((keeps_makeDirectories g hdest w₁ g.start).mono (fun _ w₂ h₂ => ?_) fun _ _ _ => trivial)
  refine ends_bind.mpr ((keeps_copyAll g hdest files w₂ h₂.1).mono (fun _ w₃ h₃ => ?_) fun _ _ _ => trivial)
  refine ends_bind.mpr ((keeps_readNotebook master w₃ h₃.1).mono (fun nb w₄ h₄ => ?_) fun _ _ _ => trivial)
  refine ends_bind.mpr ((keeps_build g (hdest.join htests) nb title o w₄ h₄.1).mono (fun built w₅ h₅ => ?_) fun _ _ _ => trivial)
  refine ends_bind.mpr ((writeAtomic_there g hdest hname h₅.1 _).mono (fun _ w' hw' => ends_pure.mpr ?_) fun _ _ _ => trivial)
  obtain ⟨hstaged, hsize, hthere⟩ := hw'
  refine ⟨hstaged, (Path.utf8ByteSize_join_le hname.isAbsolute).trans hsize, ?_⟩
  exact hstaged.wellFormed.directory (List.cons_ne_nil title []) (by simpa using hthere)

/-! ## The view of learners -/

theorem utf8ByteSize_student_le (staging : Path) :
    (Path.join staging studentName).utf8ByteSize ≤ (Path.join staging autograderName).utf8ByteSize := by
  have hshorter : studentName.utf8ByteSize ≤ autograderName.utf8ByteSize := by decide
  rw [Path.join_eq (a := staging) (b := studentName) (by decide), Path.join_eq (a := staging) (b := autograderName) (by decide),
    String.utf8ByteSize_append, String.utf8ByteSize_append]
  omega

/-- Inside the staging directory the view of learners is made from nothing, apart from the graded one. -/
theorem vacated_student (g : Ground w₁ result left r seen name) (h : Staged w₁ r name w)
    (hgraded : w.tree.node? (r ++ [name, autograderName]) = some .directory)
    (hsize : (Path.join (Path.join result name) autograderName).utf8ByteSize ≤ maxPath) :
    w.directory? (Path.join (Path.join result name) autograderName) = some (r ++ [name, autograderName]) ∧
      View.Vacated w (Path.join (Path.join result name) studentName) (r ++ [name] ++ [studentName]) ∧
      View.Apart w (Path.join (Path.join result name) autograderName) (Path.join (Path.join result name) studentName)
        (r ++ [name] ++ [studentName]) := by
  have hlist : r ++ [name, autograderName] = r ++ [name] ++ [autograderName] := by simp
  have htop : w.tree.node? (r ++ [name]) = some .directory :=
    h.wellFormed.parent (n := autograderName) (by rw [← hlist, hgraded]; simp)
  have hstaging : w.LeadsTo (Path.join result name) left (r ++ [name]) (seen ++ [r ++ [name]]) :=
    (h.leads g).join (h.wellFormed.name (by rw [htop]; simp)) htop
  rw [hlist] at hgraded ⊢
  have hfits : Fits autograderName := fits_of_view (by decide)
  have hleads := hstaging.join hfits hgraded
  -- nothing on the way to the graded view, or in it, is in the other one
  have hapart : ∀ l ∈ seen ++ [r ++ [name]] ++ [r ++ [name] ++ [autograderName]], ¬ r ++ [name] ++ [studentName] <+: l := by
    intro l hl hpre
    rw [List.append_assoc, List.mem_append] at hl
    rcases hl with hl | hl
    · exact g.notWithin_of_seen hl (List.IsPrefix.trans (List.prefix_append ..) hpre)
    · have hlength := hpre.length_le
      rcases List.mem_append.mp hl with hl | hl
      · rw [List.mem_singleton.mp hl] at hlength
        simp at hlength
      · rw [List.mem_singleton.mp hl] at hpre
        simp [studentName, autograderName] at hpre
  have hcwd : ¬ r ++ [name] ++ [studentName] <+: w.cwd := by
    intro hpre
    have hnone := g.wellFormed.node?_of_prefix g.free (List.IsPrefix.trans (List.prefix_append ..) hpre)
    rw [h.cwd, g.cwd] at hnone
    cases hnone
  have hwas : w.tree.node? (r ++ [name] ++ [studentName]) = none ∨ w.tree.node? (r ++ [name] ++ [studentName]) = some .directory := by
    by_cases hnone : w.tree.node? (r ++ [name] ++ [studentName]) = none
    · exact Or.inl hnone
    · have hview := h.views studentName
      rw [show r ++ [name, studentName] = r ++ [name] ++ [studentName] by simp] at hview
      exact Or.inr (hview hnone).2
  have hseen : ∀ l ∈ seen ++ [r ++ [name]], ¬ r ++ [name] ++ [studentName] <+: l := fun l hl =>
    hapart l (List.mem_append_left _ hl)
  refine ⟨Workspace.directory?_eq_some.mpr ⟨?_, hgraded⟩, View.vacated_child h.wellFormed (h.node?_cwd g) hstaging hseen
    (fits_of_view (by decide)) ((utf8ByteSize_student_le _).trans hsize) hwas hcwd fun ns hns l hl => ?_⟩
  · exact Workspace.follow_of_leadsTo hleads (hfits.isName.join_ne_empty _) hsize
  · have hlinks : ∀ x target, w.tree.node? (r ++ [name] ++ [autograderName] ++ x) ≠ some (.link target) := fun x target => by
      simpa using h.plain (autograderName :: x) target
    rcases Workspace.mem_passed_down hleads hns hlinks hl with hl | ⟨x, -, rfl⟩
    · exact hapart l hl
    · simp [studentName, autograderName]

/-- The graded view stays as it is while the other one is made of it. -/
theorem student_leaves_autograder (g : Ground w₁ result left r seen name) (h : Staged w₁ r name w)
    (hgraded : w.tree.node? (r ++ [name, autograderName]) = some .directory)
    (hsize : (Path.join (Path.join result name) autograderName).utf8ByteSize ≤ maxPath) (htitle : Path.IsName title) :
    (View.student (Workspace.files newId) (Path.join (Path.join result name) autograderName)
        (Path.join (Path.join result name) studentName) title).Ends w
      (fun _ w' => (∀ x, w'.tree.node? (r ++ name :: autograderName :: x) = w.tree.node? (r ++ name :: autograderName :: x)) ∧
        View.Derives (fun ns => w.shows (Path.down (Path.join (Path.join result name) autograderName) ns))
          (fun ns => w'.tree.node? (r ++ name :: studentName :: ns)) title) fun _ _ => True := by
  obtain ⟨hdirectory, hvacated, hapart⟩ := vacated_student g h hgraded hsize
  have hcwd := h.node?_cwd g
  have hsource : w.isDirectory (Path.join (Path.join result name) autograderName) = true := by
    obtain ⟨hfollow, -⟩ := Workspace.directory?_eq_some.mp hdirectory
    rw [Workspace.isDirectory, hfollow, Workspace.nodeAt?, hgraded]
    rfl
  refine (View.student_ends h.wellFormed hcwd hsource hvacated hapart htitle).mono (fun _ w' hw' => ?_) fun _ _ hf => hf
  obtain ⟨left', seen', what, hcarries, -, hderives⟩ := hw'
  obtain ⟨-, -, _, _, hreceives⟩ := hvacated.receives h.wellFormed hapart
  have hcwd' : w'.cwd = w.cwd := hcarries.acts.cwd.trans ((hvacated.made h.wellFormed).cwd.trans (View.cleared_spec h.wellFormed _).2)
  have hbelow := Workspace.node?_below_congr h.wellFormed hcarries.acts.wellFormed hcwd (hreceives.node?_cwd hcarries.acts) hcwd'
    hdirectory fun ns hns => View.agree_of_carries hapart hcarries hns
  refine ⟨fun x => by simpa using hbelow x, hderives.congr htitle (fun _ _ => rfl) fun ns hns => ?_⟩
  rw [← hcarries.node? ns hns]
  simp

/-! ## Both views -/

/-- Both views made in a staging directory: `w₂` is left by the graded one, `w₃` by the other. -/
structure ViewsMade (newId : List String → String) (a : Assignment) (w₁ : Workspace) (staging : Path) (title : String)
    (w₂ w₃ : Workspace) : Prop where
  autograder : ∃ sum, (View.autograder (Workspace.files newId) a.master a.files (Path.join staging autograderName)
    a.options).outcome w₁ = (.ok sum, w₂)
  student : ∃ sum, (View.student (Workspace.files newId) (Path.join staging autograderName) (Path.join staging studentName)
    title).outcome w₂ = (.ok sum, w₃)

/-- The notebook that is graded, with its tests, unless no tests are run. -/
def gradings (a : Assignment) (staging : Path) (title : String) : List (Path × Path) :=
  if a.options.runTests then
    [(Path.join (Path.join staging autograderName) title, View.testsIn (Path.join staging autograderName))]
  else []

/-- The grader gives full marks, and what it says is reported. -/
def Passes (grade : Grader (Action Workspace)) (w₃ : Workspace) (sum : Summary) (g : Path × Path) : Prop :=
  ∃ report w₄, (grade g.1 g.2).outcome w₃ = (.ok report, w₄) ∧ report.isFullMarks = true ∧ sum.report = some report

theorem verify_ends (hgrade : grade.OnlyNotes) (notebook tests : Path) : (verify grade notebook tests).Ends w
    (fun sum w' => w' = { w with graded := w.graded ++ [(notebook, tests)] } ∧ Passes grade w sum (notebook, tests))
    fun _ _ => True := by
  refine ends_bind.mpr (ends_intro (fun report w' hreport => ?_) fun _ _ _ => trivial)
  have hnoted := (hgrade notebook tests w).of_ok hreport
  split
  · rename_i hfull
    exact ends_pure.mpr ⟨hnoted, report, w', hreport, hfull, rfl⟩
  · exact ends_throw.mpr trivial

theorem buildViews_made (g : Ground w₁ a.result left r seen name) (hgrade : grade.OnlyNotes) (htitle : Path.IsName title) :
    (buildViews (Workspace.files newId) grade a title (Path.join a.result name)).Ends w₁ (fun sum w₄ =>
      ∃ w₂ w₃, ViewsMade newId a w₁ (Path.join a.result name) title w₂ w₃ ∧ Staged w₁ r name w₄ ∧ w₄.tree = w₃.tree ∧
        (∀ x, w₃.tree.node? (r ++ name :: autograderName :: x) = w₂.tree.node? (r ++ name :: autograderName :: x)) ∧
        View.Derives (fun ns => w₂.shows (Path.down (Path.join (Path.join a.result name) autograderName) ns))
          (fun ns => w₃.tree.node? (r ++ name :: studentName :: ns)) title ∧
        w₄.graded = w₁.graded ++ gradings a (Path.join a.result name) title ∧
        ∀ gr ∈ gradings a (Path.join a.result name) title, Passes grade w₃ sum gr) fun _ _ => True := by
  have hview : ∀ v ∈ viewNames, Inside a.result name v [] (Path.join (Path.join a.result name) v) := fun v hv =>
    ⟨((Under.refl a.result).join g.isName).join (isName_of_view hv), hv, by simp⟩
  have hgraded := hview autograderName (by decide)
  have hother := hview studentName (by decide)
  refine ends_bind.mpr (ends_intro (fun first w₂ hfirst => ?_) fun _ _ _ => trivial)
  obtain ⟨h₂, hsize, hthere⟩ := (autograder_there g hgraded a.master a.files a.options).of_ok hfirst
  have hnotes₂ : w₂.graded = w₁.graded :=
    ((Workspace.keepsNotes_autograder a.master a.files _ a.options w₁.graded w₁ rfl).of_ok hfirst).1
  refine ends_bind.mpr (ends_intro (fun second w₃ hsecond => ?_) fun _ _ _ => trivial)
  have h₃ := ((keeps_student g hgraded hother htitle w₂ h₂).of_ok hsecond).1
  have hnotes₃ : w₃.graded = w₂.graded := ((Workspace.keepsNotes_student _ _ title w₂.graded w₂ rfl).of_ok hsecond).1
  obtain ⟨hsame, hderives⟩ := (student_leaves_autograder g h₂ hthere hsize htitle).of_ok hsecond
  have hmade : ViewsMade newId a w₁ (Path.join a.result name) title w₂ w₃ := ⟨⟨first, hfirst⟩, second, hsecond⟩
  split
  · rename_i hrun
    refine ends_bind.mpr ((verify_ends hgrade _ _).mono (fun checked w₄ hw₄ => ends_pure.mpr ?_) fun _ _ _ => trivial)
    obtain ⟨rfl, report, w₅, hreport, hfull, hsum⟩ := hw₄
    refine ⟨w₂, w₃, hmade, h₃.congr rfl rfl, rfl, hsame, hderives, ?_, ?_⟩
    · rw [gradings, if_pos hrun, ← hnotes₂, ← hnotes₃]
    · intro gr hgr
      rw [gradings, if_pos hrun, List.mem_singleton] at hgr
      subst hgr
      exact ⟨report, w₅, hreport, hfull, by rw [Summary.append, hsum, Option.some_or]⟩
  · rename_i hrun
    refine ends_pure.mpr ⟨w₂, w₃, hmade, h₃, rfl, hsame, hderives, ?_, ?_⟩
    · rw [gradings, if_neg hrun, List.append_nil, hnotes₃, hnotes₂]
    · simp [gradings, hrun]

/-! ## The run -/

/-- When the views are in place, the staging directory is cleared away. -/
theorem discard_placed (hsize : (Path.join result name).utf8ByteSize ≤ maxPath) (h : Placed w₁ result left r seen name w w')
    (E : Failure → Workspace → Prop) : (discard (Workspace.files newId) (Path.join result name)).Ends w'
      (fun _ w'' => w''.cwd = w'.cwd ∧ ∀ l, w''.tree.node? l = if r ++ [name] <+: l then none else w'.tree.node? l) E := by
  have hfits : Fits name := h.wellFormed.name (by rw [h.top]; simp)
  refine ends_bind.mpr (Workspace.ends_isPresent.mpr ?_)
  rw [Workspace.isPresent_child h.leads hfits h.top hsize, if_pos rfl]
  refine Files.ends_attempt.mpr (Workspace.ends_removeAll.mpr ?_)
  rw [Workspace.removeAll_child h.leads hfits h.top hsize]
  exact ⟨fun _ => ⟨rfl, FileTree.node?_eraseAll (by simp)⟩, fun hnot => absurd hnot (by simp)⟩

/-- What a run that succeeds has done, with the views made in a directory `name` of the result. -/
structure Published (newId : List String → String) (grade : Grader (Action Workspace)) (a : Assignment) (w : Workspace)
    (sum : Summary) (w' : Workspace) (r : Location) (name title : String) (w₂ w₃ : Workspace) : Prop where
  named : notebookName a.master = .ok title
  /-- The path of the result leads to the same directory before and after. -/
  leads : ∃ left seen, (a.prepared w).LeadsTo a.result left r seen ∧ w'.LeadsTo a.result left r seen
  free : (a.prepared w).tree.node? (r ++ [name]) = none
  made : ViewsMade newId a (a.prepared w) (Path.join a.result name) title w₂ w₃
  autograder : ∀ x, w'.tree.node? (r ++ autograderName :: x) = w₂.tree.node? (r ++ name :: autograderName :: x)
  student : ∀ x, w'.tree.node? (r ++ studentName :: x) = w₃.tree.node? (r ++ name :: studentName :: x)
  derives : View.Derives (fun ns => w₂.shows (Path.down (Path.join (Path.join a.result name) autograderName) ns))
    (fun ns => w'.tree.node? (r ++ studentName :: ns)) title
  /-- All but the views is as when the result had been made, and for that only directories were made on its way. -/
  outside : ∀ l, (∀ v ∈ viewNames, ¬ r ++ [v] <+: l) → w'.tree.node? l = (a.prepared w).tree.node? l
  prepared : ∀ l, (a.prepared w).tree.node? l = w.tree.node? l ∨ (w.tree.node? l = none ∧
    (a.prepared w).tree.node? l = some .directory ∧ l ∈ (a.prepared w).passed a.result)
  notStaged : ∀ x, w'.tree.node? (r ++ name :: x) = none
  graded : w'.graded = w.graded ++ gradings a (Path.join a.result name) title
  passes : ∀ g ∈ gradings a (Path.join a.result name) title, Passes grade w₃ sum g

theorem run_published (hw : w.tree.WellFormed) (hcwd : w.tree.node? w.cwd = some .directory) (hgrade : grade.OnlyNotes) :
    (run (Workspace.files newId) grade a).Ends w
      (fun sum w' => ∃ r name title w₂ w₃, Published newId grade a w sum w' r name title w₂ w₃) fun _ _ => True := by
  obtain ⟨hmade, hleads⟩ := Workspace.makeDirectories_spec hw hcwd (maxPath + 1) a.result
  refine ends_bind.mpr (ends_answered.mpr ⟨fun title htitle => ?_, fun _ _ => trivial⟩)
  have hname := isName_of_notebookName htitle
  refine ends_bind.mpr (Workspace.ends_makeDirectories.mpr ⟨fun hok => ?_, fun _ => trivial⟩)
  obtain ⟨left, r, seen, hleads⟩ := hleads hok
  have hcwd₁ := hmade.node?_cwd hcwd
  have hnotes₁ : (a.prepared w).graded = w.graded := hmade.graded
  rw [← prepared] at hmade hleads hcwd₁ ⊢
  obtain ⟨k, hk, hfree⟩ := free_unused hmade.wellFormed hcwd₁ hleads
  refine ends_bind.mpr (Workspace.ends_unused.mpr ?_)
  rw [hk]
  by_cases hlong : maxPath < (Path.join a.result (stagingName (tagOf k))).utf8ByteSize
  · refine ends_bind.mpr (Files.ends_orUndo.mpr ((buildViews_of_tooLong hlong title).of_never fun _ _ _ => ends_true _ _))
  · have hsize := Nat.not_lt.mp hlong
    have g : Ground (a.prepared w) a.result left r seen (stagingName (tagOf k)) :=
      ⟨hmade.wellFormed, hcwd₁, hleads, hleads.directory hmade.wellFormed hcwd₁, isName_stagingName k, hfree hsize⟩
    refine ends_bind.mpr (Files.ends_orUndo.mpr ((buildViews_made g hgrade hname).mono (fun views w₄ hw₄ => ?_)
      fun _ _ _ => ends_true _ _))
    obtain ⟨w₂, w₃, hviews, h₄, htree, hsame, hderives, hnotes₄, hpasses⟩ := hw₄
    refine ends_bind.mpr (Files.ends_orUndo.mpr (ends_intro (fun _ w₅ hcommit => ?_) fun _ _ _ => ends_true _ _))
    have hplaced := (commit_places g (stagingName_notMem k) h₄).of_ok hcommit
    have hnotes₅ : w₅.graded = w₄.graded := ((keepsNotes_commit _ _ w₄.graded w₄ rfl).of_ok hcommit).1
    refine ends_bind.mpr (ends_intro (fun _ w' hdiscard => ends_pure.mpr ?_) fun _ _ _ => trivial)
    obtain ⟨hcwd', hnode⟩ := (discard_placed hsize hplaced fun _ _ => True).of_ok hdiscard
    have hnotes' : w'.graded = w₅.graded := ((keepsNotes_discard _ w₅.graded w₅ rfl).of_ok hdiscard).1
    have hnotView := stagingName_notMem k
    have hfree := hfree hsize
    generalize stagingName (tagOf k) = name at *
    have hview : ∀ v ∈ viewNames, ∀ x, w'.tree.node? (r ++ v :: x) = w₃.tree.node? (r ++ name :: v :: x) := by
      intro v hv x
      rw [hnode, if_neg, hplaced.views v hv, htree]
      rw [prefix_child_iff]
      rintro rfl
      exact hnotView hv
    refine ⟨r, name, title, w₂, w₃, htitle, ⟨left, seen, hleads, ?_⟩, hfree, hviews, ?_, ?_, ?_, ?_, prepared_node? hw hcwd, ?_, ?_, ?_⟩
    · exact View.leadsTo_of_outside hcwd' (fun l hl => by rw [hnode, if_neg hl]) hplaced.leads fun l hl => g.notWithin_of_seen hl
    · intro x
      rw [hview autograderName (by decide), hsame]
    · exact hview studentName (by decide)
    · exact hderives.congr hname (fun _ _ => rfl) fun ns _ => hview studentName (by decide) ns
    · intro l hl
      rw [hnode]
      split
      · rename_i hpre
        exact (hmade.wellFormed.node?_of_prefix hfree hpre).symm
      · rename_i hpre
        exact hplaced.outside l hpre hl
    · intro x
      rw [hnode, if_pos (by simp)]
    · rw [hnotes', hnotes₅, hnotes₄, hnotes₁]
    · intro gr hgr
      obtain ⟨report, w₆, hreport, hfull, hsum⟩ := hpasses gr hgr
      exact ⟨report, w₆, hreport, hfull, hsum⟩

/-- A run that succeeds leaves the views as they were made, in place of what was there, and nothing else is changed but for
    directories made on the way of the result. The notebook was graded once, with full marks, unless no tests are run. -/
theorem run_publishes_views {sum : Summary} (hw : w.tree.WellFormed) (hcwd : w.tree.node? w.cwd = some .directory)
    (hgrade : grade.OnlyNotes) (hrun : (run (Workspace.files newId) grade a).outcome w = (.ok sum, w')) :
    ∃ r name title w₂ w₃, Published newId grade a w sum w' r name title w₂ w₃ :=
  (run_published hw hcwd hgrade).of_ok hrun

/-! ### A run on a small tree -/

namespace OnNew

def master : Workspace := ⟨⟨[(["hw.ipynb"], .file (.text blankText))]⟩, [], []⟩

/-- A run with grading, whose result is to be made. -/
def run : Assignment := ⟨"hw.ipynb", "new/dist", [], ⟨false, false, false, true, false, none⟩⟩

/-- All points there are: none. -/
def report : Report := ⟨.zero, .zero, []⟩

def staging : Path := "new/dist/.nbassign-00000000-0000-0000-0000-000000000000"

/-- With the result made, and these entries in the directory of the result. -/
def withEntries (es : List (Location × Node)) : Workspace :=
  ⟨⟨master.tree.entries ++ [(["new"], .directory), (["new", "dist"], .directory)] ++
    es.map fun e => (["new", "dist"] ++ e.1, e.2)⟩, [], []⟩

def view (dir : Location) : List (Location × Node) := [(dir, .directory), (dir ++ ["hw.ipynb"], .file (.text blankWritten))]

def stagingName : String := ".nbassign-00000000-0000-0000-0000-000000000000"

def staged (es : List (Location × Node)) : Workspace :=
  withEntries (([stagingName], .directory) :: es)

def graded : Workspace :=
  { staged (view [stagingName, autograderName] ++ view [stagingName, studentName]) with
    graded := [(Path.join (Path.join staging autograderName) "hw.ipynb", View.testsIn (Path.join staging autograderName))] }

def published : Workspace := { withEntries (view [autograderName] ++ view [studentName]) with graded := graded.graded }

theorem autograder_made : ∃ sum, (View.autograder plainFiles run.master run.files (Path.join staging autograderName)
    run.options).outcome (withEntries []) = (.ok sum, staged (view [stagingName, autograderName])) := by
  have hmade : (plainFiles.makeDirectories (Path.join staging autograderName)).result (withEntries []) =
      (none, staged [([stagingName, autograderName], .directory)]) := by decide +kernel
  have htext : (staged [([stagingName, autograderName], .directory)]).text? run.master = some blankText := by decide +kernel
  have hbuild : (blank.build (Store.disk plainFiles (View.testsIn (Path.join staging autograderName))) plainFiles.newId
      "hw.ipynb" run.options).outcome (staged [([stagingName, autograderName], .directory)]) =
        (.ok ⟨blank, [], []⟩, staged [([stagingName, autograderName], .directory)]) := rfl
  have hwrite : (plainFiles.writeAtomic (Path.join (Path.join staging autograderName) "hw.ipynb") blankWritten).result
      (staged [([stagingName, autograderName], .directory)]) = (none, staged (view [stagingName, autograderName])) := by
    decide +kernel
  rw [← toText_blank] at hwrite
  exact View.autograder_outcome notebookName_master hmade htext ofText_blankText hbuild hwrite

theorem student_made : ∃ sum, (View.student plainFiles (Path.join staging autograderName) (Path.join staging studentName)
    "hw.ipynb").outcome (staged (view [stagingName, autograderName])) =
      (.ok sum, staged (view [stagingName, autograderName] ++ view [stagingName, studentName])) := by
  have habsent : (staged (view [stagingName, autograderName])).isPresent (Path.join staging studentName) = false := by
    decide +kernel
  have hcopy : (plainFiles.copyEntry (Path.join staging studentName) 2 [] "" (Path.join staging autograderName)).result
      (staged (view [stagingName, autograderName])) =
        (none, staged (view [stagingName, autograderName] ++ view [stagingName, studentName])) := by decide +kernel
  have htext : (staged (view [stagingName, autograderName] ++ view [stagingName, studentName])).text?
      (Path.join (Path.join staging studentName) "hw.ipynb") = some blankWritten := by decide +kernel
  have hwrite : (plainFiles.writeAtomic (Path.join (Path.join staging studentName) "hw.ipynb") blankWritten).result
      (staged (view [stagingName, autograderName] ++ view [stagingName, studentName])) =
        (none, staged (view [stagingName, autograderName] ++ view [stagingName, studentName])) := by decide +kernel
  have hremove : ((Store.disk plainFiles (View.testsIn (Path.join staging studentName))).removeHidden).outcome
      (staged (view [stagingName, autograderName] ++ view [stagingName, studentName])) =
        (.ok [], staged (view [stagingName, autograderName] ++ view [stagingName, studentName])) := by decide +kernel
  rw [← toText_blank, ← stripSolutions_blank] at hwrite
  exact View.student_outcome habsent (by decide) hcopy htext ofText_blankWritten hwrite hremove

theorem buildViews_answers :
    ∃ sum, (buildViews plainFiles (Grader.fixed (.ok report)) run "hw.ipynb" staging).outcome (withEntries []) = (.ok sum, graded) := by
  obtain ⟨first, hfirst⟩ := autograder_made
  obtain ⟨second, hsecond⟩ := student_made
  obtain ⟨checked, hchecked⟩ := exists_outcome_of_result (show (verify (Grader.fixed (.ok report))
    (Path.join (Path.join staging autograderName) "hw.ipynb") (View.testsIn (Path.join staging autograderName))).result
      (staged (view [stagingName, autograderName] ++ view [stagingName, studentName])) = (none, graded) by decide +kernel)
  refine ⟨(first.append second).append checked, (outcome_bind hfirst).trans ((outcome_bind hsecond).trans ?_)⟩
  exact (outcome_bind hchecked).trans rfl

/-- With the views in place, before the staging directory is cleared away. -/
def committed : Workspace := ((commit plainFiles staging run.result).result graded).2

theorem commit_answers : (commit plainFiles staging run.result).result graded = (none, committed) ∧
    (discard plainFiles staging).result committed = (none, published) := by
  decide +kernel

/-- The run succeeds. -/
theorem run_answers : ∃ sum, (Assignment.run plainFiles (Grader.fixed (.ok report)) run).outcome master = (.ok sum, published) := by
  have hmade := outcome_of_result_none (show (plainFiles.makeDirectories run.result).result master = (none, withEntries []) by
    decide +kernel)
  have hfree : (plainFiles.unused fun tag => Path.join run.result (Assignment.stagingName tag)).outcome (withEntries []) =
      (.ok staging, withEntries []) := by
    rw [← show (withEntries []).unused (fun tag => Path.join run.result (Assignment.stagingName tag)) = staging by decide +kernel]
    rfl
  obtain ⟨views, hviews⟩ := buildViews_answers
  obtain ⟨hcommit, hdiscard⟩ := commit_answers
  exact ⟨_, (outcome_bind (outcome_answered notebookName_master _)).trans ((outcome_bind hmade).trans ((outcome_bind hfree).trans
    ((outcome_bind (outcome_tryCatch hviews)).trans ((outcome_bind (outcome_tryCatch (outcome_of_result_none hcommit))).trans
      ((outcome_bind (outcome_of_result_none hdiscard)).trans rfl)))))⟩

/-- The views are where they belong, and were graded once. -/
theorem views_are_published : ∃ sum,
    (Assignment.run (Workspace.files fun _ => "") (Grader.fixed (.ok report)) run).outcome master = (.ok sum, published) ∧
    master.tree.WellFormed ∧ master.tree.node? master.cwd = some .directory ∧ (Grader.fixed (.ok report)).OnlyNotes ∧
    ∃ r name title w₂ w₃, Published (fun _ => "") (Grader.fixed (.ok report)) run master sum published r name title w₂ w₃ := by
  obtain ⟨sum, hrun⟩ := run_answers
  have hw : master.tree.WellFormed := by decide +kernel
  have hgrade := Grader.onlyNotes_fixed (.ok report)
  exact ⟨sum, hrun, hw, rfl, hgrade, run_publishes_views hw rfl hgrade hrun⟩

/-- The directory above the result is made with it, and stays. -/
theorem way_to_result_is_made : ∃ sum w',
    (Assignment.run (Workspace.files fun _ => "") (Grader.fixed (.ok report)) run).outcome master = (.ok sum, w') ∧
    w'.directory? run.result = some ["new", "dist"] ∧ master.tree.node? ["new"] = none ∧
    w'.tree.node? ["new"] = some .directory := by
  obtain ⟨sum, hrun⟩ := run_answers
  exact ⟨sum, published, hrun, by decide +kernel, by decide +kernel, by decide +kernel⟩

end OnNew

end Assignment
end Handout
