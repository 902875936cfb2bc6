/-
  Handout.Proofs.Assignment.Atomicity — a run that fails leaves the views as they were.

  The views are made below a name that is free (`Proofs.Assignment.Building`) and a commit
  that fails is rolled back (`Proofs.Assignment.Commit`), so all that a failed run may have
  done is to make the result and what was missing above it. One thing has to hold: the
  path of the result, once it is there, must not lead through a view of its own
  (`OffOwnViews`), as `dist/autograder/..` does. There a view that is moved aside takes the
  way to the staging directory with it, and nothing can be brought back or cleared away.
-/

import Mathlib
import Handout.Proofs.Assignment.Commit
import Handout.Proofs.View.Student

open Handout.Action

namespace Handout

open FileTree (maxPath)
open View (blank blankText blankWritten ofText_blankText toText_blank stripSolutions_blank)
open Workspace (LeadsTo)

/-- A grader that changes no files. -/
def Grader.ReadsOnly (grade : Grader (Action Workspace)) : Prop :=
  ∀ notebook tests w, (grade notebook tests).Ends w (fun _ w' => w'.tree = w.tree ∧ w'.cwd = w.cwd)
    fun _ w' => w'.tree = w.tree ∧ w'.cwd = w.cwd

theorem Grader.readsOnly_fixed (answer : Except Failure Report) : (Grader.fixed answer).ReadsOnly := fun _ _ _ =>
  ends_bind.mpr (ends_modify.mpr (ends_answered.mpr ⟨fun _ _ => ⟨rfl, rfl⟩, fun _ _ => ⟨rfl, rfl⟩⟩))

namespace Assignment

/-- The result, with the directories it lacks made, is not reached through one of the views in it. -/
def OffOwnViews (a : Assignment) (w : Workspace) : Prop :=
  ∀ r, (w.makeDirectories (maxPath + 1) a.result).1.follow a.result = .found r → ∀ v ∈ viewNames,
    ∀ l ∈ (w.makeDirectories (maxPath + 1) a.result).1.passed a.result, ¬ FileTree.isWithin (r ++ [v]) l = true

variable {w₁ w w' : Workspace} {a : Assignment} {name : String} {left : Nat} {r : Location} {seen : List Location}
  {newId : List String → String} {grade : Grader (Action Workspace)}

/-! ## Making the views -/

theorem Staged.congr (h : Staged w₁ r name w) (htree : w'.tree = w.tree) (hcwd : w'.cwd = w.cwd) : Staged w₁ r name w' :=
  ⟨htree ▸ h.wellFormed, hcwd.trans h.cwd, htree ▸ h.outside, htree ▸ h.plain, htree ▸ h.top, htree ▸ h.views⟩

theorem keeps_verify (hgrade : grade.ReadsOnly) (notebook tests : Path) :
    Keeps (Staged w₁ r name) (verify grade notebook tests) fun _ => True := by
  have hkeeps : Keeps (Staged w₁ r name) (grade notebook tests) fun _ => True := fun w h =>
    (hgrade notebook tests w).mono (fun _ _ hw => ⟨h.congr hw.1 hw.2, trivial⟩) fun _ _ hw => h.congr hw.1 hw.2
  refine hkeeps.bind fun report _ => ?_
  split
  · exact .pure trivial
  · exact .throw _

theorem keeps_buildViews (g : Ground w₁ a.result left r seen name) (hgrade : grade.ReadsOnly) {title : String}
    (htitle : Path.IsName title) :
    Keeps (Staged w₁ r name) (buildViews (Workspace.files newId) grade a title (Path.join a.result name)) fun _ => True := by
  have hview : ∀ v ∈ viewNames, Inside a.result name v [] (Path.join (Path.join a.result name) v) := fun v hv =>
    ⟨((Workspace.Under.refl a.result).join g.isName).join (isName_of_view hv), hv, by simp⟩
  have hgraded := hview autograderName (by decide)
  refine (keeps_autograder g hgraded a.master a.files a.options).bind fun first _ => ?_
  refine (keeps_student g hgraded (hview studentName (by decide)) htitle).bind fun second _ => ?_
  split
  · exact (keeps_verify hgrade _ _).bind fun _ _ => .pure trivial
  · exact .pure trivial

/-! ## The staging directory -/

theorem isName_stagingName (k : Nat) : Path.IsName (stagingName (tagOf k)) := by
  have hstart : (stagingName (tagOf k)).toList = '.' :: 'n' :: "bassign-".toList ++ (tagOf k).toList := by
    rw [stagingName, String.toList_append]
    rfl
  have hne : ∀ s : String, s.toList.length ≤ 2 → stagingName (tagOf k) ≠ s := by
    rintro s hs rfl
    rw [hstart] at hs
    simp at hs
  refine ⟨hne "" (by decide), hne "." (by decide), hne ".." (by decide), ?_⟩
  rw [hstart]
  simp [noSlash_tagOf k]

theorem stagingName_notMem (k : Nat) : stagingName (tagOf k) ∉ viewNames := by
  intro hmem
  have hall : ∀ v ∈ viewNames, v.toList.head? ≠ some '.' := by decide
  refine hall _ hmem ?_
  rw [stagingName, String.toList_append]
  rfl

theorem stagingName_inj {k j : Nat} (h : stagingName (tagOf k) = stagingName (tagOf j)) : k = j := by
  have hlist := congrArg String.toList h
  rw [stagingName, stagingName, String.toList_append, String.toList_append] at hlist
  exact tagOf_inj (String.toList_inj.mp (List.append_cancel_left hlist))

/-- The path that is unused has a free name, or is too long. -/
theorem free_unused {result : Path} (hw : w.tree.WellFormed) (hcwd : w.tree.node? w.cwd = some .directory)
    (h : w.LeadsTo result left r seen) : ∃ k,
    w.unused (fun tag => Path.join result (stagingName tag)) = Path.join result (stagingName (tagOf k)) ∧
      ((Path.join result (stagingName (tagOf k))).utf8ByteSize ≤ maxPath →
        w.tree.node? (r ++ [stagingName (tagOf k)]) = none) := by
  have hr := h.directory hw hcwd
  have hplace : ∀ k l, w.entry (Path.join result (stagingName (tagOf k))) = .found l → l = r ++ [stagingName (tagOf k)] :=
    fun k l hfound => ((Workspace.lands_child h hr (isName_stagingName k)).found hfound).1
  have hfree := @Workspace.entry_unused w (fun tag => Path.join result (stagingName tag))
    (fun m n l hm hn => stagingName_inj (by simpa [hplace m l hm] using hplace n l hn))
    fun n hroot => by simpa using hplace n [] hroot
  obtain ⟨k, hk⟩ := w.exists_unused fun tag => Path.join result (stagingName tag)
  refine ⟨k, hk, fun hsize => ?_⟩
  rw [hk] at hfree
  by_contra hsome
  rw [Workspace.entry_child h (hw.name hsome) hsize, if_neg hsome] at hfree
  exact hsome hfree

/-! ## The run -/

/-- Where paths are too long for anything to be made, nothing is. -/
theorem buildViews_of_tooLong (hlong : maxPath < (Path.join a.result name).utf8ByteSize) (title : String) :
    (buildViews (Workspace.files newId) grade a title (Path.join a.result name)).Ends w (fun _ _ => False)
      fun _ w' => w' = w := by
  have hview : Path.IsName autograderName := by decide
  have hlong' : maxPath < (Path.join (Path.join a.result name) autograderName).utf8ByteSize :=
    hlong.trans_le (Path.utf8ByteSize_join_le hview.isAbsolute)
  refine ends_bind.mpr (ends_bind.mpr (ends_answered.mpr ⟨fun _ _ => ?_, fun _ _ => rfl⟩))
  refine ends_bind.mpr (Workspace.ends_makeDirectories.mpr ?_)
  rw [Workspace.makeDirectories_of_tooLong hview hlong']
  exact ⟨fun hnot => absurd hnot (by simp), fun _ => rfl⟩

theorem discard_of_tooLong {staging : Path} (hlong : maxPath < staging.utf8ByteSize) (E : Failure → Workspace → Prop) :
    (discard (Workspace.files newId) staging).Ends w (fun _ w' => w' = w) E := by
  have habsent : w.isPresent staging = false := by
    rw [Workspace.isPresent, Workspace.follow, Workspace.landing_of_tooLong hlong]
    rfl
  refine ends_bind.mpr (Workspace.ends_isPresent.mpr ?_)
  rw [habsent, if_neg (by simp)]
  exact ends_pure.mpr rfl

/-- Clearing away does not fail. -/
theorem discard_answers (staging : Path) (E : Failure → Workspace → Prop) :
    (discard (Workspace.files newId) staging).Ends w (fun _ _ => True) E := by
  refine ends_bind.mpr (Workspace.ends_isPresent.mpr ?_)
  split
  · exact Files.ends_attempt.mpr (ends_true _ _)
  · exact ends_pure.mpr trivial

/-- What is there when the result has been made. -/
def prepared (a : Assignment) (w : Workspace) : Workspace := (w.makeDirectories (maxPath + 1) a.result).1

/-- For the result directories were made on its way, and nothing else has changed. -/
theorem prepared_node? (hw : w.tree.WellFormed) (hcwd : w.tree.node? w.cwd = some .directory) (l : Location) :
    (a.prepared w).tree.node? l = w.tree.node? l ∨ (w.tree.node? l = none ∧
      (a.prepared w).tree.node? l = some .directory ∧ l ∈ (a.prepared w).passed a.result) := by
  obtain ⟨hmade, -⟩ := Workspace.makeDirectories_spec hw hcwd (maxPath + 1) a.result
  rcases hmade.grown l with hl | ⟨hnone, hdir⟩
  · exact Or.inl hl
  · exact Or.inr ⟨hnone, hdir, hmade.mem_passed hnone (by rw [hdir]; simp)⟩

/-- Where the result leads past no view of its own. -/
theorem apart_of_off {result : Path} (hw : w₁.tree.WellFormed) (hcwd : w₁.tree.node? w₁.cwd = some .directory)
    (hleads : w₁.LeadsTo result left r seen) (hsize : result.utf8ByteSize ≤ maxPath)
    (hoff : ∀ r, w₁.follow result = .found r → ∀ v ∈ viewNames, ∀ l ∈ w₁.passed result,
      ¬ FileTree.isWithin (r ++ [v]) l = true) {k : Nat}
    (hfree : w₁.tree.node? (r ++ [stagingName (tagOf k)]) = none) :
    Apart w₁ result left r seen (stagingName (tagOf k)) := by
  refine ⟨⟨hw, hcwd, hleads, hleads.directory hw hcwd, isName_stagingName k, hfree⟩, stagingName_notMem k, ?_⟩
  by_cases hempty : result = ""
  · subst hempty
    have hseen := FileTree.Way.lookups_self hleads
    rw [show Path.beginning "" = [] by decide, FileTree.lookups_nil] at hseen
    simp [← hseen]
  · intro v hv l hl
    rw [← FileTree.isWithin_iff]
    exact hoff r (Workspace.follow_of_leadsTo hleads hempty hsize) v hv l (hleads.passed_eq ▸ hl)

/-- A run that fails leaves everything as it was when the result had been made, or before. -/
theorem run_ends (hw : w.tree.WellFormed) (hcwd : w.tree.node? w.cwd = some .directory) (hgrade : grade.ReadsOnly)
    (hoff : a.OffOwnViews w) :
    (run (Workspace.files newId) grade a).Ends w (fun _ _ => True) fun _ w' => Same w w' ∨ Same (a.prepared w) w' := by
  obtain ⟨hmade, hleads⟩ := Workspace.makeDirectories_spec hw hcwd (maxPath + 1) a.result
  refine ends_bind.mpr (ends_answered.mpr ⟨fun title htitle => ?_, fun _ _ => Or.inl ⟨rfl, fun _ => rfl⟩⟩)
  refine ends_bind.mpr (Workspace.ends_makeDirectories.mpr ?_)
  rw [OffOwnViews] at hoff
  rw [prepared]
  generalize w.makeDirectories (maxPath + 1) a.result = made at hmade hleads hoff ⊢
  obtain ⟨w₁, ok⟩ := made
  refine ⟨fun hok => ?_, fun _ => Or.inr ⟨rfl, fun _ => rfl⟩⟩
  have hcwd₁ : w₁.tree.node? w₁.cwd = some .directory := hmade.node?_cwd hcwd
  obtain ⟨left, r, seen, hleads⟩ := hleads hok
  obtain ⟨k, hk, hfree⟩ := free_unused hmade.wellFormed hcwd₁ hleads
  refine ends_bind.mpr (Workspace.ends_unused.mpr ?_)
  rw [hk]
  by_cases hlong : maxPath < (Path.join a.result (stagingName (tagOf k))).utf8ByteSize
  · refine ends_bind.mpr (Files.ends_orUndo.mpr ?_)
    refine (buildViews_of_tooLong hlong title).of_never fun f w' hw' => ?_
    subst hw'
    refine (discard_of_tooLong hlong _).mono (fun _ w' hw' => ?_) fun _ _ hf => hf
    subst hw'
    exact Or.inr ⟨rfl, fun _ => rfl⟩
  · have hsize := Nat.not_lt.mp hlong
    have hshort := (Path.utf8ByteSize_join_le (isName_stagingName k).isAbsolute).trans hsize
    have g := apart_of_off hmade.wellFormed hcwd₁ hleads hshort hoff (hfree hsize)
    have hdiscard : ∀ f : Failure, ∀ w', Covered w₁ r (stagingName (tagOf k)) w' →
        (discard (Workspace.files newId) (Path.join a.result (stagingName (tagOf k)))).Ends w'
          (fun _ w'' => Same w w'' ∨ Same w₁ w'') fun _ w'' => Same w w'' ∨ Same w₁ w'' :=
      fun f w' h => (discard_ends g.toGround hsize h _).mono (fun _ _ hsame => Or.inr hsame) fun _ _ hf => hf
    refine ends_bind.mpr (Files.ends_orUndo.mpr ?_)
    refine (keeps_buildViews g.toGround hgrade (isName_of_notebookName htitle) _ g.toGround.start).mono
      (fun views w' hw' => ?_) fun f w' hw' => hdiscard f w' hw'.covered
    refine ends_bind.mpr (Files.ends_orUndo.mpr ?_)
    refine (commit_ends g hw'.1).mono (fun _ w'' _ => ?_) fun f w'' hw'' => hdiscard f w'' hw''
    exact ends_bind.mpr ((discard_answers _ _).mono (fun _ _ _ => ends_pure.mpr trivial) fun _ _ hf => hf)

/-! ## What a failure leaves -/

/-- The same trees are passed in the same way. -/
theorem Same.passed_eq (h : Same w w') (p : Path) : w'.passed p = w.passed p :=
  Workspace.passed_congr h.cwd fun l _ => h.node? l

theorem Same.follow_eq (h : Same w w') (p : Path) : w'.follow p = w.follow p :=
  Workspace.follow_congr h.cwd fun l _ => h.node? l

/-- A run that fails changes nothing but for directories made on the way of the result, where nothing was; the views
    in the result are what they were. -/
theorem failed_run_leaves_views {f : Failure} (hw : w.tree.WellFormed) (hcwd : w.tree.node? w.cwd = some .directory)
    (hgrade : grade.ReadsOnly) (hoff : a.OffOwnViews w)
    (hrun : (run (Workspace.files newId) grade a).outcome w = (.error f, w')) :
    (∀ l, w'.tree.node? l = w.tree.node? l ∨
      (w.tree.node? l = none ∧ w'.tree.node? l = some .directory ∧ l ∈ w'.passed a.result)) ∧
    ∀ r, w'.follow a.result = .found r → ∀ v ∈ viewNames, ∀ x, w'.tree.node? (r ++ v :: x) = w.tree.node? (r ++ v :: x) := by
  rcases (run_ends hw hcwd hgrade hoff).of_error hrun with hsame | hsame
  · exact ⟨fun l => Or.inl (hsame.node? l), fun r _ v _ x => hsame.node? _⟩
  · have hkept : ∀ l, w'.tree.node? l = w.tree.node? l ∨
        (w.tree.node? l = none ∧ w'.tree.node? l = some .directory ∧ l ∈ (a.prepared w).passed a.result) := by
      intro l
      rw [hsame.node? l]
      exact prepared_node? hw hcwd l
    refine ⟨fun l => ?_, fun r hr v hv x => ?_⟩
    · rw [hsame.passed_eq]
      exact hkept l
    · rcases hkept (r ++ v :: x) with hl | ⟨-, -, hpassed⟩
      · exact hl
      · rw [hsame.follow_eq] at hr
        exact absurd (FileTree.isWithin_iff.mpr (prefix_child_iff.mpr rfl)) (hoff r hr v hv _ hpassed)

/-! ## A view that is there -/

/-- A master, and a view from an earlier run. -/
def withOldView : Workspace :=
  ⟨⟨[(["work"], .directory), (["work", "hw.ipynb"], .file (.text blankText)), (["work", "dist"], .directory),
    (["work", "dist", "autograder"], .directory), (["work", "dist", "autograder", "old.txt"], .file (.text "old"))]⟩,
    ["work"], []⟩

/-- A run on that master, without cells of its own and without grading. -/
def onto (result : Path) (files : List Path) : Assignment :=
  ⟨"hw.ipynb", result, files, ⟨false, false, false, false, false, none⟩⟩

/-- Where a file for the views is missing, the run fails and the old view stays. -/
theorem missing_file_leaves_old_view : ∃ f w',
    (run (Workspace.files fun _ => "") (Grader.fixed (.error .encoding)) (onto "dist" ["missing.txt"])).outcome withOldView =
      (.error f, w') ∧
    withOldView.tree.WellFormed ∧ withOldView.tree.node? withOldView.cwd = some .directory ∧
    (Grader.fixed (.error .encoding)).ReadsOnly ∧ (onto "dist" ["missing.txt"]).OffOwnViews withOldView ∧
    w'.tree.node? ["work", "dist", "autograder", "old.txt"] = some (.file (.text "old")) := by
  have hrun := outcome_of_result_some (show (run (Workspace.files fun _ => "") (Grader.fixed (.error .encoding))
    (onto "dist" ["missing.txt"])).result withOldView = (some (.file (.notFound "missing.txt")), withOldView) by decide +kernel)
  have hw : withOldView.tree.WellFormed := by decide +kernel
  have hcwd : withOldView.tree.node? withOldView.cwd = some .directory := by decide +kernel
  have hgrade := Grader.readsOnly_fixed (.error .encoding)
  have hoff : (onto "dist" ["missing.txt"]).OffOwnViews withOldView := by
    intro r hr
    have hplace : (withOldView.makeDirectories (maxPath + 1) "dist").1.follow "dist" = .found ["work", "dist"] := by
      decide +kernel
    obtain rfl : ["work", "dist"] = r := by simpa using hplace.symm.trans hr
    decide +kernel
  refine ⟨_, _, hrun, hw, hcwd, hgrade, hoff, ?_⟩
  have hfollow : withOldView.follow "dist" = .found ["work", "dist"] := by decide +kernel
  exact (failed_run_leaves_views hw hcwd hgrade hoff hrun).2 ["work", "dist"] hfollow autograderName (by decide) ["old.txt"]

/-- Files without a choice of ids. -/
def plainFiles : Files (Action Workspace) := Workspace.files fun _ => ""

theorem notebookName_master : notebookName "hw.ipynb" = .ok "hw.ipynb" := by cbv

theorem ofText_blankWritten : Notebook.ofText blankWritten = .ok blank := by cbv

namespace ThroughView

/-- A result that leads through a view of its own. -/
def run : Assignment := onto "dist/autograder/.." []

def staging : Path := "dist/autograder/../.nbassign-00000000-0000-0000-0000-000000000000"

/-- The tree with some entries of the staging directory. -/
def staged (es : List (Location × Node)) : Workspace :=
  ⟨⟨withOldView.tree.entries ++ (([], .directory) :: es).map fun e =>
    (["work", "dist", ".nbassign-00000000-0000-0000-0000-000000000000"] ++ e.1, e.2)⟩, ["work"], []⟩

def view (v : String) : List (Location × Node) := [([v], .directory), ([v, "hw.ipynb"], .file (.text blankWritten))]

/-- The graded view is made. -/
theorem autograder_answers : ∃ s,
    (View.autograder plainFiles "hw.ipynb" [] (Path.join staging autograderName) run.options).outcome withOldView =
      (.ok s, staged (view autograderName)) := by
  have hmade : (plainFiles.makeDirectories (Path.join staging autograderName)).result withOldView =
      (none, staged [([autograderName], .directory)]) := by decide +kernel
  have htext : (staged [([autograderName], .directory)]).text? "hw.ipynb" = some blankText := by decide +kernel
  have hbuild : (blank.build (Store.disk plainFiles (View.testsIn (Path.join staging autograderName))) plainFiles.newId
      "hw.ipynb" run.options).outcome (staged [([autograderName], .directory)]) =
        (.ok ⟨blank, [], []⟩, staged [([autograderName], .directory)]) := rfl
  have hwrite : (plainFiles.writeAtomic (Path.join (Path.join staging autograderName) "hw.ipynb") blankWritten).result
      (staged [([autograderName], .directory)]) = (none, staged (view autograderName)) := by decide +kernel
  rw [← toText_blank] at hwrite
  exact View.autograder_outcome notebookName_master hmade htext ofText_blankText hbuild hwrite

/-- Both views, in the order in which they are made. -/
def built : Workspace := staged (view autograderName ++ view studentName)

/-- The student's view is made. -/
theorem student_answers : ∃ s,
    (View.student plainFiles (Path.join staging autograderName) (Path.join staging studentName) "hw.ipynb").outcome
      (staged (view autograderName)) = (.ok s, built) := by
  have habsent : (staged (view autograderName)).isPresent (Path.join staging studentName) = false := by decide +kernel
  have hcopy : (plainFiles.copyEntry (Path.join staging studentName) 2 [] "" (Path.join staging autograderName)).result
      (staged (view autograderName)) = (none, built) := by decide +kernel
  have htext : built.text? (Path.join (Path.join staging studentName) "hw.ipynb") = some blankWritten := by decide +kernel
  have hwrite : (plainFiles.writeAtomic (Path.join (Path.join staging studentName) "hw.ipynb") blankWritten).result built =
      (none, built) := by decide +kernel
  have hremove : ((Store.disk plainFiles (View.testsIn (Path.join staging studentName))).removeHidden).outcome built =
      (.ok [], built) := by decide +kernel
  rw [← toText_blank, ← stripSolutions_blank] at hwrite
  exact View.student_outcome habsent (by decide) hcopy htext ofText_blankWritten hwrite hremove

theorem buildViews_answers (grade : Grader (Action Workspace)) :
    ∃ s, (buildViews plainFiles grade run "hw.ipynb" staging).outcome withOldView = (.ok s, built) := by
  obtain ⟨first, hfirst⟩ := autograder_answers
  obtain ⟨second, hsecond⟩ := student_answers
  have hoptions : run.options.runTests = false := rfl
  rw [buildViews, show run.master = "hw.ipynb" from rfl, show run.files = [] from rfl, outcome_bind hfirst,
    outcome_bind hsecond, hoptions]
  exact ⟨_, rfl⟩

/-- What a commit leaves that has moved the way to the new views aside. -/
def lost : Workspace := ((commit plainFiles staging run.result).result built).2

/-- The commit fails, and what was staged cannot be cleared away: the path does not lead to it any more. -/
theorem commit_fails : (Files.orUndo (commit plainFiles staging run.result) (discard plainFiles staging)).result built =
      (some .refused, lost) ∧
    lost.tree.node? ["work", "dist", "autograder", "old.txt"] = none ∧
    lost.tree.node? ["work", "dist", ".nbassign-00000000-0000-0000-0000-000000000000"] = some .directory := by
  decide +kernel

/-- The run fails. The old view is gone from its place, and the staging directory is left. -/
theorem old_view_is_lost : ∃ f w',
    (Assignment.run plainFiles (Grader.fixed (.error .encoding)) run).outcome withOldView = (.error f, w') ∧
    withOldView.tree.node? ["work", "dist", "autograder", "old.txt"] = some (.file (.text "old")) ∧
    w'.tree.node? ["work", "dist", "autograder", "old.txt"] = none ∧
    w'.tree.node? ["work", "dist", ".nbassign-00000000-0000-0000-0000-000000000000"] = some .directory := by
  have hmade := outcome_of_result_none (show (plainFiles.makeDirectories run.result).result withOldView =
    (none, withOldView) by decide +kernel)
  have hfree : (plainFiles.unused fun tag => Path.join run.result (stagingName tag)).outcome withOldView =
      (.ok staging, withOldView) := by
    rw [← show withOldView.unused (fun tag => Path.join run.result (stagingName tag)) = staging by decide +kernel]
    rfl
  obtain ⟨views, hviews⟩ := buildViews_answers (Grader.fixed (.error .encoding))
  have hbuild : (Files.orUndo (buildViews plainFiles (Grader.fixed (.error .encoding)) run "hw.ipynb" staging)
      (discard plainFiles staging)).outcome withOldView = (.ok views, built) := outcome_tryCatch hviews
  obtain ⟨hcommit, haway, hleft⟩ := commit_fails
  refine ⟨.refused, lost, ?_, by decide +kernel, haway, hleft⟩
  exact (outcome_bind (outcome_answered notebookName_master _)).trans ((outcome_bind hmade).trans ((outcome_bind hfree).trans
    ((outcome_bind hbuild).trans (outcome_bind_error (outcome_of_result_some hcommit)))))

end ThroughView

end Assignment
end Handout
