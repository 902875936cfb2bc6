/-
  Handout.Proofs.View.Student — the view of the learners is the graded view less what must go.

  Where its place has been vacated and lies apart from the graded view, the view shows at all
  names what the graded view shows, but for the notebook without solutions and for the hidden
  tests, which are missing (`Derives`, `student_ends`).
-/

import Mathlib
import Handout.Proofs.TestFile.RoundTrip
import Handout.Proofs.View.Carried
import Handout.Proofs.View.Place

open Handout.Action

namespace Handout.View

open FileTree (maxPath)
open Workspace (Receives)

variable {w₁ w w' : Workspace} {source dest : Path} {left : Nat} {s : Location} {seen : List Location} {name n : String}
  {newId : List String → String}

/-! ## What it holds -/

/-- What a view of learners shows, by what the graded view shows. -/
structure Derives (given shown : List String → Option Node) (name : String) : Prop where
  notebook : ∃ text nb, given [name] = some (.file (.text text)) ∧ Notebook.ofText text = .ok nb ∧
    shown [name] = some (.file (.text nb.stripSolutions.toText))
  tests : ∀ m c, Path.IsName m → Store.Disk.isTestName m = true → given ["tests", m] = some (.file c) →
    ∃ text f, c = .text text ∧ TestFile.decode text = .ok f ∧
      shown ["tests", m] = if f.hidden then none else some (.file c)
  rest : ∀ ns, (∀ n ∈ ns, Path.IsName n) → ns ≠ [name] →
    (∀ m c, ns = ["tests", m] → Store.Disk.isTestName m = true → given ns ≠ some (.file c)) → shown ns = given ns

theorem Derives.congr {given given' shown shown' : List String → Option Node} (h : Derives given shown name)
    (hname : Path.IsName name) (hgiven : ∀ ns, (∀ n ∈ ns, Path.IsName n) → given' ns = given ns)
    (hshown : ∀ ns, (∀ n ∈ ns, Path.IsName n) → shown' ns = shown ns) : Derives given' shown' name := by
  have hall : ∀ n ∈ [name], Path.IsName n := by simpa using hname
  have htests : ∀ m, Path.IsName m → ∀ n ∈ ["tests", m], Path.IsName n := fun m hm => by simp [isName_tests, hm]
  refine ⟨?_, fun m c hm htest hfile => ?_, fun ns hns hne hnot => ?_⟩
  · rw [hgiven _ hall, hshown _ hall]
    exact h.notebook
  · rw [hgiven _ (htests m hm)] at hfile
    rw [hshown _ (htests m hm)]
    exact h.tests m c hm htest hfile
  · rw [hgiven _ hns] at hnot ⊢
    rw [hshown _ hns, h.rest ns hns hne hnot]

/-- The notebook is replaced, and then hidden tests are removed. -/
theorem Derives.of_withoutHidden {given shown : List String → Option Node} {text : String} {nb : Notebook}
    (h : WithoutHidden (fun x => if x = [name] then some (.file (.text nb.stripSolutions.toText)) else given x) shown)
    (hname : Path.IsName name) (htext : given [name] = some (.file (.text text))) (hnb : Notebook.ofText text = .ok nb) :
    Derives given shown name := by
  have htests : ∀ m, ["tests", m] ≠ [name] := by simp
  refine ⟨⟨text, nb, htext, hnb, ?_⟩, fun m c hm htest hfile => ?_, fun ns hns hne hnot => ?_⟩
  · rw [h.rest [name] (by simpa using hname) fun m c he => absurd he.symm (htests m), if_pos rfl]
  · exact h.tests m c hm htest (by rwa [if_neg (htests m)])
  · rw [h.rest ns hns fun m c he htest => ?_, if_neg hne]
    rw [if_neg hne]
    exact hnot m c he htest

/-- A test file that is left can be read and is not hidden. -/
theorem Derives.notHidden {given shown : List String → Option Node} (h : Derives given shown name) {m : String} {c : Content}
    (hm : Path.IsName m) (htest : Store.Disk.isTestName m = true) (hfile : shown ["tests", m] = some (.file c)) :
    ∃ text f, c = .text text ∧ TestFile.decode text = .ok f ∧ f.hidden = false := by
  by_cases hgiven : ∃ c, given ["tests", m] = some (.file c)
  · obtain ⟨c', hc'⟩ := hgiven
    obtain ⟨text, f, rfl, hdecoded, hshown⟩ := h.tests m c' hm htest hc'
    rw [hfile] at hshown
    split at hshown
    · cases hshown
    · rename_i hnot
      obtain rfl : c = .text text := by simpa using hshown
      exact ⟨text, f, rfl, hdecoded, by simpa using hnot⟩
  · have hsame := h.rest ["tests", m] (by simp [isName_tests, hm]) (by simp) fun m' c' he _ hc' => hgiven ⟨c', hc'⟩
    exact absurd ⟨c, hsame.symm.trans hfile⟩ hgiven

/-- Once the place has been cleared. -/
theorem fill_ends {w₀ : Workspace} (g : Receives w₁ source dest left s seen)
    (hmade : (w₀.makeDirectories (maxPath + 1) (Path.join dest "")).1 = w₁) (hsource : w₀.isDirectory source = true)
    (hne : dest ≠ "") (hsize : dest.utf8ByteSize ≤ maxPath) (hname : Path.IsName name) : Ends (do
      (Workspace.files newId).copyTree source dest
      let nb ← (Workspace.files newId).readNotebook (Path.join dest name)
      (Workspace.files newId).writeNotebook (Path.join dest name) nb.stripSolutions
      let hidden ← (Store.disk (Workspace.files newId) (testsIn dest)).removeHidden
      return (⟨[Path.join dest name], [], [], none,
        [studentMessage (Path.join dest name) nb.solutionCount hidden.length]⟩ : Summary)) w₀
      (fun _ w' => ∃ what, Carries w₁ dest left s seen what w' ∧ Derives (fun ns => w₁.shows (Path.down source ns)) what name)
      fun _ _ => True := by
  refine ends_bind.mpr ((g.copyTree_ends hmade hsource hsize).mono (fun _ w₂ hcopied => ?_) fun _ _ _ => trivial)
  have h₂ := Carries.of_copy g hne hcopied.1 hcopied.2
  refine ends_bind.mpr ((h₂.readNotebook_ends g.directory hname).mono (fun nb w₂' hread => ?_) fun _ _ _ => trivial)
  obtain ⟨rfl, text, htext, hnb⟩ := hread
  refine ends_bind.mpr ((h₂.writeAtomic_ends g.directory hname ⟨_, htext⟩ _).mono (fun _ w₃ h₃ => ?_) fun _ _ _ => trivial)
  refine ends_bind.mpr ((h₃.removeHidden_ends g.directory).mono (fun _ w' hw' => ?_) fun _ _ _ => trivial)
  obtain ⟨what, hcarries, hwithout⟩ := hw'
  exact ends_pure.mpr ⟨what, hcarries, .of_withoutHidden hwithout hname htext hnb⟩

theorem student_ends (hw : w.tree.WellFormed) (hcwd : w.tree.node? w.cwd = some .directory)
    (hsource : w.isDirectory source = true) (hvacated : Vacated w dest s) (hapart : Apart w source dest s)
    (hname : Path.IsName name) :
    (View.student (Workspace.files newId) source dest name).Ends w (fun _ w' => ∃ left seen what,
      Carries (prepared w dest) dest left s seen what w' ∧ (prepared w dest).tree.node? s = some .directory ∧
        Derives (fun ns => w.shows (Path.down source ns)) what name) fun _ _ => True := by
  obtain ⟨hne, hsize, left, seen, g⟩ := hvacated.receives hw hapart
  obtain ⟨hcleared, hclearedCwd⟩ := cleared_spec hw dest
  have hmade := hvacated.made hw
  have hgiven : ∀ ns, (∀ n ∈ ns, Path.IsName n) →
      w.shows (Path.down source ns) = (prepared w dest).shows (Path.down source ns) := fun ns hns =>
    (Workspace.shows_congr hw hmade.wellFormed hcwd g.cwd (hmade.cwd.trans hclearedCwd) (hapart.prepared ns hns)).symm
  have hthere : (cleared w dest).isDirectory source = true := by
    have hshown := Workspace.shows_congr (p := Path.down source []) hw hcleared hcwd (hclearedCwd ▸ hvacated.cwd) hclearedCwd
      (hapart.cleared [] (by simp))
    rw [Workspace.isDirectory] at hsource ⊢
    rw [← hsource]
    exact congrArg (· == some Node.directory) hshown
  have hpost : ∀ w', (∃ what, Carries (prepared w dest) dest left s seen what w' ∧
      Derives (fun ns => (prepared w dest).shows (Path.down source ns)) what name) →
      ∃ left seen what, Carries (prepared w dest) dest left s seen what w' ∧
        (prepared w dest).tree.node? s = some .directory ∧ Derives (fun ns => w.shows (Path.down source ns)) what name := by
    rintro w' ⟨what, hcarries, hderives⟩
    exact ⟨left, seen, what, hcarries, g.directory, hderives.congr hname hgiven fun _ _ => rfl⟩
  refine ends_bind.mpr (Workspace.ends_isPresent.mpr ?_)
  dsimp only
  split
  · -- what was there is removed
    rename_i hpresent
    have hcleared : cleared w dest = (w.removeAll dest).1 := if_pos hpresent
    refine ends_bind.mpr (Workspace.ends_removeAll.mpr ⟨fun _ => ?_, fun _ => trivial⟩)
    rw [← hcleared]
    exact (fill_ends g rfl hthere hne hsize hname).mono (fun _ w' hw' => hpost w' hw') fun _ _ h => h
  · rename_i hnot
    have hcleared : cleared w dest = w := if_neg hnot
    have hmade : (w.makeDirectories (maxPath + 1) (Path.join dest "")).1 = prepared w dest := by rw [prepared, hcleared]
    exact (fill_ends g hmade hsource hne hsize hname).mono (fun _ w' hw' => hpost w' hw') fun _ _ h => h

/-! ## A view that was made -/

variable {sum : Summary}

/-- Nothing is looked at in the source where the view was made. -/
theorem agree_of_carries (hapart : Apart w source dest s) {what : List String → Option Node}
    (h : Carries (prepared w dest) dest left s seen what w') {ns : List String} (hns : ∀ n ∈ ns, Path.IsName n) :
    ∀ l ∈ w.passed (Path.down source ns), w'.tree.node? l = w.tree.node? l := by
  intro l hl
  rw [h.acts.outside, hapart.prepared ns hns l hl]
  rintro x - rfl
  exact hapart.outside ns hns _ hl (List.prefix_append ..)

/-- The graded view is as it was. The other one shows what it shows, but for the notebook without solutions and the
    hidden tests; the tests it shows can be read, and are not hidden. -/
theorem student_is_graded_without_hidden (hw : w.tree.WellFormed) (hcwd : w.tree.node? w.cwd = some .directory)
    (hsource : w.isDirectory source = true) (hvacated : Vacated w dest s) (hapart : Apart w source dest s)
    (hname : Path.IsName name) (hrun : (student (Workspace.files newId) source dest name).outcome w = (.ok sum, w')) :
    ((∀ a, w.directory? source = some a → ∀ x, w'.tree.node? (a ++ x) = w.tree.node? (a ++ x)) ∧
      ∀ ns, (∀ n ∈ ns, Path.IsName n) → w'.shows (Path.down source ns) = w.shows (Path.down source ns)) ∧
    Derives (fun ns => w.shows (Path.down source ns)) (fun ns => w'.shows (Path.down dest ns)) name ∧
    ∀ m c, Path.IsName m → Store.Disk.isTestName m = true → w'.shows (Path.down dest ["tests", m]) = some (.file c) →
      ∃ text f, c = .text text ∧ TestFile.decode text = .ok f ∧ f.hidden = false := by
  obtain ⟨left, seen, what, h, hs, hderives⟩ := (student_ends hw hcwd hsource hvacated hapart hname).of_ok hrun
  have hcwd' : w'.cwd = w.cwd := h.acts.cwd.trans ((hvacated.made hw).cwd.trans (cleared_spec hw dest).2)
  obtain ⟨-, -, _, _, g⟩ := hvacated.receives hw hapart
  have hthere := g.node?_cwd h.acts
  have hagree : ∀ ns, (∀ n ∈ ns, Path.IsName n) → ∀ l ∈ w.passed (Path.down source ns), w'.tree.node? l = w.tree.node? l :=
    fun ns hns => agree_of_carries hapart h hns
  have hshown : Derives (fun ns => w.shows (Path.down source ns)) (fun ns => w'.shows (Path.down dest ns)) name :=
    hderives.congr hname (fun _ _ => rfl) fun ns hns => h.shows hs hns
  refine ⟨⟨fun a ha => ?_, fun ns hns => ?_⟩, hshown, fun m c hm htest hfile => ?_⟩
  · exact Workspace.node?_below_congr hw h.acts.wellFormed hcwd hthere hcwd' ha hagree
  · exact Workspace.shows_congr hw h.acts.wellFormed hcwd hthere hcwd' (hagree ns hns)
  · exact hshown.notHidden hm htest hfile

/-! ### Runs on small trees -/

section

variable {w₂ w₃ : Workspace} {p master : Path} {text : String} {nb : Notebook}

theorem readNotebook_outcome (h : w.text? p = some text) (hnb : Notebook.ofText text = .ok nb) :
    ((Workspace.files newId).readNotebook p).outcome w = (.ok nb, w) :=
  (outcome_bind (Workspace.outcome_ask h)).trans (outcome_answered hnb w)

theorem readTest_outcome {f : TestFile} (h : w.text? p = some text) (hf : TestFile.decode text = .ok f) :
    (Store.Disk.readTest (Workspace.files newId) p).outcome w = (.ok f, w) := by
  refine (outcome_bind (Workspace.outcome_ask h)).trans ?_
  rw [hf]
  rfl

/-- A graded view without other files, step by step. -/
theorem autograder_outcome {built : Built} {o : Options} (htitle : notebookName master = .ok name)
    (hmade : ((Workspace.files newId).makeDirectories dest).result w = (none, w₁)) (htext : w₁.text? master = some text)
    (hnb : Notebook.ofText text = .ok nb)
    (hbuild : (nb.build (Store.disk (Workspace.files newId) (testsIn dest)) (Workspace.files newId).newId name o).outcome w₁ =
      (.ok built, w₂))
    (hwrite : ((Workspace.files newId).writeAtomic (Path.join dest name) built.notebook.toText).result w₂ = (none, w₃)) :
    ∃ sum, (autograder (Workspace.files newId) master [] dest o).outcome w = (.ok sum, w₃) :=
  ⟨_, (outcome_bind (outcome_answered htitle w)).trans ((outcome_bind (outcome_of_result_none hmade)).trans
    ((outcome_bind (outcome_eq_ok.mpr rfl)).trans ((outcome_bind (readNotebook_outcome htext hnb)).trans
      ((outcome_bind hbuild).trans ((outcome_bind (outcome_of_result_none hwrite)).trans rfl)))))⟩

/-- A view where nothing is, step by step. -/
theorem student_outcome {depth : Nat} {stems : List String} (hplace : w.isPresent dest = false) (hdepth : depth ≤ Files.maxDepth)
    (hcopy : ((Workspace.files newId).copyEntry dest depth [] "" source).result w = (none, w₁))
    (htext : w₁.text? (Path.join dest name) = some text) (hnb : Notebook.ofText text = .ok nb)
    (hwrite : ((Workspace.files newId).writeAtomic (Path.join dest name) nb.stripSolutions.toText).result w₁ = (none, w₂))
    (hremove : ((Store.disk (Workspace.files newId) (testsIn dest)).removeHidden).outcome w₂ = (.ok stems, w₃)) :
    ∃ sum, (student (Workspace.files newId) source dest name).outcome w = (.ok sum, w₃) := by
  have hpresent : ((Workspace.files newId).isPresent dest).outcome w = (.ok false, w) := by
    rw [← hplace]
    rfl
  have hcopied := Files.copyEntry_answersAs _ _ hdepth _ _ _ _ _ _ (outcome_of_result_none hcopy)
  exact ⟨_, (outcome_bind hpresent).trans ((outcome_bind hcopied).trans ((outcome_bind (readNotebook_outcome htext hnb)).trans
    ((outcome_bind (outcome_of_result_none hwrite)).trans ((outcome_bind hremove).trans rfl))))⟩

end

/-! ## A view with hidden tests -/

/-- A notebook without cells. -/
def blank : Notebook := ⟨[], [], 4, 4⟩

def blankText : String :=
  "\x7b\"cells\": [], \"metadata\": \x7b\x7d, \"nbformat\": 4, \"nbformat_minor\": 4\x7d"

/-- As it is written. -/
def blankWritten : String :=
  "\x7b\n \"cells\": [],\n \"metadata\": \x7b\x7d,\n \"nbformat\": 4,\n \"nbformat_minor\": 4\n\x7d\n"

theorem ofText_blankText : Notebook.ofText blankText = .ok blank := by cbv

theorem toText_blank : blank.toText = blankWritten := by cbv

theorem stripSolutions_blank : blank.stripSolutions = blank := rfl

def hiddenText : String := "test = \x7b\n    'hidden': True,\n    'name': 'q',\n\x7d\n"

theorem decode_hiddenText : TestFile.decode hiddenText = .ok ⟨"q", .zero, true, []⟩ := by
  let entries : List (String × Literal) := [("hidden", .bool true), ("name", .text "q")]
  have hsorted : Table.Sorted entries := List.pairwise_pair.mpr (by decide)
  have htext : String.ofList (Literal.dict entries).renderAssignment = hiddenText := by cbv
  have hread : Literal.parseAssignment (Literal.dict entries).renderAssignment = .ok (.dict entries) :=
    Literal.parseAssignment_renderAssignment (v := .dict entries) ⟨hsorted, trivial, trivial, trivial⟩
      ⟨trivial, trivial, trivial, trivial⟩
  rw [← htext, TestFile.decode, String.toList_ofList, hread]
  rfl

/-- A graded view with two hidden tests, one of them among other files. -/
def graded : Workspace :=
  ⟨⟨[(["ag"], .directory), (["ag", "hw.ipynb"], .file (.text blankText)), (["ag", "tests"], .directory),
    (["ag", "tests", "qH.py"], .file (.text hiddenText)), (["ag", "data"], .directory),
    (["ag", "data", "qH.py"], .file (.text hiddenText))]⟩, [], []⟩

/-- Beside it a view of learners, with the same other files and these entries. -/
def besideGraded (before after : List (Location × Node)) : Workspace :=
  let other : List (Location × Node) := [(["data"], .directory), (["data", "qH.py"], .file (.text hiddenText))]
  ⟨⟨graded.tree.entries ++ (([], .directory) :: before ++ other ++ after).map fun e => ("st" :: e.1, e.2)⟩, [], []⟩

/-- Copied, and copied with the notebook replaced. -/
def copied : Workspace :=
  besideGraded [(["hw.ipynb"], .file (.text blankText)), (["tests"], .directory), (["tests", "qH.py"], .file (.text hiddenText))] []

def stripped : Workspace :=
  besideGraded [(["tests"], .directory), (["tests", "qH.py"], .file (.text hiddenText))] [(["hw.ipynb"], .file (.text blankWritten))]

/-- The view that was made. -/
def filtered : Workspace := besideGraded [(["tests"], .directory)] [(["hw.ipynb"], .file (.text blankWritten))]

theorem removeHidden_stripped : ((Store.disk (Workspace.files fun _ => "") (testsIn "st")).removeHidden).outcome stripped =
    (.ok ["qH"], filtered) := by
  have hnames : (Store.Disk.testNames (Workspace.files fun _ => "") (testsIn "st")).outcome stripped = (.ok ["qH.py"], stripped) := by
    decide +kernel
  have htext : stripped.text? (Path.join (testsIn "st") "qH.py") = some hiddenText := by decide +kernel
  have hstem : Path.stem "qH.py" = "qH" := by decide
  have hlist : ((Store.disk (Workspace.files fun _ => "") (testsIn "st")).list).outcome stripped =
      (.ok [("qH", ⟨"q", .zero, true, []⟩)], stripped) := by
    refine (outcome_bind hnames).trans ?_
    rw [List.mapM_cons, List.mapM_nil, hstem]
    exact outcome_bind ((outcome_bind (readTest_outcome htext decode_hiddenText)).trans rfl)
  have hdelete : ((Store.disk (Workspace.files fun _ => "") (testsIn "st")).deleteAll ["qH"]).result stripped = (none, filtered) := by
    decide +kernel
  exact (outcome_bind hlist).trans ((outcome_bind (outcome_of_result_none hdelete)).trans rfl)

theorem student_graded :
    ∃ sum, (student (Workspace.files fun _ => "") "ag" "st" "hw.ipynb").outcome graded = (.ok sum, filtered) := by
  have hplace : graded.isPresent "st" = false := by decide +kernel
  have hcopy : ((Workspace.files fun _ => "").copyEntry "st" 4 [] "" "ag").result graded = (none, copied) := by decide +kernel
  have htext : copied.text? (Path.join "st" "hw.ipynb") = some blankText := by decide +kernel
  have hwrite : ((Workspace.files fun _ => "").writeAtomic (Path.join "st" "hw.ipynb") blankWritten).result copied = (none, stripped) := by
    decide +kernel
  rw [← toText_blank, ← stripSolutions_blank] at hwrite
  exact student_outcome hplace (by decide) hcopy htext ofText_blankText hwrite removeHidden_stripped

theorem graded_vacated : graded.tree.WellFormed ∧ graded.tree.node? graded.cwd = some .directory ∧
    graded.isDirectory "ag" = true ∧ Vacated graded "st" ["st"] ∧ Apart graded "ag" "st" ["st"] := by
  have hw : graded.tree.WellFormed := by decide +kernel
  have hroot : graded.LeadsTo "" FileTree.maxLinks [] [] := .nil
  have hag : graded.LeadsTo (Path.join "" "ag") FileTree.maxLinks ["ag"] [["ag"]] :=
    hroot.join (by decide) (by decide +kernel)
  have hlinks : ∀ x target, graded.tree.node? (["ag"] ++ x) ≠ some (.link target) := by
    intro x target hlink
    have hentry := FileTree.mem_entries (by simp) hlink
    simp [graded] at hentry
  have hsource : ∀ ns, (∀ n ∈ ns, Path.IsName n) → ∀ l ∈ graded.passed (Path.down "ag" ns), ¬ [] ++ ["st"] <+: l := by
    intro ns hns l hl
    rcases Workspace.mem_passed_down hag hns hlinks hl with hl | ⟨x, -, rfl⟩
    · obtain rfl := List.mem_singleton.mp hl
      decide
    · simp
  have hplace := vacated_child hw rfl hroot (by simp) (by decide) (by decide) (Or.inl (by decide +kernel)) (by decide) hsource
  exact ⟨hw, rfl, by decide +kernel, hplace⟩

/-- The hidden test is missing among the tests. -/
theorem hidden_test_is_missing : ∃ sum w',
    (student (Workspace.files fun _ => "") "ag" "st" "hw.ipynb").outcome graded = (.ok sum, w') ∧
    graded.tree.WellFormed ∧ graded.tree.node? graded.cwd = some .directory ∧ graded.isDirectory "ag" = true ∧
    Vacated graded "st" ["st"] ∧ Apart graded "ag" "st" ["st"] ∧ Path.IsName "hw.ipynb" ∧
    graded.shows (Path.down "ag" ["tests", "qH.py"]) = some (.file (.text hiddenText)) ∧
    w'.shows (Path.down "st" ["tests", "qH.py"]) = none := by
  obtain ⟨sum, hrun⟩ := student_graded
  obtain ⟨hw, hcwd, hsource, hvacated, hapart⟩ := graded_vacated
  have hname : Path.IsName "hw.ipynb" := by decide
  have hgiven : graded.shows (Path.down "ag" ["tests", "qH.py"]) = some (.file (.text hiddenText)) := by decide +kernel
  refine ⟨sum, filtered, hrun, hw, hcwd, hsource, hvacated, hapart, hname, hgiven, ?_⟩
  obtain ⟨-, hderives, -⟩ := student_is_graded_without_hidden hw hcwd hsource hvacated hapart hname hrun
  obtain ⟨text, f, htext, hdecoded, hshown⟩ := hderives.tests "qH.py" _ (by decide) (by decide) hgiven
  obtain rfl : hiddenText = text := by simpa using htext
  obtain rfl : _ = f := by simpa [decode_hiddenText] using hdecoded
  exact hshown

/-- Beside a graded view, a directory with a file. -/
def withOldFile (after : List (Location × Node)) : Workspace :=
  ⟨⟨[(["ag"], .directory), (["ag", "hw.ipynb"], .file (.text blankText)), (["d"], .directory),
    (["d", "old.txt"], .file (.text "old"))] ++ after⟩, [], []⟩

/-- Where the path of the view is not there but leads to an old directory once it is made, what the directory holds
    stays. -/
theorem old_file_is_kept : ∃ sum w',
    (student (Workspace.files fun _ => "") "ag" "d/new/.." "hw.ipynb").outcome (withOldFile []) = (.ok sum, w') ∧
    (withOldFile []).shows (Path.down "ag" ["old.txt"]) = none ∧
    w'.shows (Path.down "d/new/.." ["old.txt"]) = some (.file (.text "old")) := by
  have hplace : (withOldFile []).isPresent "d/new/.." = false := by decide +kernel
  have hcopy : ((Workspace.files fun _ => "").copyEntry "d/new/.." 2 [] "" "ag").result (withOldFile []) =
      (none, withOldFile [(["d", "new"], .directory), (["d", "hw.ipynb"], .file (.text blankText))]) := by decide +kernel
  have htext : (withOldFile [(["d", "new"], .directory), (["d", "hw.ipynb"], .file (.text blankText))]).text?
      (Path.join "d/new/.." "hw.ipynb") = some blankText := by decide +kernel
  have hwrite : ((Workspace.files fun _ => "").writeAtomic (Path.join "d/new/.." "hw.ipynb") blankWritten).result
      (withOldFile [(["d", "new"], .directory), (["d", "hw.ipynb"], .file (.text blankText))]) =
      (none, withOldFile [(["d", "new"], .directory), (["d", "hw.ipynb"], .file (.text blankWritten))]) := by decide +kernel
  have hremove : ((Store.disk (Workspace.files fun _ => "") (testsIn "d/new/..")).removeHidden).outcome
      (withOldFile [(["d", "new"], .directory), (["d", "hw.ipynb"], .file (.text blankWritten))]) =
      (.ok [], withOldFile [(["d", "new"], .directory), (["d", "hw.ipynb"], .file (.text blankWritten))]) := by decide +kernel
  rw [← toText_blank, ← stripSolutions_blank] at hwrite
  obtain ⟨sum, hrun⟩ := student_outcome hplace (by decide) hcopy htext ofText_blankText hwrite hremove
  exact ⟨sum, _, hrun, by decide +kernel, by decide +kernel⟩

/-! ## What is still hidden in it -/

/-- A file named as a test file, and hidden. -/
def ShowsHidden (shown : List String → Option Node) (ns : List String) : Prop :=
  ∃ n text f, ns.getLast? = some n ∧ Path.extension? n = some TestFile.extension ∧
    shown ns = some (.file (.text text)) ∧ TestFile.decode text = .ok f ∧ f.hidden = true

/-- Where hidden tests are looked for, or the notebook is. -/
def IsLookedAt (name : String) (ns : List String) : Prop :=
  ns = [name] ∨ ∃ m, ns = ["tests", m] ∧ Store.Disk.isTestName m = true

/-- A notebook is no test file. -/
theorem decode_toText (nb : Notebook) (f : TestFile) : TestFile.decode nb.toText ≠ .ok f := by
  obtain ⟨rest, hrest⟩ : ∃ rest, nb.toText.toList = '\x7b' :: rest := by
    obtain ⟨⟨k, v⟩, members, hjson⟩ : ∃ m members, nb.toJson = .object (m :: members) := ⟨_, _, rfl⟩
    rw [Notebook.toText, String.toList_ofList, hjson, Json.write]
    exact ⟨_, List.cons_append⟩
  have hskip : Literal.skipTrivia ('\x7b' :: rest) = '\x7b' :: rest :=
    Literal.skipTrivia_start ⟨by decide, by decide, by decide⟩ rest
  have hspan : Literal.spanName ('\x7b' :: rest) = ([], '\x7b' :: rest) := by
    have hbrace : Literal.isNameChar '\x7b' = false := by decide
    simp [Literal.spanName, hbrace]
  rw [TestFile.decode, hrest, Literal.parseAssignment, hskip, hspan]
  simp

theorem Derives.showsHidden_iff {given shown : List String → Option Node} (h : Derives given shown name) {ns : List String}
    (hns : ∀ n ∈ ns, Path.IsName n) : ShowsHidden shown ns ↔ ShowsHidden given ns ∧ ¬ IsLookedAt name ns := by
  by_cases hlooked : IsLookedAt name ns
  · simp only [hlooked, not_true_eq_false, and_false, iff_false]
    rintro ⟨n, text, f, hlast, hextension, hshown, hdecoded, hhidden⟩
    rcases hlooked with rfl | ⟨m, rfl, htest⟩
    · obtain ⟨-, nb, -, -, hnotebook⟩ := h.notebook
      obtain rfl : text = nb.stripSolutions.toText := by simpa [hnotebook] using hshown.symm
      exact decode_toText _ f hdecoded
    · obtain ⟨text', f', htext, hdecoded', hnot⟩ := h.notHidden (hns m (by simp)) htest hshown
      obtain rfl : text = text' := by simpa using htext
      obtain rfl : f = f' := by simpa [hdecoded] using hdecoded'
      simp [hhidden] at hnot
  · have hsame : shown ns = given ns := h.rest ns hns (fun he => hlooked (Or.inl he)) fun m c he htest _ =>
      hlooked (Or.inr ⟨m, he, htest⟩)
    simp only [ShowsHidden, hsame, hlooked, not_false_eq_true, and_true]

/-- The view shows a hidden test file just where the graded view does and the tests are not looked through. -/
theorem student_shows_hidden_iff (hw : w.tree.WellFormed) (hcwd : w.tree.node? w.cwd = some .directory)
    (hsource : w.isDirectory source = true) (hvacated : Vacated w dest s) (hapart : Apart w source dest s)
    (hname : Path.IsName name) (hrun : (student (Workspace.files newId) source dest name).outcome w = (.ok sum, w'))
    {ns : List String} (hns : ∀ n ∈ ns, Path.IsName n) :
    ShowsHidden (fun ns => w'.shows (Path.down dest ns)) ns ↔
      ShowsHidden (fun ns => w.shows (Path.down source ns)) ns ∧ ¬ IsLookedAt name ns := by
  obtain ⟨left, seen, what, h, hs, hderives⟩ := (student_ends hw hcwd hsource hvacated hapart hname).of_ok hrun
  exact (hderives.congr hname (fun _ _ => rfl) fun ns hns => h.shows hs hns).showsHidden_iff hns

/-- The hidden test among other files is still shown. -/
theorem hidden_file_is_shown : ∃ sum w',
    (student (Workspace.files fun _ => "") "ag" "st" "hw.ipynb").outcome graded = (.ok sum, w') ∧
    w'.shows (Path.down "st" ["data", "qH.py"]) = some (.file (.text hiddenText)) ∧
    Path.extension? "qH.py" = some TestFile.extension ∧ ∃ f, TestFile.decode hiddenText = .ok f ∧ f.hidden = true := by
  obtain ⟨sum, hrun⟩ := student_graded
  exact ⟨sum, filtered, hrun, by decide +kernel, by decide, _, decode_hiddenText, rfl⟩

/-- The hidden test among the tests is not. -/
theorem hidden_test_is_not_shown : ∃ sum w',
    (student (Workspace.files fun _ => "") "ag" "st" "hw.ipynb").outcome graded = (.ok sum, w') ∧
    graded.tree.WellFormed ∧ graded.tree.node? graded.cwd = some .directory ∧ graded.isDirectory "ag" = true ∧
    Vacated graded "st" ["st"] ∧ Apart graded "ag" "st" ["st"] ∧ Path.IsName "hw.ipynb" ∧
    (∀ n ∈ ["tests", "qH.py"], Path.IsName n) ∧
    ¬ ShowsHidden (fun ns => w'.shows (Path.down "st" ns)) ["tests", "qH.py"] := by
  obtain ⟨sum, hrun⟩ := student_graded
  obtain ⟨hw, hcwd, hsource, hvacated, hapart⟩ := graded_vacated
  have hname : Path.IsName "hw.ipynb" := by decide
  have hns : ∀ n ∈ ["tests", "qH.py"], Path.IsName n := by decide
  refine ⟨sum, filtered, hrun, hw, hcwd, hsource, hvacated, hapart, hname, hns, fun hshown => ?_⟩
  obtain ⟨-, hnot⟩ := (student_shows_hidden_iff hw hcwd hsource hvacated hapart hname hrun hns).mp hshown
  exact hnot (Or.inr ⟨"qH.py", rfl, by decide⟩)

end Handout.View
