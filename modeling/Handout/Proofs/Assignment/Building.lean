/-
  Handout.Proofs.Assignment.Building — making views touches nothing but the views.

  Each operation on a path inside a view keeps a staged workspace staged; so do the
  actions made of them: replacing a file, copying trees, keeping tests, and so both views
  (`keeps_buildViews`). Whatever fails on the way fails in a staged workspace.
-/

import Handout.Proofs.Assignment.Staging
import Handout.Proofs.Store.Disk

open Handout.Action

namespace Handout.Assignment

open Workspace (Under)

variable {w₁ : Workspace} {result p q : Path} {name n m v : String} {ns : List String} {left : Nat} {r : Location}
  {seen : List Location} {newId : List String → String}

section

variable (g : Ground w₁ result left r seen name)
include g

/-! ## The operations -/

theorem keeps_makeDirectories (hp : Inside result name v ns p) :
    Keeps (Staged w₁ r name) ((Workspace.files newId).makeDirectories p) fun _ => True :=
  Workspace.keeps_performPart fun _ h =>
    h.made g hp (Workspace.makeDirectories_spec h.wellFormed (h.node?_cwd g) (FileTree.maxPath + 1) p).1

theorem keeps_removeAll (hp : Inside result name v ns p) :
    Keeps (Staged w₁ r name) ((Workspace.files newId).removeAll p) fun _ => True :=
  Workspace.keeps_performPart fun _ h => h.less (Workspace.removeAll_less h.wellFormed (h.lands g hp) (by simp))

theorem keeps_write (hp : Inside result name v (ns ++ [n]) p) (s : String) :
    Keeps (Staged w₁ r name) ((Workspace.files newId).write p s) fun _ => True :=
  Workspace.keeps_write fun _ _ _ h hw => h.acts (Workspace.store?_acts h.wellFormed (h.lands_entry g hp) hw)

theorem keeps_copy (hq : Inside result name v (ns ++ [n]) q) :
    Keeps (Staged w₁ r name) ((Workspace.files newId).copy p q) fun _ => True :=
  Workspace.keeps_perform fun _ _ h hw => h.acts (Workspace.copy?_acts h.wellFormed (h.lands_entry g hq) hw)

theorem keeps_remove (hp : Inside result name v (ns ++ [n]) p) :
    Keeps (Staged w₁ r name) ((Workspace.files newId).remove p) fun _ => True :=
  Workspace.keeps_perform fun _ _ h hw => h.acts (Workspace.remove?_acts h.wellFormed (h.lands_entry g hp) hw)

theorem keeps_rename (hp : Inside result name v (ns ++ [m]) p) (hq : Inside result name v (ns ++ [n]) q) :
    Keeps (Staged w₁ r name) ((Workspace.files newId).rename p q) fun _ => True :=
  Workspace.keeps_perform fun _ _ h hw =>
    h.acts (Workspace.rename?_acts h.wellFormed (h.lands_entry g hp) (h.lands_entry g hq) hw)

omit g in
/-- The names in a directory are names. -/
theorem keeps_names (p : Path) :
    Keeps (Staged w₁ r name) ((Workspace.files newId).names p) fun ns => ∀ n ∈ ns, Path.IsName n := by
  refine Workspace.keeps_ask fun w ns h hns n hn => ?_
  obtain ⟨loc, -, rfl⟩ := Option.map_eq_some_iff.mp hns
  exact (h.wellFormed.name (FileTree.mem_children.mp hn)).isName

/-! ## Replacing a file -/

/-- The new text is written beside the file. -/
theorem inside_temporary (h : Inside result name v ns p) (hn : Path.IsName n) (k : Nat) :
    ∃ m, Inside result name v (ns ++ [m]) (Files.temporary (Path.join p n) (tagOf k)) := by
  obtain ⟨q, before, hjoin, hbeginning, hbefore, habsolute⟩ := Files.temporary_join hn p
  -- the last name inside the view says something, so nothing is cut off with the name of the file
  obtain rfl : before = [] := by
    rcases List.eq_nil_or_concat' before with hnil | ⟨before, i, rfl⟩
    · exact hnil
    · have hnames := h.under.names
      rw [hbeginning] at hnames
      have hlast := congrArg List.getLast? hnames
      rw [← List.append_assoc, List.getLast?_concat, List.getLast?_append_of_ne_nil _ (by simp)] at hlast
      exact absurd (hbefore i (by simp)) (g.isName_of_mem h i (List.mem_of_getLast? hlast.symm)).notIdle
  have hunder : Inside result name v ns q :=
    ⟨⟨habsolute.trans h.under.absolute, by rw [← h.under.names, hbeginning, List.append_nil]⟩, h.view, h.names⟩
  rw [hjoin]
  exact ⟨_, hunder.join (Files.isName_temporaryName hn.noSlash k)⟩

theorem keeps_writeAtomic (hp : Inside result name v ns p) (hn : Path.IsName n) (text : String) :
    Keeps (Staged w₁ r name) ((Workspace.files newId).writeAtomic (Path.join p n) text) fun _ => True := by
  have hunused : Keeps (Staged w₁ r name) ((Workspace.files newId).unused (Files.temporary (Path.join p n)))
      fun tmp => ∃ m, Inside result name v (ns ++ [m]) tmp := by
    refine Workspace.keeps_get fun w _ => ?_
    obtain ⟨k, hk⟩ := w.exists_unused (Files.temporary (Path.join p n))
    exact hk ▸ inside_temporary g hp hn k
  refine hunused.bind fun tmp ⟨m, htmp⟩ => ?_
  refine (Files.keeps_orUndo (keeps_write g htmp text) (keeps_remove g htmp)).bind fun _ _ => ?_
  exact Files.keeps_orUndo (keeps_rename g htmp (hp.join hn)) (keeps_remove g htmp)

/-! ## Copying -/

omit g in
theorem Inside.join_relative {b : Path} {ms : List String} (h : Inside result name v ns p) (hb : Path.Relative b ms) :
    Inside result name v (ns ++ ms) (Path.join p b) := by
  refine ⟨h.under.join_relative hb, h.view, fun n hn => ?_⟩
  rcases List.mem_append.mp hn with hn | hn
  · exact h.names n hn
  · exact hb.isName n hn

/-- The entry itself may need a reason; all below it goes strictly inside the view. -/
theorem keeps_copyEntry {dest : Path} (hdest : Inside result name v ns dest) (depth : Nat) :
    ∀ (around : List String) (base : String) (source : Path) (ms : List String), Path.Relative base ms →
      Keeps (Staged w₁ r name) ((Workspace.files newId).copy source (Path.join dest base)) (fun _ => True) →
      Keeps (Staged w₁ r name) ((Workspace.files newId).copyEntry dest depth around base source) fun _ => True := by
  induction depth with
  | zero => exact fun _ _ _ _ _ _ => .throw _
  | succ depth ih =>
    intro around base source ms hbase hcopy
    rw [Files.copyEntry]
    refine Workspace.keeps_query.bind fun linked _ => ?_
    refine Workspace.keeps_query.bind fun isDirectory _ => ?_
    split
    · refine Workspace.keeps_question.bind fun here _ => ?_
      have hrest : ∀ u : Unit, Keeps (Staged w₁ r name) (do
          (Workspace.files newId).makeDirectories (Path.join dest base)
          for name in ← (Workspace.files newId).names source do
            (Workspace.files newId).copyEntry dest depth (here :: around) (Files.relative base name) (Path.join source name))
          fun _ => True := by
        intro _
        refine (keeps_makeDirectories g (hdest.join_relative hbase)).bind fun _ _ => ?_
        refine (keeps_names source).bind fun names hnames => ?_
        refine (Keeps.forIn names fun n hn => ?_).bind fun _ _ => .pure trivial
        have hbelow := hbase.step (hnames n hn)
        have hentry := hdest.join_relative hbelow
        rw [← List.append_assoc] at hentry
        exact ih _ _ _ _ hbelow (keeps_copy g hentry)
      split
      · exact (Keeps.throw (P := fun _ => True) _).bind fun u _ => hrest u
      · exact hrest ()
    · exact hcopy

theorem keeps_copyTree {source dest : Path} (hdest : Inside result name v ns dest)
    (hcopy : Keeps (Staged w₁ r name) ((Workspace.files newId).copy source (Path.join dest "")) fun _ => True) :
    Keeps (Staged w₁ r name) ((Workspace.files newId).copyTree source dest) fun _ => True :=
  keeps_copyEntry g hdest _ [] "" source [] .nil hcopy

theorem keeps_copyInto (source : Path) {dest : Path} (hdest : Inside result name v ns dest) :
    Keeps (Staged w₁ r name) ((Workspace.files newId).copyInto source dest) fun _ => True := by
  rw [Files.copyInto]
  split
  · exact .throw _
  · rename_i n hn
    have htarget := hdest.join (Path.isName_of_fileName? hn)
    refine Workspace.keeps_query.bind fun isDirectory _ => ?_
    split
    · have hentry := htarget.join_relative .nil
      rw [List.append_nil] at hentry
      exact keeps_copyTree g htarget (keeps_copy g hentry)
    · refine Workspace.keeps_query.bind fun isFile _ => ?_
      split
      · exact (keeps_makeDirectories g hdest).bind fun _ _ => keeps_copy g htarget
      · exact .throw _

theorem keeps_copyAll {dest : Path} (hdest : Inside result name v ns dest) (files : List Path) :
    Keeps (Staged w₁ r name) ((Workspace.files newId).copyAll dest files) fun _ => True := by
  induction files with
  | nil => exact .pure trivial
  | cons f files ih => exact (keeps_copyInto g f hdest).bind fun _ _ => ih

/-! ## Keeping tests -/

omit g in
/-- The names of test files are names. -/
theorem keeps_testNames (root : Path) :
    Keeps (Staged w₁ r name) (Store.Disk.testNames (Workspace.files newId) root) fun ns => ∀ n ∈ ns, Path.IsName n := by
  rw [Store.Disk.testNames]
  refine Workspace.keeps_query.bind fun present _ => ?_
  split
  · refine (keeps_names root).bind fun names hnames => ?_
    refine (Keeps.filterM names (fun n => Workspace.keeps_query) hnames).bind fun files hfiles => .pure fun n hn => ?_
    have hkey := Table.mem_keys_ofEntries.mp hn
    simp only [Table.keys, List.map_map, List.mem_map, List.mem_filter, Function.comp] at hkey
    obtain ⟨_, ⟨hfile, -⟩, rfl⟩ := hkey
    exact hfiles _ hfile
  · exact .pure (by simp)

theorem keeps_save {root : Path} (hroot : Inside result name v ns root) {f : TestFile} (hf : Question.isName f.name = true) :
    Keeps (Staged w₁ r name) ((Store.disk (Workspace.files newId) root).save f) fun _ => True := by
  have hrest : ∀ u : Unit, Keeps (Staged w₁ r name)
      ((Workspace.files newId).writeAtomic (Path.join root f.fileName) f.encode) fun _ => True :=
    fun _ => keeps_writeAtomic g hroot (TestFile.fileName_eq f ▸ TestFile.isName_nameOf (TestFile.noSlash_stem_of_isName hf)) _
  show Keeps _ (Store.Disk.save _ root f) _
  rw [Store.Disk.save]
  refine Workspace.keeps_query.bind fun present _ => ?_
  split
  · exact hrest ()
  · exact (keeps_makeDirectories g hroot).bind fun _ _ => hrest ()

theorem keeps_saveAll {root : Path} (hroot : Inside result name v ns root) {files : List TestFile}
    (hfiles : ∀ f ∈ files, Question.isName f.name = true) :
    Keeps (Staged w₁ r name) ((Store.disk (Workspace.files newId) root).saveAll files) fun _ => True := by
  induction files with
  | nil => exact .pure trivial
  | cons f files ih =>
    rw [List.forall_mem_cons] at hfiles
    exact (keeps_save g hroot hfiles.1).bind fun _ _ => ih hfiles.2

omit g in
/-- Tests are only looked at. -/
theorem keeps_list (root : Path) : Keeps (Staged w₁ r name) ((Store.disk (Workspace.files newId) root).list)
    fun es => ∀ e ∈ es, '/' ∉ e.1.toList := by
  refine (keeps_testNames root).bind fun names hnames => Keeps.mapM names fun n hn => ?_
  have hread : Keeps (Staged w₁ r name) (Store.Disk.readTest (Workspace.files newId) (Path.join root n)) fun _ => True := by
    refine Workspace.keeps_question.bind fun text _ => ?_
    split
    · exact .pure trivial
    · exact .throw _
  exact hread.bind fun f _ => .pure (Path.noSlash_stem (hnames n hn).noSlash)

theorem keeps_deleteAll {root : Path} (hroot : Inside result name v ns root) {stems : List String}
    (hstems : ∀ s ∈ stems, '/' ∉ s.toList) :
    Keeps (Staged w₁ r name) ((Store.disk (Workspace.files newId) root).deleteAll stems) fun _ => True := by
  induction stems with
  | nil => exact .pure trivial
  | cons s stems ih =>
    rw [List.forall_mem_cons] at hstems
    have hdelete : Keeps (Staged w₁ r name) (Store.Disk.delete (Workspace.files newId) root s) fun _ => True := by
      refine Workspace.keeps_query.bind fun present _ => ?_
      split
      · exact keeps_remove g (hroot.join (TestFile.isName_nameOf hstems.1))
      · exact .pure trivial
    exact hdelete.bind fun _ _ => ih hstems.2

theorem keeps_removeHidden {root : Path} (hroot : Inside result name v ns root) :
    Keeps (Staged w₁ r name) (Store.disk (Workspace.files newId) root).removeHidden fun _ => True := by
  refine (keeps_list root).bind fun files hfiles => ?_
  refine (keeps_deleteAll g hroot fun s hs => ?_).bind fun _ _ => .pure trivial
  obtain ⟨e, he, rfl⟩ := List.mem_map.mp hs
  exact hfiles e (List.mem_filter.mp he).1

/-! ## The views -/

omit g in
theorem keeps_readNotebook (path : Path) :
    Keeps (Staged w₁ r name) ((Workspace.files newId).readNotebook path) fun _ => True :=
  Workspace.keeps_question.bind fun _ _ => .answered fun _ _ => trivial

omit g in
theorem keeps_identify (nb : Notebook) :
    Keeps (Staged w₁ r name) (nb.identify (Workspace.files newId).newId) fun _ => True := by
  have hassign : ∀ (cells : List Cell) (taken : List String),
      Keeps (Staged w₁ r name) (Notebook.assignIds (Workspace.files newId).newId taken cells) fun _ => True := by
    intro cells
    induction cells with
    | nil => exact fun _ => .pure trivial
    | cons c cells ih =>
      intro taken
      rw [Notebook.assignIds]
      split
      · exact (ih taken).bind fun _ _ => .pure trivial
      · exact (Keeps.pure (P := fun _ => True) trivial).bind fun id _ => (ih (id :: taken)).bind fun _ _ => .pure trivial
  rw [Notebook.identify]
  split
  · exact (hassign _ _).bind fun _ _ => .pure trivial
  · exact (Keeps.pure (P := fun _ => True) trivial).bind fun _ _ => .pure trivial

theorem keeps_build {root : Path} (hroot : Inside result name v ns root) (nb : Notebook) (title : String) (o : Options) :
    Keeps (Staged w₁ r name) (nb.build (Store.disk (Workspace.files newId) root) (Workspace.files newId).newId title o)
      fun _ => True := by
  have hsegment : Keeps (Staged w₁ r name) (segment (Store.disk (Workspace.files newId) root) nb.cells) fun _ => True :=
    (keeps_saveAll g hroot fun _ hf => Segment.isName_of_saved hf).bind fun _ _ =>
      (Keeps.answered (P := fun _ => True) fun _ _ => trivial).bind fun _ _ => .pure trivial
  exact hsegment.bind fun s _ => (keeps_identify _).bind fun _ _ => .pure trivial

omit g in
theorem isName_of_notebookName {path : Path} {title : String} (h : notebookName path = .ok title) : Path.IsName title := by
  rw [notebookName] at h
  split at h
  · rename_i n hn
    cases h
    exact Path.isName_of_fileName? hn
  · cases h

theorem keeps_autograder {dest : Path} (hdest : Inside result name v ns dest) (master : Path) (files : List Path) (o : Options) :
    Keeps (Staged w₁ r name) (View.autograder (Workspace.files newId) master files dest o) fun _ => True := by
  have htests : Path.IsName "tests" := by decide
  refine (Keeps.answered fun title htitle => isName_of_notebookName htitle).bind fun title htitle => ?_
  refine (keeps_makeDirectories g hdest).bind fun _ _ => (keeps_copyAll g hdest files).bind fun _ _ => ?_
  refine (keeps_readNotebook master).bind fun nb _ => (keeps_build g (hdest.join htests) nb title o).bind fun built _ => ?_
  exact (keeps_writeAtomic g hdest htitle _).bind fun _ _ => .pure trivial

/-- A view that is there is a directory, so it is never copied as a file. -/
theorem keeps_copy_view {source : Path} (hsource : Inside result name v [] source) (target : Path) :
    Keeps (Staged w₁ r name) ((Workspace.files newId).copy source target) fun _ => True := by
  refine Workspace.keeps_perform fun w w' h hw => ?_
  rw [Workspace.copy?] at hw
  split at hw
  · rename_i c hfile
    obtain ⟨l, hfound, hnode⟩ := Workspace.nodeAt?_eq_some.mp hfile
    obtain ⟨rfl, hthere⟩ := (h.lands g hsource).found hfound
    rw [(h.views v hthere).2] at hnode
    cases hnode
  · cases hw

theorem keeps_student {source dest : Path} (hsource : Inside result name v [] source) {u : String}
    (hdest : Inside result name u ns dest) {title : String} (htitle : Path.IsName title) :
    Keeps (Staged w₁ r name) (View.student (Workspace.files newId) source dest title) fun _ => True := by
  have htests : Path.IsName "tests" := by decide
  have hrest : ∀ u : Unit, Keeps (Staged w₁ r name) (do
      (Workspace.files newId).copyTree source dest
      let path := Path.join dest title
      let nb ← (Workspace.files newId).readNotebook path
      (Workspace.files newId).writeNotebook path nb.stripSolutions
      let hidden ← (Store.disk (Workspace.files newId) (View.testsIn dest)).removeHidden
      return (⟨[path], [], [], none, [View.studentMessage path nb.solutionCount hidden.length]⟩ : Summary)) fun _ => True := by
    intro _
    refine (keeps_copyTree g hdest (keeps_copy_view g hsource _)).bind fun _ _ => ?_
    refine (keeps_readNotebook _).bind fun nb _ => (keeps_writeAtomic g hdest htitle _).bind fun _ _ => ?_
    exact (keeps_removeHidden g (hdest.join htests)).bind fun _ _ => .pure trivial
  refine Workspace.keeps_query.bind fun present _ => ?_
  split
  · exact (keeps_removeAll g hdest).bind fun _ _ => hrest ()
  · exact hrest ()

end
end Handout.Assignment
