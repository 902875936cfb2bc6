/-
  Handout.Proofs.Store.Listing — what stores list, and in which order.

  A store lists each file it holds once, under its stem, and of the hidden ones removes
  each, in the order of the list (`ListsAs`). This holds of every table that is reached by
  operations, whose list is in the order of the stems (`Reached`, `memory_listsAs`), and of
  every directory whose candidates all are test files, be there links among them or not
  (`disk_listsAs`): a file that is deleted leads nowhere any more, and nothing is found that
  was not there before (`Shrunk`). The list of a directory is in the order of the names, and so in
  that of the stems exactly when no stem overtakes another (`lists_by_stem_iff`): of
  `a.py` and `a-b.py` the second one is listed first (`dash_comes_first`).
-/

import Handout.Proofs.Store.Refinement

open Handout.Action

namespace Handout.Store

open TestFile (nameOf Overtakes)

/-- The stems of the hidden files of a list, in its order. -/
def hiddenStems (es : List (String × TestFile)) : List String := (es.filter fun e => e.2.hidden).map Prod.fst

/-- A store lists what it holds, each file once; the hidden ones are removed in that order and are held no more. -/
structure ListsAs {σ : Type} (store : Store (Action σ)) (holds : σ → String → TestFile → Prop) (s : σ)
    (es : List (String × TestFile)) : Prop where
  list : store.list.outcome s = (.ok es, s)
  mem : ∀ k f, (k, f) ∈ es ↔ holds s k f
  nodup : (es.map Prod.fst).Nodup
  removeHidden : ∃ s', store.removeHidden.outcome s = (.ok (hiddenStems es), s') ∧
    ∀ k ∈ hiddenStems es, ∀ f, ¬ holds s' k f

/-! ## Tables -/

namespace Memory

variable {m : Files}

/-- The tables that operations lead to from the empty one. -/
inductive Reached : Files → Prop
  | empty : Reached empty
  | step {m : Files} (op : Op) : Reached m → Reached ((memory.answer op).outcome m).2

/-- Sorted by stem, each file under its own. -/
structure Keyed (m : Files) : Prop where
  sorted : Table.Sorted m
  key : ∀ e ∈ m, e.1 = e.2.stem

theorem Keyed.filter (h : Keyed m) (p : String × TestFile → Bool) : Keyed (m.filter p) :=
  ⟨h.sorted.filter p, fun e he => h.key e (List.mem_of_mem_filter he)⟩

theorem Keyed.insert (h : Keyed m) (f : TestFile) : Keyed (Table.insert f.stem f m) := by
  refine ⟨Table.sorted_insert f.stem f h.sorted, fun e he => ?_⟩
  rcases Table.mem_of_mem_insert he with rfl | he
  · rfl
  · exact h.key e he

theorem answer_delete_absent {stem : String} (h : stem ∉ Table.keys m) : ((memory.answer (.delete stem)).outcome m).2 = m := by
  have hnone : (Table.find? stem m).isSome = false := by
    rw [← Bool.not_eq_true]
    exact mt Table.find?_isSome_iff.mp h
  have hrefused : memory.delete stem m = .error (.testFile (pathOf stem) "no such test file") m := by
    have hget : (get : Action Files Files) m = .ok m m := rfl
    simp only [memory, delete, bind, EStateM.bind, hget, hnone, Bool.false_eq_true, if_false]
    rfl
  rw [answer, outcome_bind_error (outcome_eq_error.mpr hrefused)]

/-- One operation keeps each file under its stem. -/
theorem keyed_answer (h : Keyed m) (op : Op) : Keyed ((memory.answer op).outcome m).2 := by
  cases op with
  | save f =>
    rw [outcome_eq_ok.mpr (Disk.memory_answer_save f m)]
    exact h.insert f
  | delete stem =>
    by_cases hstem : stem ∈ Table.keys m
    · rw [outcome_eq_ok.mpr (Disk.memory_answer_delete hstem)]
      exact h.filter _
    · rw [answer_delete_absent hstem]
      exact h
  | list =>
    rw [outcome_eq_ok.mpr (Disk.memory_answer_list m)]
    exact h
  | removeHidden =>
    rw [outcome_eq_ok.mpr (Disk.memory_answer_removeHidden h.sorted)]
    exact h.filter _

/-- So do all operations. -/
theorem Reached.keyed (h : Reached m) : Keyed m := by
  induction h with
  | empty => exact ⟨Table.sorted_nil, by simp [Memory.empty]⟩
  | step op _ ih => exact keyed_answer ih op

def Holds (m : Files) (k : String) (f : TestFile) : Prop := Table.find? k m = some f

end Memory

/-- A reached table is listed as it is, in the order of the stems. -/
theorem memory_listsAs {m : Memory.Files} (h : Memory.Reached m) : ListsAs memory Memory.Holds m m := by
  have hsorted := h.keyed.sorted
  refine ⟨rfl, fun k f => (Table.find?_eq_some_iff hsorted).symm, Table.nodup_keys hsorted, ?_⟩
  refine ⟨_, outcome_eq_ok.mpr (Memory.removeHidden_memory hsorted), fun k hk f hholds => ?_⟩
  rw [Memory.Holds, ← Table.filter_key_notMem hsorted, Table.find?_filter _ hsorted, Option.filter_eq_some_iff] at hholds
  exact of_decide_eq_true hholds.2 hk

/-! ## Directories -/

namespace Disk

open Workspace FileTree

variable {w w' w'' : Workspace} {root p : Path} {left : Nat} {r t loc : Location} {seen : List Location} {n s : String}
  {newId : List String → String} {es : List (String × TestFile)}

/-- Nothing stands anywhere that was not there. -/
structure Shrunk (w w' : Workspace) : Prop where
  cwd : w'.cwd = w.cwd
  node? : ∀ l, w'.tree.node? l ≠ none → w'.tree.node? l = w.tree.node? l

namespace Shrunk

theorem refl (w : Workspace) : Shrunk w w := ⟨rfl, fun _ _ => rfl⟩

theorem trans (h : Shrunk w w') (h' : Shrunk w' w'') : Shrunk w w'' := by
  refine ⟨h'.cwd.trans h.cwd, fun l hl => ?_⟩
  have hsame := h'.node? l hl
  rw [hsame, h.node? l (hsame ▸ hl)]

theorem erase (w : Workspace) (hloc : loc ≠ []) : Shrunk w (w.withTree (w.tree.erase loc)) := by
  refine ⟨rfl, fun l hl => ?_⟩
  rw [withTree, node?_erase hloc] at hl ⊢
  split at hl
  · exact absurd rfl hl
  · rename_i hne
    rw [if_neg hne]

/-- A way that is left was there before. -/
theorem leadsTo (h : Shrunk w w') (hleads : w'.LeadsTo p left r seen) : w.LeadsTo p left r seen := by
  rw [LeadsTo, ← start_congr h.cwd]
  exact Way.congr hleads fun l hl => (h.node? l (Way.node?_seen hleads l hl)).symm

/-- What is found was found before. -/
theorem follow (h : Shrunk w w') (hfound : w'.follow p = .found loc) : w.follow p = .found loc := by
  obtain ⟨-, -, hwalk⟩ := fits_of_landing hfound (by simp) (by simp)
  rw [← hfound]
  exact follow_congr h.cwd.symm fun l hl => (h.node? l (node?_of_mem_lookups hwalk l hl)).symm

theorem isPresent (h : Shrunk w w') (hpresent : w'.isPresent p = true) : w.isPresent p = true := by
  obtain ⟨node, hnode⟩ := Option.isSome_iff_exists.mp hpresent
  obtain ⟨l, hfound, hl⟩ := nodeAt?_eq_some.mp hnode
  refine Option.isSome_iff_exists.mpr ⟨node, nodeAt?_eq_some.mpr ⟨l, h.follow hfound, ?_⟩⟩
  rw [← h.node? l (by rw [hl]; simp), hl]

end Shrunk

theorem isPresent_of_isFile (h : w.isFile p = true) : w.isPresent p = true := by
  rw [Workspace.isFile] at h
  rw [Workspace.isPresent]
  split at h
  · simp [*]
  · cases h

/-- What is present under a name has an entry in the directory that the path before it leads to. -/
theorem entry_of_isPresent (hn : Path.IsName n) (h : w.isPresent (Path.join root n) = true) : ∃ left r seen,
    w.LeadsTo root left r seen ∧ Fits n ∧ (Path.join root n).utf8ByteSize ≤ maxPath ∧ w.tree.node? (r ++ [n]) ≠ none := by
  obtain ⟨node, hnode⟩ := Option.isSome_iff_exists.mp h
  obtain ⟨l, hfound, -⟩ := nodeAt?_eq_some.mp hnode
  obtain ⟨left, r, seen, hleads⟩ := leads_of_found hn hfound
  obtain ⟨hfits, hsize⟩ := fits_of_landing_child hleads hn hfound (by simp)
  refine ⟨left, r, seen, hleads, hfits, hsize, fun hnone => ?_⟩
  rw [not_isPresent_child hleads hn hnone] at h
  cases h

/-- A path leads to one directory only. -/
theorem leadsTo_unique {left' : Nat} {r' : Location} {seen' : List Location} (h : w.LeadsTo p left r seen)
    (h' : w.LeadsTo p left' r' seen') : r = r' :=
  Landing.found.inj ((Way.walk_eq_found h).symm.trans (Way.walk_eq_found h'))

/-- What was a file, or a link to one, is no directory later on. -/
theorem not_directory_of_isFile (h : Shrunk w w') (hfile : w.isFile (Path.join root n) = true)
    (hleads : w'.LeadsTo root left r seen) (hfits : Fits n) (hsize : (Path.join root n).utf8ByteSize ≤ maxPath) :
    w'.tree.node? (r ++ [n]) ≠ some .directory := by
  intro hdir
  have hdir₀ : w.tree.node? (r ++ [n]) = some .directory := (h.node? _ (by rw [hdir]; simp)).symm.trans hdir
  have hfollow := follow_child (h.leadsTo hleads) hfits hsize (by rw [hdir₀]; simp) (by rw [hdir₀]; simp)
  rw [Workspace.isFile, hfollow, nodeAt?, hdir₀] at hfile
  cases hfile

/-- A file that is deleted, or is gone already, leads nowhere any more. -/
theorem delete_shrinks (hs : '/' ∉ s.toList) (hfile : w.isFile (pathOf root s) = true) (h : Shrunk w w')
    (E : Failure → Workspace → Prop) : ((disk (files newId) root).delete s).Ends w'
      (fun _ w'' => Shrunk w' w'' ∧ w''.isPresent (pathOf root s) = false) E := by
  have hn := TestFile.isName_nameOf hs
  refine ends_bind.mpr (ends_isPresent.mpr ?_)
  split
  · rename_i hpresent
    obtain ⟨left, r, seen, hleads, hfits, hsize, hthere⟩ := entry_of_isPresent hn hpresent
    have hremoved := remove?_child hleads hfits hsize hthere (not_directory_of_isFile h hfile hleads hfits hsize)
    have hne : r ++ [nameOf s] ≠ [] := by simp
    have hshrunk := Shrunk.erase w' hne
    refine ends_perform.mpr ⟨fun w'' hw'' => ?_, fun hnone => absurd (hremoved.symm.trans hnone) (by simp)⟩
    obtain rfl := Option.some.inj (hremoved.symm.trans hw'')
    refine ⟨hshrunk, Bool.eq_false_iff.mpr fun hstill => ?_⟩
    -- the path before the name leads to the same directory, and there the entry is gone
    obtain ⟨_, _, _, hleads', -, -, hthere'⟩ := entry_of_isPresent hn hstill
    obtain rfl := leadsTo_unique hleads (hshrunk.leadsTo hleads')
    exact hthere' ((node?_erase hne _).trans (if_pos rfl))
  · rename_i hnot
    exact ends_pure.mpr ⟨.refl w', by simpa using hnot⟩

/-- Files that are deleted in turn all lead nowhere in the end. -/
theorem deleteAll_shrinks {stems : List String} (hstems : ∀ s ∈ stems, '/' ∉ s.toList ∧ w.isFile (pathOf root s) = true)
    (h : Shrunk w w') (E : Failure → Workspace → Prop) : ((disk (files newId) root).deleteAll stems).Ends w'
      (fun _ w'' => Shrunk w' w'' ∧ ∀ s ∈ stems, w''.isPresent (pathOf root s) = false) E := by
  induction stems generalizing w' with
  | nil => exact ends_pure.mpr ⟨.refl w', by simp⟩
  | cons s stems ih =>
    rw [List.forall_mem_cons] at hstems
    refine ends_bind.mpr ((delete_shrinks hstems.1.1 hstems.1.2 h E).mono (fun _ w₁ h₁ => ?_) fun _ _ he => he)
    obtain ⟨hshrunk, hgone⟩ := h₁
    refine (ih hstems.2 (h.trans hshrunk)).mono (fun _ w₂ h₂ => ?_) fun _ _ he => he
    obtain ⟨hshrunk', hall⟩ := h₂
    refine ⟨hshrunk.trans hshrunk', List.forall_mem_cons.mpr ⟨Bool.eq_false_iff.mpr fun hstill => ?_, hall⟩⟩
    rw [hshrunk'.isPresent hstill] at hgone
    cases hgone

/-- A directory holds the test files among its candidates, each under the stem of its name. -/
def Holds (root : Path) (w : Workspace) (s : String) (f : TestFile) : Prop :=
  IsCandidate w root (nameOf s) ∧ ReadsAs w (pathOf root s) f

theorem noSlash_of_isCandidate (hw : w.tree.WellFormed) (h : IsCandidate w root (nameOf s)) : '/' ∉ s.toList := by
  obtain ⟨t, -, hthere⟩ := h.there
  have hname := (hw.name hthere).isName.noSlash
  rw [TestFile.toList_nameOf, List.mem_append, not_or] at hname
  exact hname.1

theorem removeHidden_shrinks (newId : List String → String) (hw : w.tree.WellFormed) (hlists : Lists w root es)
    (E : Failure → Workspace → Prop) : ((disk (files newId) root).deleteAll (hiddenStems es)).Ends w
      (fun _ w' => ∀ s ∈ hiddenStems es, ∀ f, ¬ Holds root w' s f) E := by
  have hcandidate : ∀ s ∈ hiddenStems es, IsCandidate w root (nameOf s) := by
    intro s hs
    obtain ⟨e, he, rfl⟩ := List.mem_map.mp hs
    exact ((hlists.mem e.1 e.2).mp (List.mem_filter.mp he).1).1
  refine (deleteAll_shrinks (fun s hs => ⟨?_, (hcandidate s hs).file⟩) (.refl w) E).mono (fun _ w' hw' => ?_) fun _ _ he => he
  · exact noSlash_of_isCandidate hw (hcandidate s hs)
  · intro s hs f hholds
    have hpresent := isPresent_of_isFile hholds.1.file
    rw [← pathOf, hw'.2 s hs] at hpresent
    cases hpresent

/-- The directory is there, or nothing is, and all its candidates are test files. -/
structure Readable (w : Workspace) (root : Path) : Prop where
  directory : CanBeListed w root
  candidates : ∀ n, IsCandidate w root n → ∃ f, ReadsAs w (Path.join root n) f

end Disk

section

variable {w : Workspace} {root : Path}

/-- A directory whose candidates are all test files is listed in the order of their names. -/
theorem disk_listsAs (newId : List String → String) (hw : w.tree.WellFormed) (h : Disk.Readable w root) : ∃ es,
    ListsAs (disk (Workspace.files newId) root) (Disk.Holds root) w es ∧
      (es.map Prod.fst).Pairwise fun s s' => nameOf s < nameOf s' := by
  have hlist : ((disk (Workspace.files newId) root).list).Ends w (fun es w' => w' = w ∧ Disk.Lists w root es)
      fun _ _ => False := by
    refine (Disk.listing_ends h.directory).mono (fun es w' hes => ⟨hes.1, hes.2.1⟩) fun _ _ he => ?_
    obtain ⟨-, n, hcandidate, hnot⟩ := he
    obtain ⟨f, hreads⟩ := h.candidates n hcandidate
    exact hnot f hreads
  obtain ⟨es, w', houtcome, rfl, hlists⟩ := hlist.exists_outcome
  have hsorted : (es.map Prod.fst).Pairwise fun s s' => nameOf s < nameOf s' :=
    List.pairwise_map.mpr (List.pairwise_map.mp hlists.sorted)
  obtain ⟨_, w'', hdeleted, hgone⟩ := (Disk.removeHidden_shrinks newId hw hlists fun _ _ => False).exists_outcome
  refine ⟨es, ⟨houtcome, hlists.mem, ?_, w'', ?_, hgone⟩, hsorted⟩
  · refine hsorted.imp fun {s s'} hlt he => ?_
    rw [he] at hlt
    exact String.lt_irrefl _ hlt
  · exact (outcome_bind houtcome).trans ((outcome_bind hdeleted).trans rfl)

/-- The hidden stems are in the order of the list. -/
theorem hiddenStems_sublist (es : List (String × TestFile)) : (hiddenStems es).Sublist (es.map Prod.fst) :=
  List.filter_sublist.map Prod.fst

/-- Every store lists what it holds, each file once. A table, which keeps each file under the stem of the file, is in the order of
    the stems; a directory is exactly when no stem overtakes another. -/
theorem lists_by_stem_iff (newId : List String → String) {m : Memory.Files} (hm : Memory.Reached m) (hw : w.tree.WellFormed)
    (h : Disk.Readable w root) :
    (ListsAs memory Memory.Holds m m ∧ (∀ e ∈ m, e.1 = e.2.stem) ∧ (m.map Prod.fst).Pairwise (· < ·) ∧
      (hiddenStems m).Pairwise (· < ·)) ∧
    ∃ es, ListsAs (disk (Workspace.files newId) root) (Disk.Holds root) w es ∧
      ((es.map Prod.fst).Pairwise (· < ·) ↔ ∀ s ∈ es.map Prod.fst, ∀ s' ∈ es.map Prod.fst, ¬ Overtakes s s') ∧
      ((hiddenStems es).Pairwise (· < ·) ↔ ∀ s ∈ hiddenStems es, ∀ s' ∈ hiddenStems es, ¬ Overtakes s s') := by
  have hkeyed := hm.keyed
  have hsorted : (m.map Prod.fst).Pairwise (· < ·) := Table.sorted_iff_keys.mp hkeyed.sorted
  obtain ⟨es, hlists, hnames⟩ := disk_listsAs newId hw h
  refine ⟨⟨memory_listsAs hm, hkeyed.key, hsorted, hsorted.sublist (hiddenStems_sublist m)⟩, es, hlists, ?_, ?_⟩
  · exact TestFile.stems_sorted_iff hnames
  · exact TestFile.stems_sorted_iff (hnames.sublist (hiddenStems_sublist es))

end

/-! ## A directory of tests -/

/-- A directory `tests` with a file for each stem. -/
def withTests (stems : List String) : Workspace :=
  ⟨⟨(["tests"], .directory) :: stems.map fun s => (["tests", nameOf s], .file (.text (Disk.tests false).encode))⟩, [], []⟩

section

variable {stems : List String} {es : List (String × TestFile)} {s : String} {n : String} {newId : List String → String}

/-- What is in the directory is the file of a stem. -/
theorem node?_withTests {node : Node} (h : (withTests stems).tree.node? (["tests"] ++ [n]) = some node) :
    ∃ s ∈ stems, n = nameOf s ∧ node = .file (.text (Disk.tests false).encode) := by
  have hentry := FileTree.mem_entries (by simp) h
  simp only [withTests, List.mem_cons, List.mem_map, Prod.mk.injEq] at hentry
  rcases hentry with ⟨hroot, -⟩ | ⟨s, hs, hname, hnode⟩
  · simp at hroot
  · exact ⟨s, hs, (List.cons.inj (List.cons.inj hname).2).1.symm, hnode.symm⟩

theorem node?_of_mem_withTests (h : s ∈ stems) :
    (withTests stems).tree.node? (["tests"] ++ [nameOf s]) = some (.file (.text (Disk.tests false).encode)) := by
  have hthere : (withTests stems).tree.node? (["tests"] ++ [nameOf s]) ≠ none := by
    rw [FileTree.node?_ne_none_iff (by simp)]
    simp only [withTests, List.map_cons, List.map_map, List.mem_cons, List.mem_map]
    exact Or.inr ⟨s, h, rfl⟩
  obtain ⟨node, hnode⟩ := Option.ne_none_iff_exists'.mp hthere
  obtain ⟨-, -, -, hfile⟩ := node?_withTests hnode
  rw [hnode, hfile]

theorem plain_withTests (hw : (withTests stems).tree.WellFormed) :
    Disk.Plain (withTests stems) "tests" FileTree.maxLinks ["tests"] [["tests"]] := by
  have hdir : (withTests stems).tree.node? ([] ++ ["tests"]) = some .directory := rfl
  have hroot : (withTests stems).LeadsTo "" FileTree.maxLinks [] [] := .nil
  have hleads := hroot.join (by decide) hdir
  rw [show Path.join "" "tests" = "tests" by decide] at hleads
  refine ⟨hw, hleads, hdir, by decide, by decide, fun n target hlink => ?_, fun n hthere => ?_⟩
  · obtain ⟨s, -, -, hfile⟩ := node?_withTests hlink
    cases hfile
  · have hshort := (hw.name hthere).short
    have hjoin : Path.join "tests" n = "tests/" ++ n := by
      rw [Path.join, (hw.name hthere).isName.isAbsolute]
      rfl
    have hsize : "tests/".utf8ByteSize = 6 := by decide
    rw [hjoin, String.utf8ByteSize_append, hsize]
    have hname : FileTree.maxName = 255 := rfl
    have hpath : FileTree.maxPath = 4095 := rfl
    omega

/-- Such a directory holds a test file for each stem that is one. -/
theorem isTestFile_withTests :
    Disk.IsTestFile (withTests stems) ["tests"] n ↔ Disk.isTestName n = true ∧ ∃ s ∈ stems, n = nameOf s := by
  refine and_congr_right fun _ => ⟨?_, ?_⟩
  · rintro ⟨c, hc⟩
    obtain ⟨s, hs, hn, -⟩ := node?_withTests hc
    exact ⟨s, hs, hn⟩
  · rintro ⟨s, hs, rfl⟩
    exact ⟨_, node?_of_mem_withTests hs⟩

theorem readable_withTests (hw : (withTests stems).tree.WellFormed) : Disk.Readable (withTests stems) "tests" := by
  have g := plain_withTests hw
  refine ⟨fun _ => ⟨_, g.directory?⟩, fun n hn => ?_⟩
  have htest := g.isCandidate_iff.mp hn
  obtain ⟨-, s, hs, rfl⟩ := isTestFile_withTests.mp htest
  obtain ⟨f, hdecoded, -⟩ := TestFile.decode_encode (f := Disk.tests false) rfl
  exact ⟨f, (g.readsAs_iff htest).mpr ⟨_, node?_of_mem_withTests hs, hdecoded⟩⟩

/-- The stems listed are those of the files. -/
theorem mem_stems_withTests (hw : (withTests stems).tree.WellFormed) (hstems : ∀ s ∈ stems, Disk.isTestName (nameOf s) = true)
    (hlists : ListsAs (disk (Workspace.files newId) "tests") (Disk.Holds "tests") (withTests stems) es) :
    s ∈ es.map Prod.fst ↔ s ∈ stems := by
  have g := plain_withTests hw
  constructor
  · intro hs
    obtain ⟨e, he, rfl⟩ := List.mem_map.mp hs
    obtain ⟨hcandidate, -⟩ := (hlists.mem e.1 e.2).mp he
    obtain ⟨-, s, hs, hname⟩ := isTestFile_withTests.mp (g.isCandidate_iff.mp hcandidate)
    rw [TestFile.nameOf_inj hname]
    exact hs
  · intro hs
    have hcandidate := g.isCandidate_iff.mpr (isTestFile_withTests.mpr ⟨hstems s hs, s, hs, rfl⟩)
    obtain ⟨f, hreads⟩ := (readable_withTests hw).candidates _ hcandidate
    exact List.mem_map.mpr ⟨(s, f), (hlists.mem s f).mpr ⟨hcandidate, hreads⟩, rfl⟩

end

/-- Two tiers of one question, in a table and in a directory. -/
theorem tiers_are_listed_by_stem : Memory.Reached [("q", Disk.tests false), ("qH", Disk.tests true)] ∧
    (withTests ["q", "qH"]).tree.WellFormed ∧ Disk.Readable (withTests ["q", "qH"]) "tests" ∧
    hiddenStems [("q", Disk.tests false), ("qH", Disk.tests true)] = ["qH"] ∧
    ∃ es, ListsAs (disk (Workspace.files fun _ => "") "tests") (Disk.Holds "tests") (withTests ["q", "qH"]) es ∧
      (es.map Prod.fst).Pairwise (· < ·) := by
  have hm : Memory.Reached [("q", Disk.tests false), ("qH", Disk.tests true)] :=
    .step (.save (Disk.tests false)) (.step (.save (Disk.tests true)) .empty)
  have hw : (withTests ["q", "qH"]).tree.WellFormed := by decide +kernel
  have hreadable := readable_withTests hw
  have hwords : ∀ s ∈ ["q", "qH"], TestFile.IsWord s := by
    intro s hs
    simp only [List.mem_cons, List.not_mem_nil, or_false] at hs
    rcases hs with rfl | rfl
    · exact TestFile.isWord_stem (f := Disk.tests false) (by decide)
    · exact TestFile.isWord_stem (f := Disk.tests true) (by decide)
  obtain ⟨-, es, hlists, hordered, -⟩ := lists_by_stem_iff (fun _ => "") hm hw hreadable
  refine ⟨hm, hw, hreadable, rfl, es, hlists, hordered.mpr fun s hs s' hs' => ?_⟩
  exact (hwords s ((mem_stems_withTests hw (by decide) hlists).mp hs)).not_overtakes

/-- Of `a.py` and `a-b.py` the second one is listed first. -/
theorem dash_comes_first : (withTests ["a", "a-b"]).tree.WellFormed ∧ Disk.Readable (withTests ["a", "a-b"]) "tests" ∧
    ∃ es, ListsAs (disk (Workspace.files fun _ => "") "tests") (Disk.Holds "tests") (withTests ["a", "a-b"]) es ∧
      es.map Prod.fst = ["a-b", "a"] ∧ ¬ (es.map Prod.fst).Pairwise (· < ·) := by
  have hw : (withTests ["a", "a-b"]).tree.WellFormed := by decide +kernel
  have hreadable := readable_withTests hw
  obtain ⟨es, hlists, hnames⟩ := disk_listsAs (fun _ => "") hw hreadable
  have hstems : es.map Prod.fst = ["a-b", "a"] := by
    refine TestFile.stems_eq hnames (by decide) fun s => ?_
    rw [mem_stems_withTests hw (by decide) hlists]
    simp [or_comm]
  refine ⟨hw, hreadable, es, hlists, hstems, ?_⟩
  rw [hstems]
  decide

end Handout.Store
