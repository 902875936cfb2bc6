/-
  Handout.Proofs.Store.Disk — what a store that is a directory finds, writes and deletes.

  A test file is found by its name, and the name is that of its stem (`nameOf_stem`). What
  is listed are the files and the links to files that have such a name (`IsCandidate`), each
  under its stem and in the order of the names (`listing_ends`). In a directory whose entries
  are no links (`Plain`) these are the files that stand there (`Listed`); then a file is
  deleted by its stem and nothing else is touched (`delete_ends`), and of the files listed
  exactly the hidden ones are removed (`removeHidden_ends`).
-/

import Handout.Proofs.Files.Shown
import Handout.Proofs.Segment.Names
import Handout.Proofs.Table
import Handout.Store.Disk

open Handout.Action

namespace Handout

/-! ## Names of test files -/

namespace TestFile

variable {stem : String} {f : TestFile}

theorem toList_nameOf (stem : String) : (nameOf stem).toList = stem.toList ++ ['.', 'p', 'y'] := by
  have hrest : ".".toList ++ extension.toList = ['.', 'p', 'y'] := by decide
  rw [nameOf, String.toList_append, String.toList_append, List.append_assoc, hrest]

theorem nameOf_inj {s t : String} (h : nameOf s = nameOf t) : s = t := by
  have hlist := congrArg String.toList h
  rw [toList_nameOf, toList_nameOf, List.append_cancel_right_eq] at hlist
  exact String.toList_inj.mp hlist

theorem isName_nameOf (h : '/' ∉ stem.toList) : Path.IsName (nameOf stem) := by
  have hlist : ∀ s : String, s.toList.length ≤ 2 → nameOf stem ≠ s := by
    rintro s hs rfl
    simp [toList_nameOf] at hs
  refine ⟨hlist "" (by decide), hlist "." (by decide), hlist ".." (by decide), ?_⟩
  simpa [toList_nameOf] using h

theorem fileName_eq (f : TestFile) : f.fileName = nameOf f.stem := by
  have hextension : "." ++ extension = ".py" := by decide
  rw [fileName, nameOf, String.append_assoc, hextension]

theorem noSlash_stem_of_isName (h : Question.isName f.name = true) : '/' ∉ f.stem.toList := by
  have hname := Question.noSlash_of_isName h
  have hmark : '/' ∉ "H".toList := by decide
  rw [stem, stemOf]
  split
  · simp only [String.toList_append, List.mem_append, not_or]
    exact ⟨hname, hmark⟩
  · exact hname

end TestFile

namespace Path

variable {n s : String}

theorem noSlash_stem (h : '/' ∉ n.toList) : '/' ∉ (stem n).toList := by
  rw [stem, String.toList_ofList, splitDot]
  split
  · exact h
  · intro hmem
    exact h (List.mem_reverse.mp (List.mem_of_mem_drop (List.mem_reverse.mp hmem)))

/-- The last dot splits a name, unless it comes first. -/
theorem splitDot_append {head tail : List Char} (htail : '.' ∉ tail) :
    splitDot (head ++ '.' :: tail) = if head = [] then ('.' :: tail, none) else (head, some tail) := by
  have hreverse : (head ++ '.' :: tail).reverse = tail.reverse ++ '.' :: head.reverse := by simp
  have hall : ∀ c ∈ tail.reverse, decide (c ≠ '.') = true := fun c hc =>
    decide_eq_true fun he => htail (he ▸ List.mem_reverse.mp hc)
  have htake : (head ++ '.' :: tail).reverse.takeWhile (· ≠ '.') = tail.reverse := by
    rw [hreverse, List.takeWhile_append_of_pos hall]
    simp
  have hdrop : ((head ++ '.' :: tail).reverse.drop (tail.reverse.length + 1)).reverse = head := by
    rw [hreverse, List.drop_append]
    simp
  rw [splitDot, htake, hdrop, List.reverse_reverse]
  split
  · rename_i hempty
    rw [hempty, List.nil_append]
  · rfl

/-- A dot stands between the name and its extension. -/
theorem eq_of_splitDot {cs head ext : List Char} (h : splitDot cs = (head, some ext)) : cs = head ++ '.' :: ext := by
  by_cases hdot : '.' ∈ cs.reverse
  · obtain ⟨tail, rest, hsplit, htail⟩ := List.eq_append_cons_of_mem hdot
    obtain rfl : cs = rest.reverse ++ '.' :: tail.reverse := by
      rw [← List.reverse_reverse cs, hsplit]
      simp
    rw [splitDot_append (by simpa using htail)] at h
    split at h <;> simp_all
  · have htake : cs.reverse.takeWhile (· ≠ '.') = cs.reverse :=
      List.takeWhile_eq_self_iff.mpr fun c hc => decide_eq_true fun he => hdot (he ▸ hc)
    rw [splitDot, htake] at h
    simp at h

theorem splitDot_nameOf (h : s ≠ "") : splitDot (TestFile.nameOf s).toList = (s.toList, some ['p', 'y']) := by
  rw [TestFile.toList_nameOf, splitDot_append (by decide), if_neg (by simpa using h)]

end Path

namespace Store.Disk

open Handout.Path (stem)
open TestFile (nameOf)
open Workspace FileTree

/-- The name of a test file is its stem and the extension. -/
theorem nameOf_stem {n : String} (h : isTestName n = true) : nameOf (stem n) = n := by
  simp only [isTestName, Path.extension?, Bool.and_eq_true, beq_iff_eq, Option.map_eq_some_iff] at h
  obtain ⟨⟨ext, hext, hpy⟩, -⟩ := h
  have hlist : ext = ['p', 'y'] := by
    have htext := congrArg String.toList hpy
    rw [String.toList_ofList] at htext
    exact htext.trans (by decide)
  have hsplit := Path.eq_of_splitDot (Prod.ext_iff.mpr ⟨rfl, hext⟩)
  rw [← String.toList_inj, TestFile.toList_nameOf, stem, String.toList_ofList, ← hlist]
  exact hsplit.symm

theorem isTestName_nameOf {s : String} (hne : s ≠ "") : isTestName (nameOf s) = true ↔ s ≠ "__init__" := by
  have hextension : Path.extension? (nameOf s) = some TestFile.extension := by
    rw [Path.extension?, Path.splitDot_nameOf hne, Option.map_some]
    decide
  have hpackage : packageName = nameOf "__init__" := by decide
  simp only [isTestName, hextension, hpackage, beq_self_eq_true, Bool.true_and, decide_eq_true_eq]
  exact not_congr ⟨TestFile.nameOf_inj, congrArg nameOf⟩

/-! ## Looking -/

variable {w w' : Workspace} {root : Path} {left : Nat} {t : Location} {seen : List Location} {n s : String}
  {newId : List String → String}

/-- A directory whose entries are no links and have paths that can be followed. -/
structure Plain (w : Workspace) (root : Path) (left : Nat) (t : Location) (seen : List Location) : Prop where
  wellFormed : w.tree.WellFormed
  leads : w.LeadsTo root left t seen
  directory : w.tree.node? t = some .directory
  ne_empty : root ≠ ""
  size : root.utf8ByteSize ≤ maxPath
  links : ∀ n target, w.tree.node? (t ++ [n]) ≠ some (.link target)
  short : ∀ n, w.tree.node? (t ++ [n]) ≠ none → (Path.join root n).utf8ByteSize ≤ maxPath

namespace Plain

variable (g : Plain w root left t seen)
include g

theorem follow : w.follow root = .found t := follow_of_leadsTo g.leads g.ne_empty g.size

theorem isPresent : w.isPresent root = true := by
  rw [Workspace.isPresent, g.follow, nodeAt?, g.directory]
  rfl

theorem directory? : w.directory? root = some t := directory?_eq_some.mpr ⟨g.follow, g.directory⟩

/-- What stands under a name is found by its path. -/
theorem shows (hn : Path.IsName n) : w.shows (Path.join root n) = w.tree.node? (t ++ [n]) := by
  by_cases hnone : w.tree.node? (t ++ [n]) = none
  · have hpresent := not_isPresent_child g.leads hn hnone
    rw [Workspace.isPresent, Option.isSome_eq_false_iff, Option.isNone_iff_eq_none] at hpresent
    rw [hnone]
    exact hpresent
  · exact shows_of_found (follow_child g.leads (g.wellFormed.name hnone) (g.short n hnone) hnone (g.links n))

theorem isFile_iff (hn : Path.IsName n) :
    w.isFile (Path.join root n) = true ↔ ∃ c, w.tree.node? (t ++ [n]) = some (.file c) := by
  rw [← g.shows hn, isFile, Workspace.shows]
  split <;> simp_all

theorem text? (hn : Path.IsName n) {text : String} (h : w.tree.node? (t ++ [n]) = some (.file (.text text))) :
    w.text? (Path.join root n) = some text := by
  have hshown := g.shows hn
  rw [h, Workspace.shows] at hshown
  rw [Workspace.text?, hshown]

/-- A directory stays plain when what is at a file's place, or a free one, becomes a file or nothing. -/
theorem sets {node : Option Node} (h : Sets (t ++ [n]) node w w')
    (hwas : w.tree.node? (t ++ [n]) = none ∨ ∃ c, w.tree.node? (t ++ [n]) = some (.file c))
    (hnode : ∀ target, node ≠ some (.link target)) (hsize : node ≠ none → (Path.join root n).utf8ByteSize ≤ maxPath) :
    Plain w' root left t seen := by
  have hat : ∀ m, w'.tree.node? (t ++ [m]) = if m = n then node else w.tree.node? (t ++ [m]) := by
    intro m
    rw [h.node?]
    simp
  refine ⟨h.wellFormed, h.leadsTo hwas g.leads, ?_, g.ne_empty, g.size, fun m target => ?_, fun m hm => ?_⟩
  · rw [h.node?_of_ne (by simp), g.directory]
  · rw [hat]
    split
    · exact hnode target
    · exact g.links m target
  · rw [hat] at hm
    split at hm
    · rename_i hmn
      exact hmn ▸ hsize hm
    · exact g.short m hm

end Plain

theorem ends_filterM (question : Workspace → String → Bool) (names : List String) {Q : List String → Workspace → Prop}
    {E : Failure → Workspace → Prop} :
    Ends (names.filterM fun n => do return question (← get) n) w Q E ↔ Q (names.filter (question w)) w := by
  have hloop : ∀ (names acc : List String) {Q : List String → Workspace → Prop},
      Ends (names.filterAuxM (fun n => do return question (← get) n) acc) w Q E ↔
        Q ((names.filter (question w)).reverse ++ acc) w := by
    intro names
    induction names with
    | nil => exact fun acc _ => ends_pure
    | cons n names ih =>
      intro acc Q
      refine ends_bind.trans (ends_query.trans ((ih _).trans ?_))
      cases hn : question w n <;> simp [hn]
  refine ends_bind.trans ((hloop names []).trans ?_)
  rw [ends_pure, List.append_nil, List.reverse_reverse]

/-! ## Listing -/

/-- What is taken for a test file: a file in the directory, or a link to a file, with the name of one. -/
structure IsCandidate (w : Workspace) (root : Path) (n : String) : Prop where
  there : ∃ t, w.directory? root = some t ∧ w.tree.node? (t ++ [n]) ≠ none
  named : isTestName n = true
  file : w.isFile (Path.join root n) = true

/-- A path leads to the text of a test file. -/
def ReadsAs (w : Workspace) (p : Path) (f : TestFile) : Prop := ∃ text, w.text? p = some text ∧ TestFile.decode text = .ok f

theorem ReadsAs.unique {p : Path} {f f' : TestFile} (h : ReadsAs w p f) (h' : ReadsAs w p f') : f = f' := by
  obtain ⟨text, htext, hdecoded⟩ := h
  obtain ⟨text', htext', hdecoded'⟩ := h'
  obtain rfl : text = text' := Option.some.inj (htext.symm.trans htext')
  exact Except.ok.inj (hdecoded.symm.trans hdecoded')

/-- The directory is there, or nothing is. -/
def CanBeListed (w : Workspace) (root : Path) : Prop := w.isPresent root = true → ∃ t, w.directory? root = some t

theorem isPresent_of_directory? (h : w.directory? root = some t) : w.isPresent root = true := by
  obtain ⟨hfound, hdir⟩ := directory?_eq_some.mp h
  rw [Workspace.isPresent, hfound, nodeAt?, hdir]
  rfl

/-- The names of the candidates, each once and in order. -/
theorem testNames_ends (hroot : CanBeListed w root) (E : Failure → Workspace → Prop) :
    (testNames (files newId) root).Ends w
      (fun names w' => w' = w ∧ names.Pairwise (· < ·) ∧ ∀ n, n ∈ names ↔ IsCandidate w root n) E := by
  refine ends_bind.mpr (ends_isPresent.mpr ?_)
  by_cases hpresent : w.isPresent root = true
  · obtain ⟨t, ht⟩ := hroot hpresent
    rw [if_pos hpresent]
    refine ends_bind.mpr (ends_ask.mpr ⟨fun names hnames => ?_, fun hnone => ?_⟩)
    · obtain rfl : w.tree.children t = names := by simpa [ht] using hnames
      refine ends_bind.mpr ((ends_filterM (fun w n => w.isFile (Path.join root n)) _).mpr (ends_pure.mpr ?_))
      refine ⟨rfl, Table.sorted_iff_keys.mp (Table.sorted_ofEntries _), fun n => ?_⟩
      rw [Table.mem_keys_ofEntries]
      simp only [Table.keys, List.map_map, List.mem_map, List.mem_filter, Function.comp, exists_eq_right, FileTree.mem_children]
      constructor
      · rintro ⟨⟨hthere, hfile⟩, htest⟩
        exact ⟨⟨t, ht, hthere⟩, htest, hfile⟩
      · rintro ⟨⟨t', ht', hthere⟩, htest, hfile⟩
        obtain rfl : t = t' := Option.some.inj (ht.symm.trans ht')
        exact ⟨⟨hthere, hfile⟩, htest⟩
    · simp [ht] at hnone
  · rw [if_neg hpresent]
    refine ends_pure.mpr ⟨rfl, List.Pairwise.nil, fun n => ⟨fun hn => absurd hn List.not_mem_nil, fun hn => ?_⟩⟩
    obtain ⟨t, ht, -⟩ := hn.there
    exact absurd (isPresent_of_directory? ht) hpresent

theorem readTest_ends (p : Path) : (readTest (files newId) p).Ends w (fun f w' => w' = w ∧ ReadsAs w p f)
    fun _ w' => w' = w ∧ ∀ f, ¬ ReadsAs w p f := by
  refine ends_bind.mpr (ends_ask.mpr ⟨fun text htext => ?_, fun hnone => ⟨rfl, ?_⟩⟩)
  · split
    · rename_i f hdecoded
      exact ends_pure.mpr ⟨rfl, text, htext, hdecoded⟩
    · rename_i r hrefused
      refine ends_throw.mpr ⟨rfl, ?_⟩
      rintro f ⟨text', htext', hdecoded⟩
      obtain rfl : text = text' := Option.some.inj (htext.symm.trans htext')
      rw [hrefused] at hdecoded
      cases hdecoded
  · rintro f ⟨text, htext, -⟩
    rw [hnone] at htext
    cases htext

/-- The files of some names are read one after the other, up to the first that is no test file. -/
theorem mapM_readTest_ends {names : List String} (hnames : ∀ n ∈ names, isTestName n = true) :
    Ends (names.mapM fun n => do return (stem n, ← readTest (files newId) (Path.join root n))) w
      (fun es w' => w' = w ∧ es.map (fun e => nameOf e.1) = names ∧ ∀ e ∈ es, ReadsAs w (pathOf root e.1) e.2)
      fun _ w' => w' = w ∧ ∃ n ∈ names, ∀ f, ¬ ReadsAs w (Path.join root n) f := by
  induction names with
  | nil =>
    rw [List.mapM_nil]
    exact ends_pure.mpr ⟨rfl, rfl, by simp⟩
  | cons n names ih =>
    rw [List.forall_mem_cons] at hnames
    rw [List.mapM_cons]
    refine ends_bind.mpr (ends_bind.mpr ((readTest_ends _).mono (fun f w' hf => ?_) fun _ _ he => ?_))
    · obtain ⟨rfl, hreads⟩ := hf
      refine ends_pure.mpr (ends_bind.mpr ((ih hnames.2).mono (fun es w' hes => ?_) fun _ _ he => ?_))
      · obtain ⟨rfl, hmap, hall⟩ := hes
        refine ends_pure.mpr ⟨rfl, ?_, List.forall_mem_cons.mpr ⟨?_, hall⟩⟩
        · rw [List.map_cons, hmap, nameOf_stem hnames.1]
        · rwa [pathOf, nameOf_stem hnames.1]
      · obtain ⟨rfl, m, hm, hnot⟩ := he
        exact ⟨rfl, m, List.mem_cons_of_mem _ hm, hnot⟩
    · exact ⟨he.1, n, List.mem_cons_self .., he.2⟩

/-- All candidates, each under its stem as the test file that it is, in the order of their names. -/
structure Lists (w : Workspace) (root : Path) (es : List (String × TestFile)) : Prop where
  sorted : (es.map fun e => nameOf e.1).Pairwise (· < ·)
  mem : ∀ s f, (s, f) ∈ es ↔ IsCandidate w root (nameOf s) ∧ ReadsAs w (pathOf root s) f

/-- What is listed, or the candidate that is no test file. -/
theorem listing_ends (hroot : CanBeListed w root) : ((disk (files newId) root).list).Ends w
    (fun es w' => w' = w ∧ Lists w root es ∧ ∀ n, IsCandidate w root n → ∃ e ∈ es, n = nameOf e.1)
    fun _ w' => w' = w ∧ ∃ n, IsCandidate w root n ∧ ∀ f, ¬ ReadsAs w (Path.join root n) f := by
  refine ends_bind.mpr ((testNames_ends hroot _).mono (fun names w' hnames => ?_) fun _ _ he => he)
  obtain ⟨rfl, hsorted, hmem⟩ := hnames
  refine (mapM_readTest_ends fun n hn => ((hmem n).mp hn).named).mono (fun es w' hes => ?_) fun _ _ he => ?_
  · obtain ⟨rfl, rfl, hall⟩ := hes
    refine ⟨rfl, ⟨hsorted, fun s f => ⟨fun he => ?_, ?_⟩⟩, fun n hn => ?_⟩
    · exact ⟨(hmem (nameOf s)).mp (List.mem_map.mpr ⟨(s, f), he, rfl⟩), hall (s, f) he⟩
    · rintro ⟨hcandidate, hreads⟩
      obtain ⟨e, he, hname⟩ := List.mem_map.mp ((hmem _).mpr hcandidate)
      obtain rfl := TestFile.nameOf_inj hname
      obtain rfl := hreads.unique (hall e he)
      exact he
    · obtain ⟨e, he, rfl⟩ := List.mem_map.mp ((hmem n).mpr hn)
      exact ⟨e, he, rfl⟩
  · obtain ⟨rfl, n, hn, hnot⟩ := he
    exact ⟨rfl, n, (hmem n).mp hn, hnot⟩

/-! ## Listing without links -/

/-- The files with names of test files. -/
def IsTestFile (w : Workspace) (t : Location) (n : String) : Prop :=
  isTestName n = true ∧ ∃ c, w.tree.node? (t ++ [n]) = some (.file c)

/-- What a list of test files says of a directory. -/
structure Listed (w : Workspace) (t : Location) (es : List (String × TestFile)) : Prop where
  sorted : (es.map fun e => nameOf e.1).Pairwise (· < ·)
  all : ∀ n, IsTestFile w t n → ∃ e ∈ es, n = nameOf e.1
  entry : ∀ e ∈ es, IsTestFile w t (nameOf e.1) ∧
    ∃ text, w.tree.node? (t ++ [nameOf e.1]) = some (.file (.text text)) ∧ TestFile.decode text = .ok e.2

/-- What is kept under a name can be read, and the name is one of a hidden entry just where what is read is hidden. -/
theorem Listed.hidden_iff {es : List (String × TestFile)} {n : String} {c : Content} (h : Listed w t es)
    (htest : isTestName n = true) (hnode : w.tree.node? (t ++ [n]) = some (.file c)) :
    ∃ text f, c = .text text ∧ TestFile.decode text = .ok f ∧
      ((∃ s ∈ (es.filter fun e => e.2.hidden).map Prod.fst, n = nameOf s) ↔ f.hidden = true) := by
  obtain ⟨e, he, rfl⟩ := h.all n ⟨htest, c, hnode⟩
  obtain ⟨-, text, htext, hdecoded⟩ := h.entry e he
  obtain rfl : c = .text text := by simpa [hnode] using htext
  refine ⟨text, e.2, rfl, hdecoded, ?_, fun hhidden => ?_⟩
  · -- another entry under the name reads the same text
    rintro ⟨s, hs, hsame⟩
    obtain ⟨e', he', rfl⟩ := List.mem_map.mp hs
    obtain ⟨he', hhidden⟩ := List.mem_filter.mp he'
    obtain ⟨-, text', htext', hdecoded'⟩ := h.entry e' he'
    obtain rfl : text = text' := by
      rw [← hsame, hnode] at htext'
      simpa using htext'
    have hsame : e.2 = e'.2 := by simpa [hdecoded] using hdecoded'
    rw [hsame, hhidden]
  · exact ⟨e.1, List.mem_map.mpr ⟨e, List.mem_filter.mpr ⟨he, hhidden⟩, rfl⟩, rfl⟩

/-- A file that cannot be read as a test file. -/
def IsUnreadable (w : Workspace) (t : Location) (n : String) : Prop :=
  IsTestFile w t n ∧ ∀ text f, w.tree.node? (t ++ [n]) = some (.file (.text text)) → TestFile.decode text ≠ .ok f

namespace Plain

variable (g : Plain w root left t seen)
include g

theorem isName (hn : IsTestFile w t n) : Path.IsName n := by
  obtain ⟨-, c, hc⟩ := hn
  exact (g.wellFormed.name (by rw [hc]; simp)).isName

theorem isCandidate_iff : IsCandidate w root n ↔ IsTestFile w t n := by
  constructor
  · rintro ⟨⟨t', ht', hthere⟩, hnamed, hfile⟩
    obtain rfl : t = t' := Option.some.inj (g.directory?.symm.trans ht')
    exact ⟨hnamed, (g.isFile_iff (g.wellFormed.name hthere).isName).mp hfile⟩
  · intro hn
    obtain ⟨c, hc⟩ := hn.2
    refine ⟨⟨t, g.directory?, ?_⟩, hn.1, (g.isFile_iff (g.isName hn)).mpr hn.2⟩
    rw [hc]
    simp

theorem readsAs_iff (hn : IsTestFile w t n) {f : TestFile} : ReadsAs w (Path.join root n) f ↔
    ∃ text, w.tree.node? (t ++ [n]) = some (.file (.text text)) ∧ TestFile.decode text = .ok f := by
  refine exists_congr fun text => and_congr_left fun _ => ⟨fun htext => ?_, g.text? (g.isName hn)⟩
  rw [← g.shows (g.isName hn)]
  rw [Workspace.text?] at htext
  split at htext
  · simp_all [Workspace.shows]
  · cases htext

end Plain

theorem list_ends (g : Plain w root left t seen) : ((disk (files newId) root).list).Ends w
    (fun es w' => w' = w ∧ Listed w t es) fun _ w' => w' = w ∧ ∃ n, IsUnreadable w t n := by
  have hroot : CanBeListed w root := fun _ => ⟨t, g.directory?⟩
  refine (listing_ends hroot).mono (fun es w' hes => ?_) fun _ _ he => ?_
  · obtain ⟨rfl, hlists, hall⟩ := hes
    refine ⟨rfl, hlists.sorted, fun n hn => hall n (g.isCandidate_iff.mpr hn), fun e he => ?_⟩
    obtain ⟨hcandidate, hreads⟩ := (hlists.mem e.1 e.2).mp he
    have htest := g.isCandidate_iff.mp hcandidate
    exact ⟨htest, (g.readsAs_iff htest).mp hreads⟩
  · obtain ⟨rfl, n, hcandidate, hnot⟩ := he
    have htest := g.isCandidate_iff.mp hcandidate
    exact ⟨rfl, n, htest, fun text f hfile hdecoded => hnot f ((g.readsAs_iff htest).mpr ⟨text, hfile, hdecoded⟩)⟩

/-- Where nothing is, nothing is found. -/
theorem list_absent (h : w.isPresent root = false) (E : Failure → Workspace → Prop) :
    ((disk (files newId) root).list).Ends w (fun es w' => w' = w ∧ es = []) E := by
  refine ends_bind.mpr (ends_bind.mpr (ends_isPresent.mpr ?_))
  rw [h, if_neg (by simp)]
  exact ends_pure.mpr (ends_pure.mpr ⟨rfl, rfl⟩)

/-- What is no directory cannot be listed. -/
theorem list_refused (h : w.isPresent root = true) (hnot : w.directory? root = none) :
    ((disk (files newId) root).list).Ends w (fun _ _ => False) fun f w' => f = .refused ∧ w' = w := by
  refine ends_bind.mpr (ends_bind.mpr (ends_isPresent.mpr ?_))
  rw [h, if_pos rfl]
  refine ends_bind.mpr (ends_ask.mpr ⟨fun names hnames => ?_, fun _ => ⟨rfl, rfl⟩⟩)
  rw [hnot] at hnames
  cases hnames

/-! ## Deleting -/

theorem delete_ends (g : Plain w root left t seen) (hs : '/' ∉ s.toList)
    (hfile : w.tree.node? (t ++ [nameOf s]) ≠ some .directory) (E : Failure → Workspace → Prop) :
    ((disk (files newId) root).delete s).Ends w (fun _ w' => Sets (t ++ [nameOf s]) none w w') E := by
  have hn := TestFile.isName_nameOf hs
  have hpresent : w.isPresent (pathOf root s) = (w.tree.node? (t ++ [nameOf s])).isSome := by
    rw [← g.shows hn]
    rfl
  refine ends_bind.mpr (ends_isPresent.mpr ?_)
  rw [hpresent]
  split
  · rename_i hsome
    have hthere : w.tree.node? (t ++ [nameOf s]) ≠ none := Option.isSome_iff_ne_none.mp hsome
    refine ends_perform.mpr ⟨fun w' hremoved => ?_, fun hnone => ?_⟩
    · exact remove?_sets g.wellFormed (lands_child g.leads g.directory hn) hremoved
    · have hremoved := remove?_child g.leads (g.wellFormed.name hthere) (g.short _ hthere) hthere hfile
      exact absurd (hremoved.symm.trans hnone) (by simp)
  · rename_i hnot
    exact ends_pure.mpr (.of_eq g.wellFormed (by simpa using hnot))

/-- The files of some stems are gone, and all else is as it was. -/
structure Rid (t : Location) (stems : List String) (w w' : Workspace) : Prop where
  wellFormed : w'.tree.WellFormed
  cwd : w'.cwd = w.cwd
  node? : ∀ l, w'.tree.node? l = if ∃ s ∈ stems, l = t ++ [nameOf s] then none else w.tree.node? l

/-- No way is lost with files. -/
theorem Rid.leadsTo {base : Path} {r : Location} {stems : List String} (h : Rid t stems w w')
    (hwas : ∀ s ∈ stems, ∃ c, w.tree.node? (t ++ [nameOf s]) = some (.file c)) (hleads : w.LeadsTo base left r seen) :
    w'.LeadsTo base left r seen := by
  rw [LeadsTo, start_congr h.cwd]
  refine FileTree.Way.congr hleads fun l hl => ?_
  rw [h.node?, if_neg]
  rintro ⟨s, hs, rfl⟩
  obtain ⟨c, hc⟩ := hwas s hs
  have hthere := FileTree.Way.directory_or_link hleads _ hl
  simp [hc] at hthere

theorem deleteAll_ends {stems : List String} (g : Plain w root left t seen) (hstems : ∀ s ∈ stems, '/' ∉ s.toList)
    (hfiles : ∀ s ∈ stems, w.tree.node? (t ++ [nameOf s]) = none ∨ ∃ c, w.tree.node? (t ++ [nameOf s]) = some (.file c))
    (E : Failure → Workspace → Prop) :
    ((disk (files newId) root).deleteAll stems).Ends w (fun _ w' => Rid t stems w w') E := by
  induction stems generalizing w with
  | nil => exact ends_pure.mpr ⟨g.wellFormed, rfl, fun l => by simp⟩
  | cons s stems ih =>
    rw [List.forall_mem_cons] at hstems hfiles
    have hnot : w.tree.node? (t ++ [nameOf s]) ≠ some .directory := by
      rcases hfiles.1 with hnone | ⟨c, hfile⟩ <;> simp [*]
    refine ends_bind.mpr ((delete_ends g hstems.1 hnot E).mono (fun _ w₁ hset => ?_) fun _ _ he => he)
    have g₁ := g.sets hset hfiles.1 (by simp) (by simp)
    refine (ih g₁ hstems.2 fun s' hs' => ?_).mono (fun _ w' hw' => ⟨hw'.wellFormed, hw'.cwd.trans hset.cwd, fun l => ?_⟩)
      fun _ _ he => he
    · rw [hset.node?]
      split
      · exact Or.inl rfl
      · exact hfiles.2 s' hs'
    · rw [hw'.node?, hset.node?]
      by_cases hl : l = t ++ [nameOf s] <;> simp [hl]

theorem removeHidden_absent (h : w.isPresent root = false) (E : Failure → Workspace → Prop) :
    ((disk (files newId) root).removeHidden).Ends w (fun stems w' => w' = w ∧ stems = []) E := by
  refine ends_bind.mpr ((list_absent h E).mono (fun es w' hes => ?_) fun _ _ he => he)
  obtain ⟨rfl, rfl⟩ := hes
  exact ends_bind.mpr (ends_pure.mpr (ends_pure.mpr ⟨rfl, rfl⟩))

theorem removeHidden_refused (h : w.isPresent root = true) (hnot : w.directory? root = none) :
    ((disk (files newId) root).removeHidden).Ends w (fun _ _ => False) fun f w' => f = .refused ∧ w' = w :=
  ends_bind.mpr ((list_refused h hnot).mono (fun _ _ hnever => hnever.elim) fun _ _ he => he)

/-- Of the files listed the hidden ones go, and nothing else. -/
theorem removeHidden_ends (g : Plain w root left t seen) : ((disk (files newId) root).removeHidden).Ends w
    (fun stems w' => ∃ es, Listed w t es ∧ stems = (es.filter fun e => e.2.hidden).map Prod.fst ∧ Rid t stems w w')
      fun _ w' => w' = w ∧ ∃ n, IsUnreadable w t n := by
  refine ends_bind.mpr ((list_ends g).mono (fun es w' hes => ?_) fun _ _ he => he)
  obtain ⟨rfl, hlisted⟩ := hes
  have hentry : ∀ s ∈ (es.filter fun e => e.2.hidden).map Prod.fst, ∃ e ∈ es, e.1 = s := by
    intro s hs
    obtain ⟨e, he, rfl⟩ := List.mem_map.mp hs
    exact ⟨e, (List.mem_filter.mp he).1, rfl⟩
  refine ends_bind.mpr ((deleteAll_ends g (fun s hs => ?_) (fun s hs => ?_) _).mono (fun _ w' hw' => ?_) fun _ _ he => he)
  · obtain ⟨e, he, rfl⟩ := hentry s hs
    obtain ⟨-, text, hfile, -⟩ := hlisted.entry e he
    have hname := (g.wellFormed.name (l := t) (n := nameOf e.1) (by rw [hfile]; simp)).isName.noSlash
    rw [TestFile.toList_nameOf, List.mem_append, not_or] at hname
    exact hname.1
  · obtain ⟨e, he, rfl⟩ := hentry s hs
    obtain ⟨⟨-, hfile⟩, -⟩ := hlisted.entry e he
    exact Or.inr hfile
  · exact ends_pure.mpr ⟨es, hlisted, rfl, hw'⟩

end Store.Disk
end Handout
