/-
  Handout.Proofs.View.Carried — what a directory made from nothing holds, while it is worked on.

  `Carries w₁ dest left s seen what w` says of the directory at `s` what stands below it: at each
  list of names what `what` says. A copy begins it (`Carries.of_copy`), and the notebook written and
  the tests removed change `what` at their names only (`Carries.writeAtomic_ends`,
  `Carries.removeHidden_ends`).
-/

import Handout.Proofs.Files.Copied
import Handout.Proofs.Store.Disk
import Handout.View.Student

open Handout.Action

namespace Handout

open FileTree (WellFormed maxPath)
open Workspace (Acts Sets Receives Holds)

variable {w₁ w w' : Workspace} {source dest : Path} {left : Nat} {s : Location} {seen : List Location} {name n : String}
  {ns : List String} {what : List String → Option Node} {node : Option Node} {newId : List String → String}

/-! ## What stands below a new directory -/

/-- Below a new directory there stands at each list of names what `what` says, and no link. -/
structure Carries (w₁ : Workspace) (dest : Path) (left : Nat) (s : Location) (seen : List Location)
    (what : List String → Option Node) (w : Workspace) : Prop where
  acts : Acts s w₁ w
  leads : w.LeadsTo dest left s seen
  ne_empty : dest ≠ ""
  plain : ∀ x target, w.tree.node? (s ++ x) ≠ some (.link target)
  node? : ∀ x, (∀ n ∈ x, Path.IsName n) → w.tree.node? (s ++ x) = what x
  short : ∀ x, w.tree.node? (s ++ x) ≠ none → (Path.down dest x).utf8ByteSize ≤ maxPath

namespace Carries

/-- A copy of a directory carries what the directory shows. -/
theorem of_copy (g : Receives w₁ source dest left s seen) (hne : dest ≠ "") (hacts : Acts s w₁ w)
    (h : Holds w₁ source dest s [] w) :
    Carries w₁ dest left s seen (fun ns => w₁.shows (Path.down source ns)) w :=
  ⟨hacts, g.leadsTo hacts, hne, g.plain hacts, h.node?, h.short⟩

section

variable (h : Carries w₁ dest left s seen what w)
include h

/-- One of its directories, for a store. -/
theorem plainAt (hdir : w.tree.node? (s ++ ns) = some .directory) :
    ∃ seen', Store.Disk.Plain w (Path.down dest ns) left (s ++ ns) seen' := by
  obtain ⟨seen', hleads⟩ := h.leads.down h.acts.wellFormed hdir
  refine ⟨seen', h.acts.wellFormed, hleads, hdir, ?_, h.short ns (by rw [hdir]; simp), fun n target => ?_, fun n hn => ?_⟩
  · obtain rfl | ⟨front, n, rfl⟩ := List.eq_nil_or_concat' ns
    · exact h.ne_empty
    · have hn := (h.acts.wellFormed.name (l := s ++ front) (n := n) (by rw [List.append_assoc, hdir]; simp)).isName
      rw [Path.down_concat]
      exact hn.join_ne_empty _
  · rw [List.append_assoc]
    exact h.plain _ target
  · rw [List.append_assoc] at hn
    rw [← Path.down_concat]
    exact h.short _ hn

/-- A file is replaced or removed. -/
theorem sets (hset : Sets (s ++ ns) node w w') (hwas : ∃ c, w.tree.node? (s ++ ns) = some (.file c)) (hns : ns ≠ [])
    (hnode : ∀ target, node ≠ some (.link target)) :
    Carries w₁ dest left s seen (fun x => if x = ns then node else what x) w' := by
  have hat : ∀ x, w'.tree.node? (s ++ x) = if x = ns then node else w.tree.node? (s ++ x) := by
    intro x
    rw [hset.node?]
    simp
  refine ⟨h.acts.trans (hset.acts_below hns hnode), hset.leadsTo (Or.inr hwas) h.leads, h.ne_empty, fun x target => ?_,
    fun x hx => ?_, fun x hx => ?_⟩
  · rw [hat]
    split
    · exact hnode target
    · exact h.plain x target
  · rw [hat, h.node? x hx]
  · rw [hat] at hx
    split at hx
    · rename_i hxns
      obtain ⟨c, hc⟩ := hwas
      exact hxns ▸ h.short ns (by rw [hc]; simp)
    · exact h.short x hx

/-- Files of one directory are removed. -/
theorem rid {stems : List String} (hrid : Store.Disk.Rid (s ++ ns) stems w w')
    (hwas : ∀ stem ∈ stems, ∃ c, w.tree.node? (s ++ ns ++ [TestFile.nameOf stem]) = some (.file c)) :
    Carries w₁ dest left s seen
      (fun x => if ∃ stem ∈ stems, x = ns ++ [TestFile.nameOf stem] then none else what x) w' := by
  have hat : ∀ x, w'.tree.node? (s ++ x) =
      if ∃ stem ∈ stems, x = ns ++ [TestFile.nameOf stem] then none else w.tree.node? (s ++ x) := by
    intro x
    rw [hrid.node?]
    simp
  have hplain : ∀ x target, w'.tree.node? (s ++ x) ≠ some (.link target) := by
    intro x target
    rw [hat]
    split
    · simp
    · exact h.plain x target
  refine ⟨⟨hrid.wellFormed, hrid.cwd.trans h.acts.cwd, fun l hl => ?_, fun _ => hplain⟩, hrid.leadsTo hwas h.leads, h.ne_empty,
    hplain, fun x hx => ?_, fun x hx => ?_⟩
  · rw [hrid.node?, if_neg, h.acts.outside l hl]
    rintro ⟨stem, -, rfl⟩
    exact hl (ns ++ [TestFile.nameOf stem]) (by simp) (List.append_assoc ..)
  · rw [hat, h.node? x hx]
  · rw [hat] at hx
    split at hx
    · exact absurd rfl hx
    · exact h.short x hx

variable (hs : w₁.tree.node? s = some .directory)
include hs

theorem directory : w.tree.node? s = some .directory := by
  rw [h.acts.outside, hs]
  intro x hx he
  exact hx (by simpa using he)

/-- What stands at names is what their path shows. -/
theorem shows (hns : ∀ n ∈ ns, Path.IsName n) :
    w.shows (Path.down dest ns) = what ns := by
  rw [← h.node? ns hns]
  by_cases hempty : ns = []
  · have hsize := h.short [] (by rw [List.append_nil, h.directory hs]; simp)
    rw [hempty, Path.down_nil, List.append_nil]
    exact Workspace.shows_of_found (Workspace.follow_of_leadsTo h.leads h.ne_empty hsize)
  · exact Workspace.shows_down h.leads h.acts.wellFormed (h.directory hs) hns hempty h.plain (h.short ns)

/-! ## What is done to it -/

theorem readNotebook_ends (hname : Path.IsName name) :
    ((Workspace.files newId).readNotebook (Path.join dest name)).Ends w
      (fun nb w' => w' = w ∧ ∃ text, what [name] = some (.file (.text text)) ∧ Notebook.ofText text = .ok nb)
      fun _ _ => True := by
  have hshown : w.shows (Path.down dest [name]) = what [name] := h.shows hs (by simpa using hname)
  refine ends_bind.mpr (Workspace.ends_ask.mpr ⟨fun text htext => ?_, fun _ => trivial⟩)
  refine ends_answered.mpr ⟨fun nb hnb => ⟨rfl, text, ?_, hnb⟩, fun _ _ => trivial⟩
  rw [← hshown]
  rw [Workspace.text?] at htext
  split at htext
  · rename_i hnode
    exact hnode.trans (by simpa using htext)
  · cases htext

theorem writeAtomic_ends (hname : Path.IsName name) (hwas : ∃ c, what [name] = some (.file c)) (text : String) :
    ((Workspace.files newId).writeAtomic (Path.join dest name) text).Ends w (fun _ w' =>
      Carries w₁ dest left s seen (fun x => if x = [name] then some (.file (.text text)) else what x) w') fun _ _ => True := by
  have hfile : ∃ c, w.tree.node? (s ++ [name]) = some (.file c) := by
    rwa [h.node? [name] (by simpa using hname)]
  refine (Files.ends_writeAtomic h.acts.wellFormed (h.directory hs) h.leads hname text).mono (fun _ w' hw' => ?_)
    fun _ _ _ => trivial
  exact h.sets hw'.2.2 hfile (by simp) (by simp)

end

end Carries

/-- Test files that are hidden are missing, and all test files can be read. -/
structure WithoutHidden (given shown : List String → Option Node) : Prop where
  tests : ∀ m c, Path.IsName m → Store.Disk.isTestName m = true → given ["tests", m] = some (.file c) →
    ∃ text f, c = .text text ∧ TestFile.decode text = .ok f ∧
      shown ["tests", m] = if f.hidden then none else some (.file c)
  rest : ∀ ns, (∀ n ∈ ns, Path.IsName n) →
    (∀ m c, ns = ["tests", m] → Store.Disk.isTestName m = true → given ns ≠ some (.file c)) → shown ns = given ns

theorem isName_tests : Path.IsName "tests" := by decide

namespace Carries

/-- Without a directory of tests nothing is looked through. -/
theorem withoutHidden_self (h : Carries w₁ dest left s seen what w) (htests : what ["tests"] = none) :
    WithoutHidden what what := by
  refine ⟨fun m c hm _ hfile => ?_, fun _ _ _ => rfl⟩
  have hnone := (h.node? ["tests"] (by simpa using isName_tests)).trans htests
  have hbelow : w.tree.node? (s ++ ["tests", m]) = none := h.acts.wellFormed.node?_of_prefix hnone (by simp)
  rw [h.node? _ (by simp [isName_tests, hm]), hfile] at hbelow
  cases hbelow

/-- With one, the files listed in it that are hidden go. -/
theorem withoutHidden_of_listed (h : Carries w₁ dest left s seen what w) {es : List (String × TestFile)} {stems : List String}
    (hlisted : Store.Disk.Listed w (s ++ ["tests"]) es) (hstems : stems = (es.filter fun e => e.2.hidden).map Prod.fst) :
    WithoutHidden what fun x => if ∃ stem ∈ stems, x = ["tests"] ++ [TestFile.nameOf stem] then none else what x := by
  subst hstems
  refine ⟨fun m c hm htest hfile => ?_, fun ns hns hnot => if_neg ?_⟩
  · have hnode := (h.node? ["tests", m] (by simp [isName_tests, hm])).trans hfile
    obtain ⟨text, f, rfl, hdecoded, hhidden⟩ := hlisted.hidden_iff htest (by rwa [List.append_assoc])
    refine ⟨text, f, rfl, hdecoded, ?_⟩
    rw [hfile]
    exact if_congr (by simpa using hhidden) rfl rfl
  · rintro ⟨stem, hstem, rfl⟩
    obtain ⟨e, he, rfl⟩ := List.mem_map.mp hstem
    obtain ⟨⟨htest, c, hc⟩, -⟩ := hlisted.entry e (List.mem_filter.mp he).1
    refine hnot _ c rfl htest ?_
    rw [← h.node? _ hns, ← hc, List.append_assoc]

theorem removeHidden_ends (h : Carries w₁ dest left s seen what w) (hs : w₁.tree.node? s = some .directory) :
    ((Store.disk (Workspace.files newId) (View.testsIn dest)).removeHidden).Ends w
      (fun _ w' => ∃ what', Carries w₁ dest left s seen what' w' ∧ WithoutHidden what what') fun _ _ => True := by
  have hnames : ∀ n ∈ ["tests"], Path.IsName n := by simpa using isName_tests
  have hat := h.node? ["tests"] hnames
  have hshown : w.shows (View.testsIn dest) = what ["tests"] := h.shows hs hnames
  cases htests : what ["tests"] with
  | none =>
    have habsent : w.isPresent (View.testsIn dest) = false := by
      rw [htests] at hshown
      exact Option.isSome_eq_false_iff.mpr (Option.isNone_iff_eq_none.mpr hshown)
    refine (Store.Disk.removeHidden_absent habsent fun _ _ => True).mono (fun _ w' hw' => ?_) fun _ _ _ => trivial
    obtain ⟨rfl, -⟩ := hw'
    exact ⟨what, h, h.withoutHidden_self htests⟩
  | some node =>
    cases node with
    | link target => exact absurd (hat.trans htests) (h.plain _ target)
    | file c =>
      rw [htests] at hshown
      have hpresent : w.isPresent (View.testsIn dest) = true := Option.isSome_iff_exists.mpr ⟨_, hshown⟩
      have hnot : w.directory? (View.testsIn dest) = none := by
        by_contra hsome
        obtain ⟨r, hr⟩ := Option.ne_none_iff_exists'.mp hsome
        obtain ⟨hfollow, hdir⟩ := Workspace.directory?_eq_some.mp hr
        rw [Workspace.shows_of_found hfollow, hdir] at hshown
        cases hshown
      exact (Store.Disk.removeHidden_refused hpresent hnot).of_never fun _ _ _ => trivial
    | directory =>
      obtain ⟨seen', g⟩ := h.plainAt (hat.trans htests)
      refine (Store.Disk.removeHidden_ends g).mono (fun stems w' hw' => ?_) fun _ _ _ => trivial
      obtain ⟨es, hlisted, rfl, hrid⟩ := hw'
      refine ⟨_, h.rid hrid fun stem hstem => ?_, h.withoutHidden_of_listed hlisted rfl⟩
      obtain ⟨e, he, rfl⟩ := List.mem_map.mp hstem
      exact (hlisted.entry e (List.mem_filter.mp he).1).1.2

end Carries
end Handout
