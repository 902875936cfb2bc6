/-
  Handout.Proofs.View.Place — the place of a view: cleared of what is there, then made.

  A view is made from nothing where its path, cleared and made, leads to an empty directory
  (`Vacated`), and of what it was where nothing looked at on the way is touched by that (`Apart`).
  A path such as `d/new/..` is not vacated: nothing is there to be cleared, and when `d/new` has
  been made it leads to all that `d` holds. A view that gets a name of its own always is
  (`vacated_child`).
-/

import Handout.Proofs.Files.Copied

namespace Handout

open FileTree (maxPath)
open Workspace (Receives)

variable {w w' : Workspace} {source dest : Path} {left : Nat} {s : Location} {seen : List Location} {n : String}

namespace View

/-- Without what was at the path of the view. -/
def cleared (w : Workspace) (dest : Path) : Workspace := if w.isPresent dest then (w.removeAll dest).1 else w

/-- With the directory of the view. -/
def prepared (w : Workspace) (dest : Path) : Workspace :=
  ((cleared w dest).makeDirectories (maxPath + 1) (Path.join dest "")).1

/-- The path of the view, cleared and made, leads to an empty directory. -/
structure Vacated (w : Workspace) (dest : Path) (s : Location) : Prop where
  cwd : (cleared w dest).tree.node? w.cwd = some .directory
  directory : (prepared w dest).directory? dest = some s
  empty : (prepared w dest).tree.children s = []

/-- Nothing that is looked at in the source lies in the view, or is changed when its place is cleared and made. -/
structure Apart (w : Workspace) (source dest : Path) (s : Location) : Prop where
  cleared : ∀ ns, (∀ n ∈ ns, Path.IsName n) → ∀ l ∈ w.passed (Path.down source ns),
    (View.cleared w dest).tree.node? l = w.tree.node? l
  prepared : ∀ ns, (∀ n ∈ ns, Path.IsName n) → ∀ l ∈ w.passed (Path.down source ns),
    (View.prepared w dest).tree.node? l = w.tree.node? l
  outside : ∀ ns, (∀ n ∈ ns, Path.IsName n) → ∀ l ∈ w.passed (Path.down source ns), ¬ s <+: l

theorem cleared_spec (hw : w.tree.WellFormed) (dest : Path) :
    (cleared w dest).tree.WellFormed ∧ (cleared w dest).cwd = w.cwd := by
  rw [cleared]
  split
  · exact Workspace.removeAll_wellFormed hw dest
  · exact ⟨hw, rfl⟩

theorem Vacated.made (h : Vacated w dest s) (hw : w.tree.WellFormed) :
    Workspace.Made (cleared w dest) (Path.join dest "") (prepared w dest) := by
  obtain ⟨hcleared, hcwd⟩ := cleared_spec hw dest
  exact (Workspace.makeDirectories_spec hcleared (hcwd ▸ h.cwd) _ _).1

theorem Vacated.receives (h : Vacated w dest s) (hw : w.tree.WellFormed) (hapart : Apart w source dest s) :
    dest ≠ "" ∧ dest.utf8ByteSize ≤ maxPath ∧ ∃ left seen, Receives (prepared w dest) source dest left s seen := by
  have hmade := h.made hw
  obtain ⟨-, hcleared⟩ := cleared_spec hw dest
  have hcwd : (prepared w dest).cwd = w.cwd := hmade.cwd.trans hcleared
  obtain ⟨hfollow, hs⟩ := Workspace.directory?_eq_some.mp h.directory
  obtain ⟨hne, hsize, left, r, seen, hleads, hfollow', -⟩ :=
    Workspace.leadsTo_of_shows ((Workspace.shows_of_found hfollow).trans hs)
  obtain rfl : s = r := by simpa using hfollow.symm.trans hfollow'
  refine ⟨hne, hsize, left, seen, hmade.wellFormed, hmade.node?_cwd (hcleared ▸ h.cwd), hleads, hs, fun n => ?_,
    fun ns hns l hl => hapart.outside ns hns l ?_⟩
  · by_contra hthere
    have hmem := FileTree.mem_children.mpr hthere
    rw [h.empty] at hmem
    cases hmem
  · rwa [Workspace.passed_congr hcwd (hapart.prepared ns hns)] at hl

section

variable {base : Path} {r : Location}

/-- Beside other things in a directory. -/
theorem cleared_child (hw : w.tree.WellFormed) (hbase : w.LeadsTo base left r seen) (hn : FileTree.Fits n)
    (hsize : (Path.join base n).utf8ByteSize ≤ maxPath)
    (hwas : w.tree.node? (r ++ [n]) = none ∨ w.tree.node? (r ++ [n]) = some .directory) (l : Location) :
    (cleared w (Path.join base n)).tree.node? l = if r ++ [n] <+: l then none else w.tree.node? l := by
  rw [cleared]
  rcases hwas with hnone | hdir
  · rw [Workspace.not_isPresent_child hbase hn.isName hnone, if_neg (by simp)]
    split
    · rename_i hpre
      exact hw.node?_of_prefix hnone hpre
    · rfl
  · rw [Workspace.isPresent_child hbase hn hdir hsize, if_pos rfl, Workspace.removeAll_child hbase hn hdir hsize]
    exact FileTree.node?_eraseAll (by simp) l

theorem leadsTo_of_outside (hcwd : w'.cwd = w.cwd) (hsame : ∀ l, ¬ s <+: l → w'.tree.node? l = w.tree.node? l)
    (h : w.LeadsTo base left r seen) (hseen : ∀ l ∈ seen, ¬ s <+: l) : w'.LeadsTo base left r seen := by
  rw [Workspace.LeadsTo, Workspace.start_congr hcwd]
  exact FileTree.Way.congr h fun l hl => hsame l (hseen l hl)

theorem prepared_child (hw : w.tree.WellFormed) (hbase : w.LeadsTo base left r seen) (hseen : ∀ l ∈ seen, ¬ r ++ [n] <+: l)
    (hn : FileTree.Fits n) (hsize : (Path.join base n).utf8ByteSize ≤ maxPath)
    (hwas : w.tree.node? (r ++ [n]) = none ∨ w.tree.node? (r ++ [n]) = some .directory) :
    prepared w (Path.join base n) = (cleared w (Path.join base n)).withTree
      ((cleared w (Path.join base n)).tree.put (r ++ [n]) .directory) := by
  have hcleared := cleared_child hw hbase hn hsize hwas
  obtain ⟨-, hcwd⟩ := cleared_spec hw (Path.join base n)
  rw [prepared]
  generalize cleared w (Path.join base n) = w₀ at hcleared hcwd
  have hbase₀ : w₀.LeadsTo base left r seen :=
    leadsTo_of_outside hcwd (fun l hl => by rw [hcleared, if_neg hl]) hbase hseen
  have hentry := Workspace.entry_child hbase₀ hn hsize
  rw [hcleared, if_pos (List.prefix_refl _), if_pos rfl] at hentry
  have hmade : w₀.makeDirectory (Path.join (Path.join base n) "") =
      .made (w₀.withTree (w₀.tree.put (r ++ [n]) .directory)) := by
    rw [Workspace.makeDirectory, Workspace.withoutSlashes_join_slash hn.isName, hentry]
  have hne : Path.join (Path.join base n) "" ≠ "" := by
    intro he
    have hnames := Path.namesOf_join (a := Path.join base n) (b := "") (by decide)
    rw [he, hn.isName.beginning_join] at hnames
    have hlength := congrArg List.length hnames
    have hempty : FileTree.namesOf "" = [""] := by decide
    simp [hempty] at hlength
  rw [Workspace.makeDirectories, if_neg hne, hmade]

/-- A view that gets a name of its own is made from nothing, apart from all that is not reached through that name. -/
theorem vacated_child (hw : w.tree.WellFormed) (hcwd : w.tree.node? w.cwd = some .directory) (hbase : w.LeadsTo base left r seen)
    (hseen : ∀ l ∈ seen, ¬ r ++ [n] <+: l) (hn : FileTree.Fits n) (hsize : (Path.join base n).utf8ByteSize ≤ maxPath)
    (hwas : w.tree.node? (r ++ [n]) = none ∨ w.tree.node? (r ++ [n]) = some .directory) (hcwdOut : ¬ r ++ [n] <+: w.cwd)
    (hsource : ∀ ns, (∀ n ∈ ns, Path.IsName n) → ∀ l ∈ w.passed (Path.down source ns), ¬ r ++ [n] <+: l) :
    Vacated w (Path.join base n) (r ++ [n]) ∧ Apart w source (Path.join base n) (r ++ [n]) := by
  have hcleared := cleared_child hw hbase hn hsize hwas
  have hprepared : ∀ l, (prepared w (Path.join base n)).tree.node? l =
      if l = r ++ [n] then some .directory else (cleared w (Path.join base n)).tree.node? l := by
    rw [prepared_child hw hbase hseen hn hsize hwas]
    exact FileTree.node?_put (by simp) _
  have hcwd₁ : (prepared w (Path.join base n)).cwd = w.cwd := by
    rw [prepared_child hw hbase hseen hn hsize hwas]
    exact (cleared_spec hw _).2
  have hout : ∀ l, ¬ r ++ [n] <+: l → (prepared w (Path.join base n)).tree.node? l = w.tree.node? l := fun l hl => by
    rw [hprepared, if_neg fun he : l = _ => hl (he ▸ List.prefix_refl _), hcleared, if_neg hl]
  refine ⟨⟨?_, ?_, ?_⟩, fun ns hns l hl => ?_, fun ns hns l hl => hout l (hsource ns hns l hl), hsource⟩
  · rw [hcleared, if_neg hcwdOut, hcwd]
  · have hself : (prepared w (Path.join base n)).tree.node? (r ++ [n]) = some .directory := by rw [hprepared, if_pos rfl]
    exact Workspace.directory?_eq_some.mpr ⟨Workspace.follow_child (leadsTo_of_outside hcwd₁ hout hbase hseen) hn hsize
      (by rw [hself]; simp) (by rw [hself]; simp), hself⟩
  · refine List.eq_nil_iff_forall_not_mem.mpr fun m hm => FileTree.mem_children.mp hm ?_
    rw [hprepared, if_neg (by simp), hcleared, if_pos (List.prefix_append ..)]
  · rw [hcleared, if_neg (hsource ns hns l hl)]

end

end View
end Handout
