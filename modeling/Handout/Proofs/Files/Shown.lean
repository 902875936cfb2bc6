/-
  Handout.Proofs.Files.Shown — what stands below a path, links followed.

  `Path.down p ns` is the path that goes on from `p` by some names. Workspaces that agree
  wherever one of them is looked at show the same there (`shows_congr`). Below what is no
  directory nothing is shown (`shows_down_of_not_directory`), and where there are no links, what
  is shown is what stands there (`shows_down`).
-/

import Handout.Proofs.Files.Atomic
import Handout.Proofs.Files.Copy

namespace Handout

/-! ## Going down by names -/

/-- A path that goes on from another by some names. -/
def Path.down (p : Path) (ns : List String) : Path := ns.foldl Path.join p

namespace Path

@[simp] theorem down_nil (p : Path) : down p [] = p := rfl

theorem down_concat (p : Path) (ns : List String) (n : String) : down p (ns ++ [n]) = join (down p ns) n := by
  rw [down, List.foldl_append]
  rfl

theorem down_append (p : Path) (ns ms : List String) : down p (ns ++ ms) = down (down p ns) ms := List.foldl_append ..

/-- By the names of a relative path one comes to the path joined to it. -/
theorem down_eq_join {p b : Path} {ns : List String} (hb : Relative b ns) (hne : ns ≠ []) : down p ns = join p b := by
  have hdown : ∀ ns, (∀ n ∈ ns, IsName n) → Workspace.Under p ns (down p ns) := by
    intro ns
    induction ns using List.reverseRecOn with
    | nil => exact fun _ => .refl p
    | append_singleton ns n ih =>
      intro hns
      rw [down_concat]
      exact (ih fun m hm => hns m (List.mem_append_left _ hm)).join (hns n (by simp))
  obtain ⟨front, n, rfl⟩ := (List.eq_nil_or_concat' ns).resolve_left hne
  have hn : IsName n := hb.isName n (by simp)
  have hnames : FileTree.namesOf b = front ++ [n] := (hb.names.resolve_left fun h => hne h.2).2
  rw [← namesOf_inj, down_concat, hn.namesOf_join, (hdown front fun m hm => hb.isName m (List.mem_append_left _ hm)).names,
    namesOf_join hb.isAbsolute, hnames, List.append_assoc]

end Path

namespace Workspace

open FileTree (WellFormed Fits maxPath)

variable {w w' : Workspace} {p base : Path} {left : Nat} {r s loc : Location} {seen : List Location} {n : String}
  {ns ms : List String}

theorem Under.down (h : Under base ns p) (hms : ∀ m ∈ ms, Path.IsName m) : Under base (ns ++ ms) (Path.down p ms) := by
  induction ms using List.reverseRecOn with
  | nil => simpa using h
  | append_singleton ms m ih =>
    rw [Path.down_concat, ← List.append_assoc]
    exact (ih fun k hk => hms k (List.mem_append_left _ hk)).join (hms m (by simp))

/-! ## Directories -/

/-- The directory that a path leads to. -/
theorem directory?_eq_some {p : Path} {r : Location} :
    w.directory? p = some r ↔ w.follow p = .found r ∧ w.tree.node? r = some .directory := by
  rw [directory?]
  split
  · rename_i l hfound
    split
    · rename_i hl
      rw [Option.some.injEq, hfound, FileTree.Landing.found.injEq]
      exact ⟨fun he => ⟨he, he ▸ hl⟩, And.left⟩
    · rename_i hl
      simp only [reduceCtorEq, false_iff, not_and, hfound, FileTree.Landing.found.injEq]
      rintro rfl
      exact hl
  · rename_i hfound
    simp only [reduceCtorEq, false_iff, not_and]
    exact fun he => absurd he (hfound r)

theorem leadsTo_of_shows (h : w.shows p = some .directory) :
    p ≠ "" ∧ p.utf8ByteSize ≤ maxPath ∧ ∃ left r seen, w.LeadsTo p left r seen ∧ w.follow p = .found r ∧
      w.tree.node? r = some .directory := by
  obtain ⟨r, hfollow, hr⟩ := nodeAt?_eq_some.mp h
  obtain ⟨hp, hsize, -⟩ := fits_of_landing hfollow (by simp) (by simp)
  obtain ⟨left, r', seen, hleads⟩ := leads_of_isDirectory (show w.isDirectory p = true by
    rw [isDirectory, hfollow, nodeAt?, hr]
    rfl)
  obtain rfl : r = r' := by simpa using hfollow.symm.trans (follow_of_leadsTo hleads hp hsize)
  exact ⟨hp, hsize, left, r, seen, hleads, hfollow, hr⟩

/-- Nothing is shown in what is no directory. -/
theorem shows_join_of_not_directory (hw : w.tree.WellFormed) (hcwd : w.tree.node? w.cwd = some .directory) (hp : p ≠ "")
    (h : w.shows p ≠ some .directory) (hn : Path.IsName n) : w.shows (Path.join p n) = none := by
  by_contra hsome
  obtain ⟨node, hnode⟩ := Option.ne_none_iff_exists'.mp hsome
  obtain ⟨l, hfound, -⟩ := nodeAt?_eq_some.mp hnode
  obtain ⟨-, hsize, -⟩ := fits_of_landing hfound (by simp) (by simp)
  have hshort := (Path.utf8ByteSize_join_le hn.isAbsolute).trans hsize
  obtain ⟨left, r, seen, hleads⟩ := leads_of_found hn hfound
  refine h ?_
  rw [shows_of_found (follow_of_leadsTo hleads hp hshort), hleads.directory hw hcwd]

theorem shows_down_of_not_directory (hw : w.tree.WellFormed) (hcwd : w.tree.node? w.cwd = some .directory) (hp : p ≠ "")
    (h : w.shows p ≠ some .directory) (hns : ∀ n ∈ ns, Path.IsName n) (hne : ns ≠ []) : w.shows (Path.down p ns) = none := by
  induction ns using List.reverseRecOn with
  | nil => exact absurd rfl hne
  | append_singleton ns n ih =>
    rw [Path.down_concat]
    by_cases hempty : ns = []
    · subst hempty
      exact shows_join_of_not_directory hw hcwd hp h (hns n (by simp))
    · obtain ⟨front, m, rfl⟩ := (List.eq_nil_or_concat' ns).resolve_left hempty
      have hm : Path.IsName m := hns m (by simp)
      refine shows_join_of_not_directory hw hcwd ?_ ?_ (hns n (by simp))
      · rw [Path.down_concat]
        exact hm.join_ne_empty _
      · rw [ih (fun k hk => hns k (List.mem_append_left _ hk)) (by simp)]
        simp

/-! ## Agreement -/

theorem mem_passed_or_directory (hw : w.tree.WellFormed) (hcwd : w.tree.node? w.cwd = some .directory)
    (h : w.follow p = .found r) : r ∈ w.passed p ∨ w.tree.node? r = some .directory := by
  obtain ⟨-, -, hwalk⟩ := fits_of_landing h (by simp) (by simp)
  refine FileTree.mem_lookups_or_directory hw ?_ hwalk
  rw [start]
  split
  · rfl
  · exact hcwd

/-- Workspaces that agree where one of them is looked at show the same. -/
theorem shows_congr (hw : w.tree.WellFormed) (hw' : w'.tree.WellFormed) (hcwd : w.tree.node? w.cwd = some .directory)
    (hcwd' : w'.tree.node? w'.cwd = some .directory) (heq : w'.cwd = w.cwd)
    (hagree : ∀ l ∈ w.passed p, w'.tree.node? l = w.tree.node? l) : w'.shows p = w.shows p := by
  have hfollow := follow_congr heq hagree
  cases hat : w.follow p with
  | found r =>
    rw [hat] at hfollow
    rw [shows_of_found hat, shows_of_found hfollow]
    rcases mem_passed_or_directory hw hcwd hat with hr | hdir
    · exact hagree r hr
    · rcases mem_passed_or_directory hw' hcwd' hfollow with hr | hdir'
      · rw [passed_congr heq hagree] at hr
        exact hagree r hr
      · rw [hdir, hdir']
  | vacant | missing | blocked =>
    rw [hat] at hfollow
    rw [shows, shows, hat, hfollow]
    rfl

/-! ## Where there are no links -/

/-- By the names of directories one comes to the last of them. -/
theorem LeadsTo.down (h : w.LeadsTo base left r seen) (hw : w.tree.WellFormed)
    (hdir : w.tree.node? (r ++ ns) = some .directory) : ∃ seen', w.LeadsTo (Path.down base ns) left (r ++ ns) seen' := by
  induction ns using List.reverseRecOn with
  | nil => exact ⟨seen, by simpa using h⟩
  | append_singleton ns n ih =>
    have hthere : w.tree.node? (r ++ ns ++ [n]) ≠ none := by
      rw [List.append_assoc, hdir]
      simp
    obtain ⟨seen', hparent⟩ := ih (hw.parent hthere)
    rw [Path.down_concat, ← List.append_assoc]
    exact ⟨_, hparent.join (hw.name hthere) (by rw [List.append_assoc, hdir])⟩

/-- Below a directory without links a path shows what stands at its names, if it is not too long. -/
theorem shows_down (h : w.LeadsTo base left r seen) (hw : w.tree.WellFormed) (hr : w.tree.node? r = some .directory)
    (hns : ∀ n ∈ ns, Path.IsName n) (hne : ns ≠ []) (hlinks : ∀ x target, w.tree.node? (r ++ x) ≠ some (.link target))
    (hsize : w.tree.node? (r ++ ns) ≠ none → (Path.down base ns).utf8ByteSize ≤ maxPath) :
    w.shows (Path.down base ns) = w.tree.node? (r ++ ns) := by
  have hunder : Under base ns (Path.down base ns) := by simpa using (Under.refl base).down hns
  by_cases hnone : w.tree.node? (r ++ ns) = none
  · rw [hnone]
    by_contra hsome
    obtain ⟨node, hnode⟩ := Option.ne_none_iff_exists'.mp hsome
    obtain ⟨l, hfound, -⟩ := nodeAt?_eq_some.mp hnode
    obtain ⟨-, hthere⟩ := (lands_below h hr hunder hne hns fun x _ _ => hlinks x).found hfound
    exact hthere hnone
  · obtain ⟨front, n, rfl⟩ := (List.eq_nil_or_concat' ns).resolve_left hne
    have hsize := hsize hnone
    rw [← List.append_assoc] at hnone ⊢
    obtain ⟨seen', hleads⟩ := h.down hw (hw.parent hnone)
    have hfollow := follow_child hleads (hw.name hnone) (Path.down_concat base front n ▸ hsize) hnone fun target => by
      rw [List.append_assoc]
      exact hlinks _ target
    rw [Path.down_concat, shows_of_found hfollow]

/-- Where there are no links, nothing else is looked at below a directory than what lies below it. -/
theorem mem_passed_down (h : w.LeadsTo base left r seen) (hns : ∀ n ∈ ns, Path.IsName n)
    (hlinks : ∀ x target, w.tree.node? (r ++ x) ≠ some (.link target)) {l : Location} (hl : l ∈ w.passed (Path.down base ns)) :
    l ∈ seen ∨ ∃ x, x ≠ [] ∧ l = r ++ x := by
  have hunder : Under base ns (Path.down base ns) := by simpa using (Under.refl base).down hns
  obtain ⟨slash, hslash, hnames⟩ := hunder.namesOf_cases
  rw [passed, hunder.start_eq, hnames, FileTree.Way.lookups h (Or.inr rfl)] at hl
  refine (List.mem_append.mp hl).imp_right fun hl => ?_
  obtain ⟨x, hx, -, rfl⟩ := FileTree.lookups_plain hslash hns (fun x _ _ target => hlinks x target) l hl
  exact ⟨x, hx, rfl⟩

/-! ## Below a directory -/

/-- Where they agree on the way to all names below a directory, they agree below it, links not followed. -/
theorem node?_below_congr (hw : w.tree.WellFormed) (hw' : w'.tree.WellFormed) (hcwd : w.tree.node? w.cwd = some .directory)
    (hcwd' : w'.tree.node? w'.cwd = some .directory) (heq : w'.cwd = w.cwd) (hdir : w.directory? base = some r)
    (hagree : ∀ ns, (∀ n ∈ ns, Path.IsName n) → ∀ l ∈ w.passed (Path.down base ns), w'.tree.node? l = w.tree.node? l)
    (x : Location) : w'.tree.node? (r ++ x) = w.tree.node? (r ++ x) := by
  obtain ⟨hfound, hr⟩ := directory?_eq_some.mp hdir
  obtain ⟨-, -, left, r', seen, hleads, hfollow, -⟩ := leadsTo_of_shows ((shows_of_found hfound).trans hr)
  obtain rfl : r = r' := by simpa using hfound.symm.trans hfollow
  induction x using List.reverseRecOn with
  | nil =>
    have hself := hagree [] (by simp)
    have hshown := shows_congr hw hw' hcwd hcwd' heq hself
    rw [Path.down_nil] at hself hshown
    rwa [shows_of_found ((follow_congr heq hself).trans hfound), shows_of_found hfound, ← List.append_nil r] at hshown
  | append_singleton x n ih =>
    rw [← List.append_assoc]
    by_cases hparent : w.tree.node? (r ++ x) = some .directory
    · by_cases hn : Fits n
      · obtain ⟨seen', hdown⟩ := hleads.down hw hparent
        have hpassed : r ++ x ++ [n] ∈ w.passed (Path.down base (x ++ [n])) := by
          rw [Path.down_concat, passed, start, Path.isAbsolute_join hn.isName.isAbsolute, hn.isName.namesOf_join, ← start,
            FileTree.Way.lookups hdown (Or.inl (by simp)), FileTree.lookups_named hn.named hn.short]
          simp
        refine hagree (x ++ [n]) (fun m hm => ?_) _ hpassed
        rcases List.mem_append.mp hm with hm | hm
        · exact (hw.fits_of_mem (by rw [hparent]; simp) m hm).isName
        · exact List.mem_singleton.mp hm ▸ hn.isName
      · have hnone : ∀ {w : Workspace}, w.tree.WellFormed → w.tree.node? (r ++ x ++ [n]) = none := fun hw => by
          by_contra hsome
          exact hn (hw.name hsome)
        rw [hnone hw, hnone hw']
    · rw [hw.node?_below hparent (by simp), hw'.node?_below (ih ▸ hparent) (by simp)]

end Workspace
end Handout
