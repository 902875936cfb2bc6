/-
  Handout.Proofs.Files.Directories — making a directory and those it lacks above it.

  Whether or not all of them can be made, directories are added and nothing else, each at a
  place seen on the way of the path (`Made`); and when it succeeds the path leads to a
  directory (`makeDirectories_spec`). The induction goes up the path, one parent after the
  other.
-/

import Handout.Proofs.Files.Workspace

namespace Handout.Workspace

open FileTree (WellFormed Grown Fits Way namesOf maxLinks maxPath)

variable {w w' w'' : Workspace} {p q : Path}

/-- What making the directory of a path, with some of those above it, comes to. -/
structure Made (w : Workspace) (p : Path) (w' : Workspace) : Prop where
  grown : Grown w.tree w'.tree
  wellFormed : w'.tree.WellFormed
  cwd : w'.cwd = w.cwd
  graded : w'.graded = w.graded
  /-- A new directory is seen on the way of a path above, which is short enough to be followed. -/
  seen : ∀ l, w.tree.node? l = none → w'.tree.node? l ≠ none → ∃ q left r seen, q.utf8ByteSize ≤ maxPath ∧
    namesOf q <+: Path.beginning p ∧ w'.tree.Way maxLinks (w.start p) (namesOf q) left r seen ∧ l ∈ seen

/-- A path leads to some directory. -/
def Leads (w : Workspace) (p : Path) : Prop := ∃ left r seen, w.LeadsTo p left r seen

theorem LeadsTo.directory {left : Nat} {r : Location} {seen : List Location} (h : w.LeadsTo p left r seen)
    (hw : w.tree.WellFormed) (hcwd : w.tree.node? w.cwd = some .directory) : w.tree.node? r = some .directory := by
  refine Way.directory h hw ?_
  unfold start
  split
  · rfl
  · exact hcwd

namespace Made

theorem refl (hw : w.tree.WellFormed) (p : Path) : Made w p w :=
  ⟨Grown.refl _, hw, rfl, rfl, fun _ hnone hsome => absurd hnone hsome⟩

theorem node?_cwd (h : Made w p w') (hcwd : w.tree.node? w.cwd = some .directory) :
    w'.tree.node? w'.cwd = some .directory := by
  rw [h.cwd]
  exact h.grown.node?_eq hcwd

theorem trans (h : Made w q w') (h' : Made w' p w'') (habsolute : q.isAbsolute = p.isAbsolute)
    (hpre : Path.beginning q <+: Path.beginning p) : Made w p w'' := by
  refine ⟨h.grown.trans h'.grown, h'.wellFormed, h'.cwd.trans h.cwd, h'.graded.trans h.graded, fun l hnone hsome => ?_⟩
  by_cases hl : w'.tree.node? l = none
  · have hseen := h'.seen l hl hsome
    rwa [start_congr h.cwd] at hseen
  · obtain ⟨q', left, r, seen, hsize, hq', hway, hmem⟩ := h.seen l hnone hl
    have hstart : w.start q = w.start p := by rw [start, start, habsolute]
    exact ⟨q', left, r, seen, hsize, hq'.trans hpre, hstart ▸ hway.grown h'.grown, hmem⟩

end Made

/-- The names of the path above are the first ones. -/
theorem beginning_prefix_of_parent (h : Path.parent? p = some q) : Path.beginning q <+: Path.beginning p := by
  obtain ⟨before, n, after, hnames, -, -, -⟩ := Path.parent?_eq_some h
  rcases Path.namesOf_cases p with hp | hp
  · rw [← hp, hnames, List.append_assoc]
    exact List.prefix_append ..
  · have hdrop := congrArg List.dropLast (hp.symm.trans hnames)
    rw [List.dropLast_concat, List.dropLast_append_of_ne_nil (by simp), List.append_assoc] at hdrop
    rw [hdrop]
    exact List.prefix_append ..

/-- What was made for a path is looked at when the path is followed. -/
theorem Made.mem_passed (h : Made w p w') {l : Location} (hnone : w.tree.node? l = none) (hsome : w'.tree.node? l ≠ none) :
    l ∈ w'.passed p := by
  obtain ⟨q, left, r, seen, -, ⟨rest, hrest⟩, hway, hmem⟩ := h.seen l hnone hsome
  obtain ⟨rest', hnames⟩ : ∃ rest', namesOf p = namesOf q ++ rest' := by
    rcases Path.namesOf_cases p with hp | hp
    · exact ⟨rest, by rw [hp, hrest]⟩
    · exact ⟨rest ++ [""], by rw [hp, ← hrest, List.append_assoc]⟩
  rw [passed, hnames, start_congr h.cwd, hway.lookups (Or.inr rfl)]
  exact List.mem_append_left _ hmem

/-- A way along all names of a path, the empty one after a slash at its end included. -/
theorem leads_of_way {left : Nat} {r : Location} {seen : List Location}
    (h : w.tree.Way maxLinks (w.start p) (namesOf p) left r seen) : w.Leads p := by
  rcases Path.namesOf_cases p with hp | hp
  · exact ⟨left, r, seen, show Way .. from hp ▸ h⟩
  · exact ⟨left, r, seen, Way.of_slash (hp ▸ h)⟩

/-- Where a path leads to a directory. -/
theorem leads_of_isDirectory (h : w.isDirectory p = true) : w.Leads p := by
  rw [isDirectory, beq_iff_eq, nodeAt?_eq_some] at h
  obtain ⟨r, hfollow, hr⟩ := h
  obtain ⟨-, -, hwalk⟩ := fits_of_landing hfollow (by simp) (by simp)
  obtain ⟨left, seen, hway⟩ := FileTree.way_of_directory hwalk hr
  exact leads_of_way hway

/-! ## One directory -/

/-- The names without the slashes at the end are not cut off. -/
theorem namesOf_withoutSlashes_prefix {k : Nat} {front : List String} {n : String}
    (hnames : namesOf p = namesOf (withoutSlashes p) ++ List.replicate k "") (hlast : namesOf (withoutSlashes p) = front ++ [n])
    (hn : n ≠ "") : namesOf (withoutSlashes p) <+: Path.beginning p := by
  rcases Path.namesOf_cases p with hp | hp
  · rw [← hp, hnames]
    exact List.prefix_append ..
  · rw [hnames, hlast] at hp
    cases k with
    | zero =>
      rw [List.replicate_zero, List.append_nil] at hp
      exact absurd (by simpa using (List.append_inj' hp rfl).2) hn
    | succ k =>
      rw [List.replicate_succ', ← List.append_assoc] at hp
      rw [← (List.append_inj' hp rfl).1, hlast]
      exact List.prefix_append ..

/-- A directory can be made at a free name in a directory that the names before it lead to. -/
theorem place_of_vacant {loc : Location} {slash : Bool} (hw : w.tree.WellFormed)
    (hcwd : w.tree.node? w.cwd = some .directory) (h : w.entry (withoutSlashes p) = .vacant loc slash) :
    ∃ k front n left m seen, loc = m ++ [n] ∧ namesOf p = namesOf (withoutSlashes p) ++ List.replicate k "" ∧
      namesOf (withoutSlashes p) = front ++ [n] ∧ Fits n ∧ w.tree.Way maxLinks (w.start p) front left m seen ∧
      w.tree.node? m = some .directory ∧ w.tree.node? (m ++ [n]) = none := by
  obtain ⟨-, -, hwalk⟩ := fits_of_landing h (by simp) (by simp)
  rcases withoutSlashes_cases p with ⟨k, front, n, hnames, hlast, hn⟩ | ⟨hsame, hidle⟩
  · have hstart : w.start (withoutSlashes p) = w.start p := by rw [start, start, withoutSlashes_isAbsolute]
    rw [hlast, hstart] at hwalk
    obtain ⟨left, m, seen, hway, rfl, hnamed, hshort, hfree⟩ := FileTree.way_of_vacant hn hwalk
    have hslash : '/' ∉ n.toList := Path.noSlash_of_mem_namesOf (p := withoutSlashes p) (by rw [hlast]; simp)
    have hfits : Fits n := ⟨⟨hn, fun he => hnamed.notIdle (Or.inr he), hnamed.ne_dots, hslash⟩, hshort⟩
    refine ⟨k, front, n, left, m, seen, rfl, hnames, hlast, hfits, hway, hway.directory hw ?_, hfree⟩
    unfold start
    split
    · rfl
    · exact hcwd
  · rw [hsame, FileTree.walk_of_idle hidle] at hwalk
    cases hwalk

/-- One directory that was made, and the way to it. -/
theorem made_of_makeDirectory (hw : w.tree.WellFormed) (hcwd : w.tree.node? w.cwd = some .directory)
    (h : w.makeDirectory p = .made w') : Made w p w' ∧ w'.Leads p := by
  rw [makeDirectory] at h
  split at h
  · rename_i loc slash hentry
    obtain ⟨-, hsize, -⟩ := fits_of_landing hentry (by simp) (by simp)
    obtain ⟨k, front, n, left, m, seen, rfl, hnames, hlast, hfits, hway, hm, hfree⟩ := place_of_vacant hw hcwd hentry
    cases h
    have hgrown := @FileTree.grown_put_directory w.tree (m ++ [n]) (by simp) hfree
    have hnode : ∀ l, (w.tree.put (m ++ [n]) .directory).node? l = if l = m ++ [n] then some .directory else w.tree.node? l :=
      FileTree.node?_put (by simp) _
    have hhere : (w.tree.put (m ++ [n]) .directory).node? (m ++ [n]) = some .directory := by rw [hnode, if_pos rfl]
    have hlanded : (w.tree.put (m ++ [n]) .directory).Way maxLinks (w.start p) (namesOf (withoutSlashes p)) left (m ++ [n])
        (seen ++ [m ++ [n]]) := by
      rw [hlast]
      exact (hway.grown hgrown).append (.down (FileTree.Fits.named hfits) hfits.short hhere .nil)
    have hall := hlanded.idles fun i (hi : i ∈ List.replicate k "") => Or.inl (List.eq_of_mem_replicate hi)
    rw [← hnames] at hall
    refine ⟨⟨hgrown, hw.put hm hfits (Or.inl rfl), rfl, rfl, fun l hnone hsome => ?_⟩, leads_of_way hall⟩
    refine ⟨withoutSlashes p, left, m ++ [n], _, hsize, namesOf_withoutSlashes_prefix hnames hlast hfits.isName.ne_empty,
      hlanded, ?_⟩
    by_cases hl : l = m ++ [n]
    · simp [hl]
    · exact absurd ((hnode l).trans ((if_neg hl).trans hnone)) hsome
  · cases h
  · cases h

/-! ## With those above it -/

theorem settled_spec (hw : w.tree.WellFormed) (p : Path) :
    Made w p (w.settled p).1 ∧ ((w.settled p).2 = true → (w.settled p).1.Leads p) :=
  ⟨.refl hw p, leads_of_isDirectory⟩

/-- Making a directory with those above it adds directories on its way only, and leads there when it succeeds. -/
theorem makeDirectories_spec (hw : w.tree.WellFormed) (hcwd : w.tree.node? w.cwd = some .directory) (up : Nat) (p : Path) :
    Made w p (w.makeDirectories up p).1 ∧ ((w.makeDirectories up p).2 = true → (w.makeDirectories up p).1.Leads p) := by
  induction up generalizing p with
  | zero => exact ⟨.refl hw p, fun h => absurd h (by simp [makeDirectories])⟩
  | succ up ih =>
    rw [makeDirectories]
    split
    · rename_i hp
      subst hp
      exact ⟨.refl hw _, fun _ => ⟨maxLinks, w.start "", [], Way.nil⟩⟩
    · split
      · rename_i w' hmade
        obtain ⟨hmade, hleads⟩ := made_of_makeDirectory hw hcwd hmade
        exact ⟨hmade, fun _ => hleads⟩
      · exact settled_spec hw p
      · split
        · exact ⟨.refl hw p, fun h => absurd h (by simp)⟩
        · rename_i q hparent
          have hpre := beginning_prefix_of_parent hparent
          obtain ⟨-, -, -, -, -, -, habsolute⟩ := Path.parent?_eq_some hparent
          obtain ⟨habove, -⟩ := ih q
          split
          · rename_i w' hq
            rw [hq] at habove
            exact ⟨habove.trans (.refl habove.wellFormed p) habsolute hpre, fun h => absurd h (by simp)⟩
          · rename_i w' hq
            rw [hq] at habove
            have hcwd' := habove.node?_cwd hcwd
            split
            · rename_i w'' hmade
              obtain ⟨hmade, hleads⟩ := made_of_makeDirectory habove.wellFormed hcwd' hmade
              exact ⟨habove.trans hmade habsolute hpre, fun _ => hleads⟩
            · obtain ⟨hsettled, hleads⟩ := settled_spec habove.wellFormed p
              exact ⟨habove.trans hsettled habsolute hpre, hleads⟩

/-- Nothing is made where the path is too long. -/
theorem makeDirectories_of_tooLong {base : Path} {n : String} (hn : Path.IsName n)
    (hlong : maxPath < (Path.join base n).utf8ByteSize) (up : Nat) : w.makeDirectories up (Path.join base n) = (w, false) := by
  cases up with
  | zero => rfl
  | succ up =>
    have hrefused : w.makeDirectory (Path.join base n) = .refused := by
      rw [makeDirectory, withoutSlashes_join hn, entry, landing_of_tooLong hlong]
    have hnot : w.isDirectory (Path.join base n) = false := by
      rw [isDirectory, Workspace.follow, landing_of_tooLong hlong]
      rfl
    rw [makeDirectories, if_neg (hn.join_ne_empty base), hrefused]
    simp only [settled, hnot]

/-! ## Below a directory -/

section Below

variable {base top : Path} {left : Nat} {r : Location} {seen : List Location} {n : String} {ns : List String}

theorem LeadsTo.seen_unique {ms : List String} {left' : Nat} {r' : Location} {seen' : List Location}
    (h : w.LeadsTo base left r seen) (hms : ms <+: Path.beginning base)
    (h' : w.tree.Way maxLinks (w.start base) ms left' r' seen') : ∀ l ∈ seen', l ∈ seen := by
  obtain ⟨rest, hrest⟩ := hms
  rw [LeadsTo, ← hrest] at h
  obtain ⟨_, _, _, _, hfirst, -, rfl⟩ := h.split
  intro l hl
  rw [← h'.lookups_self, hfirst.lookups_self] at hl
  exact List.mem_append_left _ hl

/-- A directory made below another, with no link on the way, is at a place of that name. -/
theorem Made.below (h : Made w p w') (hbase : w.LeadsTo base left r seen) (hp : Under base (n :: ns) p)
    (htop : namesOf top = Path.beginning base ++ [n]) (hns : ∀ m ∈ n :: ns, Path.IsName m)
    (hlinks : ∀ x target, w.tree.node? (r ++ n :: x) ≠ some (.link target)) {l : Location}
    (hnone : w.tree.node? l = none) (hsome : w'.tree.node? l ≠ none) :
    top.utf8ByteSize ≤ maxPath ∧ ∃ x, x <+: ns ∧ l = r ++ n :: x := by
  obtain ⟨q, left', r', seen', hsize, hq, hway, hmem⟩ := h.seen l hnone hsome
  rw [hp.start_eq, ← start_congr h.cwd] at hway
  rw [hp.names] at hq
  have hbase' : w'.LeadsTo base left r seen := by
    rw [LeadsTo, start_congr h.cwd]
    exact Way.grown hbase h.grown
  have hnew : l ∉ seen := fun hl => Way.node?_seen hbase l hl hnone
  rcases List.prefix_or_prefix_of_prefix hq (List.prefix_append ..) with hpre | ⟨y, hy⟩
  · exact absurd (hbase'.seen_unique hpre hway l hmem) hnew
  · rw [← hy, List.prefix_append_right_inj] at hq
    have hlookups := hway.lookups_self
    rw [← hy, Way.lookups hbase' (Or.inr rfl)] at hlookups
    have hy' : l ∈ w'.tree.lookups true left r (y ++ []) := by
      rw [← hlookups, List.mem_append] at hmem
      rw [List.append_nil]
      exact hmem.resolve_left hnew
    obtain ⟨x, hx, hpre, rfl⟩ := FileTree.lookups_plain (Or.inl rfl) (fun m hm => hns m (hq.subset hm)) (fun x hx hpre target => by
      obtain ⟨m, x, rfl⟩ := List.exists_cons_of_ne_nil hx
      obtain ⟨rfl, -⟩ := List.cons_prefix_cons.mp (hpre.trans hq)
      rcases h.grown (r ++ m :: x) with hsame | ⟨-, hdir⟩
      · rw [hsame]
        exact hlinks x target
      · rw [hdir]
        simp) _ hy'
    obtain ⟨m, x, rfl⟩ := List.exists_cons_of_ne_nil hx
    obtain ⟨rfl, hpre'⟩ := List.cons_prefix_cons.mp (hpre.trans hq)
    refine ⟨?_, x, hpre', rfl⟩
    -- a path with at least one name more than the base is as long as `top`
    obtain ⟨z, rfl⟩ := hpre
    refine (Path.utf8ByteSize_le_of_prefix ?_).trans hsize
    rw [htop, ← hy]
    simp

/-- Below a directory, with no link on the way, a path that leads somewhere leads to a directory at its names. -/
theorem Leads.below {ms : List String} (h : w.Leads p) (hw : w.tree.WellFormed)
    (hcwd : w.tree.node? w.cwd = some .directory) (hbase : w.LeadsTo base left r seen) (hp : Under base ms p) (hne : ms ≠ [])
    (hms : ∀ m ∈ ms, Path.IsName m)
    (hlinks : ∀ x, x ≠ [] → x <+: ms → ∀ target, w.tree.node? (r ++ x) ≠ some (.link target)) :
    w.tree.node? (r ++ ms) = some .directory := by
  obtain ⟨left', r', seen', hway⟩ := h
  have hr := hbase.directory hw hcwd
  have hwalk := Way.walk_eq_found hway
  rw [hp.start_eq, hp.names, Way.walk hbase (Or.inr rfl)] at hwalk
  have hplain := @FileTree.walk_plain w.tree true left r ms [] (Or.inl rfl) hr hne hms hlinks
  rw [List.append_nil, hwalk] at hplain
  rcases hplain with ⟨he, -⟩ | ⟨he, -⟩ | he | ⟨_, he⟩
  · obtain rfl : r' = r ++ ms := by simpa using he
    exact LeadsTo.directory hway hw hcwd
  all_goals cases he

/-- From a directory one goes down to one in it. -/
theorem LeadsTo.join (h : w.LeadsTo base left r seen) (hn : Fits n) (hnode : w.tree.node? (r ++ [n]) = some .directory) :
    w.LeadsTo (Path.join base n) left (r ++ [n]) (seen ++ [r ++ [n]]) := by
  rw [LeadsTo, start, Path.isAbsolute_join hn.isName.isAbsolute, hn.isName.beginning_join]
  exact Way.append h (.down hn.named hn.short hnode .nil)

end Below

end Handout.Workspace
