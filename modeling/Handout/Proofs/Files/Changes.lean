/-
  Handout.Proofs.Files.Changes — what each change of a workspace does to what stands at each
  location.

  `Lands w follow loc p` says that a path, if it leads anywhere, leads to `loc`. A change at
  such a path acts there and nowhere else: writing and removing files change one place
  (`Sets`), strictly below the directory they are in (`Acts`), removing all takes away what
  is at a place and below it (`Less`), and renaming moves (`Moved`). None of them leaves the tree less
  well formed, makes a link, or changes where relative paths start.
-/

import Handout.Proofs.Files.Directories

namespace Handout.Workspace

open FileTree (WellFormed Fits Landing walk maxLinks maxPath)

variable {w w' : Workspace} {p q base : Path} {follow : Bool} {left : Nat} {d r loc a b l : Location} {seen : List Location}
  {n : String} {ns : List String} {c : Content}

/-! ## Where a path may lead -/

/-- If the path leads anywhere, then to this place. -/
def Lands (w : Workspace) (follow : Bool) (loc : Location) (p : Path) : Prop :=
  (w.tree.landing w.cwd follow p = .found loc ∧ w.tree.node? loc ≠ none) ∨
  (∃ slash d n, w.tree.landing w.cwd follow p = .vacant loc slash ∧ w.tree.node? loc = none ∧ loc = d ++ [n] ∧
    w.tree.node? d = some .directory ∧ Fits n) ∨
  w.tree.landing w.cwd follow p = .missing ∨ ∃ why, w.tree.landing w.cwd follow p = .blocked why

/-- Below a directory, with no link on the way. -/
theorem lands_below (h : w.LeadsTo base left r seen) (hr : w.tree.node? r = some .directory) (hp : Under base ns p)
    (hne : ns ≠ []) (hns : ∀ n ∈ ns, Path.IsName n)
    (hlinks : ∀ x, x ≠ [] → x <+: ns → ∀ target, w.tree.node? (r ++ x) ≠ some (.link target)) :
    w.Lands follow (r ++ ns) p := by
  rcases @landing_under w p base follow left r seen ns h hp hne with ⟨-, hlong⟩ | ⟨-, slash, hslash, -, hlanding⟩
  · exact Or.inr (Or.inr (Or.inr ⟨_, hlong⟩))
  · rw [Lands, hlanding]
    refine (@FileTree.walk_plain w.tree follow left r ns slash hslash hr hne hns hlinks).imp_right (Or.imp_left ?_)
    rintro ⟨hwalk, hfree, hparent, hfits⟩
    refine ⟨_, r ++ ns.dropLast, ns.getLast hne, hwalk, hfree, ?_, hparent, hfits _ (List.getLast_mem hne)⟩
    rw [List.append_assoc, List.dropLast_append_getLast]

/-- The entry of a directory under a name is what stands there, even a link, if the path is not too long. -/
theorem entry_child (h : w.LeadsTo base left r seen) (hn : Fits n) (hsize : (Path.join base n).utf8ByteSize ≤ maxPath) :
    w.entry (Path.join base n) =
      if w.tree.node? (r ++ [n]) = none then .vacant (r ++ [n]) false else .found (r ++ [n]) := by
  rw [entry, landing_eq (hn.isName.join_ne_empty base) hsize, start, Path.isAbsolute_join hn.isName.isAbsolute,
    hn.isName.namesOf_join, ← start, FileTree.Way.walk h (Or.inl (by simp))]
  cases hnode : w.tree.node? (r ++ [n]) with
  | none => exact FileTree.walk_none hn.named hn.short hnode
  | some node =>
    rw [if_neg (by simp)]
    cases node with
    | directory => rw [FileTree.walk_directory hn.named hn.short hnode, FileTree.walk_nil]
    | file c => exact FileTree.walk_file hn.named hn.short hnode
    | link target => exact FileTree.walk_link hn.named hn.short hnode

theorem isPresent_child (h : w.LeadsTo base left r seen) (hn : Fits n) (hnode : w.tree.node? (r ++ [n]) = some .directory)
    (hsize : (Path.join base n).utf8ByteSize ≤ maxPath) : w.isPresent (Path.join base n) = true := by
  have hfollow : w.follow (Path.join base n) = .found (r ++ [n]) := by
    rw [Workspace.follow, landing_eq (hn.isName.join_ne_empty base) hsize, start, Path.isAbsolute_join hn.isName.isAbsolute,
      hn.isName.namesOf_join, ← start, FileTree.Way.walk h (Or.inl (by simp)), FileTree.walk_directory hn.named hn.short hnode,
      FileTree.walk_nil]
  rw [isPresent, hfollow, nodeAt?, hnode]
  rfl

/-- Nothing is present at a free name. -/
theorem not_isPresent_child (h : w.LeadsTo base left r seen) (hn : Path.IsName n) (hnode : w.tree.node? (r ++ [n]) = none) :
    w.isPresent (Path.join base n) = false := by
  have hlanding : ∀ l, w.follow (Path.join base n) ≠ .found l := by
    intro l hfound
    obtain ⟨-, -, hwalk⟩ := fits_of_landing hfound (by simp) (by simp)
    rw [start, Path.isAbsolute_join hn.isAbsolute, hn.namesOf_join, ← start, FileTree.Way.walk h (Or.inl (by simp))] at hwalk
    have hnamed : FileTree.Named n := ⟨hn.notIdle, hn.ne_dots⟩
    by_cases hlong : FileTree.maxName < n.utf8ByteSize
    · rw [FileTree.walk_tooLong hnamed hlong] at hwalk
      cases hwalk
    · rw [FileTree.walk_none hnamed (Nat.not_lt.mp hlong) hnode] at hwalk
      cases hwalk
  rw [isPresent, Bool.eq_false_iff]
  intro hsome
  obtain ⟨node, hnode⟩ := Option.isSome_iff_exists.mp hsome
  obtain ⟨l, hfound, -⟩ := nodeAt?_eq_some.mp hnode
  exact hlanding l hfound

theorem entry_child_tooLong (h : w.LeadsTo base left r seen) (hn : Path.IsName n) (hlong : FileTree.maxName < n.utf8ByteSize)
    (hsize : (Path.join base n).utf8ByteSize ≤ maxPath) : w.entry (Path.join base n) = .blocked .tooLong := by
  rw [entry, landing_eq (hn.join_ne_empty base) hsize, start, Path.isAbsolute_join hn.isAbsolute,
    hn.namesOf_join, ← start, FileTree.Way.walk h (Or.inl (by simp))]
  exact FileTree.walk_tooLong ⟨hn.notIdle, hn.ne_dots⟩ hlong

theorem lands_child (h : w.LeadsTo base left r seen) (hr : w.tree.node? r = some .directory) (hn : Path.IsName n) :
    w.Lands false (r ++ [n]) (Path.join base n) := by
  by_cases hsize : maxPath < (Path.join base n).utf8ByteSize
  · exact Or.inr (Or.inr (Or.inr ⟨_, landing_of_tooLong hsize⟩))
  · have hsize := Nat.not_lt.mp hsize
    by_cases hlong : FileTree.maxName < n.utf8ByteSize
    · exact Or.inr (Or.inr (Or.inr ⟨_, entry_child_tooLong h hn hlong hsize⟩))
    · have hfits : Fits n := ⟨hn, Nat.not_lt.mp hlong⟩
      have hentry := entry_child h hfits hsize
      split at hentry
      · rename_i hfree
        exact Or.inr (Or.inl ⟨_, r, n, hentry, hfree, rfl, hr, hfits⟩)
      · rename_i hthere
        exact Or.inl ⟨hentry, hthere⟩

theorem Lands.found (h : w.Lands follow loc p) (hfound : w.tree.landing w.cwd follow p = .found l) :
    l = loc ∧ w.tree.node? loc ≠ none := by
  rcases h with ⟨hl, hnode⟩ | ⟨_, _, _, hl, -⟩ | hl | ⟨_, hl⟩ <;> rw [hfound] at hl
  · exact ⟨by simpa using hl, hnode⟩
  all_goals cases hl

theorem Lands.vacant {slash : Bool} (h : w.Lands follow loc p) (hvacant : w.tree.landing w.cwd follow p = .vacant l slash) :
    l = loc ∧ w.tree.node? loc = none ∧ ∃ d n, loc = d ++ [n] ∧ w.tree.node? d = some .directory ∧ Fits n := by
  rcases h with ⟨hl, -⟩ | ⟨_, d, n, hl, hfree, hloc, hd, hn⟩ | hl | ⟨_, hl⟩ <;> rw [hvacant] at hl
  · cases hl
  · cases hl
    exact ⟨rfl, hfree, d, n, hloc, hd, hn⟩
  all_goals cases hl

/-! ## Changes below a directory -/

/-- Something was done to the entries of a directory. -/
structure Acts (d : Location) (w w' : Workspace) : Prop where
  wellFormed : w'.tree.WellFormed
  cwd : w'.cwd = w.cwd
  outside : ∀ l, (∀ x, x ≠ [] → l ≠ d ++ x) → w'.tree.node? l = w.tree.node? l
  plain : (∀ x target, w.tree.node? (d ++ x) ≠ some (.link target)) → ∀ x target, w'.tree.node? (d ++ x) ≠ some (.link target)

theorem Acts.refl (hw : w.tree.WellFormed) : Acts d w w := ⟨hw, rfl, fun _ _ => rfl, id⟩

/-- One place holds something else, or nothing any more; all others hold what they held. -/
structure Sets (loc : Location) (node : Option Node) (w w' : Workspace) : Prop where
  wellFormed : w'.tree.WellFormed
  cwd : w'.cwd = w.cwd
  node? : ∀ l, w'.tree.node? l = if l = loc then node else w.tree.node? l

namespace Sets

variable {node : Option Node}

theorem node?_self (h : Sets loc node w w') : w'.tree.node? loc = node := by rw [h.node?, if_pos rfl]

theorem node?_of_ne (h : Sets loc node w w') {l : Location} (hl : l ≠ loc) : w'.tree.node? l = w.tree.node? l := by
  rw [h.node?, if_neg hl]

theorem acts (h : Sets (d ++ [n]) node w w') (hnode : ∀ target, node ≠ some (.link target)) : Acts d w w' := by
  refine ⟨h.wellFormed, h.cwd, fun l hl => h.node?_of_ne (hl [n] (by simp)), fun hplain x target => ?_⟩
  rw [h.node?]
  split
  · exact hnode target
  · exact hplain x target

end Sets

theorem sets_put (hw : w.tree.WellFormed) (hd : w.tree.node? d = some .directory) (hn : Fits n)
    (hfree : w.tree.node? (d ++ [n]) ≠ some .directory) :
    Sets (d ++ [n]) (some (.file c)) w (w.withTree (w.tree.put (d ++ [n]) (.file c))) :=
  ⟨hw.put hd hn (Or.inr hfree), rfl, FileTree.node?_put (by simp) _⟩

theorem store?_sets (hw : w.tree.WellFormed) (hp : w.Lands true (d ++ [n]) p) (h : w.store? p c = some w') :
    Sets (d ++ [n]) (some (.file c)) w w' := by
  rw [store?, Workspace.follow] at h
  split at h
  · rename_i l hfound
    obtain ⟨rfl, hnode⟩ := hp.found hfound
    split at h
    · rename_i c' hfile
      cases h
      exact sets_put hw (hw.parent hnode) (hw.name hnode) (by rw [hfile]; simp)
    · cases h
  · rename_i l hvacant
    obtain ⟨rfl, hfree, d', n', hloc, hd, hn⟩ := hp.vacant hvacant
    obtain ⟨rfl, hlast⟩ := List.append_inj' hloc rfl
    obtain rfl : n = n' := by simpa using hlast
    cases h
    exact sets_put hw hd hn (by rw [hfree]; simp)
  · cases h

theorem store?_acts (hw : w.tree.WellFormed) (hp : w.Lands true (d ++ [n]) p) (h : w.store? p c = some w') : Acts d w w' :=
  (store?_sets hw hp h).acts (by simp)

theorem copy?_acts (hw : w.tree.WellFormed) (hq : w.Lands true (d ++ [n]) q) (h : w.copy? p q = some w') : Acts d w w' := by
  rw [copy?] at h
  split at h
  · exact store?_acts hw hq h
  · cases h

theorem remove?_sets (hw : w.tree.WellFormed) (hp : w.Lands false (d ++ [n]) p) (h : w.remove? p = some w') :
    Sets (d ++ [n]) none w w' := by
  rw [remove?, entry] at h
  split at h
  · rename_i l hfound
    obtain ⟨rfl, hnode⟩ := hp.found hfound
    split at h
    · cases h
    · rename_i hfile
      cases h
      have herase := @FileTree.WellFormed.erase_eq_eraseAll w.tree (d ++ [n])
        (fun x hx => hw.node?_below hfile hx) (by simp)
      refine ⟨?_, rfl, FileTree.node?_erase (by simp)⟩
      show (w.tree.erase (d ++ [n])).WellFormed
      rw [herase]
      exact hw.eraseAll _
  · cases h

theorem remove?_acts (hw : w.tree.WellFormed) (hp : w.Lands false (d ++ [n]) p) (h : w.remove? p = some w') :
    Acts d w w' :=
  (remove?_sets hw hp h).acts (by simp)

/-! ## Removing all -/

/-- Some of what was at a place and below it is gone. -/
structure Less (loc : Location) (w w' : Workspace) : Prop where
  wellFormed : w'.tree.WellFormed
  cwd : w'.cwd = w.cwd
  node? : ∀ l, w'.tree.node? l = w.tree.node? l ∨ (loc <+: l ∧ w'.tree.node? l = none)

theorem Less.refl (hw : w.tree.WellFormed) : Less loc w w := ⟨hw, rfl, fun _ => Or.inl rfl⟩

theorem less_eraseAll (hw : w.tree.WellFormed) (hloc : loc ≠ []) : Less loc w (w.withTree (w.tree.eraseAll loc)) := by
  refine ⟨hw.eraseAll loc, rfl, fun l => ?_⟩
  show (w.tree.eraseAll loc).node? l = _ ∨ _ ∧ (w.tree.eraseAll loc).node? l = _
  rw [FileTree.node?_eraseAll hloc]
  split
  · rename_i hpre
    exact Or.inr ⟨hpre, rfl⟩
  · exact Or.inl rfl

/-- Whatever is removed, the tree stays well formed. -/
theorem removeAll_wellFormed (hw : w.tree.WellFormed) (p : Path) :
    (w.removeAll p).1.tree.WellFormed ∧ (w.removeAll p).1.cwd = w.cwd := by
  rw [removeAll]
  split
  · rename_i l _
    split
    · rename_i target hlink
      have hl : l ≠ [] := by
        rintro rfl
        cases hlink
      show (w.tree.erase l).WellFormed ∧ _
      rw [FileTree.WellFormed.erase_eq_eraseAll (fun x hx => hw.node?_below (by rw [hlink]; simp) hx) hl]
      exact ⟨hw.eraseAll l, rfl⟩
    · split
      · exact ⟨hw.eraseUnder l, rfl⟩
      · exact ⟨hw.eraseAll l, rfl⟩
    · exact ⟨hw, rfl⟩
  · exact ⟨hw, rfl⟩

theorem removeAll_less (hw : w.tree.WellFormed) (hp : w.Lands false loc p) (hloc : loc ≠ []) :
    Less loc w (w.removeAll p).1 := by
  rw [removeAll, entry]
  split
  · rename_i l hfound
    obtain ⟨rfl, -⟩ := hp.found hfound
    split
    · rename_i target hlink
      have herase := @FileTree.WellFormed.erase_eq_eraseAll w.tree l
        (fun x hx => hw.node?_below (by rw [hlink]; simp) hx) hloc
      show Less l w (w.withTree (w.tree.erase l))
      rw [herase]
      exact less_eraseAll hw hloc
    · split
      · refine ⟨hw.eraseUnder l, rfl, fun k => ?_⟩
        show (w.tree.eraseUnder l).node? k = _ ∨ _ ∧ (w.tree.eraseUnder l).node? k = _
        rw [FileTree.node?_eraseUnder]
        split
        · rename_i hpre
          exact Or.inr ⟨hpre.1, rfl⟩
        · exact Or.inl rfl
      · exact less_eraseAll hw hloc
    · exact Less.refl hw
  · exact Less.refl hw

/-- A directory goes with all it holds. -/
theorem removeAll_child (h : w.LeadsTo base left r seen) (hn : Fits n) (hnode : w.tree.node? (r ++ [n]) = some .directory)
    (hsize : (Path.join base n).utf8ByteSize ≤ maxPath) :
    w.removeAll (Path.join base n) = (w.withTree (w.tree.eraseAll (r ++ [n])), true) := by
  have hentry := entry_child h hn hsize
  rw [if_neg (by rw [hnode]; simp)] at hentry
  have hlink : w.isLink (withoutSlashes (Path.join base n)) = false := by
    rw [withoutSlashes_join hn.isName, isLink, hentry]
    simp [nodeAt?, hnode]
  rw [removeAll, hentry]
  simp only [hnode, endsInDots_join hn.isName, hlink, Bool.or_self, Bool.false_eq_true, if_false]

/-! ## Renaming -/

/-- What was at `a` and below it is at `b` now. -/
structure Moved (a b : Location) (w w' : Workspace) : Prop where
  wellFormed : w'.tree.WellFormed
  cwd : w'.cwd = w.cwd
  source : w.tree.node? a ≠ none
  apart : ¬ a <+: b ∧ ¬ b <+: a
  /-- Only a directory takes the place of a directory. -/
  alike : w.tree.node? b = none ∨ (w.tree.node? a = some .directory ↔ w.tree.node? b = some .directory)
  node? : ∀ l, w'.tree.node? l =
    if b <+: l then w.tree.node? (a ++ l.drop b.length) else if a <+: l then none else w.tree.node? l

theorem Moved.arrived (h : Moved a b w w') (x : Location) : w'.tree.node? (b ++ x) = w.tree.node? (a ++ x) := by
  rw [h.node?, if_pos (List.prefix_append ..), List.drop_left]

theorem Moved.gone (h : Moved a b w w') (x : Location) : w'.tree.node? (a ++ x) = none := by
  rw [h.node?, if_neg, if_pos (List.prefix_append ..)]
  exact fun hpre => (List.prefix_or_prefix_of_prefix hpre (List.prefix_append a x)).elim h.apart.2 h.apart.1

theorem Moved.kept (h : Moved a b w w') (ha : ¬ a <+: l) (hb : ¬ b <+: l) : w'.tree.node? l = w.tree.node? l := by
  rw [h.node?, if_neg hb, if_neg ha]

/-- To a place that is free. -/
theorem moved_free (hw : w.tree.WellFormed) (ha : a ≠ []) (hsource : w.tree.node? a ≠ none)
    (hd : w.tree.node? d = some .directory) (hn : Fits n) (hfree : w.tree.node? (d ++ [n]) = none)
    (hapart : ¬ a <+: d ++ [n]) : Moved a (d ++ [n]) w (w.withTree (w.tree.move a (d ++ [n]))) := by
  have hbelow : ∀ x, w.tree.node? (d ++ [n] ++ x) = none := fun x => hw.node?_of_prefix hfree (List.prefix_append ..)
  refine ⟨hw.move ha hn hd (fun hpre => hapart (hpre.trans (List.prefix_append ..))) hbelow, rfl, hsource, ⟨hapart, ?_⟩,
    Or.inl hfree, FileTree.node?_move ha (by simp) hbelow⟩
  exact fun hpre => hsource (hw.node?_of_prefix hfree hpre)

/-- In place of what has nothing below it. -/
theorem moved_over (hw : w.tree.WellFormed) (ha : a ≠ []) (hsource : w.tree.node? a ≠ none)
    (htarget : w.tree.node? (d ++ [n]) ≠ none) (hne : a ≠ d ++ [n])
    (halike : w.tree.node? a = some .directory ↔ w.tree.node? (d ++ [n]) = some .directory)
    (hempty : w.tree.node? a = some .directory → w.tree.children (d ++ [n]) = [] ∧ ¬ a <+: d ++ [n]) :
    Moved a (d ++ [n]) w (w.withTree ((w.tree.erase (d ++ [n])).move a (d ++ [n]))) := by
  have hb : d ++ [n] ≠ [] := by simp
  have hbelow : ∀ x, x ≠ [] → w.tree.node? (d ++ [n] ++ x) = none := by
    intro x hx
    by_cases hdir : w.tree.node? (d ++ [n]) = some .directory
    · obtain ⟨m, x, rfl⟩ := List.exists_cons_of_ne_nil hx
      have hfirst : w.tree.node? (d ++ [n] ++ [m]) = none := by
        by_contra hsome
        have hmem := FileTree.mem_children.mpr hsome
        rw [(hempty (halike.mpr hdir)).1] at hmem
        cases hmem
      exact hw.node?_of_prefix hfirst (by simp)
    · exact hw.node?_below hdir hx
  have hapart : ¬ a <+: d ++ [n] := by
    rintro ⟨x, hx⟩
    have hx' : x ≠ [] := by
      rintro rfl
      exact hne (by rw [← hx, List.append_nil])
    exact (hempty (hw.directory hx' (by rw [hx]; exact htarget))).2 ⟨x, hx⟩
  have hgone := @FileTree.node?_erase w.tree (d ++ [n]) hb
  -- without the target it is a move to a free place
  have hd : (w.tree.erase (d ++ [n])).node? d = some .directory := by
    rw [hgone, if_neg (by simp), hw.parent htarget]
  have hmoved := moved_free (w := w.withTree (w.tree.erase (d ++ [n]))) (a := a) (n := n)
    (FileTree.WellFormed.erase_eq_eraseAll hbelow hb ▸ hw.eraseAll _) ha (((hgone a).trans (if_neg hne)).trans_ne hsource) hd
    (hw.name htarget) ((hgone _).trans (if_pos rfl)) hapart
  refine ⟨hmoved.wellFormed, rfl, hsource, hmoved.apart, Or.inr halike, fun l => ?_⟩
  refine (hmoved.node? l).trans ?_
  split
  · exact (hgone _).trans (if_neg fun he : a ++ _ = d ++ [n] => hapart (he ▸ List.prefix_append ..))
  · rename_i hl
    split
    · rfl
    · exact (hgone _).trans (if_neg fun he : l = d ++ [n] => hl (he ▸ List.prefix_refl _))

theorem rename?_moved (hw : w.tree.WellFormed) (hp : w.Lands false a p) (hq : w.Lands false b q) (ha : a ≠ []) (hb : b ≠ [])
    (h : w.rename? p q = some w') : (a = b ∧ w' = w) ∨ Moved a b w w' := by
  rw [rename?] at h
  split at h
  · rename_i a' hfound
    obtain ⟨rfl, hsource⟩ := hp.found hfound
    simp only at h
    split at h
    · rename_i b' hfound'
      obtain ⟨rfl, htarget⟩ := hq.found hfound'
      split at h
      · rename_i heq
        exact Or.inl ⟨heq, (Option.some.inj h).symm⟩
      · rename_i hne
        split at h
        · cases h
        · rename_i hallowed
          obtain rfl := Option.some.inj h
          obtain ⟨d, n, rfl⟩ := (List.eq_nil_or_concat' b').resolve_left hb
          rw [Bool.or_eq_true, not_or] at hallowed
          obtain ⟨halike, hempty⟩ := hallowed
          have halike : w.tree.node? a' = some .directory ↔ w.tree.node? (d ++ [n]) = some .directory := by
            rw [← beq_iff_eq, ← beq_iff_eq (a := w.tree.node? (d ++ [n])), ← Bool.eq_iff_iff]
            simpa using halike
          refine Or.inr (moved_over hw ha hsource htarget hne halike fun hdir => ?_)
          simpa [hdir, FileTree.isWithin_iff] using hempty
    · rename_i b' slash hvacant
      obtain ⟨rfl, hfree, d, n, rfl, hd, hn⟩ := hq.vacant hvacant
      split at h
      · cases h
      · rename_i hallowed
        obtain rfl := Option.some.inj h
        rw [Bool.or_eq_true, not_or, FileTree.isWithin_iff] at hallowed
        exact Or.inr (moved_free hw ha hsource hd hn hfree hallowed.1)
    · cases h
  · cases h

/-- An entry of a directory, to another place in a directory. -/
theorem rename?_moved_child {base' : Path} {left' : Nat} {r' : Location} {seen' : List Location} {m : String}
    (hw : w.tree.WellFormed) (h : w.LeadsTo base left r seen) (hr : w.tree.node? r = some .directory) (hn : Path.IsName n)
    (h' : w.LeadsTo base' left' r' seen') (hr' : w.tree.node? r' = some .directory) (hm : Path.IsName m)
    (hne : r ++ [n] ≠ r' ++ [m]) (hrename : w.rename? (Path.join base n) (Path.join base' m) = some w') :
    Moved (r ++ [n]) (r' ++ [m]) w w' :=
  (rename?_moved hw (lands_child h hr hn) (lands_child h' hr' hm) (by simp) (by simp) hrename).resolve_left fun he => hne he.1

/-- What is renamed has a path that can be followed, and so has its new place. -/
theorem rename?_short (h : w.rename? p q = some w') : p.utf8ByteSize ≤ maxPath ∧ q.utf8ByteSize ≤ maxPath := by
  rw [rename?] at h
  split at h
  · rename_i hfound
    have hp := (fits_of_landing hfound (by simp) (by simp)).2.1
    simp only at h
    split at h
    · rename_i hfound'
      exact ⟨hp, (fits_of_landing hfound' (by simp) (by simp)).2.1⟩
    · rename_i hvacant
      exact ⟨hp, (fits_of_landing hvacant (by simp) (by simp)).2.1⟩
    · cases h
  · cases h

/-- An entry is moved to a free name. -/
theorem rename?_child {base' : Path} {left' : Nat} {r' : Location} {seen' : List Location} {m : String}
    (h : w.LeadsTo base left r seen) (hn : Fits n) (hnode : w.tree.node? (r ++ [n]) ≠ none)
    (hsize : (Path.join base n).utf8ByteSize ≤ maxPath) (h' : w.LeadsTo base' left' r' seen') (hm : Fits m)
    (hfree : w.tree.node? (r' ++ [m]) = none) (hsize' : (Path.join base' m).utf8ByteSize ≤ maxPath)
    (hapart : ¬ r ++ [n] <+: r' ++ [m]) :
    w.rename? (Path.join base n) (Path.join base' m) = some (w.withTree (w.tree.move (r ++ [n]) (r' ++ [m]))) := by
  have hentry := entry_child h hn hsize
  have hentry' := entry_child h' hm hsize'
  rw [if_neg hnode] at hentry
  rw [if_pos hfree] at hentry'
  have hwithin : FileTree.isWithin (r ++ [n]) (r' ++ [m]) = false := by
    rw [Bool.eq_false_iff, ne_eq, FileTree.isWithin_iff]
    exact hapart
  rw [rename?, hentry]
  simp only [hentry', hwithin, Bool.false_and, Bool.or_self, Bool.false_eq_true, if_false]

/-- Both in one directory. -/
theorem rename?_acts {m : String} (hw : w.tree.WellFormed) (hp : w.Lands false (d ++ [m]) p) (hq : w.Lands false (d ++ [n]) q)
    (h : w.rename? p q = some w') : Acts d w w' := by
  rcases rename?_moved hw hp hq (by simp) (by simp) h with ⟨-, rfl⟩ | hmoved
  · exact Acts.refl hw
  · refine ⟨hmoved.wellFormed, hmoved.cwd, fun l hl => ?_, fun hplain x target => ?_⟩
    · have hnot : ∀ k, ¬ d ++ [k] <+: l := by
        rintro k ⟨y, rfl⟩
        exact hl (k :: y) (by simp) (by simp)
      exact hmoved.kept (hnot m) (hnot n)
    · rw [hmoved.node?]
      split
      · rw [List.append_assoc]
        exact hplain _ target
      · split
        · simp
        · exact hplain x target

end Handout.Workspace
