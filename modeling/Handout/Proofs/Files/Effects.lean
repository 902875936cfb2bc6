/-
  Handout.Proofs.Files.Effects — what a change that succeeds leaves at each place.

  `Proofs.Files.Changes` says where a change may act. Here `Sets loc node w w'` says what it
  comes to: `node` is at `loc` now, and every other place holds what it held. Writing,
  copying and removing a file and making the last directory of a path are of this kind,
  and so is a file that is written under a free name and then takes the place of another
  (`Sets.moved`). For an entry of a directory it is also said when a change is not refused.
-/

import Handout.Proofs.Files.Changes
import Handout.Proofs.Files.Operations

open Handout.Action

namespace Handout

namespace Workspace

open FileTree (WellFormed Fits Way maxName maxPath)

variable {w w' w'' : Workspace} {p q base : Path} {left : Nat} {d r s loc : Location} {seen : List Location} {m n : String}
  {ns : List String} {c : Content} {node : Option Node}

namespace Sets

theorem of_eq (hw : w.tree.WellFormed) (h : w.tree.node? loc = node) : Sets loc node w w := by
  refine ⟨hw, rfl, fun l => ?_⟩
  split
  · rename_i hl
    rw [hl, h]
  · rfl

/-- A file does not take the place of a directory. -/
theorem not_over_directory (h : Sets (d ++ [m]) (some (.file c)) w w') (h' : Moved (d ++ [m]) (d ++ [n]) w' w'') :
    w.tree.node? (d ++ [n]) ≠ some .directory := by
  have hne : d ++ [n] ≠ d ++ [m] := fun he => h'.apart.1 (he ▸ List.prefix_refl _)
  rw [← h.node?_of_ne hne]
  rcases h'.alike with hnone | halike
  · rw [hnone]
    simp
  · rw [ne_eq, ← halike, h.node?_self]
    simp

/-- A file that was written at a free place and is moved in the place of another. -/
theorem moved (hw : w.tree.WellFormed) (hfree : w.tree.node? (d ++ [m]) = none)
    (h : Sets (d ++ [m]) (some (.file c)) w w') (h' : Moved (d ++ [m]) (d ++ [n]) w' w'') :
    Sets (d ++ [n]) (some (.file c)) w w'' := by
  have hbelow : ∀ x, x ≠ [] → w'.tree.node? (d ++ [m] ++ x) = none := fun x hx =>
    h.wellFormed.node?_below (by rw [h.node?_self]; simp) hx
  have htarget := h.not_over_directory h'
  refine ⟨h'.wellFormed, h'.cwd.trans h.cwd, fun l => ?_⟩
  rw [h'.node?]
  by_cases hpre : d ++ [n] <+: l
  · obtain ⟨x, rfl⟩ := hpre
    rw [if_pos (List.prefix_append ..), List.drop_left]
    by_cases hx : x = []
    · rw [hx, List.append_nil, List.append_nil, if_pos rfl, h.node?_self]
    · rw [if_neg (by simpa using hx), hbelow x hx, hw.node?_below htarget hx]
  · rw [if_neg hpre, if_neg fun he : l = _ => hpre (he ▸ List.prefix_refl _)]
    split
    · rename_i hwas
      exact (hw.node?_of_prefix hfree hwas).symm
    · rename_i hwas
      exact h.node?_of_ne fun he => hwas (he ▸ List.prefix_refl _)

end Sets

/-! ## Files -/

/-- A copy at a free place is written with what the file holds. -/
theorem copy?_stores (hq : w.Lands true loc q) (hfree : w.tree.node? loc = none) (h : w.copy? p q = some w') :
    ∃ c, w.nodeAt? (w.follow p) = some (.file c) ∧ w.store? q c = some w' := by
  rw [copy?] at h
  split at h
  · rename_i c hfile
    obtain ⟨l, hfound, hl⟩ := nodeAt?_eq_some.mp hfile
    have hapart : w.follow p ≠ w.follow q := by
      intro he
      obtain ⟨rfl, -⟩ := hq.found (he.symm.trans hfound)
      rw [hfree] at hl
      cases hl
    rw [if_neg hapart] at h
    exact ⟨c, hfile, h⟩
  · cases h

/-! ## Entries of a directory -/

/-- Nothing is found, nor can anything be made, where there is no directory. -/
theorem landing_of_not_leads {follow : Bool} (hp : ¬ w.Leads p) (hn : Path.IsName n) :
    w.tree.landing w.cwd follow (Path.join p n) = .missing ∨
      ∃ why, w.tree.landing w.cwd follow (Path.join p n) = .blocked why := by
  by_cases hsize : maxPath < (Path.join p n).utf8ByteSize
  · exact Or.inr ⟨_, landing_of_tooLong hsize⟩
  · rw [landing_eq (hn.join_ne_empty p) (Nat.not_lt.mp hsize), start, Path.isAbsolute_join hn.isAbsolute, hn.namesOf_join,
      ← start]
    exact (FileTree.way_of_walk_append ⟨n, List.mem_singleton.mpr rfl, hn.ne_empty⟩).resolve_left hp

/-- What is found under a name is in a directory. -/
theorem leads_of_found {follow : Bool} {l : Location} (hn : Path.IsName n)
    (h : w.tree.landing w.cwd follow (Path.join p n) = .found l) : w.Leads p := by
  by_contra hp
  rcases landing_of_not_leads hp hn with hstop | ⟨_, hstop⟩
  all_goals
    rw [hstop] at h
    cases h

theorem landing_child {follow : Bool} (h : w.LeadsTo base left r seen) (hn : Path.IsName n)
    (hsize : (Path.join base n).utf8ByteSize ≤ maxPath) :
    w.tree.landing w.cwd follow (Path.join base n) = FileTree.walk w.tree follow left r [n] := by
  rw [landing_eq (hn.join_ne_empty base) hsize, start, Path.isAbsolute_join hn.isAbsolute, hn.namesOf_join, ← start,
    FileTree.Way.walk h (Or.inl (by simp))]

/-- What stands under a name and is no link is what its path leads to. -/
theorem follow_child (h : w.LeadsTo base left r seen) (hn : Fits n) (hsize : (Path.join base n).utf8ByteSize ≤ maxPath)
    (hnode : w.tree.node? (r ++ [n]) ≠ none) (hlink : ∀ target, w.tree.node? (r ++ [n]) ≠ some (.link target)) :
    w.follow (Path.join base n) = .found (r ++ [n]) := by
  rw [Workspace.follow, landing_child h hn.isName hsize]
  cases hat : w.tree.node? (r ++ [n]) with
  | none => exact absurd hat hnode
  | some node =>
    cases node with
    | directory => rw [FileTree.walk_directory hn.named hn.short hat, FileTree.walk_nil]
    | file c => exact FileTree.walk_file hn.named hn.short hat
    | link target => exact absurd hat (hlink target)

/-- A free name leads to a place where something can be made. -/
theorem follow_free (h : w.LeadsTo base left r seen) (hn : Fits n) (hsize : (Path.join base n).utf8ByteSize ≤ maxPath)
    (hfree : w.tree.node? (r ++ [n]) = none) : w.follow (Path.join base n) = .vacant (r ++ [n]) false := by
  rw [Workspace.follow, landing_child h hn.isName hsize]
  exact FileTree.walk_none hn.named hn.short hfree

/-- Nothing can be made, nor found, under a name that is too long. -/
theorem landing_child_tooLong {follow : Bool} (h : w.LeadsTo base left r seen) (hn : Path.IsName n)
    (hlong : maxName < n.utf8ByteSize) : w.tree.landing w.cwd follow (Path.join base n) = .blocked .tooLong := by
  by_cases hsize : maxPath < (Path.join base n).utf8ByteSize
  · exact landing_of_tooLong hsize
  · rw [landing_child h hn (Nat.not_lt.mp hsize)]
    exact FileTree.walk_tooLong ⟨hn.notIdle, hn.ne_dots⟩ hlong

/-- What leads to a place under a name fits. -/
theorem fits_of_landing_child {follow : Bool} {l : FileTree.Landing} (h : w.LeadsTo base left r seen) (hn : Path.IsName n)
    (hl : w.tree.landing w.cwd follow (Path.join base n) = l) (hblocked : ∀ why, l ≠ .blocked why) :
    Fits n ∧ (Path.join base n).utf8ByteSize ≤ maxPath := by
  refine ⟨⟨hn, Nat.not_lt.mp fun hlong => ?_⟩, Nat.not_lt.mp fun hlong => ?_⟩
  · exact hblocked _ (hl.symm.trans (landing_child_tooLong h hn hlong))
  · exact hblocked _ (hl.symm.trans (landing_of_tooLong hlong))

theorem store?_child (h : w.LeadsTo base left r seen) (hn : Fits n) (hsize : (Path.join base n).utf8ByteSize ≤ maxPath)
    (hfree : w.tree.node? (r ++ [n]) = none) (c : Content) :
    w.store? (Path.join base n) c = some (w.withTree (w.tree.put (r ++ [n]) (.file c))) := by
  rw [store?, follow_free h hn hsize hfree]

theorem remove?_child (h : w.LeadsTo base left r seen) (hn : Fits n) (hsize : (Path.join base n).utf8ByteSize ≤ maxPath)
    (hnode : w.tree.node? (r ++ [n]) ≠ none) (hfile : w.tree.node? (r ++ [n]) ≠ some .directory) :
    w.remove? (Path.join base n) = some (w.withTree (w.tree.erase (r ++ [n]))) := by
  have hentry := entry_child h hn hsize
  rw [if_neg hnode] at hentry
  rw [remove?, hentry]
  dsimp only
  split
  · rename_i hdir
    exact absurd hdir hfile
  · rfl

/-- Under a free name there is nothing to remove. -/
theorem remove?_free (h : w.LeadsTo base left r seen) (hn : Path.IsName n)
    (hfree : (Path.join base n).utf8ByteSize ≤ maxPath → w.tree.node? (r ++ [n]) = none) :
    w.remove? (Path.join base n) = none := by
  rw [remove?]
  split
  · rename_i l hfound
    obtain ⟨hfits, hsize⟩ := fits_of_landing_child h hn hfound (by simp)
    rw [entry_child h hfits hsize, if_pos (hfree hsize)] at hfound
    cases hfound
  · rfl

/-- A file takes the place of a file, or a free one. -/
theorem rename?_file {base' : Path} {left' : Nat} {r' : Location} {seen' : List Location} {m : String}
    (h : w.LeadsTo base left r seen) (hn : Fits n) (hfile : w.tree.node? (r ++ [n]) = some (.file c))
    (hsize : (Path.join base n).utf8ByteSize ≤ maxPath) (h' : w.LeadsTo base' left' r' seen') (hm : Fits m)
    (htarget : w.tree.node? (r' ++ [m]) ≠ some .directory) (hsize' : (Path.join base' m).utf8ByteSize ≤ maxPath)
    (hapart : ¬ r ++ [n] <+: r' ++ [m]) : ∃ w', w.rename? (Path.join base n) (Path.join base' m) = some w' := by
  have hnode : w.tree.node? (r ++ [n]) ≠ none := by
    rw [hfile]
    simp
  by_cases hfree : w.tree.node? (r' ++ [m]) = none
  · exact ⟨_, rename?_child h hn hnode hsize h' hm hfree hsize' hapart⟩
  · have hentry := entry_child h hn hsize
    have hentry' := entry_child h' hm hsize'
    rw [if_neg hnode] at hentry
    rw [if_neg hfree] at hentry'
    have hover : (w.tree.node? (r' ++ [m]) == some .directory) = false := beq_eq_false_iff_ne.mpr htarget
    have hne : r ++ [n] ≠ r' ++ [m] := fun he => hapart (he ▸ List.prefix_refl _)
    rw [rename?, hentry]
    simp only [hentry', hne, hfile, hover]
    exact ⟨_, rfl⟩

/-- What is renamed is at its new place. -/
theorem rename?_there {a b : Location} (hw : w.tree.WellFormed) (hp : w.Lands false a p) (hq : w.Lands false b q) (ha : a ≠ [])
    (hb : b ≠ []) (h : w.rename? p q = some w') : w'.tree.node? b ≠ none := by
  rcases rename?_moved hw hp hq ha hb h with ⟨rfl, rfl⟩ | hmoved
  · unfold rename? at h
    split at h
    · rename_i a' hfound
      exact (hp.found hfound).2
    · cases h
  · rw [hmoved.node?, if_pos (List.prefix_refl _), List.drop_length, List.append_nil]
    exact hmoved.source

/-! ## One directory -/

/-- Making a directory whose place in another is free makes just that. -/
theorem makeDirectories_child (hw : w.tree.WellFormed) (h : w.LeadsTo base left r seen)
    (hr : w.tree.node? r = some .directory) (hn : Path.IsName n) (hfree : w.tree.node? (r ++ [n]) = none) {up : Nat}
    (hdone : (w.makeDirectories up (Path.join base n)).2 = true) :
    (Path.join base n).utf8ByteSize ≤ maxPath ∧
      Sets (r ++ [n]) (some .directory) w (w.makeDirectories up (Path.join base n)).1 := by
  cases up with
  | zero => exact absurd hdone (by simp [makeDirectories])
  | succ up =>
    by_cases hsize : (Path.join base n).utf8ByteSize ≤ maxPath
    · refine ⟨hsize, ?_⟩
      by_cases hlong : maxName < n.utf8ByteSize
      · -- it is refused, and nothing is there
        have hrefused : w.makeDirectory (Path.join base n) = .refused := by
          rw [makeDirectory, withoutSlashes_join hn, entry, landing_child_tooLong h hn hlong]
        have hnot : w.isDirectory (Path.join base n) = false := by
          rw [isDirectory, Workspace.follow, landing_child_tooLong h hn hlong]
          rfl
        rw [makeDirectories, if_neg (hn.join_ne_empty base), hrefused] at hdone
        simp only [settled, hnot] at hdone
        cases hdone
      · have hfits : Fits n := ⟨hn, Nat.not_lt.mp hlong⟩
        have hentry := entry_child h hfits hsize
        rw [if_pos hfree] at hentry
        have hmade : w.makeDirectory (Path.join base n) = .made (w.withTree (w.tree.put (r ++ [n]) .directory)) := by
          rw [makeDirectory, withoutSlashes_join hn, hentry]
        rw [makeDirectories, if_neg (hn.join_ne_empty base), hmade]
        exact ⟨hw.put hr hfits (Or.inl rfl), rfl, FileTree.node?_put (by simp) _⟩
    · rw [makeDirectories_of_tooLong hn (Nat.not_le.mp hsize)] at hdone
      cases hdone

/-- Of the paths made with tags, one has a free name, or is too long. -/
theorem unused_child {make : String → Path} {name : String → String} (hw : w.tree.WellFormed)
    (hr : w.tree.node? r = some .directory) (h : w.LeadsTo base left r seen)
    (hmake : ∀ tag, make tag = Path.join base (name tag)) (hname : ∀ k, Path.IsName (name (tagOf k)))
    (hinj : ∀ j k, name (tagOf j) = name (tagOf k) → j = k) :
    ∃ k, w.unused make = Path.join base (name (tagOf k)) ∧
      ((Path.join base (name (tagOf k))).utf8ByteSize ≤ maxPath → w.tree.node? (r ++ [name (tagOf k)]) = none) := by
  have hplace : ∀ k l, w.entry (make (tagOf k)) = .found l → l = r ++ [name (tagOf k)] := fun k l hfound =>
    ((lands_child h hr (hname k)).found (hmake _ ▸ hfound)).1
  have hfree := @entry_unused w make
    (fun m n l hm hn => hinj m n (by simpa [hplace m l hm] using hplace n l hn))
    fun n hroot => by simpa using hplace n [] hroot
  obtain ⟨k, hk⟩ := w.exists_unused make
  refine ⟨k, hk.trans (hmake _), fun hsize => ?_⟩
  rw [hk, hmake] at hfree
  by_contra hsome
  rw [entry_child h (hw.name hsome) hsize, if_neg hsome] at hfree
  exact hsome hfree

end Workspace
end Handout
