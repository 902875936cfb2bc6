/-
  Handout.Proofs.Files.Copied — what a copy of a directory comes to.

  The directory that receives the copy is empty, and nothing on the way to what is copied lies
  in it (`Receives`). So whatever has been copied already, the source shows what it showed
  (`Receives.shows`), and a copy that succeeds holds at every name what the source shows
  there, links followed (`copyTree_ends`). The induction is on the depth, with a loop over
  the names of a directory inside.
-/

import Handout.Proofs.Files.Shown

open Handout.Action

namespace Handout.Workspace

open FileTree (WellFormed Fits maxPath)

variable {w₀ w₁ w w' : Workspace} {source dest base : Path} {left : Nat} {d s loc : Location} {seen : List Location}
  {n : String} {ns : List String} {newId : List String → String}

/-! ## Changes below a directory -/

theorem Acts.trans {w'' : Workspace} (h : Acts d w w') (h' : Acts d w' w'') : Acts d w w'' :=
  ⟨h'.wellFormed, h'.cwd.trans h.cwd, fun l hl => (h'.outside l hl).trans (h.outside l hl), fun hplain => h'.plain (h.plain hplain)⟩

theorem Sets.acts_below {x : Location} {node : Option Node} (h : Sets (d ++ x) node w w') (hx : x ≠ [])
    (hnode : ∀ target, node ≠ some (.link target)) : Acts d w w' := by
  refine ⟨h.wellFormed, h.cwd, fun l hl => h.node?_of_ne (hl x hx), fun hplain y target => ?_⟩
  rw [h.node?]
  split
  · exact hnode target
  · exact hplain y target

/-! ## Places below one another -/

theorem not_prefix_above : ¬ s ++ (ns ++ [n]) <+: s ++ ns := fun h => by
  have hlength := h.length_le
  simp only [List.length_append, List.length_singleton] at hlength
  omega

theorem prefix_entry_iff {m : String} {x : List String} : s ++ (ns ++ [n]) <+: s ++ (ns ++ m :: x) ↔ n = m := by
  simp

/-- A directory without entries, and something that is not looked at in it. -/
structure Receives (w₁ : Workspace) (source dest : Path) (left : Nat) (s : Location) (seen : List Location) : Prop where
  wellFormed : w₁.tree.WellFormed
  cwd : w₁.tree.node? w₁.cwd = some .directory
  leads : w₁.LeadsTo dest left s seen
  directory : w₁.tree.node? s = some .directory
  empty : ∀ n, w₁.tree.node? (s ++ [n]) = none
  apart : ∀ ns, (∀ n ∈ ns, Path.IsName n) → ∀ l ∈ w₁.passed (Path.down source ns), ¬ s <+: l

/-- What the source shows below some names is there, under paths that can be followed. -/
structure Holds (w₁ : Workspace) (source dest : Path) (s : Location) (ns : List String) (w : Workspace) : Prop where
  node? : ∀ x, (∀ n ∈ x, Path.IsName n) → w.tree.node? (s ++ (ns ++ x)) = w₁.shows (Path.down source (ns ++ x))
  short : ∀ x, w.tree.node? (s ++ (ns ++ x)) ≠ none → (Path.down dest (ns ++ x)).utf8ByteSize ≤ maxPath

/-- What the source shows below some names was copied, and nothing beside them has changed. -/
structure Copied (w₁ : Workspace) (source dest : Path) (s : Location) (ns : List String) (w w' : Workspace) : Prop where
  acts : Acts s w₁ w'
  beside : ∀ l, ¬ s ++ ns <+: l → w'.tree.node? l = w.tree.node? l
  holds : Holds w₁ source dest s ns w'

/-- What copies an entry of a directory wherever it is free. -/
def CopiesEntries (w₁ : Workspace) (source dest : Path) (s : Location) (ns : List String)
    (copy : String → Action Workspace Unit) : Prop :=
  ∀ n w, Path.IsName n → Acts s w₁ w → w.tree.node? (s ++ ns) = some .directory → w.tree.node? (s ++ (ns ++ [n])) = none →
    (copy n).Ends w (fun _ w' => Copied w₁ source dest s (ns ++ [n]) w w') fun _ _ => True

namespace Receives

variable (g : Receives w₁ source dest left s seen)
include g

theorem node?_below {x : Location} (hx : x ≠ []) : w₁.tree.node? (s ++ x) = none := by
  obtain ⟨n, x, rfl⟩ := List.exists_cons_of_ne_nil hx
  exact g.wellFormed.node?_of_prefix (g.empty n) (by simp)

/-- What was there is there still. -/
theorem node?_kept (h : Acts s w₁ w) {l : Location} (hl : w₁.tree.node? l ≠ none) : w.tree.node? l = w₁.tree.node? l := by
  refine h.outside l ?_
  rintro x hx rfl
  exact hl (g.node?_below hx)

theorem node?_cwd (h : Acts s w₁ w) : w.tree.node? w.cwd = some .directory := by
  rw [h.cwd, g.node?_kept h (by rw [g.cwd]; simp), g.cwd]

theorem leadsTo (h : Acts s w₁ w) : w.LeadsTo dest left s seen := by
  rw [LeadsTo, start_congr h.cwd]
  exact FileTree.Way.congr g.leads fun l hl => g.node?_kept h (FileTree.Way.node?_seen g.leads l hl)

theorem plain (h : Acts s w₁ w) (x : Location) (target : Path) : w.tree.node? (s ++ x) ≠ some (.link target) := by
  refine h.plain (fun x target => ?_) x target
  by_cases hx : x = []
  · rw [hx, List.append_nil, g.directory]
    simp
  · rw [g.node?_below hx]
    simp

theorem agree (h : Acts s w₁ w) (hns : ∀ n ∈ ns, Path.IsName n) :
    ∀ l ∈ w₁.passed (Path.down source ns), w.tree.node? l = w₁.tree.node? l := by
  intro l hl
  refine h.outside l ?_
  rintro x - rfl
  exact g.apart ns hns _ hl (List.prefix_append ..)

theorem shows (h : Acts s w₁ w) (hns : ∀ n ∈ ns, Path.IsName n) :
    w.shows (Path.down source ns) = w₁.shows (Path.down source ns) :=
  shows_congr g.wellFormed h.wellFormed g.cwd (g.node?_cwd h) h.cwd (g.agree h hns)

/-- Nothing is shown under a name that a directory does not have. -/
theorem shows_of_notMem {r : Location} (h : Acts s w₁ w) (hns : ∀ n ∈ ns, Path.IsName n)
    (hdir : w.directory? (Path.down source ns) = some r) (hn : Path.IsName n) (hnot : n ∉ w.tree.children r) {x : List String}
    (hx : ∀ m ∈ x, Path.IsName m) : w₁.shows (Path.down source (ns ++ n :: x)) = none := by
  have hall : ∀ m ∈ ns ++ [n], Path.IsName m := by simpa [or_imp, forall_and, hn] using hns
  have habsent : w₁.shows (Path.down source (ns ++ [n])) = none := by
    rw [← g.shows h hall, Path.down_concat]
    obtain ⟨hfound, hr⟩ := directory?_eq_some.mp hdir
    obtain ⟨-, -, left', r', seen', hleads, hfollow, -⟩ := leadsTo_of_shows ((shows_of_found hfound).trans hr)
    obtain rfl : r = r' := by simpa using hfound.symm.trans hfollow
    have hfree : w.tree.node? (r ++ [n]) = none := by
      by_contra hsome
      exact hnot (FileTree.mem_children.mpr hsome)
    have hpresent := not_isPresent_child hleads hn hfree
    rw [isPresent] at hpresent
    rw [Workspace.shows]
    simpa using hpresent
  by_cases hempty : x = []
  · rwa [hempty]
  · have hcons : ns ++ n :: x = ns ++ [n] ++ x := by simp
    rw [hcons, Path.down_append]
    refine shows_down_of_not_directory g.wellFormed g.cwd ?_ (by rw [habsent]; simp) hx hempty
    rw [Path.down_concat]
    exact hn.join_ne_empty _

/-! ## A directory -/

omit g in
theorem copyNames_ends {copy : String → Action Workspace Unit} (hcopy : CopiesEntries w₁ source dest s ns copy)
    {names : List String} (hnodup : names.Nodup) (hnames : ∀ n ∈ names, Path.IsName n) (hw : Acts s w₁ w)
    (hdir : w.tree.node? (s ++ ns) = some .directory) (hfree : ∀ n ∈ names, w.tree.node? (s ++ (ns ++ [n])) = none) :
    Ends (ForIn.forIn names PUnit.unit fun n _ => do copy n; pure (ForInStep.yield PUnit.unit)) w
      (fun _ w' => Acts s w₁ w' ∧
        (∀ l, (∀ n ∈ names, ¬ s ++ (ns ++ [n]) <+: l) → w'.tree.node? l = w.tree.node? l) ∧
        ∀ n ∈ names, Holds w₁ source dest s (ns ++ [n]) w') fun _ _ => True := by
  induction names generalizing w with
  | nil => exact ends_pure.mpr ⟨hw, fun _ _ => rfl, by simp⟩
  | cons n names ih =>
    rw [List.forall_mem_cons] at hnames hfree
    obtain ⟨hnot, hnodup⟩ := List.nodup_cons.mp hnodup
    rw [List.forIn_cons, bind_assoc]
    refine ends_bind.mpr ((hcopy n w hnames.1 hw hdir hfree.1).mono (fun _ w' hw' => ?_) fun _ _ _ => trivial)
    obtain ⟨hacts, hsame, hholds⟩ := hw'
    rw [pure_bind]
    refine (ih hnodup hnames.2 hacts ?_ fun m hm => ?_).mono (fun _ w'' hw'' => ?_) fun _ _ _ => trivial
    · rw [hsame _ not_prefix_above, hdir]
    · rw [hsame, hfree.2 m hm]
      rw [prefix_entry_iff]
      exact fun he => hnot (he ▸ hm)
    · obtain ⟨hacts', hsame', hholds'⟩ := hw''
      -- the entry copied first is left alone by the others
      have hkept : ∀ x, w''.tree.node? (s ++ (ns ++ [n] ++ x)) = w'.tree.node? (s ++ (ns ++ [n] ++ x)) := by
        intro x
        refine hsame' _ fun m hm => ?_
        rw [List.append_assoc, List.singleton_append, prefix_entry_iff]
        exact fun he => hnot (he ▸ hm)
      refine ⟨hacts', fun l hl => ?_, List.forall_mem_cons.mpr ⟨⟨fun x hx => ?_, fun x hx => ?_⟩, hholds'⟩⟩
      · rw [List.forall_mem_cons] at hl
        rw [hsame' l hl.2, hsame l hl.1]
      · rw [hkept, hholds.node? x hx]
      · rw [hkept] at hx
        exact hholds.short x hx

/-- The names of a directory were copied into one that was empty. -/
theorem holds_of_names {r : Location} (h : Acts s w₁ w) (hns : ∀ n ∈ ns, Path.IsName n)
    (hdir : w.directory? (Path.down source ns) = some r) (hthere : w.tree.node? (s ++ ns) = some .directory)
    (hempty : ∀ n, w.tree.node? (s ++ (ns ++ [n])) = none) (hsize : (Path.down dest ns).utf8ByteSize ≤ maxPath)
    (hsame : ∀ l, (∀ n ∈ w.tree.children r, ¬ s ++ (ns ++ [n]) <+: l) → w'.tree.node? l = w.tree.node? l)
    (hholds : ∀ n ∈ w.tree.children r, Holds w₁ source dest s (ns ++ [n]) w') : Holds w₁ source dest s ns w' := by
  have hshown : w₁.shows (Path.down source ns) = some .directory := by
    obtain ⟨hfound, hr⟩ := directory?_eq_some.mp hdir
    rw [← g.shows h hns, shows_of_found hfound, hr]
  have hself : w'.tree.node? (s ++ ns) = some .directory := by
    rw [hsame _ fun _ _ => not_prefix_above, hthere]
  -- what has no name in the directory is neither shown nor copied
  have hrest : ∀ n x, n ∉ w.tree.children r → w'.tree.node? (s ++ (ns ++ n :: x)) = none := by
    intro n x hn
    rw [hsame]
    · exact h.wellFormed.node?_of_prefix (hempty n) (by simp)
    · intro m hm
      rw [prefix_entry_iff]
      exact fun he => hn (he ▸ hm)
  refine ⟨fun x hx => ?_, fun x hx => ?_⟩
  · cases x with
    | nil => rw [List.append_nil, hself, hshown]
    | cons n x =>
      by_cases hn : n ∈ w.tree.children r
      · have hbelow := (hholds n hn).node? x fun m hm => hx m (List.mem_cons_of_mem _ hm)
        rwa [List.append_assoc] at hbelow
      · rw [hrest n x hn]
        exact (g.shows_of_notMem h hns hdir (hx n (List.mem_cons_self ..)) hn fun m hm => hx m (List.mem_cons_of_mem _ hm)).symm
  · cases x with
    | nil => rwa [List.append_nil]
    | cons n x =>
      by_cases hn : n ∈ w.tree.children r
      · have hbelow := (hholds n hn).short x
        rw [List.append_assoc] at hbelow
        exact hbelow hx
      · exact absurd (hrest n x hn) hx

/-- Into a directory that is empty. -/
theorem copyEntries_ends {copy : String → Action Workspace Unit} (hcopy : CopiesEntries w₁ source dest s ns copy)
    (h : Acts s w₁ w) (hns : ∀ n ∈ ns, Path.IsName n) (hthere : w.tree.node? (s ++ ns) = some .directory)
    (hempty : ∀ n, w.tree.node? (s ++ (ns ++ [n])) = none) (hsize : (Path.down dest ns).utf8ByteSize ≤ maxPath) :
    Ends (do
      for name in ← (files newId).names (Path.down source ns) do
        copy name) w (fun _ w' => Copied w₁ source dest s ns w w') fun _ _ => True := by
  refine ends_bind.mpr (ends_ask.mpr ⟨fun names hnames => ?_, fun _ => trivial⟩)
  obtain ⟨r, hdir, rfl⟩ := Option.map_eq_some_iff.mp hnames
  have hnames : ∀ m ∈ w.tree.children r, Path.IsName m := fun m hm =>
    (h.wellFormed.name (FileTree.mem_children.mp hm)).isName
  refine ends_bind.mpr ((copyNames_ends hcopy (h.wellFormed.nodup_children r) hnames h hthere fun m _ => hempty m).mono
    (fun _ w' hw' => ends_pure.mpr ?_) fun _ _ _ => trivial)
  obtain ⟨h', hsame, hholds⟩ := hw'
  refine ⟨h', fun l hl => hsame l fun m _ hpre => hl ?_, g.holds_of_names h hns hdir hthere hempty hsize hsame hholds⟩
  rw [← List.append_assoc] at hpre
  exact (List.prefix_append ..).trans hpre

/-- Into one that is made for it. -/
theorem copyDirectory_ends {copy : String → Action Workspace Unit} (hcopy : CopiesEntries w₁ source dest s (ns ++ [n]) copy)
    (h : Acts s w₁ w) (hns : ∀ m ∈ ns ++ [n], Path.IsName m) (hparent : w.tree.node? (s ++ ns) = some .directory)
    (hfree : w.tree.node? (s ++ (ns ++ [n])) = none) : Ends (do
      (files newId).makeDirectories (Path.join (Path.down dest ns) n)
      for name in ← (files newId).names (Path.down source (ns ++ [n])) do
        copy name) w (fun _ w' => Copied w₁ source dest s (ns ++ [n]) w w') fun _ _ => True := by
  obtain ⟨seen', hleads⟩ := (g.leadsTo h).down h.wellFormed hparent
  refine ends_bind.mpr (ends_makeDirectories.mpr ⟨fun hmade => ?_, fun _ => trivial⟩)
  obtain ⟨hsize, hset⟩ := makeDirectories_child h.wellFormed hleads hparent (hns n (by simp)) (by simpa using hfree) hmade
  generalize (w.makeDirectories (maxPath + 1) (Path.join (Path.down dest ns) n)).1 = w₂ at hset ⊢
  rw [List.append_assoc] at hset
  have h₂ : Acts s w₁ w₂ := h.trans (hset.acts_below (by simp) (by simp))
  have hempty : ∀ m, w₂.tree.node? (s ++ (ns ++ [n] ++ [m])) = none := by
    intro m
    rw [hset.node?_of_ne (by simp)]
    exact h.wellFormed.node?_of_prefix hfree (by simp)
  rw [← Path.down_concat] at hsize
  refine (g.copyEntries_ends hcopy h₂ hns hset.node?_self hempty hsize).mono (fun _ w' hw' => ?_) fun _ _ _ => trivial
  refine ⟨hw'.acts, fun l hl => ?_, hw'.holds⟩
  rw [hw'.beside l hl, hset.node?_of_ne fun he => hl (he ▸ List.prefix_refl _)]

/-! ## A file -/

/-- Where a file was put that the source shows. -/
theorem holds_file {c : Content} (hset : Sets (s ++ (ns ++ [n])) (some (.file c)) w w')
    (hfile : w₁.shows (Path.down source (ns ++ [n])) = some (.file c)) (hn : Path.IsName n)
    (hsize : (Path.join (Path.down dest ns) n).utf8ByteSize ≤ maxPath) : Holds w₁ source dest s (ns ++ [n]) w' := by
  have hbare : ∀ x, x ≠ [] → w'.tree.node? (s ++ (ns ++ [n] ++ x)) = none := by
    intro x hx
    rw [← List.append_assoc]
    exact hset.wellFormed.node?_below (by rw [hset.node?_self]; simp) hx
  refine ⟨fun x hx => ?_, fun x hx => ?_⟩
  · by_cases hempty : x = []
    · rw [hempty, List.append_nil, hset.node?_self, hfile]
    · rw [hbare x hempty, Path.down_append]
      refine (shows_down_of_not_directory g.wellFormed g.cwd ?_ (by rw [hfile]; simp) hx hempty).symm
      rw [Path.down_concat]
      exact hn.join_ne_empty _
  · by_cases hempty : x = []
    · rwa [hempty, List.append_nil, Path.down_concat]
    · exact absurd (hbare x hempty) hx

theorem copyFile_ends (h : Acts s w₁ w) (hns : ∀ m ∈ ns ++ [n], Path.IsName m)
    (hparent : w.tree.node? (s ++ ns) = some .directory) (hfree : w.tree.node? (s ++ (ns ++ [n])) = none) :
    ((files newId).copy (Path.down source (ns ++ [n])) (Path.join (Path.down dest ns) n)).Ends w
      (fun _ w' => Copied w₁ source dest s (ns ++ [n]) w w') fun _ _ => True := by
  have hn := hns n (by simp)
  obtain ⟨seen', hleads⟩ := (g.leadsTo h).down h.wellFormed hparent
  refine ends_perform.mpr ⟨fun w' hcopied => ?_, fun _ => trivial⟩
  have hq : w.Lands true (s ++ ns ++ [n]) (Path.join (Path.down dest ns) n) := by
    refine lands_below hleads hparent ((Under.refl _).join hn) (by simp) (by simpa using hn) fun x _ _ target => ?_
    rw [List.append_assoc]
    exact g.plain h _ target
  obtain ⟨c, hshown, hstored⟩ := copy?_stores hq (by simpa using hfree) hcopied
  obtain ⟨-, hsize⟩ := store?_fits hleads hn hstored
  have hset := store?_sets h.wellFormed hq hstored
  rw [List.append_assoc] at hset
  have hfile : w₁.shows (Path.down source (ns ++ [n])) = some (.file c) := (g.shows h hns).symm.trans hshown
  exact ⟨h.trans (hset.acts_below (by simp) (by simp)), fun l hl => hset.node?_of_ne fun he => hl (he ▸ List.prefix_refl _),
    g.holds_file hset hfile hn hsize⟩

/-! ## Whole trees -/

theorem copyEntry_ends (depth : Nat) : ∀ (around : List String) {base : String} {ns : List String},
    Path.Relative base ns → CopiesEntries w₁ source dest s ns fun n =>
      (files newId).copyEntry dest depth around (Files.relative base n) (Path.join (Path.down source ns) n) := by
  induction depth with
  | zero => exact fun _ _ _ _ _ _ _ _ _ _ => ends_throw.mpr trivial
  | succ depth ih =>
    intro around base ns hbase n w hn h hparent hfree
    have hbelow := hbase.step hn
    have htarget : Path.join dest (Files.relative base n) = Path.join (Path.down dest ns) n := by
      rw [← Path.down_eq_join hbelow (by simp), Path.down_concat]
    dsimp only
    rw [Files.copyEntry, ← Path.down_concat, htarget]
    refine ends_bind.mpr (ends_isLink.mpr (ends_bind.mpr (ends_isDirectory.mpr ?_)))
    split
    · refine ends_bind.mpr (ends_ask.mpr ⟨fun here _ => ?_, fun _ => trivial⟩)
      split
      · exact ends_bind.mpr (ends_throw.mpr trivial)
      · exact g.copyDirectory_ends (ih (here :: around) hbelow) h hbelow.isName hparent hfree
    · exact g.copyFile_ends h hbelow.isName hparent hfree

/-- A copy of a directory, once the directory that receives it has been made. -/
theorem copyTree_ends {w₀ : Workspace} (hmade : (w₀.makeDirectories (maxPath + 1) (Path.join dest "")).1 = w₁)
    (hsource : w₀.isDirectory source = true) (hsize : dest.utf8ByteSize ≤ maxPath) :
    ((files newId).copyTree source dest).Ends w₀ (fun _ w' => Acts s w₁ w' ∧ Holds w₁ source dest s [] w')
      fun _ _ => True := by
  have hself : w₁.tree.node? (s ++ []) = some .directory := by rw [List.append_nil, g.directory]
  obtain ⟨depth, hdepth⟩ : ∃ depth, Files.maxDepth = depth + 1 := ⟨4095, rfl⟩
  rw [Files.copyTree, hdepth, Files.copyEntry]
  refine ends_bind.mpr (ends_isLink.mpr (ends_bind.mpr (ends_isDirectory.mpr ?_)))
  rw [hsource, if_pos rfl]
  refine ends_bind.mpr (ends_ask.mpr ⟨fun here _ => ?_, fun _ => trivial⟩)
  simp only [List.contains_nil, Bool.and_false, Bool.false_eq_true, if_false]
  refine ends_bind.mpr (ends_makeDirectories.mpr ⟨fun _ => ?_, fun _ => trivial⟩)
  rw [hmade]
  exact (g.copyEntries_ends (g.copyEntry_ends depth _ .nil) (Acts.refl g.wellFormed) (by simp) hself g.empty hsize).mono
    (fun _ _ hw' => ⟨hw'.acts, hw'.holds⟩) fun _ _ _ => trivial

end Receives
end Handout.Workspace
