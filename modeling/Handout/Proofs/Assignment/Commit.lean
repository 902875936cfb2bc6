/-
  Handout.Proofs.Assignment.Commit — the views take their place, or everything is as before.

  While views change places, `Swapped moved placed` says which old ones are aside and which
  new ones are in place. Moving one aside and putting one in place extend the lists; taking
  one away and bringing one back shorten them, and cannot fail, because the path of the
  result still leads where it led (`Swapped.leads`). So rolling back from any such state
  ends with both lists empty (`rollBack_ends`), which is what a commit that fails leaves
  (`commit_ends`).
-/

import Handout.Proofs.Assignment.Building

open Handout.Action

namespace Handout.Assignment

open FileTree (Fits maxPath)
open Workspace (Under Moved Made LeadsTo)

variable {w₁ w w' : Workspace} {result : Path} {name v : String} {left : Nat} {r : Location} {seen : List Location}
  {newId : List String → String} {moved placed : List String}

/-- Nothing has changed but what is below the free name, where a directory is, if anything. -/
structure Covered (w₁ : Workspace) (r : Location) (name : String) (w : Workspace) : Prop where
  wellFormed : w.tree.WellFormed
  cwd : w.cwd = w₁.cwd
  outside : ∀ l, ¬ r ++ [name] <+: l → w.tree.node? l = w₁.tree.node? l
  top : w.tree.node? (r ++ [name]) ≠ none → w.tree.node? (r ++ [name]) = some .directory

theorem Staged.covered (h : Staged w₁ r name w) : Covered w₁ r name w := ⟨h.wellFormed, h.cwd, h.outside, h.top⟩

/-- Views were moved aside and new ones put in place. -/
structure Swapped (w₁ : Workspace) (result : Path) (r : Location) (name : String) (moved placed : List String)
    (w : Workspace) : Prop where
  wellFormed : w.tree.WellFormed
  cwd : w.cwd = w₁.cwd
  views : ∀ v, v ∈ moved ∨ v ∈ placed → v ∈ viewNames
  outside : ∀ l, ¬ r ++ [name] <+: l → (∀ v, v ∈ moved ∨ v ∈ placed → ¬ r ++ [v] <+: l) → w.tree.node? l = w₁.tree.node? l
  /-- What was moved was there, and is aside as it was. -/
  there : ∀ v ∈ moved, w₁.tree.node? (r ++ [v]) ≠ none
  aside : ∀ v ∈ moved, ∀ x, w.tree.node? (r ++ name :: asideName :: v :: x) = w₁.tree.node? (r ++ v :: x)
  away : ∀ v ∈ moved, v ∉ placed → w.tree.node? (r ++ [v]) = none
  /-- What was placed is a directory, at a place that was free or became so. -/
  inPlace : ∀ v ∈ placed, w.tree.node? (r ++ [v]) = some .directory
  fresh : ∀ v ∈ placed, v ∉ moved → w₁.tree.node? (r ++ [v]) = none
  asideDirectory : w.tree.node? (r ++ [name, asideName]) = some .directory
  asideFree : ∀ v, v ∉ moved → w.tree.node? (r ++ [name, asideName, v]) = none
  short : ∀ v, v ∈ moved ∨ v ∈ placed → (Path.join result v).utf8ByteSize ≤ maxPath
  shortAside : ∀ v ∈ moved, (Path.join (Path.join (Path.join result name) asideName) v).utf8ByteSize ≤ maxPath

/-- The result leads to a directory, and neither through a view of its own nor through the free name. -/
structure Apart (w₁ : Workspace) (result : Path) (left : Nat) (r : Location) (seen : List Location) (name : String) : Prop
    extends Ground w₁ result left r seen name where
  notView : name ∉ viewNames
  own : ∀ v ∈ viewNames, ∀ l ∈ seen, ¬ r ++ [v] <+: l

theorem Apart.ne_name (g : Apart w₁ result left r seen name) (h : v ∈ viewNames) : v ≠ name := fun he => g.notView (he ▸ h)

theorem fits_of_view (h : v ∈ viewNames) : Fits v := by
  have hall : ∀ v ∈ viewNames, Fits v := by decide
  exact hall v h

theorem fits_asideName : Fits asideName := by decide

theorem ne_asideName_of_view (h : v ∈ viewNames) : v ≠ asideName := by
  have hall : ∀ v ∈ viewNames, v ≠ asideName := by decide
  exact hall v h

theorem prefix_below_iff {a b : String} {x y : Location} : r ++ a :: x <+: r ++ b :: y ↔ a = b ∧ x <+: y := by
  rw [List.prefix_append_right_inj, List.cons_prefix_cons]

theorem prefix_child_iff {a b : String} {x : Location} : r ++ [a] <+: r ++ b :: x ↔ a = b := by
  simp

theorem forall_added_moved {P : String → Prop} :
    (∀ u, u ∈ moved ++ [v] ∨ u ∈ placed → P u) ↔ (∀ u, u ∈ moved ∨ u ∈ placed → P u) ∧ P v := by
  simp only [or_imp, forall_and, List.forall_mem_append, List.forall_mem_singleton]
  tauto

theorem forall_added_placed {P : String → Prop} :
    (∀ u, u ∈ moved ∨ u ∈ placed ++ [v] → P u) ↔ (∀ u, u ∈ moved ∨ u ∈ placed → P u) ∧ P v := by
  simp only [or_imp, forall_and, List.forall_mem_append, List.forall_mem_singleton]
  tauto

/-! ## A view that changes its place -/

/-- The result leads to a directory, with one for old views below the free name. -/
structure Ready (w : Workspace) (result : Path) (left : Nat) (r : Location) (seen : List Location) (name : String) :
    Prop where
  wellFormed : w.tree.WellFormed
  leads : w.LeadsTo result left r seen
  aside : w.tree.node? (r ++ [name, asideName]) = some .directory

namespace Ready

variable (h : Ready w result left r seen name)
include h

theorem top : w.tree.node? (r ++ [name]) = some .directory :=
  h.wellFormed.parent (n := asideName) (by simp [h.aside])

theorem directory : w.tree.node? r = some .directory :=
  h.wellFormed.parent (by rw [h.top]; simp)

theorem leadsStaging : w.LeadsTo (Path.join result name) left (r ++ [name]) (seen ++ [r ++ [name]]) :=
  h.leads.join (h.wellFormed.name (by rw [h.top]; simp)) h.top

theorem aside_child : w.tree.node? (r ++ [name] ++ [asideName]) = some .directory := by
  simpa using h.aside

theorem leadsAside : w.LeadsTo (Path.join (Path.join result name) asideName) left (r ++ [name] ++ [asideName])
    (seen ++ [r ++ [name]] ++ [r ++ [name] ++ [asideName]]) :=
  h.leadsStaging.join fits_asideName h.aside_child

theorem moved_aside (hview : v ∈ viewNames)
    (hrename : w.rename? (Path.join result v) (Path.join (Path.join (Path.join result name) asideName) v) = some w') :
    Moved (r ++ [v]) (r ++ [name, asideName, v]) w w' := by
  have hname := isName_of_view hview
  simpa using Workspace.rename?_moved_child h.wellFormed h.leads h.directory hname h.leadsAside h.aside_child hname (by simp)
    hrename

theorem moved_back (hview : v ∈ viewNames)
    (hrename : w.rename? (Path.join (Path.join (Path.join result name) asideName) v) (Path.join result v) = some w') :
    Moved (r ++ [name, asideName, v]) (r ++ [v]) w w' := by
  have hname := isName_of_view hview
  simpa using Workspace.rename?_moved_child h.wellFormed h.leadsAside h.aside_child hname h.leads h.directory hname (by simp)
    hrename

theorem moved_inPlace (hview : v ∈ viewNames)
    (hrename : w.rename? (Path.join (Path.join result name) v) (Path.join result v) = some w') :
    Moved (r ++ [name, v]) (r ++ [v]) w w' := by
  have hname := isName_of_view hview
  simpa using Workspace.rename?_moved_child h.wellFormed h.leadsStaging h.top hname h.leads h.directory hname (by simp) hrename

end Ready

/-- All has stayed but the place of a view, and what is at `y` below the free name. -/
def Exchanged (r : Location) (name v : String) (y : Location) (w w' : Workspace) : Prop :=
  ∀ l, ¬ r ++ [v] <+: l → ¬ r ++ name :: y <+: l → w'.tree.node? l = w.tree.node? l

namespace Exchanged

variable {u : String} {x y l : Location}

theorem of_moved_to (h : Moved (r ++ [v]) (r ++ name :: y) w w') : Exchanged r name v y w w' := fun _ => h.kept

theorem of_moved_from (h : Moved (r ++ name :: y) (r ++ [v]) w w') : Exchanged r name v y w w' := fun _ hv hy => h.kept hy hv

variable (h : Exchanged r name v y w w')
include h

theorem below (hne : v ≠ name) (hx : ¬ y <+: x) : w'.tree.node? (r ++ name :: x) = w.tree.node? (r ++ name :: x) :=
  h _ (fun hpre => hne (prefix_child_iff.mp hpre)) fun hpre => hx (prefix_below_iff.mp hpre).2

theorem beside (hun : u ≠ name) (huv : u ≠ v) : w'.tree.node? (r ++ u :: x) = w.tree.node? (r ++ u :: x) :=
  h _ (fun hpre => huv (prefix_child_iff.mp hpre).symm) fun hpre => hun (prefix_below_iff.mp hpre).1.symm

theorem outside (hl : ¬ r ++ [name] <+: l) (hv : ¬ r ++ [v] <+: l) : w'.tree.node? l = w.tree.node? l :=
  h l hv fun hpre => hl (List.IsPrefix.trans (by simp) hpre)

end Exchanged

namespace Swapped

theorem covered (h : Swapped w₁ result r name [] [] w) : Covered w₁ r name w :=
  ⟨h.wellFormed, h.cwd, fun l hl => h.outside l hl (by simp), fun _ =>
    h.wellFormed.parent (l := r ++ [name]) (n := asideName) (by simp [h.asideDirectory])⟩

section

variable (g : Apart w₁ result left r seen name)
include g

theorem leads (h : Swapped w₁ result r name moved placed w) : w.LeadsTo result left r seen := by
  rw [LeadsTo, Workspace.start_congr h.cwd]
  refine FileTree.Way.congr g.leads fun l hl => h.outside l (g.toGround.notWithin_of_seen hl) fun v hv => ?_
  exact g.own v (h.views v hv) l hl

theorem ready (h : Swapped w₁ result r name moved placed w) : Ready w result left r seen name :=
  ⟨h.wellFormed, h.leads g, h.asideDirectory⟩

/-- A view that has neither moved nor been placed is as it was. -/
theorem untouched (h : Swapped w₁ result r name moved placed w) (hview : v ∈ viewNames) (hvm : v ∉ moved) (hvp : v ∉ placed)
    (x : Location) : w.tree.node? (r ++ v :: x) = w₁.tree.node? (r ++ v :: x) := by
  refine h.outside _ (fun hpre => g.ne_name hview (prefix_child_iff.mp hpre).symm) fun u hu hpre => ?_
  obtain rfl := prefix_child_iff.mp hpre
  exact hu.elim hvm hvp

/-! ### Back -/

/-- A new view is taken away. -/
theorem takenAway (h : Swapped w₁ result r name moved (v :: placed) w) (hv : v ∉ placed) :
    w.removeAll (Path.join result v) = (w.withTree (w.tree.eraseAll (r ++ [v])), true) ∧
      Swapped w₁ result r name moved placed (w.withTree (w.tree.eraseAll (r ++ [v]))) := by
  have hview := h.views v (by simp)
  have hne := g.ne_name hview
  have hnode : ∀ l, (w.withTree (w.tree.eraseAll (r ++ [v]))).tree.node? l = if r ++ [v] <+: l then none else w.tree.node? l :=
    FileTree.node?_eraseAll (by simp)
  have hkept : ∀ x, (w.withTree (w.tree.eraseAll (r ++ [v]))).tree.node? (r ++ name :: x) = w.tree.node? (r ++ name :: x) := by
    intro x
    rw [hnode, if_neg (by rwa [prefix_child_iff])]
  refine ⟨Workspace.removeAll_child (h.leads g) (fits_of_view hview) (h.inPlace v (by simp)) (h.short v (by simp)), ?_⟩
  refine ⟨h.wellFormed.eraseAll _, h.cwd, fun u hu => h.views u (hu.imp_right (List.mem_cons_of_mem _)), fun l hl hout => ?_,
    h.there, fun u hu x => ?_, fun u hu hup => ?_, fun u hu => ?_, fun u hu => h.fresh u (List.mem_cons_of_mem _ hu), ?_,
    fun u hu => ?_, fun u hu => h.short u (hu.imp_right (List.mem_cons_of_mem _)), h.shortAside⟩
  · rw [hnode]
    split
    · rename_i hpre
      have hfresh := h.fresh v (by simp) fun hm => hout v (Or.inl hm) hpre
      exact (g.wellFormed.node?_of_prefix hfresh hpre).symm
    · rename_i hpre
      refine h.outside l hl fun u hu => ?_
      rcases hu with hu | hu
      · exact hout u (Or.inl hu)
      · rcases List.mem_cons.mp hu with rfl | hu
        · exact hpre
        · exact hout u (Or.inr hu)
  · rw [hkept]
    exact h.aside u hu x
  · rw [hnode]
    split
    · rfl
    · rename_i huv
      rw [prefix_child_iff] at huv
      exact h.away u hu (by simpa [Ne.symm huv] using hup)
  · rw [hnode, if_neg (by rw [prefix_child_iff]; exact fun he => hv (he ▸ hu))]
    exact h.inPlace u (List.mem_cons_of_mem _ hu)
  · rw [hkept]
    exact h.asideDirectory
  · rw [hkept]
    exact h.asideFree u hu

/-- The way back of an old view is free. -/
theorem rename?_back (h : Swapped w₁ result r name (v :: moved) [] w) :
    ∃ w', w.rename? (Path.join (Path.join (Path.join result name) asideName) v) (Path.join result v) = some w' := by
  have hview := h.views v (by simp)
  have hthere : w.tree.node? (r ++ [name] ++ [asideName] ++ [v]) ≠ none := by
    simpa [h.aside v (by simp) []] using h.there v (by simp)
  exact ⟨_, Workspace.rename?_child (h.ready g).leadsAside (fits_of_view hview) hthere (h.shortAside v (by simp)) (h.leads g)
    (fits_of_view hview) (h.away v (by simp) (by simp)) (h.short v (by simp)) fun hpre => by simpa using hpre.length_le⟩

/-- An old view is brought back. -/
theorem broughtBack (h : Swapped w₁ result r name (v :: moved) [] w) (hv : v ∉ moved)
    (hrename : w.rename? (Path.join (Path.join (Path.join result name) asideName) v) (Path.join result v) = some w') :
    Swapped w₁ result r name moved [] w' := by
  have hview := h.views v (by simp)
  have hne := g.ne_name hview
  have hmoved := (h.ready g).moved_back hview hrename
  have hkept := Exchanged.of_moved_from hmoved
  have hback : ∀ x, w'.tree.node? (r ++ v :: x) = w₁.tree.node? (r ++ v :: x) := fun x => by
    rw [← h.aside v (by simp)]
    simpa using hmoved.arrived x
  refine ⟨hmoved.wellFormed, hmoved.cwd.trans h.cwd, fun u hu => h.views u (hu.imp_left (List.mem_cons_of_mem _)),
    fun l hl hout => ?_, fun u hu => h.there u (List.mem_cons_of_mem _ hu), fun u hu x => ?_, fun u hu _ => ?_, by simp,
    by simp, (hkept.below hne (by simp)).trans h.asideDirectory, fun u hu => ?_,
    fun u hu => h.short u (hu.imp_left (List.mem_cons_of_mem _)), fun u hu => h.shortAside u (List.mem_cons_of_mem _ hu)⟩
  · by_cases hpre : r ++ [v] <+: l
    · obtain ⟨x, rfl⟩ := hpre
      simpa using hback x
    · refine (hkept.outside hl hpre).trans (h.outside l hl fun u hu => ?_)
      rcases hu with hu | hu
      · rcases List.mem_cons.mp hu with rfl | hu
        · exact hpre
        · exact hout u (Or.inl hu)
      · cases hu
  · rw [hkept.below hne, h.aside u (List.mem_cons_of_mem _ hu)]
    simpa using fun he : v = u => hv (he ▸ hu)
  · have humem := List.mem_cons_of_mem v hu
    have huv : u ≠ v := fun he => hv (he ▸ hu)
    exact (hkept.beside (g.ne_name (h.views u (Or.inl humem))) huv).trans (h.away u humem (by simp))
  · by_cases huv : u = v
    · subst huv
      simpa using hmoved.gone []
    · rw [hkept.below hne (by simpa using Ne.symm huv)]
      exact h.asideFree u (by simp [huv, hu])

/-! ### Forth -/

/-- An old view is moved aside. -/
theorem setAside (h : Swapped w₁ result r name moved [] w) (hview : v ∈ viewNames) (hv : v ∉ moved)
    (hrename : w.rename? (Path.join result v) (Path.join (Path.join (Path.join result name) asideName) v) = some w') :
    Swapped w₁ result r name (moved ++ [v]) [] w' ∧
      ∀ u, w'.tree.node? (r ++ [name, u]) = w.tree.node? (r ++ [name, u]) := by
  have hne := g.ne_name hview
  obtain ⟨hshort, hshort'⟩ := Workspace.rename?_short hrename
  have hmoved := (h.ready g).moved_aside hview hrename
  have hkept := Exchanged.of_moved_to hmoved
  have hbefore := h.untouched g hview hv (by simp)
  have haside : ∀ x, w'.tree.node? (r ++ name :: asideName :: v :: x) = w₁.tree.node? (r ++ v :: x) := fun x => by
    rw [← hbefore]
    simpa using hmoved.arrived x
  refine ⟨⟨hmoved.wellFormed, hmoved.cwd.trans h.cwd, forall_added_moved.mpr ⟨h.views, hview⟩, fun l hl hout => ?_,
    List.forall_mem_append.mpr ⟨h.there, ?_⟩, List.forall_mem_append.mpr ⟨fun u hu x => ?_, ?_⟩,
    List.forall_mem_append.mpr ⟨fun u hu _ => ?_, ?_⟩, by simp, by simp, (hkept.below hne (by simp)).trans h.asideDirectory,
    fun u hu => ?_, forall_added_moved.mpr ⟨h.short, hshort⟩, List.forall_mem_append.mpr ⟨h.shortAside, ?_⟩⟩, fun u => ?_⟩
  · rw [forall_added_moved] at hout
    exact (hkept.outside hl hout.2).trans (h.outside l hl hout.1)
  · rw [List.forall_mem_singleton, ← hbefore]
    exact hmoved.source
  · rw [hkept.below hne, h.aside u hu]
    simpa using fun he : v = u => hv (he ▸ hu)
  · exact List.forall_mem_singleton.mpr haside
  · have huv : u ≠ v := fun he => hv (he ▸ hu)
    exact (hkept.beside (g.ne_name (h.views u (Or.inl hu))) huv).trans (h.away u hu (by simp))
  · exact List.forall_mem_singleton.mpr fun _ => by simpa using hmoved.gone []
  · rw [List.mem_append, List.mem_singleton, not_or] at hu
    rw [hkept.below hne (by simpa using Ne.symm hu.2)]
    exact h.asideFree u hu.1
  · exact List.forall_mem_singleton.mpr hshort'
  · exact hkept.below hne (by simp)

/-- A new view is put in place. -/
theorem putInPlace (h : Swapped w₁ result r name moved placed w) (hview : v ∈ viewNames) (hv : v ∉ placed)
    (hstaged : w.tree.node? (r ++ [name, v]) ≠ none → w.tree.node? (r ++ [name, v]) = some .directory)
    (hfree : v ∉ moved → (Path.join result v).utf8ByteSize ≤ maxPath → w₁.tree.node? (r ++ [v]) ≠ some .directory)
    (hrename : w.rename? (Path.join (Path.join result name) v) (Path.join result v) = some w') :
    Swapped w₁ result r name moved (placed ++ [v]) w' ∧
      ∀ u, u ≠ v → w'.tree.node? (r ++ [name, u]) = w.tree.node? (r ++ [name, u]) := by
  have hne := g.ne_name hview
  obtain ⟨-, hshort⟩ := Workspace.rename?_short hrename
  have hmoved := (h.ready g).moved_inPlace hview hrename
  have hkept := Exchanged.of_moved_from hmoved
  have hsource := hstaged hmoved.source
  have haway : ¬ [v] <+: [asideName] := by simpa using ne_asideName_of_view hview
  -- a directory would have been moved aside
  have hvacant : w.tree.node? (r ++ [v]) = none := by
    by_cases hvm : v ∈ moved
    · exact h.away v hvm hv
    · refine hmoved.alike.resolve_right fun halike => hfree hvm hshort ?_
      rw [← h.untouched g hview hvm hv]
      exact halike.mp hsource
  have hother : ∀ u, (u ∈ moved ∨ u ∈ placed) → u ≠ v → w'.tree.node? (r ++ [u]) = w.tree.node? (r ++ [u]) :=
    fun u hu huv => hkept.beside (g.ne_name (h.views u hu)) huv
  refine ⟨⟨hmoved.wellFormed, hmoved.cwd.trans h.cwd, forall_added_placed.mpr ⟨h.views, hview⟩, fun l hl hout => ?_, h.there,
    fun u hu x => ?_, fun u hu hup => ?_, List.forall_mem_append.mpr ⟨fun u hu => ?_, ?_⟩,
    List.forall_mem_append.mpr ⟨h.fresh, ?_⟩, (hkept.below hne haway).trans h.asideDirectory, fun u hu => ?_,
    forall_added_placed.mpr ⟨h.short, hshort⟩, h.shortAside⟩, fun u hu => ?_⟩
  · rw [forall_added_placed] at hout
    exact (hkept.outside hl hout.2).trans (h.outside l hl hout.1)
  · rw [hkept.below hne, h.aside u hu]
    simpa using ne_asideName_of_view hview
  · rw [List.mem_append, List.mem_singleton, not_or] at hup
    rw [hother u (Or.inl hu) hup.2, h.away u hu hup.1]
  · rw [hother u (Or.inr hu) fun he => hv (he ▸ hu), h.inPlace u hu]
  · rw [List.forall_mem_singleton, ← hsource]
    simpa using hmoved.arrived []
  · exact List.forall_mem_singleton.mpr fun hvm => (h.untouched g hview hvm hv []).symm.trans hvacant
  · rw [hkept.below hne, h.asideFree u hu]
    simpa using ne_asideName_of_view hview
  · exact hkept.below hne (by simpa using Ne.symm hu)

end

end Swapped

/-! ## Rolling back -/

section

variable (g : Apart w₁ result left r seen name)
include g

theorem removeAllOf_ends (hplaced : placed.Nodup) (h : Swapped w₁ result r name moved placed w)
    (E : Failure → Workspace → Prop) :
    (removeAllOf (Workspace.files newId) result placed).Ends w (fun _ w' => Swapped w₁ result r name moved [] w') E := by
  induction placed generalizing w with
  | nil => exact ends_pure.mpr h
  | cons v placed ih =>
    obtain ⟨hv, hplaced⟩ := List.nodup_cons.mp hplaced
    obtain ⟨hremove, hless⟩ := h.takenAway g hv
    refine ends_bind.mpr (Files.ends_attempt.mpr (Workspace.ends_removeAll.mpr ?_))
    rw [hremove]
    exact ⟨fun _ => ih hplaced hless, fun hnot => absurd hnot (by simp)⟩

theorem bringBack_ends (hmoved : moved.Nodup) (h : Swapped w₁ result r name moved [] w) (E : Failure → Workspace → Prop) :
    (bringBack (Workspace.files newId) (Path.join (Path.join result name) asideName) result moved).Ends w
      (fun _ w' => Swapped w₁ result r name [] [] w') E := by
  induction moved generalizing w with
  | nil => exact ends_pure.mpr h
  | cons v moved ih =>
    obtain ⟨hv, hmoved⟩ := List.nodup_cons.mp hmoved
    refine ends_bind.mpr (Files.ends_attempt.mpr (Workspace.ends_rename.mpr ⟨fun w' hrename => ?_, fun hnone => ?_⟩))
    · exact ih hmoved (h.broughtBack g hv hrename)
    · obtain ⟨w', hsome⟩ := h.rename?_back g
      rw [hsome] at hnone
      cases hnone

/-- From any state on the way everything comes back, and nothing of it fails. -/
theorem rollBack_ends (hmoved : moved.Nodup) (hplaced : placed.Nodup) (h : Swapped w₁ result r name moved placed w)
    (E : Failure → Workspace → Prop) :
    (rollBack (Workspace.files newId) (Path.join (Path.join result name) asideName) result moved placed).Ends w
      (fun _ w' => Swapped w₁ result r name [] [] w') E :=
  ends_bind.mpr ((removeAllOf_ends g hplaced h E).mono (fun _ _ hw => bringBack_ends g hmoved hw E) fun _ _ hf => hf)

/-! ## Committing -/

/-- Either the views that are there are aside, or everything is back. -/
theorem moveAside_ends {views : List String} (hviews : ∀ v ∈ views, v ∈ viewNames) (hnodup : (moved ++ views).Nodup)
    (h : Swapped w₁ result r name moved [] w) :
    (moveAside (Workspace.files newId) (Path.join (Path.join result name) asideName) result moved views).Ends w
      (fun moved' w' => Swapped w₁ result r name moved' [] w' ∧ moved'.Nodup ∧ moved ⊆ moved' ∧
        (∀ v ∈ views, v ∉ moved' → (Path.join result v).utf8ByteSize ≤ maxPath →
          w₁.tree.node? (r ++ [v]) ≠ some .directory) ∧
        ∀ u, w'.tree.node? (r ++ [name, u]) = w.tree.node? (r ++ [name, u]))
      fun _ w' => Swapped w₁ result r name [] [] w' := by
  induction views generalizing moved w with
  | nil =>
    rw [List.append_nil] at hnodup
    exact ends_pure.mpr ⟨h, hnodup, fun _ hv => hv, by simp, fun _ => rfl⟩
  | cons v views ih =>
    obtain ⟨hview, hviews⟩ := List.forall_mem_cons.mp hviews
    have hvm : v ∉ moved := fun hv => (List.disjoint_of_nodup_append hnodup) hv (by simp)
    have hnodup' : ((moved ++ [v]) ++ views).Nodup := by rwa [List.append_assoc]
    refine ends_bind.mpr (Workspace.ends_isPresent.mpr ?_)
    split
    · -- it is there and moves
      refine ends_bind.mpr (Files.ends_orUndo.mpr (Workspace.ends_rename.mpr ⟨fun w' hrename => ?_, fun _ => ?_⟩))
      · obtain ⟨hmoved, hsame⟩ := h.setAside g hview hvm hrename
        refine (ih hviews hnodup' hmoved).mono (fun moved' w'' hw => ?_) fun _ _ hf => hf
        obtain ⟨hswapped, hnd, hsubset, hfree, hstay⟩ := hw
        refine ⟨hswapped, hnd, fun u hu => hsubset (List.mem_append_left _ hu), ?_, fun u => (hstay u).trans (hsame u)⟩
        exact List.forall_mem_cons.mpr ⟨fun hnot => absurd (hsubset (by simp)) hnot, hfree⟩
      · exact rollBack_ends g (List.Nodup.of_append_left hnodup) List.nodup_nil h _
    · rename_i habsent
      have hrest : (moved ++ views).Nodup := hnodup.sublist (List.Sublist.append_left (List.sublist_cons_self ..) _)
      refine (ih hviews hrest h).mono (fun moved' w' hw => ?_) fun _ _ hf => hf
      obtain ⟨hswapped, hnd, hsubset, hfree, hstay⟩ := hw
      refine ⟨hswapped, hnd, hsubset, List.forall_mem_cons.mpr ⟨fun _ hshort hdir => habsent ?_, hfree⟩, hstay⟩
      refine Workspace.isPresent_child (h.leads g) (fits_of_view hview) ?_ hshort
      rw [h.untouched g hview hvm (by simp), hdir]

/-- Either the new views are in place, or everything is back. -/
theorem place_ends {views : List String} (hviews : ∀ v ∈ views, v ∈ viewNames) (hmoved : moved.Nodup)
    (hnodup : (placed ++ views).Nodup) (h : Swapped w₁ result r name moved placed w)
    (hstaged : ∀ v ∈ views, w.tree.node? (r ++ [name, v]) ≠ none → w.tree.node? (r ++ [name, v]) = some .directory)
    (hfree : ∀ v ∈ views, v ∉ moved → (Path.join result v).utf8ByteSize ≤ maxPath →
      w₁.tree.node? (r ++ [v]) ≠ some .directory) :
    (place (Workspace.files newId) (Path.join result name) (Path.join (Path.join result name) asideName) result moved placed
        views).Ends w (fun _ _ => True) fun _ w' => Swapped w₁ result r name [] [] w' := by
  induction views generalizing placed w with
  | nil => exact ends_pure.mpr trivial
  | cons v views ih =>
    rw [List.forall_mem_cons] at hviews hstaged hfree
    have hv : v ∉ placed := fun hv => (List.disjoint_of_nodup_append hnodup) hv (by simp)
    refine ends_bind.mpr (Files.ends_orUndo.mpr (Workspace.ends_rename.mpr ⟨fun w' hrename => ?_, fun _ => ?_⟩))
    · obtain ⟨hplaced, hsame⟩ := h.putInPlace g hviews.1 hv hstaged.1 hfree.1 hrename
      refine ih hviews.2 (by rwa [List.append_assoc]) hplaced (fun u hu => ?_) hfree.2
      have huv : u ≠ v := by
        rintro rfl
        exact (List.nodup_cons.mp (List.Nodup.of_append_right hnodup)).1 hu
      rw [hsame u huv]
      exact hstaged.2 u hu
    · exact rollBack_ends g hmoved (List.Nodup.of_append_left hnodup) h _

omit g in
/-- The directory for old views is made below the free name, and nothing else but what it lacks above it. -/
theorem made_aside (g : Ground w₁ result left r seen name) (h : Staged w₁ r name w) :
    let made := w.makeDirectories (maxPath + 1) (Path.join (Path.join result name) asideName)
    Made w (Path.join (Path.join result name) asideName) made.1 ∧
      (∀ l, made.1.tree.node? l = w.tree.node? l ∨
        (made.1.tree.node? l = some .directory ∧ ∃ x, x <+: [asideName] ∧ l = r ++ name :: x)) ∧
      (made.2 = true → made.1.tree.node? (r ++ [name, asideName]) = some .directory) := by
  intro made
  have hunder : Under result [name, asideName] (Path.join (Path.join result name) asideName) :=
    ((Under.refl result).join g.isName).join fits_asideName.isName
  have hnames : ∀ m ∈ [name, asideName], Path.IsName m := by simp [g.isName, fits_asideName.isName]
  have hleads := h.leads g
  obtain ⟨hmade, hdone⟩ := Workspace.makeDirectories_spec h.wellFormed (h.node?_cwd g) (maxPath + 1)
    (Path.join (Path.join result name) asideName)
  have hkept : ∀ l, made.1.tree.node? l = w.tree.node? l ∨
      (made.1.tree.node? l = some .directory ∧ ∃ x, x <+: [asideName] ∧ l = r ++ name :: x) := by
    intro l
    rcases hmade.grown l with hsame | ⟨hnone, hdir⟩
    · exact Or.inl hsame
    · have hbelow := hmade.below hleads hunder (g.isName.namesOf_join result) hnames h.plain hnone (by rw [hdir]; simp)
      exact Or.inr ⟨hdir, hbelow.2⟩
  refine ⟨hmade, hkept, fun hok => ?_⟩
  have hcwd := hmade.node?_cwd (h.node?_cwd g)
  have hleads' : made.1.LeadsTo result left r seen := by
    rw [LeadsTo, Workspace.start_congr hmade.cwd]
    exact FileTree.Way.grown hleads hmade.grown
  refine (hdone hok).below hmade.wellFormed hcwd hleads' hunder (by simp) hnames fun x hx hpre target => ?_
  obtain ⟨m, x, rfl⟩ := List.exists_cons_of_ne_nil hx
  obtain ⟨rfl, -⟩ := List.cons_prefix_cons.mp hpre
  rcases hkept (r ++ m :: x) with hsame | ⟨hdir, -⟩
  · rw [hsame]
    exact h.plain x target
  · rw [hdir]
    simp

/-- With the directory for old views made, nothing has moved yet. -/
theorem commit_starts (h : Staged w₁ r name w) :
    let aside := Path.join (Path.join result name) asideName
    let made := w.makeDirectories (maxPath + 1) aside
    Covered w₁ r name made.1 ∧ (made.2 = true → Swapped w₁ result r name [] [] made.1 ∧
      ∀ v ∈ viewNames, made.1.tree.node? (r ++ [name, v]) ≠ none → made.1.tree.node? (r ++ [name, v]) = some .directory) := by
  intro aside made
  obtain ⟨hmade, hkept, hdone⟩ := made_aside g.toGround h
  have hsame : ∀ l, (∀ x, x <+: [asideName] → l ≠ r ++ name :: x) → made.1.tree.node? l = w.tree.node? l := by
    intro l hl
    rcases hkept l with hsame | ⟨-, x, hx, he⟩
    · exact hsame
    · exact absurd he (hl x hx)
  have houtside : ∀ l, ¬ r ++ [name] <+: l → made.1.tree.node? l = w₁.tree.node? l := by
    intro l hl
    rw [hsame l, h.outside l hl]
    rintro x - rfl
    exact hl (by simp)
  refine ⟨⟨hmade.wellFormed, hmade.cwd.trans h.cwd, houtside, fun hsome => ?_⟩, fun hok => ⟨?_, fun v hv hsome => ?_⟩⟩
  · rcases hkept (r ++ [name]) with hsame | ⟨hdir, -⟩
    · rw [hsame] at hsome ⊢
      exact h.top hsome
    · exact hdir
  · refine ⟨hmade.wellFormed, hmade.cwd.trans h.cwd, by simp, fun l hl _ => houtside l hl, by simp, by simp, by simp, by simp,
      by simp, hdone hok, fun v _ => ?_, by simp, by simp⟩
    -- no view has the name of the directory for old ones
    have hnone : w.tree.node? (r ++ [name, asideName]) = none := by
      by_contra hsome
      exact absurd (h.views asideName hsome).1 (by decide)
    rw [hsame, h.wellFormed.node?_of_prefix hnone (by simp)]
    intro x hx he
    obtain rfl : [asideName, v] = x := by simpa using he
    exact absurd hx.length_le (by simp)
  · have hview : made.1.tree.node? (r ++ [name, v]) = w.tree.node? (r ++ [name, v]) := by
      refine hsame _ fun x hx he => ?_
      obtain rfl : [v] = x := by simpa using he
      exact ne_asideName_of_view hv (List.cons_prefix_cons.mp hx).1
    rw [hview] at hsome ⊢
    exact (h.views v hsome).2

/-- A commit that fails leaves what was there before the views were made, but for what is
    below the free name. -/
theorem commit_ends (h : Staged w₁ r name w) :
    (commit (Workspace.files newId) (Path.join result name) result).Ends w (fun _ _ => True)
      fun _ w' => Covered w₁ r name w' := by
  obtain ⟨hcovered, hdone⟩ := commit_starts g h
  refine ends_bind.mpr (Workspace.ends_makeDirectories.mpr ⟨fun hok => ?_, fun _ => hcovered⟩)
  obtain ⟨hswapped, hstaged⟩ := hdone hok
  have hviews : ∀ v ∈ viewNames, v ∈ viewNames := fun _ hv => hv
  have hnodup : ([] ++ viewNames).Nodup := by decide
  refine ends_bind.mpr ((moveAside_ends g hviews hnodup hswapped).mono (fun moved w' hw => ?_) fun _ _ hf => hf.covered)
  obtain ⟨hmoved, hnd, -, hfree, hstay⟩ := hw
  refine (place_ends g hviews hnd hnodup hmoved (fun v hv hsome => ?_) hfree).mono (fun _ _ _ => trivial) fun _ _ hf => hf.covered
  rw [hstay v] at hsome ⊢
  exact hstaged v hv hsome

/-- Nothing has changed. -/
structure Same (w₁ w : Workspace) : Prop where
  cwd : w.cwd = w₁.cwd
  node? : ∀ l, w.tree.node? l = w₁.tree.node? l

omit g in
/-- What is below the free name goes. -/
theorem discard_ends (g : Ground w₁ result left r seen name) (hsize : (Path.join result name).utf8ByteSize ≤ maxPath)
    (h : Covered w₁ r name w) (E : Failure → Workspace → Prop) :
    (discard (Workspace.files newId) (Path.join result name)).Ends w (fun _ w' => Same w₁ w') E := by
  have hleads : w.LeadsTo result left r seen := by
    rw [LeadsTo, Workspace.start_congr h.cwd]
    exact FileTree.Way.congr g.leads fun l hl => h.outside l (g.notWithin_of_seen hl)
  have hbelow : ∀ l, r ++ [name] <+: l → w₁.tree.node? l = none := fun l => g.wellFormed.node?_of_prefix g.free
  refine ends_bind.mpr (Workspace.ends_isPresent.mpr ?_)
  by_cases hnone : w.tree.node? (r ++ [name]) = none
  · rw [Workspace.not_isPresent_child hleads g.isName hnone, if_neg (by simp)]
    refine ends_pure.mpr ⟨h.cwd, fun l => ?_⟩
    by_cases hl : r ++ [name] <+: l
    · rw [h.wellFormed.node?_of_prefix hnone hl, hbelow l hl]
    · exact h.outside l hl
  · have hfits : Fits name := h.wellFormed.name hnone
    have hdir := h.top hnone
    rw [Workspace.isPresent_child hleads hfits hdir hsize, if_pos rfl]
    refine Files.ends_attempt.mpr (Workspace.ends_removeAll.mpr ?_)
    rw [Workspace.removeAll_child hleads hfits hdir hsize]
    refine ⟨fun _ => ⟨h.cwd, fun l => ?_⟩, fun hnot => absurd hnot (by simp)⟩
    refine (FileTree.node?_eraseAll (by simp) l).trans ?_
    split
    · rename_i hl
      rw [hbelow l hl]
    · rename_i hl
      exact h.outside l hl

end

end Handout.Assignment
