/-
  Handout.Proofs.Assignment.Placing — a commit that succeeds leaves the new views in place.

  While views change places, `Underway moved placed` says of each place what stands there: in
  the place of a view the new one, or nothing when the old one was moved aside, and
  everywhere else what stood there before. Nothing is assumed about the path of the result. Should it
  lead through a view of its own, it is cut as soon as that view is moved aside, and no new view
  finds its place (`Underway.leads_or_cut`); so when all of them have, the path still leads
  where it led (`commit_places`).
-/

import Handout.Proofs.Assignment.Commit

open Handout.Action

namespace Handout.Assignment

open FileTree (Fits maxPath)
open Workspace (LeadsTo)

variable {w₀ w₁ w w' : Workspace} {result : Path} {name v : String} {left : Nat} {r : Location} {seen : List Location}
  {newId : List String → String} {moved placed : List String}

/-- Old views were moved aside and new ones put in place. -/
structure Underway (w₀ : Workspace) (r : Location) (name : String) (moved placed : List String) (w : Workspace) : Prop where
  wellFormed : w.tree.WellFormed
  cwd : w.cwd = w₀.cwd
  views : ∀ v, v ∈ moved ∨ v ∈ placed → v ∈ viewNames
  aside : w.tree.node? (r ++ [name, asideName]) = some .directory
  staged : ∀ v ∈ viewNames, v ∉ placed → ∀ x, w.tree.node? (r ++ name :: v :: x) = w₀.tree.node? (r ++ name :: v :: x)
  inPlace : ∀ v ∈ placed, ∀ x, w.tree.node? (r ++ v :: x) = w₀.tree.node? (r ++ name :: v :: x)
  away : ∀ v ∈ moved, v ∉ placed → ∀ x, w.tree.node? (r ++ v :: x) = none
  outside : ∀ l, ¬ r ++ [name] <+: l → (∀ v, v ∈ moved ∨ v ∈ placed → ¬ r ++ [v] <+: l) → w.tree.node? l = w₀.tree.node? l

/-- Nothing is found beyond a path, and nothing can be made there. -/
def Cut (w : Workspace) (result : Path) : Prop :=
  ∀ n follow, Path.IsName n → ∀ l slash, w.tree.landing w.cwd follow (Path.join result n) ≠ .found l ∧
    w.tree.landing w.cwd follow (Path.join result n) ≠ .vacant l slash

theorem Cut.not_isPresent (h : Cut w result) (hv : Path.IsName v) : w.isPresent (Path.join result v) = false := by
  unfold Workspace.isPresent Workspace.nodeAt? Workspace.follow
  split
  · rename_i l hfound
    exact absurd hfound (h v true hv l false).1
  · rfl

theorem Cut.rename?_eq_none (h : Cut w result) (hv : Path.IsName v) (p : Path) : w.rename? p (Path.join result v) = none := by
  unfold Workspace.rename?
  split
  · dsimp only
    split
    · rename_i l hfound
      exact absurd hfound (h v false hv l false).1
    · rename_i l slash hvacant
      exact absurd hvacant (h v false hv l slash).2
    · rfl
  · rfl

/-- The path of a result that leads to a directory, not by way of a name in it that is none of the views. -/
structure Reached (w₀ : Workspace) (result : Path) (left : Nat) (r : Location) (seen : List Location) (name : String) :
    Prop where
  leads : w₀.LeadsTo result left r seen
  seen : ∀ l ∈ seen, ¬ r ++ [name] <+: l
  isName : Path.IsName name
  notView : name ∉ viewNames

theorem Reached.ne_name (g : Reached w₀ result left r seen name) (h : v ∈ viewNames) : v ≠ name := fun he => g.notView (he ▸ h)

namespace Underway

theorem top (h : Underway w₀ r name moved placed w) : w.tree.node? (r ++ [name]) = some .directory :=
  h.wellFormed.parent (n := asideName) (by simp [h.aside])

theorem ready (h : Underway w₀ r name moved placed w) (hleads : w.LeadsTo result left r seen) :
    Ready w result left r seen name :=
  ⟨h.wellFormed, hleads, h.aside⟩

variable (g : Reached w₀ result left r seen name)
include g

/-- When no new view lies on the way, the path leads where it led, or nowhere. -/
theorem leads_or_cut (h : Underway w₀ r name moved placed w) (hown : ∀ v ∈ placed, ∀ l ∈ seen, ¬ r ++ [v] <+: l) :
    w.LeadsTo result left r seen ∨ Cut w result := by
  have hless : ∀ l ∈ seen, w.tree.node? l = w₀.tree.node? l ∨ w.tree.node? l = none := by
    intro l hl
    by_cases haway : ∃ v ∈ moved, v ∉ placed ∧ r ++ [v] <+: l
    · obtain ⟨v, hv, hvp, x, rfl⟩ := haway
      right
      simpa using h.away v hv hvp x
    · left
      apply h.outside l (g.seen l hl)
      intro v hv hpre
      by_cases hvp : v ∈ placed
      · exact hown v hvp l hl hpre
      · exact haway ⟨v, hv.resolve_right hvp, hvp, hpre⟩
  by_cases hcut : ∃ l ∈ seen, w.tree.node? l = none
  · right
    intro n follow hn l slash
    by_cases hsize : maxPath < (Path.join result n).utf8ByteSize
    · rw [Workspace.landing_of_tooLong hsize]
      simp
    · have hwalk : FileTree.walk w.tree follow FileTree.maxLinks (w₀.start result) (Path.beginning result ++ [n]) = .missing :=
        FileTree.Way.walk_cut g.leads hless hcut (by simpa using hn.ne_empty)
      rw [Workspace.landing_eq (hn.join_ne_empty result) (Nat.not_lt.mp hsize), Workspace.start_congr h.cwd, Workspace.start,
        Path.isAbsolute_join hn.isAbsolute, hn.namesOf_join, ← Workspace.start, hwalk]
      simp
  · left
    rw [LeadsTo, Workspace.start_congr h.cwd]
    apply FileTree.Way.congr g.leads
    intro l hl
    exact (hless l hl).resolve_right fun hnone => hcut ⟨l, hl, hnone⟩

/-- A view that has neither moved nor been placed is as it was. -/
theorem untouched (h : Underway w₀ r name moved placed w) (hview : v ∈ viewNames) (hvm : v ∉ moved) (hvp : v ∉ placed)
    (x : Location) : w.tree.node? (r ++ v :: x) = w₀.tree.node? (r ++ v :: x) := by
  refine h.outside _ (fun hpre => g.ne_name hview (prefix_child_iff.mp hpre).symm) fun u hu hpre => ?_
  obtain rfl := prefix_child_iff.mp hpre
  exact hu.elim hvm hvp

/-- An old view is moved aside. -/
theorem setAside (h : Underway w₀ r name moved [] w) (hleads : w.LeadsTo result left r seen) (hview : v ∈ viewNames)
    (hrename : w.rename? (Path.join result v) (Path.join (Path.join (Path.join result name) asideName) v) = some w') :
    Underway w₀ r name (moved ++ [v]) [] w' := by
  have hne := g.ne_name hview
  have hmoved := (h.ready hleads).moved_aside hview hrename
  have hkept := Exchanged.of_moved_to hmoved
  refine ⟨hmoved.wellFormed, hmoved.cwd.trans h.cwd, forall_added_moved.mpr ⟨h.views, hview⟩,
    (hkept.below hne (by simp)).trans h.aside, fun u hu _ x => ?_, by simp,
    List.forall_mem_append.mpr ⟨fun u hu _ x => ?_, ?_⟩, fun l hl hout => ?_⟩
  · rw [hkept.below hne, h.staged u hu (by simp)]
    rw [List.cons_prefix_cons]
    exact fun hpre => ne_asideName_of_view hu hpre.1.symm
  · by_cases huv : u = v
    · subst huv
      simpa using hmoved.gone x
    · exact (hkept.beside (g.ne_name (h.views u (Or.inl hu))) huv).trans (h.away u hu (by simp) x)
  · exact List.forall_mem_singleton.mpr fun _ x => by simpa using hmoved.gone x
  · rw [forall_added_moved] at hout
    exact (hkept.outside hl hout.2).trans (h.outside l hl hout.1)

/-- A new view is put in place, which is free. -/
theorem putInPlace (h : Underway w₀ r name moved placed w) (hleads : w.LeadsTo result left r seen) (hview : v ∈ viewNames)
    (hv : v ∉ placed)
    (hdirectory : w₀.tree.node? (r ++ [name, v]) ≠ none → w₀.tree.node? (r ++ [name, v]) = some .directory)
    (hfree : v ∉ moved → (Path.join result v).utf8ByteSize ≤ maxPath → w₀.tree.node? (r ++ [v]) ≠ some .directory)
    (hrename : w.rename? (Path.join (Path.join result name) v) (Path.join result v) = some w') :
    Underway w₀ r name moved (placed ++ [v]) w' ∧ w.tree.node? (r ++ [v]) = none := by
  have hne := g.ne_name hview
  obtain ⟨-, hshort⟩ := Workspace.rename?_short hrename
  have hmoved := (h.ready hleads).moved_inPlace hview hrename
  have hkept := Exchanged.of_moved_from hmoved
  have hsource : w.tree.node? (r ++ [name, v]) = some .directory := by
    have hthere := hmoved.source
    rw [h.staged v hview hv []] at hthere ⊢
    exact hdirectory hthere
  -- a directory would have been moved aside
  have hvacant : w.tree.node? (r ++ [v]) = none := by
    by_cases hvm : v ∈ moved
    · exact h.away v hvm hv []
    · refine hmoved.alike.resolve_right fun halike => hfree hvm hshort ?_
      rw [← h.untouched g hview hvm hv]
      exact halike.mp hsource
  refine ⟨⟨hmoved.wellFormed, hmoved.cwd.trans h.cwd, forall_added_placed.mpr ⟨h.views, hview⟩,
    (hkept.below hne (by simpa using ne_asideName_of_view hview)).trans h.aside, fun u hu hup x => ?_,
    List.forall_mem_append.mpr ⟨fun u hu x => ?_, ?_⟩, fun u hu hup x => ?_, fun l hl hout => ?_⟩, hvacant⟩
  · rw [List.mem_append, List.mem_singleton, not_or] at hup
    rw [hkept.below hne (by simpa using Ne.symm hup.2), h.staged u hu hup.1]
  · have huv : u ≠ v := fun he => hv (he ▸ hu)
    rw [hkept.beside (g.ne_name (h.views u (Or.inr hu))) huv, h.inPlace u hu]
  · refine List.forall_mem_singleton.mpr fun x => ?_
    rw [← h.staged v hview hv]
    simpa using hmoved.arrived x
  · rw [List.mem_append, List.mem_singleton, not_or] at hup
    rw [hkept.beside (g.ne_name (h.views u (Or.inl hu))) hup.2, h.away u hu hup.1]
  · rw [forall_added_placed] at hout
    exact (hkept.outside hl hout.2).trans (h.outside l hl hout.1)

end Underway

/-! ## Committing -/

section

variable (g : Reached w₀ result left r seen name)
include g

theorem moveAside_places {views : List String} (hviews : ∀ v ∈ views, v ∈ viewNames) (h : Underway w₀ r name moved [] w) :
    (moveAside (Workspace.files newId) (Path.join (Path.join result name) asideName) result moved views).Ends w
      (fun moved' w' => Underway w₀ r name moved' [] w' ∧ moved ⊆ moved' ∧
        ((∀ v ∈ moved', ∀ l ∈ seen, ¬ r ++ [v] <+: l) → ∀ v ∈ views, v ∉ moved' →
          (Path.join result v).utf8ByteSize ≤ maxPath → w₀.tree.node? (r ++ [v]) ≠ some .directory))
      fun _ _ => True := by
  induction views generalizing moved w with
  | nil => exact ends_pure.mpr ⟨h, fun _ hv => hv, by simp⟩
  | cons v views ih =>
    obtain ⟨hview, hviews⟩ := List.forall_mem_cons.mp hviews
    refine ends_bind.mpr (Workspace.ends_isPresent.mpr ?_)
    split
    · -- it is there and moves
      rename_i hpresent
      refine ends_bind.mpr (Files.ends_orUndo.mpr (Workspace.ends_rename.mpr ⟨fun w' hrename => ?_, fun _ => ends_true _ _⟩))
      rcases h.leads_or_cut g (by simp) with hleads | hcut
      · refine (ih hviews (h.setAside g hleads hview hrename)).mono (fun moved' w'' hw => ?_) fun _ _ hf => hf
        obtain ⟨hunderway, hsubset, hfree⟩ := hw
        refine ⟨hunderway, fun u hu => hsubset (List.mem_append_left _ hu), fun hown => ?_⟩
        exact List.forall_mem_cons.mpr ⟨fun hnot => absurd (hsubset (by simp)) hnot, hfree hown⟩
      · rw [hcut.not_isPresent (isName_of_view hview)] at hpresent
        cases hpresent
    · rename_i habsent
      refine (ih hviews h).mono (fun moved' w' hw => ?_) fun _ _ hf => hf
      obtain ⟨hunderway, hsubset, hfree⟩ := hw
      refine ⟨hunderway, hsubset, fun hown => List.forall_mem_cons.mpr ⟨fun hvm hshort hdir => habsent ?_, hfree hown⟩⟩
      have hleads : w.LeadsTo result left r seen := by
        rw [LeadsTo, Workspace.start_congr h.cwd]
        refine FileTree.Way.congr g.leads fun l hl => h.outside l (g.seen l hl) fun u hu => ?_
        exact hown u (hsubset (by simpa using hu)) l hl
      refine Workspace.isPresent_child hleads (fits_of_view hview) ?_ hshort
      rw [h.untouched g hview (fun hv => hvm (hsubset hv)) (by simp), hdir]

/-- When new views find their places, none of them lies on the way of the result. -/
theorem place_places {views : List String} (hviews : ∀ v ∈ views, v ∈ viewNames) (hnodup : (placed ++ views).Nodup)
    (h : Underway w₀ r name moved placed w)
    (hdirectory : ∀ v ∈ viewNames, w₀.tree.node? (r ++ [name, v]) ≠ none → w₀.tree.node? (r ++ [name, v]) = some .directory)
    (hfree : (∀ v ∈ moved, ∀ l ∈ seen, ¬ r ++ [v] <+: l) → ∀ v ∈ views, v ∉ moved →
      (Path.join result v).utf8ByteSize ≤ maxPath → w₀.tree.node? (r ++ [v]) ≠ some .directory)
    (hown : ∀ v ∈ placed, ∀ l ∈ seen, ¬ r ++ [v] <+: l) (aside : Path) :
    (place (Workspace.files newId) (Path.join result name) aside result moved placed views).Ends w
      (fun _ w' => Underway w₀ r name moved (placed ++ views) w' ∧ ∀ v ∈ placed ++ views, ∀ l ∈ seen, ¬ r ++ [v] <+: l)
      fun _ _ => True := by
  induction views generalizing placed w with
  | nil => exact ends_pure.mpr (by simpa using ⟨h, hown⟩)
  | cons v views ih =>
    rw [List.forall_mem_cons] at hviews
    have hv : v ∉ placed := fun hv => (List.disjoint_of_nodup_append hnodup) hv (by simp)
    refine ends_bind.mpr (Files.ends_orUndo.mpr (Workspace.ends_rename.mpr ⟨fun w' hrename => ?_, fun _ => ends_true _ _⟩))
    rcases h.leads_or_cut g hown with hleads | hcut
    · -- what is seen on the way is there, so it is in no place of a view that was moved or is free
      have hseen : ∀ l ∈ seen, w.tree.node? l ≠ none := fun l hl => FileTree.Way.node?_seen hleads l hl
      have hmoved : ∀ u ∈ moved, ∀ l ∈ seen, ¬ r ++ [u] <+: l := by
        intro u hu l hl hpre
        by_cases hup : u ∈ placed
        · exact hown u hup l hl hpre
        · obtain ⟨x, rfl⟩ := hpre
          exact hseen _ hl (by simpa using h.away u hu hup x)
      have hfree' := hfree hmoved
      rw [List.forall_mem_cons] at hfree'
      obtain ⟨hplaced, hvacant⟩ := h.putInPlace g hleads hviews.1 hv (hdirectory v hviews.1) hfree'.1 hrename
      have hown' : ∀ u ∈ placed ++ [v], ∀ l ∈ seen, ¬ r ++ [u] <+: l := by
        intro u hu l hl hpre
        rcases List.mem_append.mp hu with hu | hu
        · exact hown u hu l hl hpre
        · obtain rfl := List.mem_singleton.mp hu
          exact hseen l hl (h.wellFormed.node?_of_prefix hvacant hpre)
      have hrest := ih hviews.2 (by rwa [List.append_assoc]) hplaced (fun _ => hfree'.2) hown'
      rwa [List.append_assoc] at hrest
    · rw [hcut.rename?_eq_none (isName_of_view hviews.1)] at hrename
      cases hrename

end

/-- What a commit that succeeds leaves: the new views in place, and all else as it was. -/
structure Placed (w₁ : Workspace) (result : Path) (left : Nat) (r : Location) (seen : List Location) (name : String)
    (w w' : Workspace) : Prop where
  wellFormed : w'.tree.WellFormed
  cwd : w'.cwd = w₁.cwd
  leads : w'.LeadsTo result left r seen
  top : w'.tree.node? (r ++ [name]) = some .directory
  views : ∀ v ∈ viewNames, ∀ x, w'.tree.node? (r ++ v :: x) = w.tree.node? (r ++ name :: v :: x)
  outside : ∀ l, ¬ r ++ [name] <+: l → (∀ v ∈ viewNames, ¬ r ++ [v] <+: l) → w'.tree.node? l = w₁.tree.node? l

theorem commit_places (g : Ground w₁ result left r seen name) (hnot : name ∉ viewNames) (h : Staged w₁ r name w) :
    (commit (Workspace.files newId) (Path.join result name) result).Ends w
      (fun _ w' => Placed w₁ result left r seen name w w') fun _ _ => True := by
  obtain ⟨hmade, hkept, hdone⟩ := made_aside g h
  refine ends_bind.mpr (Workspace.ends_makeDirectories.mpr ⟨fun hok => ?_, fun _ => trivial⟩)
  have haside := hdone hok
  generalize (w.makeDirectories (maxPath + 1) (Path.join (Path.join result name) asideName)).1 = w₀ at hmade hkept haside ⊢
  have hsame : ∀ l, (∀ x, x <+: [asideName] → l ≠ r ++ name :: x) → w₀.tree.node? l = w.tree.node? l := by
    intro l hl
    rcases hkept l with hsame | ⟨-, x, hx, he⟩
    · exact hsame
    · exact absurd he (hl x hx)
  have hviews : ∀ v ∈ viewNames, ∀ x, w₀.tree.node? (r ++ name :: v :: x) = w.tree.node? (r ++ name :: v :: x) := by
    intro v hv x
    apply hsame
    intro y hy he
    obtain rfl : v :: x = y := by simpa using he
    exact ne_asideName_of_view hv (List.cons_prefix_cons.mp hy).1
  have houtside : ∀ l, ¬ r ++ [name] <+: l → w₀.tree.node? l = w₁.tree.node? l := by
    intro l hl
    rw [hsame l, h.outside l hl]
    rintro x - rfl
    exact hl (by simp)
  have hreached : Reached w₀ result left r seen name := by
    refine ⟨?_, fun l hl => g.notWithin_of_seen hl, g.isName, hnot⟩
    rw [LeadsTo, Workspace.start_congr hmade.cwd]
    exact FileTree.Way.grown (h.leads g) hmade.grown
  have hstart : Underway w₀ r name [] [] w₀ :=
    ⟨hmade.wellFormed, rfl, by simp, haside, fun _ _ _ _ => rfl, by simp, by simp, fun _ _ _ => rfl⟩
  have hdirectory : ∀ v ∈ viewNames, w₀.tree.node? (r ++ [name, v]) ≠ none → w₀.tree.node? (r ++ [name, v]) = some .directory := by
    intro v hv hthere
    rw [hviews v hv []] at hthere ⊢
    exact (h.views v hthere).2
  have hall : ∀ v ∈ viewNames, v ∈ viewNames := fun _ hv => hv
  have hnodup : ([] ++ viewNames).Nodup := by decide
  refine ends_bind.mpr ((moveAside_places hreached hall hstart).mono (fun moved w' hw => ?_) fun _ _ hf => hf)
  obtain ⟨hunderway, -, hfree⟩ := hw
  refine (place_places hreached hall hnodup hunderway hdirectory hfree (by simp) _).mono (fun _ w'' hw => ?_) fun _ _ hf => hf
  obtain ⟨hplaced, hown⟩ := hw
  rw [List.nil_append] at hplaced hown
  have hout : ∀ l, ¬ r ++ [name] <+: l → (∀ v ∈ viewNames, ¬ r ++ [v] <+: l) → w''.tree.node? l = w₁.tree.node? l := by
    intro l hl hviewless
    rw [hplaced.outside l hl fun v hv => hviewless v (hplaced.views v hv), houtside l hl]
  refine ⟨hplaced.wellFormed, hplaced.cwd.trans (hmade.cwd.trans h.cwd), ?_, hplaced.top, fun v hv x => ?_, hout⟩
  · rw [LeadsTo, Workspace.start_congr (hplaced.cwd.trans (hmade.cwd.trans h.cwd))]
    exact FileTree.Way.congr g.leads fun l hl => hout l (g.notWithin_of_seen hl) fun v hv => hown v hv l hl
  · rw [hplaced.inPlace v hv, hviews v hv]

end Handout.Assignment
