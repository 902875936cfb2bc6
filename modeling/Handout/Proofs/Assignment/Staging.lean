/-
  Handout.Proofs.Assignment.Staging — what a run does before its views take their place.

  A run begins at a directory with a name in it that is free (`Ground`). All it does until
  the commit happens below that name, where there are directories and, inside the views,
  files, but no links (`Staged`). Whatever is done at a path inside a view keeps it so
  (`Staged.acts`, `Staged.less`, `Staged.made`).
-/

import Handout.Assignment
import Handout.Proofs.Files.Changes
import Handout.Proofs.Files.Operations

open Handout.Action

namespace Handout.Assignment

open FileTree (Fits)
open Workspace (Under Lands Acts Less Made LeadsTo)

variable {w₁ w w' : Workspace} {result p q : Path} {name n v : String} {ns : List String} {left : Nat} {r : Location}
  {seen : List Location} {follow : Bool}

/-- A result that leads to a directory, and a name that is free there. -/
structure Ground (w₁ : Workspace) (result : Path) (left : Nat) (r : Location) (seen : List Location) (name : String) :
    Prop where
  wellFormed : w₁.tree.WellFormed
  cwd : w₁.tree.node? w₁.cwd = some .directory
  leads : w₁.LeadsTo result left r seen
  directory : w₁.tree.node? r = some .directory
  isName : Path.IsName name
  free : w₁.tree.node? (r ++ [name]) = none

/-- A state in which only what is below the free name is new: directories for the views, and
    no links. -/
structure Staged (w₁ : Workspace) (r : Location) (name : String) (w : Workspace) : Prop where
  wellFormed : w.tree.WellFormed
  cwd : w.cwd = w₁.cwd
  outside : ∀ l, ¬ r ++ [name] <+: l → w.tree.node? l = w₁.tree.node? l
  plain : ∀ x target, w.tree.node? (r ++ name :: x) ≠ some (.link target)
  top : w.tree.node? (r ++ [name]) ≠ none → w.tree.node? (r ++ [name]) = some .directory
  views : ∀ n, w.tree.node? (r ++ [name, n]) ≠ none → n ∈ viewNames ∧ w.tree.node? (r ++ [name, n]) = some .directory

/-- A path to a view that is being made, or inside it; `ns` are the names below the view. -/
structure Inside (result : Path) (name v : String) (ns : List String) (p : Path) : Prop where
  under : Under result (name :: v :: ns) p
  view : v ∈ viewNames
  names : ∀ n ∈ ns, Path.IsName n

theorem isName_of_view (h : v ∈ viewNames) : Path.IsName v := by
  have hall : ∀ v ∈ viewNames, Path.IsName v := by decide
  exact hall v h

theorem Inside.join (h : Inside result name v ns p) (hn : Path.IsName n) : Inside result name v (ns ++ [n]) (Path.join p n) :=
  ⟨h.under.join hn, h.view, by simpa [or_imp, forall_and, hn] using h.names⟩

namespace Ground

variable (g : Ground w₁ result left r seen name)
include g

theorem isName_of_mem (hp : Inside result name v ns p) : ∀ m ∈ name :: v :: ns, Path.IsName m := by
  simpa [or_imp, forall_and, g.isName, isName_of_view hp.view] using hp.names

theorem start : Staged w₁ r name w₁ := by
  have hbelow : ∀ x, w₁.tree.node? (r ++ name :: x) = none := fun x =>
    g.wellFormed.node?_of_prefix g.free (by simp)
  refine ⟨g.wellFormed, rfl, fun _ _ => rfl, fun x target => ?_, fun h => absurd g.free h, fun n h => absurd (hbelow [n]) h⟩
  rw [hbelow]
  simp

/-- What is seen on the way of the result stands where it stood. -/
theorem notWithin_of_seen {l : Location} (hl : l ∈ seen) : ¬ r ++ [name] <+: l := fun hpre =>
  FileTree.Way.node?_seen g.leads l hl (g.wellFormed.node?_of_prefix g.free hpre)

end Ground

namespace Staged

section

variable (g : Ground w₁ result left r seen name) (h : Staged w₁ r name w)
include g h

theorem leads : w.LeadsTo result left r seen := by
  rw [LeadsTo, Workspace.start_congr h.cwd]
  exact FileTree.Way.congr g.leads fun l hl => h.outside l (g.notWithin_of_seen hl)

theorem directory : w.tree.node? r = some .directory := by
  rw [h.outside r (fun hpre => absurd hpre.length_le (by rw [List.length_append]; exact Nat.not_succ_le_self _)), g.directory]

theorem node?_cwd : w.tree.node? w.cwd = some .directory := by
  rw [h.cwd, h.outside w₁.cwd, g.cwd]
  intro hpre
  have hnone := g.wellFormed.node?_of_prefix g.free hpre
  rw [g.cwd] at hnone
  cases hnone

theorem lands (hp : Inside result name v ns p) : w.Lands follow (r ++ name :: v :: ns) p := by
  refine Workspace.lands_below (h.leads g) (h.directory g) hp.under (by simp) (g.isName_of_mem hp) fun x hx hpre target => ?_
  obtain ⟨m, x, rfl⟩ := List.exists_cons_of_ne_nil hx
  obtain ⟨rfl, -⟩ := List.cons_prefix_cons.mp hpre
  exact h.plain x target

theorem lands_entry (hp : Inside result name v (ns ++ [n]) p) : w.Lands follow (r ++ name :: v :: ns ++ [n]) p := by
  have hlands : w.Lands follow _ p := h.lands g hp
  rwa [← List.cons_append, ← List.cons_append, ← List.append_assoc] at hlands

end

/-- Something done to the entries of a directory inside a view. -/
theorem acts (h : Staged w₁ r name w) (ha : Acts (r ++ name :: v :: ns) w w') : Staged w₁ r name w' := by
  have hshallow : ∀ x : List String, x.length ≤ 1 → w'.tree.node? (r ++ name :: x) = w.tree.node? (r ++ name :: x) := by
    intro x hx
    refine ha.outside _ fun y hy he => ?_
    have hlength := congrArg List.length he
    have hpos := List.length_pos_of_ne_nil hy
    simp only [List.length_append, List.length_cons] at hlength
    omega
  refine ⟨ha.wellFormed, ha.cwd.trans h.cwd, fun l hl => ?_, fun x target => ?_, ?_, fun n => ?_⟩
  · rw [ha.outside l, h.outside l hl]
    rintro x - rfl
    exact hl (by simp)
  · by_cases hpre : v :: ns <+: x
    · obtain ⟨y, rfl⟩ := hpre
      have hplain := ha.plain (fun y target => by
        rw [List.append_assoc, List.cons_append]
        exact h.plain _ target) y target
      rwa [List.append_assoc] at hplain
    · rw [ha.outside]
      · exact h.plain x target
      · rintro y - he
        have he := (List.cons.inj (List.append_cancel_left (he.trans (List.append_assoc ..)))).2
        exact hpre (he ▸ List.prefix_append ..)
  · rw [hshallow [] (by simp)]
    exact h.top
  · rw [hshallow [n] (by simp)]
    exact h.views n

/-- Something removed from a view, or all of it. -/
theorem less (h : Staged w₁ r name w) (hl : Less (r ++ name :: v :: ns) w w') : Staged w₁ r name w' := by
  have hless : ∀ l, w'.tree.node? l = w.tree.node? l ∨ w'.tree.node? l = none := fun l => (hl.node? l).imp_right And.right
  refine ⟨hl.wellFormed, hl.cwd.trans h.cwd, fun l hout => ?_, fun x target => ?_, ?_, fun n => ?_⟩
  · rcases hl.node? l with hsame | ⟨hpre, -⟩
    · rw [hsame, h.outside l hout]
    · refine absurd (List.IsPrefix.trans ?_ hpre) hout
      simp
  · rcases hless (r ++ name :: x) with hsame | hnone
    · rw [hsame]
      exact h.plain x target
    · rw [hnone]
      simp
  · rcases hless (r ++ [name]) with hsame | hnone
    · rw [hsame]
      exact h.top
    · simp [hnone]
  · rcases hless (r ++ [name, n]) with hsame | hnone
    · rw [hsame]
      exact h.views n
    · simp [hnone]

/-- Directories made for a view, or inside it. -/
theorem made (g : Ground w₁ result left r seen name) (h : Staged w₁ r name w) (hp : Inside result name v ns p)
    (hmade : Made w p w') : Staged w₁ r name w' := by
  have hnew : ∀ l, w.tree.node? l = none → w'.tree.node? l ≠ none → ∃ x, x <+: v :: ns ∧ l = r ++ name :: x :=
    fun l hnone hsome => (hmade.below (h.leads g) hp.under (g.isName.namesOf_join result) (g.isName_of_mem hp) h.plain hnone hsome).2
  have hkept : ∀ l, w'.tree.node? l = w.tree.node? l ∨
      (w.tree.node? l = none ∧ w'.tree.node? l = some .directory ∧ ∃ x, x <+: v :: ns ∧ l = r ++ name :: x) := by
    intro l
    rcases hmade.grown l with hsame | ⟨hnone, hdir⟩
    · exact Or.inl hsame
    · exact Or.inr ⟨hnone, hdir, hnew l hnone (by rw [hdir]; simp)⟩
  refine ⟨hmade.wellFormed, hmade.cwd.trans h.cwd, fun l hout => ?_, fun x target => ?_, fun hsome => ?_, fun n hsome => ?_⟩
  · rcases hkept l with hsame | ⟨-, -, x, -, rfl⟩
    · rw [hsame, h.outside l hout]
    · exact absurd (by simp) hout
  · rcases hkept (r ++ name :: x) with hsame | ⟨-, hdir, -⟩
    · rw [hsame]
      exact h.plain x target
    · rw [hdir]
      simp
  · rcases hkept (r ++ [name]) with hsame | ⟨-, hdir, -⟩
    · rw [hsame] at hsome ⊢
      exact h.top hsome
    · exact hdir
  · rcases hkept (r ++ [name, n]) with hsame | ⟨-, hdir, x, hx, he⟩
    · rw [hsame] at hsome ⊢
      exact h.views n hsome
    · obtain rfl : [n] = x := by simpa using he
      obtain ⟨rfl, -⟩ := List.cons_prefix_cons.mp hx
      exact ⟨hp.view, hdir⟩

end Staged

end Handout.Assignment
