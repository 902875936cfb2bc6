/-
  Handout.Proofs.Store.Order — the order of test files by name and by stem.

  The name of a test file is its stem with `.py` after it, and it is by their names that the
  files of a directory are in order. For most pairs of stems that is the order of the stems,
  too. Where one stem begins with the other it is not, when what comes after that is before
  `.py` (`Overtakes`): then the longer name is the first (`nameOf_lt_of_overtakes`), and in
  all other cases the order is the same (`nameOf_lt_or_overtakes`). So stems whose names are
  in order are in order themselves exactly when none of them overtakes another
  (`stems_sorted_iff`).
-/

import Mathlib.Data.List.Pairwise
import Handout.Proofs.Store.Disk

namespace Handout.TestFile

variable {s s' : String} {ss : List String}

/-- The stem `s'` goes on from `s` by something that comes before the extension. -/
def Overtakes (s' s : String) : Prop := ∃ r, r ≠ "" ∧ r < "." ++ extension ∧ s' = s ++ r

theorem toList_dot_extension : ("." ++ extension).toList = ['.', 'p', 'y'] := by decide

/-! ## Characters before and after the extension -/

/-- Among characters after the dot the extension makes no difference to what comes first. -/
theorem append_extension_lt_iff (xs : List Char) {ys : List Char} (hys : ∀ c ∈ ys, '.' < c) :
    xs ++ ['.', 'p', 'y'] < ys ↔ xs < ys := by
  induction xs generalizing ys with
  | nil =>
    cases ys with
    | nil => simp
    | cons c ys => simp [List.cons_lt_cons_iff, hys c (List.mem_cons_self ..)]
  | cons x xs ih =>
    cases ys with
    | nil => simp
    | cons c ys =>
      rw [List.forall_mem_cons] at hys
      rw [List.cons_append, List.cons_lt_cons_iff, List.cons_lt_cons_iff, ih hys.2]

/-- What comes before the extension comes before it with the extension, too. -/
theorem append_extension_lt_extension_iff {xs : List Char} (hne : xs ≠ []) :
    xs ++ ['.', 'p', 'y'] < ['.', 'p', 'y'] ↔ xs < ['.', 'p', 'y'] := by
  obtain ⟨x, xs, rfl⟩ := List.exists_cons_of_ne_nil hne
  have hafter : ∀ c ∈ ['p', 'y'], '.' < c := by simp
  rw [List.cons_append, List.cons_lt_cons_iff, List.cons_lt_cons_iff, append_extension_lt_iff xs hafter]

/-- With the extension after them two texts keep their order, unless one goes on from the other. -/
theorem append_extension_lt_or {xs ys : List Char} (h : xs < ys) :
    xs ++ ['.', 'p', 'y'] < ys ++ ['.', 'p', 'y'] ∨ ∃ r, r ≠ [] ∧ r < ['.', 'p', 'y'] ∧ ys = xs ++ r := by
  induction xs generalizing ys with
  | nil =>
    have hne : ys ≠ [] := by
      rintro rfl
      exact List.lt_irrefl _ h
    by_cases hbefore : ys < ['.', 'p', 'y']
    · exact Or.inr ⟨ys, hne, hbefore, rfl⟩
    · -- not before the extension, and not the extension itself
      have hle := mt (append_extension_lt_extension_iff hne).mp hbefore
      have hother : ['.', 'p', 'y'] ≠ ys ++ ['.', 'p', 'y'] := fun he => hne (List.self_eq_append_left.mp he)
      by_contra hneither
      have hge : ¬ ['.', 'p', 'y'] < ys ++ ['.', 'p', 'y'] := fun hlt => hneither (Or.inl hlt)
      exact hother (List.le_antisymm (List.not_lt.mp hle) (List.not_lt.mp hge))
  | cons x xs ih =>
    cases ys with
    | nil => simp at h
    | cons y ys =>
      rcases List.cons_lt_cons_iff.mp h with hxy | ⟨rfl, hrest⟩
      · exact Or.inl (List.cons_lt_cons_iff.mpr (Or.inl hxy))
      · refine (ih hrest).imp (fun hlt => List.cons_lt_cons_iff.mpr (Or.inr ⟨rfl, hlt⟩)) ?_
        rintro ⟨r, hne, hbefore, rfl⟩
        exact ⟨r, hne, hbefore, rfl⟩

/-! ## Names and stems -/

theorem lt_of_overtakes (h : Overtakes s' s) : s < s' := by
  obtain ⟨r, hne, -, rfl⟩ := h
  obtain ⟨c, cs, hcons⟩ := List.exists_cons_of_ne_nil (mt String.toList_eq_nil_iff.mp hne)
  have hlonger : s.toList ++ [] < s.toList ++ c :: cs := List.append_left_lt (List.nil_lt_cons c cs)
  rwa [List.append_nil, ← hcons, ← String.toList_append, ← String.lt_iff] at hlonger

theorem nameOf_lt_of_overtakes (h : Overtakes s' s) : nameOf s' < nameOf s := by
  obtain ⟨r, hne, hbefore, rfl⟩ := h
  rw [String.lt_iff, toList_dot_extension] at hbefore
  rw [String.lt_iff, toList_nameOf, toList_nameOf, String.toList_append, List.append_assoc]
  apply List.append_left_lt
  exact (append_extension_lt_extension_iff (mt String.toList_eq_nil_iff.mp hne)).mpr hbefore

theorem nameOf_lt_or_overtakes (h : s < s') : nameOf s < nameOf s' ∨ Overtakes s' s := by
  rw [String.lt_iff, toList_nameOf, toList_nameOf]
  refine (append_extension_lt_or (String.lt_iff.mp h)).imp_right ?_
  rintro ⟨r, hne, hbefore, hr⟩
  refine ⟨String.ofList r, ?_, ?_, ?_⟩
  · exact mt String.ofList_eq_empty_iff.mp hne
  · rw [String.lt_iff, toList_dot_extension, String.toList_ofList]
    exact hbefore
  · rw [← String.toList_inj, String.toList_append, String.toList_ofList, hr]

/-- Of two names in order the stems are, unless the first stem overtakes the second. -/
theorem stem_lt_iff (h : nameOf s < nameOf s') : s < s' ↔ ¬ Overtakes s s' := by
  constructor
  · exact fun hlt hover => String.lt_asymm hlt (lt_of_overtakes hover)
  · intro hnot
    have hne : s ≠ s' := fun he => String.lt_irrefl _ (he ▸ h)
    by_contra hge
    rcases nameOf_lt_or_overtakes (Table.lt_of_not_lt_of_ne hge hne) with hlt | hover
    · exact String.lt_asymm h hlt
    · exact hnot hover

/-- Stems whose names are in order are in order exactly when none overtakes another. -/
theorem stems_sorted_iff (h : ss.Pairwise fun s s' => nameOf s < nameOf s') :
    ss.Pairwise (· < ·) ↔ ∀ s ∈ ss, ∀ s' ∈ ss, ¬ Overtakes s s' := by
  constructor
  · intro hsorted
    refine List.Pairwise.forall_of_forall_of_flip (fun s _ hover => ?_) ?_ ?_
    · exact String.lt_irrefl s (lt_of_overtakes hover)
    · exact hsorted.imp₂ (fun _ _ hlt hname => (stem_lt_iff hname).mp hlt) h
    · exact h.imp fun hname hover => String.lt_asymm hname (nameOf_lt_of_overtakes hover)
  · intro hnone
    refine h.imp_of_mem fun hs hs' hlt => ?_
    exact (stem_lt_iff hlt).mpr (hnone _ hs _ hs')

/-- Stems whose names are in order are known by what is among them. -/
theorem stems_eq {ss' : List String} (h : ss.Pairwise fun s s' => nameOf s < nameOf s')
    (h' : ss'.Pairwise fun s s' => nameOf s < nameOf s') (hmem : ∀ s, s ∈ ss ↔ s ∈ ss') : ss = ss' := by
  have hne : ∀ {s s' : String}, nameOf s < nameOf s' → s ≠ s' := fun hlt he => String.lt_irrefl _ (he ▸ hlt)
  have hperm := (List.perm_ext_iff_of_nodup (h.imp hne) (h'.imp hne)).mpr hmem
  exact hperm.eq_of_pairwise (fun a b _ _ hab hba => absurd hba (String.lt_asymm hab)) h h'

end Handout.TestFile
