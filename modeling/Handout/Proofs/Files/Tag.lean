/-
  Handout.Proofs.Files.Tag — no two tags are alike, so among more of them than there are
  entries in a tree one makes a path at which nothing is.
-/

import Mathlib.Algebra.Ring.Nat
import Mathlib.Data.List.Perm.Subperm
import Handout.Proofs.Files.Workspace

namespace Handout

open Text.Hex (digits)

/-! ## Digits -/

theorem length_digits (width n : Nat) : (digits width n).length = width := by
  induction width generalizing n with
  | zero => rfl
  | succ width ih => rw [digits, List.length_append, ih, List.length_singleton]

theorem digitChar_inj {a b : Nat} (ha : a < 16) (hb : b < 16) (h : Nat.digitChar a = Nat.digitChar b) : a = b := by
  have hall : ∀ a b : Fin 16, Nat.digitChar a = Nat.digitChar b → a = b := by decide
  exact Fin.mk.inj (hall ⟨a, ha⟩ ⟨b, hb⟩ h)

/-- The digits tell a number, if there are enough of them. -/
theorem digits_inj {width n m : Nat} (hn : n < 16 ^ width) (hm : m < 16 ^ width) (h : digits width n = digits width m) :
    n = m := by
  induction width generalizing n m with
  | zero =>
    rw [Nat.pow_zero] at hn hm
    omega
  | succ width ih =>
    rw [digits, digits] at h
    obtain ⟨hinit, hlast⟩ := List.append_inj' h rfl
    rw [Nat.pow_succ'] at hn hm
    have hdiv := ih (Nat.div_lt_of_lt_mul hn) (Nat.div_lt_of_lt_mul hm) hinit
    have hmod := digitChar_inj (Nat.mod_lt n (by decide)) (Nat.mod_lt m (by decide)) (List.singleton_inj.mp hlast)
    rw [← Nat.div_add_mod n 16, hdiv, hmod, Nat.div_add_mod]

theorem notMem_digits {c : Char} (hc : ∀ a : Fin 16, Nat.digitChar a ≠ c) (width n : Nat) : c ∉ digits width n := by
  induction width generalizing n with
  | zero => simp [digits]
  | succ width ih =>
    rw [digits, List.mem_append, not_or, List.mem_singleton]
    exact ⟨ih _, fun he => hc ⟨n % 16, Nat.mod_lt n (by decide)⟩ he.symm⟩

/-! ## Tags -/

theorem lt_width (n : Nat) : n < 16 ^ (32 + n >>> 128) := by
  have hdiv : n < 16 ^ 32 * (n >>> 128 + 1) := by
    rw [Nat.shiftRight_eq_div_pow, show 2 ^ 128 = 16 ^ 32 from Nat.pow_mul 2 4 32]
    exact Nat.lt_mul_div_succ n (Nat.pow_pos (by decide))
  have hpow : n >>> 128 + 1 ≤ 16 ^ (n >>> 128) := Nat.lt_pow_self (by decide)
  rw [Nat.pow_add]
  exact hdiv.trans_le (Nat.mul_le_mul_left _ hpow)

/-- The digits of a tag are its letters without the dashes. -/
theorem digits_of_tagOf (n : Nat) : ((tagOf n).toList.filter (· ≠ '-')) = digits (32 + n >>> 128) n := by
  have hdash : ∀ l : List Char, (∀ c ∈ l, c ∈ digits (32 + n >>> 128) n) → l.filter (· ≠ '-') = l := by
    intro l hl
    refine List.filter_eq_self.mpr fun c hc => ?_
    have hnot : '-' ∉ digits (32 + n >>> 128) n := notMem_digits (by decide) _ n
    simpa using fun he : c = '-' => hnot (he ▸ hl c hc)
  simp only [tagOf, String.toList_ofList]
  generalize digits (32 + n >>> 128) n = ds at hdash
  have htake : ∀ k j, ((ds.drop k).take j).filter (· ≠ '-') = (ds.drop k).take j := fun k j =>
    hdash _ fun c hc => List.mem_of_mem_drop (List.mem_of_mem_take hc)
  have hfirst := htake 0 8
  rw [List.drop_zero] at hfirst
  have hlast : (ds.drop 20).filter (· ≠ '-') = ds.drop 20 := hdash _ fun c hc => List.mem_of_mem_drop hc
  have hparts : ∀ k j, (ds.drop k).take j ++ ds.drop (k + j) = ds.drop k := fun k j => by
    rw [← List.drop_drop, List.take_append_drop]
  simp only [List.filter_append, List.filter_cons, hfirst, htake, hlast]
  simp only [ne_eq, not_true_eq_false, decide_false, Bool.false_eq_true, if_false]
  simp only [List.append_assoc]
  rw [hparts 16 4, hparts 12 4, hparts 8 4, List.take_append_drop]

theorem tagOf_inj {n m : Nat} (h : tagOf n = tagOf m) : n = m := by
  have hdigits : digits (32 + n >>> 128) n = digits (32 + m >>> 128) m := by
    rw [← digits_of_tagOf, ← digits_of_tagOf, h]
  have hwidth := congrArg List.length hdigits
  rw [length_digits, length_digits] at hwidth
  refine digits_inj (lt_width n) ?_ (hdigits.trans (by rw [hwidth]))
  rw [hwidth]
  exact lt_width m

theorem noSlash_tagOf (n : Nat) : '/' ∉ (tagOf n).toList := by
  have hnot : '/' ∉ digits (32 + n >>> 128) n := notMem_digits (by decide) _ n
  intro hmem
  refine hnot ?_
  rw [← digits_of_tagOf]
  exact List.mem_filter.mpr ⟨hmem, by decide⟩

/-! ## Paths that nothing has -/

namespace Workspace

variable {w : Workspace} {make : String → Path}

theorem exists_unused (w : Workspace) (make : String → Path) : ∃ n, w.unused make = make (tagOf n) := by
  rw [unused]
  cases hfind : ((List.range (w.tree.entries.length + 1)).map fun n => make (tagOf n)).find?
      fun p => (w.nodeAt? (w.entry p)).isNone with
  | none => exact ⟨0, rfl⟩
  | some p =>
    obtain ⟨n, -, rfl⟩ := List.mem_map.mp (List.mem_of_find?_eq_some hfind)
    exact ⟨n, rfl⟩

/-- The first tag is taken when nothing is at its path. -/
theorem unused_eq_of_free (h : w.nodeAt? (w.entry (make (tagOf 0))) = none) : w.unused make = make (tagOf 0) := by
  rw [unused, List.range_succ_eq_map, List.map_cons, List.find?_cons_of_pos (by simp [h]), Option.getD_some]

/-- What paths made with different tags lead to is different, so one of them is free. -/
theorem entry_unused (hapart : ∀ m n l, w.entry (make (tagOf m)) = .found l → w.entry (make (tagOf n)) = .found l → m = n)
    (hroot : ∀ n, w.entry (make (tagOf n)) ≠ .found []) : w.nodeAt? (w.entry (w.unused make)) = none := by
  rw [unused]
  cases hfind : ((List.range (w.tree.entries.length + 1)).map fun n => make (tagOf n)).find?
      fun p => (w.nodeAt? (w.entry p)).isNone with
  | some p =>
    have hfree := List.find?_some hfind
    exact Option.isNone_iff_eq_none.mp hfree
  | none =>
    exfalso
    rw [List.find?_eq_none] at hfind
    have hfound : ∀ n, n < w.tree.entries.length + 1 → ∃ l, w.entry (make (tagOf n)) = .found l ∧ w.tree.node? l ≠ none := by
      intro n hn
      have htaken := hfind _ (List.mem_map.mpr ⟨n, List.mem_range.mpr hn, rfl⟩)
      cases hentry : w.entry (make (tagOf n)) with
      | found l =>
        rw [hentry] at htaken
        exact ⟨l, rfl, by simpa [nodeAt?] using htaken⟩
      | vacant | missing | blocked =>
        rw [hentry] at htaken
        simp [nodeAt?] at htaken
    choose! place hplace hnode using hfound
    have hnodup : ((List.range (w.tree.entries.length + 1)).map place).Nodup := by
      refine List.Nodup.map_on (fun m hm n hn he => ?_) List.nodup_range
      exact hapart m n (place m) (hplace m (List.mem_range.mp hm)) (he ▸ hplace n (List.mem_range.mp hn))
    have hsubset : (List.range (w.tree.entries.length + 1)).map place ⊆ w.tree.entries.map Prod.fst := by
      intro l hl
      obtain ⟨n, hn, rfl⟩ := List.mem_map.mp hl
      have hn := List.mem_range.mp hn
      exact (FileTree.node?_ne_none_iff fun he => hroot n (he ▸ hplace n hn)).mp (hnode n hn)
    have hlength := (List.subperm_of_subset hnodup hsubset).length_le
    rw [List.length_map, List.length_map, List.length_range] at hlength
    exact absurd hlength (Nat.not_succ_le_self _)

end Workspace
end Handout
