/-
  Handout.Proofs.Text.Lines — taking a text apart into its lines and putting it together.

  A text is what its lines are joined to (`textOf_linesOf`). Lines that are joined come
  apart again, and where one of them had line ends inside, it comes apart further
  (`linesOf_textOf`); so a list of lines is what its text is split into exactly when none of
  them has a line end inside (`linesOf_textOf_eq_self`).
-/

import Mathlib.Data.List.Basic
import Handout.Text.Lines

namespace Handout.Text

/-! ## Characters -/

theorem split_append_break (a b : List Char) : split (a ++ '\n' :: b) = split a ++ split b := by
  induction a with
  | nil => simp [split]
  | cons c a ih =>
    by_cases hc : c = '\n'
    · simp [split, hc, ih]
    · cases hs : split a with
      | nil => exact absurd hs (split_ne_nil a)
      | cons l ls => simp [split, hc, ih, hs]

theorem split_of_notMem {cs : List Char} (h : '\n' ∉ cs) : split cs = [cs] := by
  induction cs with
  | nil => rfl
  | cons c cs ih =>
    rw [List.mem_cons, not_or] at h
    simp [split, Ne.symm h.1, ih h.2]

theorem notMem_of_mem_split {cs l : List Char} (h : l ∈ split cs) : '\n' ∉ l := by
  induction cs generalizing l with
  | nil =>
    obtain rfl : l = [] := by simpa [split] using h
    simp
  | cons c cs ih =>
    by_cases hc : c = '\n'
    · rcases List.mem_cons.mp (by simpa [split, hc] using h) with rfl | h
      · simp
      · exact ih h
    · cases hs : split cs with
      | nil => exact absurd hs (split_ne_nil cs)
      | cons l' ls =>
        rcases List.mem_cons.mp (by simpa [split, hc, hs] using h) with rfl | h
        · have hl' : '\n' ∉ l' := ih (hs ▸ List.mem_cons_self ..)
          simp [hl', Ne.symm hc]
        · exact ih (hs ▸ List.mem_cons_of_mem _ h)

/-- The first line is a beginning of the text, up to the first line end. -/
theorem head?_split (cs : List Char) :
    ∃ l rest, (split cs).head? = some l ∧ cs = l ++ rest ∧ (rest = [] ∨ ∃ r, rest = '\n' :: r) := by
  have hjoin := join_split cs
  cases hs : split cs with
  | nil => exact absurd hs (split_ne_nil cs)
  | cons l ls =>
    rw [hs] at hjoin
    cases ls with
    | nil => exact ⟨l, [], rfl, by rw [List.append_nil]; exact hjoin.symm, Or.inl rfl⟩
    | cons l' ls => exact ⟨l, '\n' :: join (l' :: ls), rfl, hjoin.symm, Or.inr ⟨_, rfl⟩⟩

theorem mem_join_of_mem {l : List Char} {ls : List (List Char)} (h : l ∈ ls) {c : Char} (hc : c ∈ l) : c ∈ join ls := by
  induction ls with
  | nil => cases h
  | cons l' rest ih =>
    cases rest with
    | nil =>
      obtain rfl := List.mem_singleton.mp h
      exact hc
    | cons l'' rest =>
      rcases List.mem_cons.mp h with rfl | h
      · exact List.mem_append_left _ hc
      · exact List.mem_append_right _ (List.mem_cons_of_mem _ (ih h))

theorem mem_of_mem_split {cs l : List Char} (h : l ∈ split cs) {c : Char} (hc : c ∈ l) : c ∈ cs :=
  join_split cs ▸ mem_join_of_mem h hc

theorem split_join {ls : List (List Char)} (h : ls ≠ []) : split (join ls) = ls.flatMap split := by
  induction ls with
  | nil => exact absurd rfl h
  | cons l rest ih =>
    cases rest with
    | nil => simp [join]
    | cons l' rest =>
      have hjoin : join (l :: l' :: rest) = l ++ '\n' :: join (l' :: rest) := rfl
      rw [hjoin, split_append_break, ih (by simp)]
      rfl

/-- Lines in front of a last one are each followed by a line end. -/
theorem join_concat (ls : List (List Char)) (last : List Char) :
    join (ls ++ [last]) = ls.flatMap (· ++ ['\n']) ++ last := by
  induction ls with
  | nil => rfl
  | cons l rest ih =>
    have hjoin : join (l :: (rest ++ [last])) = l ++ '\n' :: join (rest ++ [last]) := by
      cases rest <;> rfl
    rw [List.cons_append, hjoin, ih]
    simp

/-! ## Strings -/

theorem textOf_linesOf (s : String) : textOf (linesOf s) = s := by
  have hchars : ((split s.toList).map String.ofList).map String.toList = split s.toList := by
    simp [Function.comp_def]
  rw [textOf, linesOf, hchars, join_split, String.ofList_toList]

/-- Every line comes apart for itself. -/
theorem textOf_pair (a b : String) : textOf [a, b] = a ++ "\n" ++ b := by
  rw [← String.toList_inj]
  simp [textOf, join]

theorem linesOf_textOf {ls : List String} (h : ls ≠ []) : linesOf (textOf ls) = ls.flatMap linesOf := by
  have hne : ls.map String.toList ≠ [] := by simpa using h
  rw [linesOf, textOf, String.toList_ofList, split_join hne, List.flatMap_map, List.map_flatMap]
  rfl

theorem linesOf_of_notMem {s : String} (h : '\n' ∉ s.toList) : linesOf s = [s] := by
  rw [linesOf, split_of_notMem h, List.map_singleton, String.ofList_toList]

theorem notMem_of_mem_linesOf {s l : String} (h : l ∈ linesOf s) : '\n' ∉ l.toList := by
  obtain ⟨cs, hcs, rfl⟩ := List.mem_map.mp h
  rw [String.toList_ofList]
  exact notMem_of_mem_split hcs

theorem linesOf_textOf_eq_self {ls : List String} (h : ls ≠ []) (hls : ∀ l ∈ ls, '\n' ∉ l.toList) :
    linesOf (textOf ls) = ls := by
  rw [linesOf_textOf h, List.flatMap_congr fun l hl => linesOf_of_notMem (hls l hl)]
  simp

end Handout.Text
