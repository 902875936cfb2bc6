/-
  Handout.Proofs.Question.Block — the fences of a cell and the block that makes it a
  question.

  Fences are found in order (`fencesFrom_sorted`), and of an even number of them every
  one that opens a block has a later one after it (`exists_fence_after_opening`). So a
  block found by `find?` stands between two fences (`find?_eq_some`). Lines put in
  front that are no fences move what is found and change nothing else
  (`find?_append_front`).
-/

import Handout.Question.Block

namespace Handout.Question

/-! ## Fences -/

theorem mem_fencesFrom {i j : Nat} {source : List String} :
    j ∈ fencesFrom i source ↔ ∃ k, j = i + k ∧ ∃ l, source[k]? = some l ∧ isFence l = true := by
  induction source generalizing i with
  | nil => simp [fencesFrom]
  | cons l rest ih =>
    have hrest : j ∈ fencesFrom (i + 1) rest ↔
        ∃ k, j = i + (k + 1) ∧ ∃ l', (l :: rest)[k + 1]? = some l' ∧ isFence l' = true := by
      rw [ih]
      simp only [List.getElem?_cons_succ]
      constructor <;> rintro ⟨k, hk, h⟩ <;> exact ⟨k, by omega, h⟩
    unfold fencesFrom
    by_cases hl : isFence l = true
    · rw [if_pos hl, List.mem_cons, hrest]
      constructor
      · rintro (rfl | ⟨k, hk, h⟩)
        · exact ⟨0, rfl, l, rfl, hl⟩
        · exact ⟨k + 1, hk, h⟩
      · rintro ⟨k, hk, h⟩
        cases k with
        | zero => exact Or.inl hk
        | succ k => exact Or.inr ⟨k, hk, h⟩
    · rw [if_neg hl, hrest]
      constructor
      · rintro ⟨k, hk, h⟩
        exact ⟨k + 1, hk, h⟩
      · rintro ⟨k, hk, h⟩
        cases k with
        | zero =>
          obtain ⟨l', hl', hf⟩ := h
          cases hl'
          exact absurd hf hl
        | succ k => exact ⟨k, hk, h⟩

theorem fencesFrom_sorted (i : Nat) (source : List String) : (fencesFrom i source).Pairwise (· < ·) := by
  induction source generalizing i with
  | nil => exact List.Pairwise.nil
  | cons l rest ih =>
    unfold fencesFrom
    split
    · refine List.pairwise_cons.mpr ⟨fun j hj => ?_, ih (i + 1)⟩
      obtain ⟨k, hk, _⟩ := mem_fencesFrom.mp hj
      omega
    · exact ih (i + 1)

theorem fencesFrom_add (i n : Nat) (source : List String) :
    fencesFrom (i + n) source = (fencesFrom i source).map (· + n) := by
  induction source generalizing i with
  | nil => rfl
  | cons l rest ih =>
    have ih' : fencesFrom (i + n + 1) rest = (fencesFrom (i + 1) rest).map (· + n) := by
      rw [← ih (i + 1)]
      congr 1
      omega
    unfold fencesFrom
    split <;> simp [ih']

theorem fencesFrom_append (i : Nat) (a b : List String) :
    fencesFrom i (a ++ b) = fencesFrom i a ++ fencesFrom (i + a.length) b := by
  induction a generalizing i with
  | nil => rfl
  | cons l rest ih =>
    have hlength : i + (l :: rest).length = i + 1 + rest.length := by
      rw [List.length_cons]
      omega
    rw [List.cons_append, fencesFrom, fencesFrom, ih, hlength]
    split <;> rfl

theorem fencesFrom_eq_nil {i : Nat} {source : List String} (h : ∀ l ∈ source, isFence l = false) :
    fencesFrom i source = [] := by
  rw [List.eq_nil_iff_forall_not_mem]
  intro j hj
  obtain ⟨k, -, l, hl, hfence⟩ := mem_fencesFrom.mp hj
  rw [h l (List.mem_of_getElem? hl)] at hfence
  cases hfence

theorem fencesFrom_append_front {i : Nat} {front : List String} (h : ∀ l ∈ front, isFence l = false)
    (source : List String) : fencesFrom i (front ++ source) = fencesFrom (i + front.length) source := by
  rw [fencesFrom_append, fencesFrom_eq_nil h, List.nil_append]

theorem length_fencesFrom (i : Nat) (source : List String) : (fencesFrom i source).length = source.countP isFence := by
  induction source generalizing i with
  | nil => rfl
  | cons l rest ih =>
    rw [fencesFrom, List.countP_cons]
    split <;> simp [ih]

theorem openings_map (f : Nat → Nat) (fences : List Nat) : openings (fences.map f) = (openings fences).map f := by
  fun_induction openings fences with
  | case1 => rfl
  | case2 i => rfl
  | case3 i j rest ih => simp [openings, ih]

theorem mem_of_mem_openings {o : Nat} {fences : List Nat} (h : o ∈ openings fences) : o ∈ fences := by
  fun_induction openings fences with
  | case1 => exact h
  | case2 i => exact h
  | case3 i j rest ih =>
    rcases List.mem_cons.mp h with rfl | h
    · exact List.mem_cons_self ..
    · exact List.mem_cons_of_mem _ (List.mem_cons_of_mem _ (ih h))

theorem exists_fence_after_opening {o : Nat} {fences : List Nat} (hsorted : fences.Pairwise (· < ·))
    (heven : fences.length % 2 = 0) (h : o ∈ openings fences) : ∃ c ∈ fences, o < c := by
  fun_induction openings fences with
  | case1 => cases h
  | case2 i => simp at heven
  | case3 i j rest ih =>
    obtain ⟨hi, hj⟩ := List.pairwise_cons.mp hsorted
    rcases List.mem_cons.mp h with rfl | h
    · exact ⟨j, by simp, hi j (List.mem_cons_self ..)⟩
    · have heven' : rest.length % 2 = 0 := by simp only [List.length_cons] at heven; omega
      obtain ⟨c, hc, hlt⟩ := ih (List.Pairwise.of_cons hj) heven' h
      exact ⟨c, by simp [hc], hlt⟩

/-! ## The block -/

theorem isFence_iff {l : String} : isFence l = true ↔ l = fence := beq_iff_eq

theorem not_isBegin_of_isFence {l : String} (h : isFence l = true) : isBegin l = false := by
  rw [isFence_iff.mp h]
  decide

theorem isClosingFence_of_isFence {l : String} (h : isFence l = true) : isClosingFence l = true := by
  rw [isFence_iff.mp h]
  decide

/-- The block that is found: its begin line, and a fence right before it and one after. -/
theorem find?_eq_some {source : List String} {b : Nat} (h : find? source = .ok (some b)) :
    ∃ o c, b = o + 1 ∧ b < c ∧ source[o]? = some fence ∧ (source[b]?).any isBegin = true ∧
      source[c]? = some fence := by
  unfold find? at h
  simp only at h
  split at h
  · cases h
  · rename_i heven
    have hmem : b ∈ begins source := by
      split at h
      · cases h
      · rename_i i hb
        cases h
        simp [hb]
      · cases h
    obtain ⟨hb, hbegin⟩ := List.mem_filter.mp hmem
    obtain ⟨o, ho, rfl⟩ := List.mem_map.mp hb
    obtain ⟨c, hc, hlt⟩ := exists_fence_after_opening (fencesFrom_sorted 0 source) (by omega) ho
    obtain ⟨k, hk, l, hl, hfence⟩ := mem_fencesFrom.mp (mem_of_mem_openings ho)
    obtain ⟨k', hk', l', hl', hfence'⟩ := mem_fencesFrom.mp hc
    obtain rfl : k = o := by omega
    obtain rfl : k' = c := by omega
    refine ⟨k, k', rfl, ?_, by rw [hl, isFence_iff.mp hfence], hbegin, by rw [hl', isFence_iff.mp hfence']⟩
    -- the begin line is no fence, so the later fence is not the line right after the opening one
    have hne : k' ≠ k + 1 := by
      rintro rfl
      rw [hl', Option.any_some, not_isBegin_of_isFence hfence'] at hbegin
      cases hbegin
    omega

theorem begins_append_front {front : List String} (h : ∀ l ∈ front, isFence l = false) (source : List String) :
    begins (front ++ source) = (begins source).map (· + front.length) := by
  have hfences : fencesFrom 0 (front ++ source) = (fencesFrom 0 source).map (· + front.length) := by
    rw [fencesFrom_append_front h, fencesFrom_add]
  have hline : ∀ i, (front ++ source)[i + front.length]? = source[i]? := by
    intro i
    rw [List.getElem?_append_right (Nat.le_add_left ..), Nat.add_sub_cancel]
  have hcomm : ((· + 1) ∘ (· + front.length) : Nat → Nat) = (· + front.length) ∘ (· + 1) := by
    funext i
    simp only [Function.comp]
    omega
  unfold begins
  rw [hfences, openings_map, List.map_map, hcomm, ← List.map_map, List.filter_map]
  congr 2
  funext i
  simp only [Function.comp, hline]

theorem find?_append_front {front : List String} (h : ∀ l ∈ front, isFence l = false) (source : List String) :
    find? (front ++ source) = (find? source).map (Option.map (· + front.length)) := by
  have hlength : (fencesFrom 0 (front ++ source)).length = (fencesFrom 0 source).length := by
    rw [fencesFrom_append_front h, fencesFrom_add, List.length_map]
  unfold find?
  simp only [hlength, begins_append_front h]
  split
  · rfl
  · cases begins source with
    | nil => rfl
    | cons i rest => cases rest <;> rfl

end Handout.Question
