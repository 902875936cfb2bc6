/-
  Handout.Proofs.Table — key-sorted tables keep their order.

  `insert`, `erase` and `filter` keep keys increasing strictly, so a key occurs once
  and what is found under it is the entry that is there. A table that is read from
  its own entries is itself (`ofEntries_eq_self`). Two tables that agree entry by
  entry still do after an insertion under one key (`forall₂_insert`).
-/

import Mathlib.Algebra.Ring.Nat
import Mathlib.Data.List.Forall2
import Handout.Table

namespace Handout.Table

variable {α β : Type}

/-! ## Order -/

theorem sorted_nil : Sorted ([] : List (String × α)) := List.Pairwise.nil

theorem Sorted.tail {e : String × α} {t : List (String × α)} (h : Sorted (e :: t)) : Sorted t :=
  List.Pairwise.of_cons h

theorem Sorted.head_lt {e : String × α} {t : List (String × α)} (h : Sorted (e :: t)) :
    ∀ x ∈ t, e.1 < x.1 := (List.pairwise_cons.mp h).1

theorem Sorted.filter {t : List (String × α)} (h : Sorted t) (p : String × α → Bool) : Sorted (t.filter p) :=
  List.Pairwise.filter p h

theorem sorted_iff_keys {t : List (String × α)} : Sorted t ↔ (keys t).Pairwise (· < ·) := List.pairwise_map.symm

theorem lt_of_not_lt_of_ne {a b : String} (h : ¬ a < b) (hne : a ≠ b) : b < a :=
  Decidable.byContradiction fun hba => hne (String.le_antisymm (String.not_lt.mp hba) (String.not_lt.mp h))

theorem mem_of_mem_insert {k : String} {v : α} {x : String × α} {t : List (String × α)}
    (h : x ∈ insert k v t) : x = (k, v) ∨ x ∈ t := by
  induction t with
  | nil => simpa [insert] using h
  | cons e rest ih =>
    obtain ⟨k', v'⟩ := e
    unfold insert at h
    split at h
    · simpa using h
    · split at h
      · rcases List.mem_cons.mp h with h | h
        · exact Or.inl h
        · exact Or.inr (List.mem_cons_of_mem _ h)
      · rcases List.mem_cons.mp h with rfl | h
        · exact Or.inr (List.mem_cons_self ..)
        · exact (ih h).imp_right (List.mem_cons_of_mem _)

theorem sorted_insert (k : String) (v : α) {t : List (String × α)} (h : Sorted t) : Sorted (insert k v t) := by
  induction t with
  | nil => exact List.pairwise_singleton _ _
  | cons e rest ih =>
    obtain ⟨k', v'⟩ := e
    have hlt := h.head_lt
    unfold insert
    split
    · rename_i hk
      refine List.pairwise_cons.mpr ⟨fun x hx => ?_, h⟩
      rcases List.mem_cons.mp hx with rfl | hx
      · exact hk
      · exact String.lt_trans hk (hlt x hx)
    · split
      · rename_i he
        subst he
        exact List.pairwise_cons.mpr ⟨hlt, h.tail⟩
      · rename_i hk hne
        refine List.pairwise_cons.mpr ⟨fun x hx => ?_, ih h.tail⟩
        rcases mem_of_mem_insert hx with rfl | hx
        · exact lt_of_not_lt_of_ne hk hne
        · exact hlt x hx

/-! ## Look-up -/

theorem find?_eq_none_of_lt {k : String} {t : List (String × α)} (h : ∀ x ∈ t, k < x.1) : find? k t = none := by
  induction t with
  | nil => rfl
  | cons e rest ih =>
    have hne : k ≠ e.1 := by
      intro he
      exact String.lt_irrefl k (he ▸ h e (List.mem_cons_self ..))
    simp [find?, hne, ih fun x hx => h x (List.mem_cons_of_mem _ hx)]

theorem find?_eq_some_iff {k : String} {v : α} {t : List (String × α)} (h : Sorted t) :
    find? k t = some v ↔ (k, v) ∈ t := by
  induction t with
  | nil => simp [find?]
  | cons e rest ih =>
    obtain ⟨k', v'⟩ := e
    by_cases hk : k = k'
    · subst hk
      have hrest : (k, v) ∉ rest := fun hm => String.lt_irrefl k (h.head_lt _ hm)
      simp [find?, hrest, eq_comm]
    · simp [find?, hk, ih h.tail]

theorem find?_isSome_iff {k : String} {t : List (String × α)} : (find? k t).isSome ↔ k ∈ keys t := by
  induction t with
  | nil => simp [find?, keys]
  | cons e rest ih =>
    by_cases hk : k = e.1
    · simp [find?, keys, hk]
    · simpa [find?, keys, hk] using ih

/-- Of a table, what is found under a key in a part of it. -/
theorem find?_filter (p : String × α → Bool) {t : List (String × α)} (h : Sorted t) (k : String) :
    find? k (t.filter p) = (find? k t).filter fun v => p (k, v) := by
  ext v
  rw [find?_eq_some_iff (h.filter p), Option.filter_eq_some_iff, find?_eq_some_iff h, List.mem_filter]

theorem find?_erase_self {k : String} {t : List (String × α)} (h : Sorted t) : find? k (erase k t) = none := by
  rw [erase, find?_filter _ h]
  simp

theorem find?_erase_ne {k k' : String} {t : List (String × α)} (h : Sorted t) (hne : k' ≠ k) :
    find? k' (erase k t) = find? k' t := by
  rw [erase, find?_filter _ h]
  cases find? k' t <;> simp [hne]

theorem mem_keys_insert {k k' : String} {v : α} {t : List (String × α)} :
    k' ∈ keys (insert k v t) ↔ k' = k ∨ k' ∈ keys t := by
  rw [← find?_isSome_iff, ← find?_isSome_iff]
  by_cases h : k' = k
  · subst h
    simp [find?_insert_self]
  · simp [find?_insert_ne h, h]

/-- The keys of a table are those of its entries. -/
theorem mem_keys_ofEntries {k : String} {es : List (String × α)} : k ∈ keys (ofEntries es) ↔ k ∈ keys es := by
  have hfold : ∀ (es t : List (String × α)),
      k ∈ keys (es.foldl (fun t e => insert e.1 e.2 t) t) ↔ k ∈ keys es ∨ k ∈ keys t := by
    intro es
    induction es with
    | nil => simp [keys]
    | cons e es ih =>
      intro t
      rw [List.foldl_cons, ih, mem_keys_insert]
      simp only [keys, List.map_cons, List.mem_cons]
      tauto
  rw [ofEntries, hfold]
  simp [keys]

theorem nodup_keys {t : List (String × α)} (h : Sorted t) : (keys t).Nodup := by
  refine List.pairwise_map.mpr (List.Pairwise.imp (fun {a b} hab he => ?_) h)
  rw [he] at hab
  exact String.lt_irrefl b.1 hab

theorem keys_filter_subset {p : String × α → Bool} {t : List (String × α)} :
    ∀ k ∈ keys (t.filter p), k ∈ keys t := fun _ hk =>
  (List.Sublist.map Prod.fst List.filter_sublist).subset hk

/-- A key decides its entry: dropping the keys of some entries drops just these. -/
theorem filter_key_notMem {t : List (String × α)} (h : Sorted t) (p : String × α → Bool) :
    (t.filter fun e => e.1 ∉ keys (t.filter p)) = t.filter fun e => ! p e := by
  refine List.filter_congr fun e he => ?_
  have hiff : e.1 ∈ keys (t.filter p) ↔ p e = true := by
    constructor
    · intro hm
      obtain ⟨x, hx, hxe⟩ := List.mem_map.mp hm
      obtain ⟨hxt, hxp⟩ := List.mem_filter.mp hx
      have hfound : find? e.1 t = some e.2 := (find?_eq_some_iff h).mpr he
      rw [← hxe, (find?_eq_some_iff h).mpr hxt, Option.some.injEq] at hfound
      exact Prod.ext hxe hfound ▸ hxp
    · exact fun hp => List.mem_map.mpr ⟨e, List.mem_filter.mpr ⟨he, hp⟩, rfl⟩
  simp [hiff]

/-! ## Reading entries -/

/-- An entry above all others goes to the end. -/
theorem insert_append_of_lt {k : String} {v : α} {t : List (String × α)} (h : ∀ x ∈ t, x.1 < k) :
    insert k v t = t ++ [(k, v)] := by
  induction t with
  | nil => rfl
  | cons e rest ih =>
    obtain ⟨k', v'⟩ := e
    have hlt : k' < k := h (k', v') (List.mem_cons_self ..)
    have hne : k ≠ k' := by
      rintro rfl
      exact String.lt_irrefl k hlt
    unfold insert
    rw [if_neg (String.lt_asymm hlt), if_neg hne, ih fun x hx => h x (List.mem_cons_of_mem _ hx)]
    rfl

theorem foldl_insert_of_sorted {t es : List (String × α)} (h : Sorted (t ++ es)) :
    es.foldl (fun t e => insert e.1 e.2 t) t = t ++ es := by
  induction es generalizing t with
  | nil => simp
  | cons e rest ih =>
    have hlt : ∀ x ∈ t, x.1 < e.1 := fun x hx => (List.pairwise_append.mp h).2.2 x hx e (List.mem_cons_self ..)
    rw [List.foldl_cons, insert_append_of_lt hlt, ih (by simpa using h)]
    simp

theorem ofEntries_eq_self {t : List (String × α)} (h : Sorted t) : ofEntries t = t :=
  foldl_insert_of_sorted (t := []) h

theorem sorted_ofEntries (es : List (String × α)) : Sorted (ofEntries es) := by
  have hfold : ∀ (es t : List (String × α)), Sorted t → Sorted (es.foldl (fun t e => insert e.1 e.2 t) t) := by
    intro es
    induction es with
    | nil => exact fun _ h => h
    | cons e es ih => exact fun t h => ih _ (sorted_insert e.1 e.2 h)
  exact hfold es [] sorted_nil

theorem mem_of_mem_ofEntries {e : String × α} {es : List (String × α)} (h : e ∈ ofEntries es) : e ∈ es := by
  have hfold : ∀ (es t : List (String × α)), e ∈ es.foldl (fun t e => insert e.1 e.2 t) t → e ∈ t ∨ e ∈ es := by
    intro es
    induction es with
    | nil => exact fun _ h => .inl h
    | cons e' es ih =>
      intro t h
      rcases ih _ h with h | h
      · exact (mem_of_mem_insert h).elim (fun h => .inr (h ▸ List.mem_cons_self ..)) .inl
      · exact .inr (List.mem_cons_of_mem _ h)
  exact (hfold es [] h).resolve_left List.not_mem_nil

/-- Under a key is the last value that was given for it. -/
theorem find?_ofEntries (k : String) (es : List (String × α)) :
    find? k (ofEntries es) = (es.reverse.find? fun e => e.1 = k).map Prod.snd := by
  have hfold : ∀ (es t : List (String × α)), find? k (es.foldl (fun t e => insert e.1 e.2 t) t) =
      ((es.reverse.find? fun e => e.1 = k).map Prod.snd).or (find? k t) := by
    intro es
    induction es with
    | nil => exact fun t => rfl
    | cons e es ih =>
      intro t
      rw [List.foldl_cons, ih, List.reverse_cons, List.find?_append, Option.map_or, Option.or_assoc]
      congr 1
      by_cases h : e.1 = k
      · rw [← h, find?_insert_self, List.find?_cons_of_pos (by simp)]
        rfl
      · rw [find?_insert_ne (Ne.symm h), List.find?_cons_of_neg (by simpa using h)]
        rfl
  rw [ofEntries, hfold]
  exact Option.or_none

/-- Two tables that hold the same under every key are the same. -/
theorem Sorted.ext {t t' : List (String × α)} (h : Sorted t) (h' : Sorted t') (hfind : ∀ k, find? k t = find? k t') :
    t = t' := by
  have hnodup : ∀ {t : List (String × α)}, Sorted t → t.Nodup := fun h =>
    (List.pairwise_map.mp (nodup_keys h)).imp fun hne he => hne (congrArg Prod.fst he)
  have hmem : ∀ e, e ∈ t ↔ e ∈ t' := by
    rintro ⟨k, v⟩
    rw [← find?_eq_some_iff h, ← find?_eq_some_iff h', hfind]
  have hperm := (List.perm_ext_iff_of_nodup (hnodup h) (hnodup h')).mpr hmem
  exact hperm.eq_of_pairwise (fun a b _ _ hab hba => absurd hba (String.lt_asymm hab)) h h'

/-! ## Adding up -/

/-- The sum of a measure of the values. -/
def total (w : α → Nat) (t : List (String × α)) : Nat := (t.map fun e => w e.2).sum

/-- An insertion adds its value and takes away the one it replaces. -/
theorem total_insert (w : α → Nat) (k : String) (v : α) {t : List (String × α)} (h : Sorted t) :
    total w (insert k v t) + ((find? k t).map w).getD 0 = total w t + w v := by
  induction t with
  | nil => simp [insert, find?, total]
  | cons e rest ih =>
    obtain ⟨k', v'⟩ := e
    have ih := ih h.tail
    by_cases hk : k = k'
    · subst hk
      simp only [insert, find?, total, String.lt_irrefl, if_true, if_false, List.map_cons, List.sum_cons,
        Option.map_some, Option.getD_some]
      omega
    · by_cases hlt : k < k'
      · have hnone : find? k rest = none := find?_eq_none_of_lt fun x hx => String.lt_trans hlt (h.head_lt x hx)
        simp only [insert, find?, total, hlt, hk, hnone, if_true, if_false, List.map_cons, List.sum_cons,
          Option.map_none, Option.getD_none]
        omega
      · simp only [insert, find?, total, hlt, hk, if_false, List.map_cons, List.sum_cons] at ih ⊢
        omega

/-! ## Two tables side by side -/

/-- Entries under the same key whose values are related. -/
def Related (R : α → β → Prop) (e : String × α) (e' : String × β) : Prop := e.1 = e'.1 ∧ R e.2 e'.2

theorem forall₂_insert {R : α → β → Prop} {t : List (String × α)} {t' : List (String × β)} {v : α} {v' : β}
    (h : List.Forall₂ (Related R) t t') (k : String) (hv : R v v') :
    List.Forall₂ (Related R) (insert k v t) (insert k v' t') := by
  induction h with
  | nil => exact .cons ⟨rfl, hv⟩ .nil
  | @cons e e' rest rest' he hrest ih =>
    obtain ⟨k₁, v₁⟩ := e
    obtain ⟨k₂, v₂⟩ := e'
    obtain ⟨hk, hR⟩ := he
    subst hk
    unfold insert
    split
    · exact .cons ⟨rfl, hv⟩ (.cons ⟨rfl, hR⟩ hrest)
    · split
      · exact .cons ⟨rfl, hv⟩ hrest
      · exact .cons ⟨rfl, hR⟩ ih

/-- Tables that agree entry by entry agree on the keys of those entries whose values are of a kind. -/
theorem keys_filter_of_related {R : α → β → Prop} {t : List (String × α)} {t' : List (String × β)} {p : α → Bool}
    {q : β → Bool} (h : List.Forall₂ (Related R) t t') (hkind : ∀ v v', R v v' → p v = q v') :
    keys (t.filter fun e => p e.2) = keys (t'.filter fun e => q e.2) := by
  induction h with
  | nil => rfl
  | @cons e e' t t' he _ ih =>
    rw [List.filter_cons, List.filter_cons, hkind _ _ he.2]
    split
    · exact congrArg₂ List.cons he.1 ih
    · exact ih

end Handout.Table
