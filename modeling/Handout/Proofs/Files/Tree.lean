/-
  Handout.Proofs.Files.Tree — what a change of a tree does to what stands at each location.

  A tree is well formed when only directories have entries, every entry has a name, and
  each location is kept once (`WellFormed`). Then nothing stands below what is no directory
  (`node?_below`), and each change keeps it so. A change is known by what it does to
  `node?` (`node?_put`, `node?_eraseAll`, `node?_move`); callers do not look at the table.

  A tree has grown into another when directories were made where nothing was, and
  nothing else happened (`Grown`).
-/

import Mathlib.Data.List.Infix
import Mathlib.Data.List.Nodup
import Handout.Proofs.Path

namespace Handout.FileTree

variable {t t' : FileTree} {loc l l' a b : Location} {n : String} {node : Node}

/-! ## Look-up in tables of locations -/

theorem isWithin_iff : isWithin loc l = true ↔ loc <+: l := List.isPrefixOf_iff_prefix

theorem lookup_filter_key (p : Location → Bool) (es : List (Location × Node)) (l : Location) :
    (es.filter fun e => p e.1).lookup l = if p l then es.lookup l else none := by
  induction es with
  | nil => simp
  | cons e es ih =>
    obtain ⟨k, v⟩ := e
    by_cases hk : l = k
    · subst hk
      cases hp : p l with
      | true => simp [hp]
      | false => simp [hp, ih]
    · have hne : (l == k) = false := beq_eq_false_iff_ne.mpr hk
      cases hp : p k <;> simp [hp, List.lookup_cons, hne, ih]

@[simp] theorem node?_root (t : FileTree) : t.node? [] = some .directory := rfl

theorem node?_of_ne (h : l ≠ []) : t.node? l = t.entries.lookup l := if_neg h

/-- What stands at a place is in the table. -/
theorem mem_entries (hl : l ≠ []) (h : t.node? l = some node) : (l, node) ∈ t.entries := by
  rw [node?_of_ne hl, List.lookup_eq_some_iff] at h
  obtain ⟨before, after, hentries, -⟩ := h
  rw [hentries]
  simp

theorem node?_ne_none_iff (h : l ≠ []) : t.node? l ≠ none ↔ l ∈ t.entries.map Prod.fst := by
  rw [node?_of_ne h, ← Option.isSome_iff_ne_none, List.lookup_isSome_iff, List.mem_map]
  exact exists_congr fun e => and_congr_right fun _ => beq_iff_eq.trans eq_comm

theorem mem_children : n ∈ t.children l ↔ t.node? (l ++ [n]) ≠ none := by
  rw [node?_ne_none_iff (by simp), children, List.mem_filterMap, List.mem_map]
  constructor
  · rintro ⟨e, he, hn⟩
    split at hn
    · rename_i hl
      obtain ⟨front, hfront⟩ := List.getLast?_eq_some_iff.mp hn
      refine ⟨e, he, ?_⟩
      rw [hfront, List.dropLast_concat] at hl
      rw [hfront, hl]
    · cases hn
  · rintro ⟨e, he, hl⟩
    refine ⟨e, he, ?_⟩
    rw [hl, if_pos List.dropLast_concat, List.getLast?_concat]

/-! ## Well-formed trees -/

/-- A name that an entry may have. -/
structure Fits (n : String) : Prop where
  isName : Path.IsName n
  short : n.utf8ByteSize ≤ maxName

instance (n : String) : Decidable (Fits n) :=
  decidable_of_iff (Path.IsName n ∧ n.utf8ByteSize ≤ maxName) ⟨fun h => ⟨h.1, h.2⟩, fun h => ⟨h.1, h.2⟩⟩

structure WellFormed (t : FileTree) : Prop where
  parent : ∀ {l n}, t.node? (l ++ [n]) ≠ none → t.node? l = some .directory
  name : ∀ {l n}, t.node? (l ++ [n]) ≠ none → Fits n
  nodup : (t.entries.map Prod.fst).Nodup

/-- Every entry but one of the root is in a directory and has a name. -/
theorem wellFormed_iff : t.WellFormed ↔ (∀ e ∈ t.entries, e.1 = [] ∨
    (t.node? e.1.dropLast = some .directory ∧ Fits (e.1.getLast?.getD ""))) ∧ (t.entries.map Prod.fst).Nodup := by
  constructor
  · refine fun h => ⟨fun e he => ?_, h.nodup⟩
    rcases List.eq_nil_or_concat' e.1 with hnil | ⟨l, n, hconcat⟩
    · exact Or.inl hnil
    · have hsome : t.node? (l ++ [n]) ≠ none := by
        rw [node?_ne_none_iff (by simp), ← hconcat]
        exact List.mem_map_of_mem he
      rw [hconcat, List.dropLast_concat, List.getLast?_concat]
      exact Or.inr ⟨h.parent hsome, h.name hsome⟩
  · rintro ⟨hentries, hnodup⟩
    have hentry : ∀ {l n}, t.node? (l ++ [n]) ≠ none → t.node? l = some .directory ∧ Fits n := by
      intro l n hsome
      rw [node?_ne_none_iff (by simp), List.mem_map] at hsome
      obtain ⟨e, he, hl⟩ := hsome
      have hat := hentries e he
      rw [hl, List.dropLast_concat, List.getLast?_concat] at hat
      exact hat.resolve_left (by simp)
    exact ⟨fun h => (hentry h).1, fun h => (hentry h).2, hnodup⟩

instance : Decidable t.WellFormed := decidable_of_iff' _ wellFormed_iff

namespace WellFormed

/-- What has something below it is a directory. -/
theorem directory (h : t.WellFormed) {x : Location} (hx : x ≠ []) (hnode : t.node? (l ++ x) ≠ none) :
    t.node? l = some .directory := by
  induction x using List.reverseRecOn with
  | nil => exact absurd rfl hx
  | append_singleton x n ih =>
    rw [← List.append_assoc] at hnode
    have hparent := h.parent hnode
    by_cases hx' : x = []
    · rwa [hx', List.append_nil] at hparent
    · exact ih hx' (by rw [hparent]; simp)

/-- Nothing stands below what is no directory. -/
theorem node?_below (h : t.WellFormed) (hl : t.node? l ≠ some .directory) {x : Location} (hx : x ≠ []) :
    t.node? (l ++ x) = none := by
  by_contra hnode
  exact hl (h.directory hx hnode)

/-- A directory is in a directory; the root is in itself. -/
theorem node?_dropLast (h : t.WellFormed) (hl : t.node? l = some .directory) : t.node? l.dropLast = some .directory := by
  rcases List.eq_nil_or_concat' l with rfl | ⟨front, n, rfl⟩
  · exact hl
  · rw [List.dropLast_concat]
    exact h.parent (by rw [hl]; simp)

/-- All names on the way from one place to another fit. -/
theorem fits_of_mem (h : t.WellFormed) {x : Location} (hnode : t.node? (l ++ x) ≠ none) : ∀ n ∈ x, Fits n := by
  induction x using List.reverseRecOn with
  | nil => simp
  | append_singleton x n ih =>
    rw [← List.append_assoc] at hnode
    have hx := ih (by rw [h.parent hnode]; simp)
    intro m hm
    rcases List.mem_append.mp hm with hm | hm
    · exact hx m hm
    · exact List.mem_singleton.mp hm ▸ h.name hnode

theorem node?_of_prefix (h : t.WellFormed) (hl : t.node? l = none) (hpre : l <+: l') : t.node? l' = none := by
  obtain ⟨x, rfl⟩ := hpre
  by_cases hx : x = []
  · rwa [hx, List.append_nil]
  · exact h.node?_below (by rw [hl]; simp) hx

theorem nodup_children (h : t.WellFormed) (l : Location) : (t.children l).Nodup := by
  have hkeys : (t.children l).map (fun n => l ++ [n]) =
      (t.entries.map Prod.fst).filter fun k => k.dropLast = l ∧ k ≠ [] := by
    rw [children]
    induction t.entries with
    | nil => rfl
    | cons e es ih =>
      rw [List.filterMap_cons, List.map_cons, List.filter_cons]
      rcases List.eq_nil_or_concat e.1 with hnil | ⟨front, n, hconcat⟩
      · simp [hnil, ih]
      · by_cases hl : front = l
        · simp [hconcat, hl, ih]
        · simp [hconcat, hl, ih]
  have hnodup : ((t.children l).map fun n => l ++ [n]).Nodup := hkeys ▸ h.nodup.filter _
  exact List.Pairwise.of_map _ (fun _ _ hne he => hne (by rw [he])) hnodup

end WellFormed

/-! ## Changes -/

theorem node?_put (h : loc ≠ []) (node : Node) (l : Location) :
    (t.put loc node).node? l = if l = loc then some node else t.node? l := by
  by_cases hl : l = []
  · rw [hl, node?_root, node?_root, if_neg (Ne.symm h)]
  · rw [node?_of_ne hl, node?_of_ne hl, put, List.lookup_append,
      lookup_filter_key (fun k => decide (k ≠ loc)), List.lookup_cons, List.lookup_nil]
    by_cases hk : l = loc
    · simp [hk]
    · have hne : (l == loc) = false := beq_eq_false_iff_ne.mpr hk
      simp [hk, hne]

theorem node?_erase (h : loc ≠ []) (l : Location) : (t.erase loc).node? l = if l = loc then none else t.node? l := by
  by_cases hl : l = []
  · rw [hl, node?_root, node?_root, if_neg (Ne.symm h)]
  · rw [node?_of_ne hl, node?_of_ne hl, erase, lookup_filter_key (fun k => decide (k ≠ loc))]
    by_cases hk : l = loc <;> simp [hk]

theorem node?_eraseAll (h : loc ≠ []) (l : Location) :
    (t.eraseAll loc).node? l = if loc <+: l then none else t.node? l := by
  by_cases hl : l = []
  · rw [hl, node?_root, node?_root, if_neg (by simpa using h)]
  · rw [node?_of_ne hl, node?_of_ne hl, eraseAll, lookup_filter_key (fun k => ! isWithin loc k)]
    simp only [Bool.not_eq_true', ← Bool.not_eq_true, isWithin_iff]
    by_cases hk : loc <+: l <;> simp [hk]

theorem node?_eraseUnder (l : Location) :
    (t.eraseUnder loc).node? l = if loc <+: l ∧ l ≠ loc then none else t.node? l := by
  by_cases hl : l = []
  · subst hl
    rw [node?_root, node?_root, if_neg]
    rintro ⟨hpre, hne⟩
    exact hne (List.prefix_nil.mp hpre).symm
  · rw [node?_of_ne hl, node?_of_ne hl, eraseUnder, lookup_filter_key (fun k => ! isWithin loc k || decide (k = loc))]
    simp only [Bool.or_eq_true, Bool.not_eq_true', ← Bool.not_eq_true, isWithin_iff, decide_eq_true_eq]
    by_cases hk : loc <+: l <;> by_cases he : l = loc <;> simp [hk, he]

theorem lookup_map_move {es : List (Location × Node)} (hkeys : ∀ e ∈ es, ¬ b <+: e.1) (l : Location) :
    (es.map fun e => if isWithin a e.1 then (b ++ e.1.drop a.length, e.2) else e).lookup l =
      if b <+: l then es.lookup (a ++ l.drop b.length) else if a <+: l then none else es.lookup l := by
  induction es with
  | nil => simp
  | cons e es ih =>
    have ih := ih fun e' he' => hkeys e' (List.mem_cons_of_mem _ he')
    have hnot : ¬ b <+: e.1 := hkeys e (List.mem_cons_self ..)
    obtain ⟨k, v⟩ := e
    rw [List.map_cons, List.lookup_cons, List.lookup_cons, List.lookup_cons, ih]
    by_cases hk : a <+: k
    · obtain ⟨x, rfl⟩ := hk
      rw [if_pos (isWithin_iff.mpr (List.prefix_append a x)), List.drop_left]
      by_cases hl : l = b ++ x
      · subst hl
        simp
      · have hne : (l == b ++ x) = false := beq_eq_false_iff_ne.mpr hl
        by_cases hbl : b <+: l
        · obtain ⟨y, rfl⟩ := hbl
          have hxy : (a ++ y == a ++ x) = false := by
            rw [beq_eq_false_iff_ne]
            intro he
            exact hl (by rw [List.append_cancel_left he])
          simp [hxy, hne]
        · by_cases hal : a <+: l
          · simp [hne, hbl, hal]
          · have hla : (l == a ++ x) = false := by
              rw [beq_eq_false_iff_ne]
              rintro rfl
              exact hal (List.prefix_append a x)
            simp [hne, hbl, hal, hla]
    · have hkw : ¬ isWithin a k = true := fun h => hk (isWithin_iff.mp h)
      rw [if_neg hkw]
      by_cases hl : l = k
      · subst hl
        simp [hnot, hk]
      · have hne : (l == k) = false := beq_eq_false_iff_ne.mpr hl
        have hna : (a ++ l.drop b.length == k) = false := by
          rw [beq_eq_false_iff_ne]
          rintro rfl
          exact hk (List.prefix_append a _)
        simp [hne, hna]

/-- What is moved is found below the new location, and no longer below the old one. -/
theorem node?_move (ha : a ≠ []) (hb : b ≠ []) (hfree : ∀ x, t.node? (b ++ x) = none) (l : Location) :
    (t.move a b).node? l = if b <+: l then t.node? (a ++ l.drop b.length) else if a <+: l then none else t.node? l := by
  by_cases hl : l = []
  · rw [hl, node?_root, node?_root, if_neg (by simpa using hb), if_neg (by simpa using ha)]
  · have hkeys : ∀ e ∈ t.entries, ¬ b <+: e.1 := by
      rintro e he ⟨x, hx⟩
      exact (node?_ne_none_iff (by simp [hb])).mpr (hx ▸ List.mem_map_of_mem he) (hfree x)
    rw [node?_of_ne hl, node?_of_ne hl, node?_of_ne (by simp [ha]), move, lookup_map_move hkeys]

/-! ## Well-formed trees stay so -/

namespace WellFormed

theorem put (h : t.WellFormed) (hparent : t.node? l = some .directory) (hn : Fits n)
    (hnode : node = .directory ∨ t.node? (l ++ [n]) ≠ some .directory) : (t.put (l ++ [n]) node).WellFormed := by
  have hne : l ++ [n] ≠ [] := by simp
  refine ⟨fun {k m} hk => ?_, fun {k m} hk => ?_, ?_⟩
  · rw [node?_put hne] at hk
    by_cases he : k ++ [m] = l ++ [n]
    · obtain ⟨rfl, -⟩ := List.append_inj' he rfl
      rw [node?_put hne, if_neg (by simp), hparent]
    · rw [if_neg he] at hk
      have hdir := h.parent hk
      rw [node?_put hne]
      split
      · rename_i hkl
        rcases hnode with rfl | hnode
        · rfl
        · exact absurd (hkl ▸ hdir) hnode
      · exact hdir
  · rw [node?_put hne] at hk
    by_cases he : k ++ [m] = l ++ [n]
    · obtain ⟨-, hm⟩ := List.append_inj' he rfl
      obtain rfl : m = n := by simpa using hm
      exact hn
    · rw [if_neg he] at hk
      exact h.name hk
  · rw [FileTree.put, List.map_append, List.map_singleton]
    refine List.Nodup.append (h.nodup.sublist (List.Sublist.map _ List.filter_sublist)) (by simp) ?_
    intro k hk hk'
    obtain ⟨e, he, rfl⟩ := List.mem_map.mp hk
    have hne' := (List.mem_filter.mp he).2
    simp only [decide_eq_true_eq] at hne'
    exact hne' (List.mem_singleton.mp hk')

/-- What is left when some locations go, with all below them. -/
theorem filter (h : t.WellFormed) {p : Location → Bool} (hp : ∀ l x, p (l ++ x) = true → p l = true) :
    (FileTree.mk (t.entries.filter fun e => p e.1)).WellFormed := by
  have hnode : ∀ l, l ≠ [] → (FileTree.mk (t.entries.filter fun e => p e.1)).node? l = if p l then t.node? l else none := by
    intro l hl
    rw [node?_of_ne hl, node?_of_ne hl, lookup_filter_key]
  refine ⟨fun {l n} hl => ?_, fun {l n} hl => ?_, h.nodup.sublist (List.Sublist.map _ List.filter_sublist)⟩
  · rw [hnode _ (by simp)] at hl
    split at hl
    · rename_i hpl
      by_cases hroot : l = []
      · rw [hroot, node?_root]
      · rw [hnode l hroot, if_pos (hp _ _ hpl), h.parent hl]
    · exact absurd rfl hl
  · rw [hnode _ (by simp)] at hl
    split at hl
    · exact h.name hl
    · exact absurd rfl hl

theorem eraseAll (h : t.WellFormed) (loc : Location) : (t.eraseAll loc).WellFormed := by
  refine h.filter (p := fun k => ! isWithin loc k) fun l x hl => ?_
  simp only [Bool.not_eq_true', ← Bool.not_eq_true, isWithin_iff] at hl ⊢
  exact fun hpre => hl (hpre.trans (List.prefix_append l x))

theorem eraseUnder (h : t.WellFormed) (loc : Location) : (t.eraseUnder loc).WellFormed := by
  refine h.filter (p := fun k => ! isWithin loc k || decide (k = loc)) fun l x hl => ?_
  simp only [Bool.or_eq_true, Bool.not_eq_true', ← Bool.not_eq_true, isWithin_iff, decide_eq_true_eq] at hl ⊢
  by_cases hpre : loc <+: l
  · right
    rcases hl with hl | hl
    · exact absurd (hpre.trans (List.prefix_append l x)) hl
    · exact (hpre.eq_of_length_le (hl ▸ (List.prefix_append l x).length_le)).symm
  · exact Or.inl hpre

/-- A location with nothing below it. -/
theorem erase_eq_eraseAll (hbelow : ∀ x, x ≠ [] → t.node? (loc ++ x) = none) (hloc : loc ≠ []) :
    t.erase loc = t.eraseAll loc := by
  rw [FileTree.erase, FileTree.eraseAll]
  congr 1
  refine List.filter_congr fun e he => ?_
  rw [Bool.eq_iff_iff, decide_eq_true_eq, Bool.not_eq_true', ← Bool.not_eq_true, isWithin_iff]
  constructor
  · rintro hne ⟨x, hx⟩
    have hx' : x ≠ [] := by
      rintro rfl
      exact hne (by rw [← hx, List.append_nil])
    exact (node?_ne_none_iff (by simp [hloc])).mpr (hx ▸ List.mem_map_of_mem he) (hbelow x hx')
  · rintro hne rfl
    exact hne (List.prefix_refl _)

/-- What is there after a move is at the new location, was moved with what was at the old one, or was there before. -/
theorem node?_move_cases (ha : a ≠ []) (hfree : ∀ x, t.node? (l ++ [n] ++ x) = none) {k : Location} {j : String}
    (hk : (t.move a (l ++ [n])).node? (k ++ [j]) ≠ none) :
    (k = l ∧ j = n) ∨ (∃ y, k = l ++ [n] ++ y ∧ t.node? (a ++ y ++ [j]) ≠ none) ∨
      (¬ l ++ [n] <+: k ++ [j] ∧ ¬ a <+: k ++ [j] ∧ t.node? (k ++ [j]) ≠ none) := by
  rw [node?_move ha (by simp) hfree] at hk
  split at hk
  · rename_i hb
    rcases List.prefix_concat_iff.mp hb with heq | ⟨y, rfl⟩
    · obtain ⟨rfl, hj⟩ := List.append_inj' heq rfl
      exact Or.inl ⟨rfl, (List.singleton_inj.mp hj).symm⟩
    · rw [List.append_assoc (l ++ [n]), List.drop_left, ← List.append_assoc] at hk
      exact Or.inr (Or.inl ⟨y, rfl, hk⟩)
  · rename_i hb
    split at hk
    · exact absurd rfl hk
    · rename_i hold
      exact Or.inr (Or.inr ⟨hb, hold, hk⟩)

theorem nodup_move (h : (t.entries.map Prod.fst).Nodup) (hkeys : ∀ k ∈ t.entries.map Prod.fst, ¬ b <+: k) :
    ((t.move a b).entries.map Prod.fst).Nodup := by
  have hmap : ((t.entries.map fun e => if isWithin a e.1 then (b ++ e.1.drop a.length, e.2) else e).map Prod.fst) =
      (t.entries.map Prod.fst).map fun k => if isWithin a k then b ++ k.drop a.length else k := by
    rw [List.map_map, List.map_map]
    refine List.map_congr_left fun e _ => ?_
    simp only [Function.comp]
    split <;> rfl
  rw [FileTree.move, hmap]
  refine h.map_on fun k hk k' hk' heq => ?_
  simp only [isWithin_iff] at heq
  split at heq <;> split at heq
  · rename_i hak hak'
    obtain ⟨x, rfl⟩ := hak
    obtain ⟨x', rfl⟩ := hak'
    rw [List.drop_left, List.drop_left] at heq
    rw [List.append_cancel_left heq]
  · exact absurd (heq ▸ List.prefix_append _ _) (hkeys k' hk')
  · exact absurd (heq ▸ List.prefix_append _ _) (hkeys k hk)
  · exact heq

theorem move (h : t.WellFormed) (ha : a ≠ []) (hn : Fits n) (hparent : t.node? l = some .directory)
    (hapart : ¬ a <+: l) (hfree : ∀ x, t.node? (l ++ [n] ++ x) = none) : (t.move a (l ++ [n])).WellFormed := by
  have hnode := node?_move ha (by simp) hfree
  have hself : ¬ l ++ [n] <+: l := by
    intro hpre
    have hlen := hpre.length_le
    rw [List.length_append, List.length_singleton] at hlen
    omega
  refine ⟨fun {k j} hk => ?_, fun {k j} hk => ?_, nodup_move h.nodup ?_⟩
  · rcases node?_move_cases ha hfree hk with ⟨rfl, rfl⟩ | ⟨y, rfl, hy⟩ | ⟨hb, hold, hk⟩
    · rw [hnode, if_neg hself, if_neg hapart, hparent]
    · rw [hnode, if_pos (List.prefix_append _ _), List.drop_left, h.parent hy]
    · have habove : ∀ x, ¬ x <+: k ++ [j] → ¬ x <+: k := fun x hx hpre => hx (hpre.trans (List.prefix_append k [j]))
      rw [hnode, if_neg (habove _ hb), if_neg (habove _ hold), h.parent hk]
  · rcases node?_move_cases ha hfree hk with ⟨-, rfl⟩ | ⟨y, -, hy⟩ | ⟨-, -, hk⟩
    · exact hn
    · exact h.name hy
    · exact h.name hk
  · rintro k hk ⟨x, hx⟩
    exact (node?_ne_none_iff (by simp)).mpr (hx ▸ hk) (hfree x)

end WellFormed

/-! ## Growth -/

/-- Some directories were made where nothing was, and nothing else has changed. -/
def Grown (t t' : FileTree) : Prop :=
  ∀ l, t'.node? l = t.node? l ∨ (t.node? l = none ∧ t'.node? l = some .directory)

theorem Grown.refl (t : FileTree) : Grown t t := fun _ => Or.inl rfl

theorem Grown.trans {t'' : FileTree} (h : Grown t t') (h' : Grown t' t'') : Grown t t'' := by
  intro l
  rcases h l with hl | ⟨hnone, hdir⟩
  · rw [← hl]
    exact h' l
  · rcases h' l with hl' | ⟨hnone', -⟩
    · exact Or.inr ⟨hnone, hl'.trans hdir⟩
    · rw [hdir] at hnone'
      cases hnone'

/-- What is there stays. -/
theorem Grown.node?_eq (h : Grown t t') (hl : t.node? l = some node) : t'.node? l = some node := by
  rcases h l with hl' | ⟨hnone, -⟩
  · rw [hl', hl]
  · rw [hl] at hnone
    cases hnone

theorem grown_put_directory (hne : loc ≠ []) (hfree : t.node? loc = none) : Grown t (t.put loc .directory) := by
  intro l
  rw [node?_put hne]
  split
  · rename_i hl
    exact Or.inr ⟨hl ▸ hfree, rfl⟩
  · exact Or.inl rfl

end Handout.FileTree
